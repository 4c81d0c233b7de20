import Mathlib.Logic.Function.Basic
import ProcessAsThread.Library.AddressSpace
import ProcessAsThread.Library.Run

/-! The memory of processes that were forked from one: what is mapped shared they have
in common, and of the rest each has its own copy, made when it was forked. -/

namespace ProcessAsThread.Library

/-- Where a byte is kept: for all processes, or for one. -/
inductive Frame where
  | common (place : Nat)
  | own (process place : Nat)
  deriving DecidableEq, Repr

/-- For each process the frame and the mapping of every place, and the bytes in the frames. -/
structure ForkedMemory where
  tables : List (Nat → Option (Frame × Mapping))
  bytes : Frame → UInt8

namespace ForkedMemory

inductive Event where
  | fork (parent : Nat)
  | store (process place : Nat) (value : UInt8)
  deriving DecidableEq, Repr

/-- The frame of a place in a process. -/
def frameOf (process place : Nat) (mapping : Mapping) : Frame :=
  if mapping.shared then .common place else .own process place

/-- The only process so far. -/
def boot (space : AddressSpace) : ForkedMemory where
  tables := [fun place => (space place).map fun cell => (frameOf 0 place cell.mapping, cell.mapping)]
  bytes
    | .common place => space.value place
    | .own _ place => space.value place

/-- A new process has the parent's frames where they are shared, and elsewhere new ones. -/
def fork (memory : ForkedMemory) (parent : Nat) : Option ForkedMemory := do
  let table ← memory.tables[parent]?
  let child := memory.tables.length
  return {
    tables := memory.tables ++ [fun place => (table place).map fun (frame, mapping) =>
      (if mapping.shared then frame else .own child place, mapping)]
    bytes
      | .common place => memory.bytes (.common place)
      | .own process place =>
        if process = child then ((table place).map fun slot => memory.bytes slot.1).getD 0
        else memory.bytes (.own process place) }

/-- `none` is a fault. -/
def store (memory : ForkedMemory) (process place : Nat) (value : UInt8) : Option ForkedMemory := do
  let table ← memory.tables[process]?
  let (frame, mapping) ← table place
  if mapping.write then some { memory with bytes := Function.update memory.bytes frame value } else none

def load (memory : ForkedMemory) (process place : Nat) : Option UInt8 := do
  let table ← memory.tables[process]?
  let (frame, mapping) ← table place
  if mapping.read then some (memory.bytes frame) else none

def step (memory : ForkedMemory) : Event → Option ForkedMemory
  | .fork parent => memory.fork parent
  | .store process place value => memory.store process place value

/-- The value any process stored last at a place. -/
def stored (place : Nat) : List (ForkedMemory × Event) → Option UInt8
  | [] => none
  | (_, .fork _) :: earlier => stored place earlier
  | (_, .store _ target value) :: earlier => if target = place then some value else stored place earlier

/-- The value a process stored last at a place, or those it comes from before they
forked. -/
def inherited (process place : Nat) : List (ForkedMemory × Event) → Option UInt8
  | [] => none
  | (memory, .fork parent) :: earlier =>
    inherited (if process = memory.tables.length then parent else process) place earlier
  | (_, .store writer target value) :: earlier =>
    if writer = process ∧ target = place then some value else inherited process place earlier

/-- Every process has the mappings of the first one, in frames of its own or shared ones. -/
def Mapped (space : AddressSpace) (memory : ForkedMemory) : Prop :=
  ∀ process table, memory.tables[process]? = some table → ∀ place,
    table place = (space place).map fun cell => (frameOf process place cell.mapping, cell.mapping)

variable {space : AddressSpace} {memory after : ForkedMemory}

theorem mapped_boot (space : AddressSpace) : Mapped space (boot space) := by
  intro process table found place
  cases process with
  | zero =>
    cases found
    rfl
  | succ process => cases found

theorem fork_eq_some {parent : Nat} : memory.fork parent = some after ↔
    ∃ table, memory.tables[parent]? = some table ∧
      after.tables = memory.tables ++ [fun place => (table place).map fun (frame, mapping) =>
        (if mapping.shared then frame else .own memory.tables.length place, mapping)] ∧
      (∀ place, after.bytes (.common place) = memory.bytes (.common place)) ∧
      ∀ process place, after.bytes (.own process place) =
        if process = memory.tables.length then ((table place).map fun slot => memory.bytes slot.1).getD 0
        else memory.bytes (.own process place) := by
  unfold fork
  cases memory.tables[parent]? with
  | none => simp
  | some table =>
    constructor
    · intro forked
      cases Option.some.inj forked
      exact ⟨table, rfl, rfl, fun _ => rfl, fun _ _ => rfl⟩
    · rintro ⟨_, same, tables, common, own⟩
      cases same
      refine congrArg some ?_
      obtain ⟨tables', bytes'⟩ := after
      cases tables
      congr 1
      funext frame
      cases frame with
      | common place => exact (common place).symm
      | own process place => exact (own process place).symm

theorem store_eq_some {process place : Nat} {value : UInt8} :
    memory.store process place value = some after ↔
      ∃ table frame mapping, memory.tables[process]? = some table ∧ table place = some (frame, mapping) ∧
        mapping.write = true ∧ after = { memory with bytes := Function.update memory.bytes frame value } := by
  unfold store
  cases memory.tables[process]? with
  | none => simp
  | some table =>
    cases slot : table place with
    | none => simp [slot]
    | some pair =>
      obtain ⟨frame, mapping⟩ := pair
      constructor
      · intro taken
        simp only [Option.bind_eq_bind, Option.bind_some, slot] at taken
        split at taken
        · cases Option.some.inj taken
          exact ⟨table, frame, mapping, rfl, slot, ‹_›, rfl⟩
        · cases taken
      · rintro ⟨_, _, _, same, here, writes, rfl⟩
        cases same
        cases slot.symm.trans here
        simp [slot, writes]

theorem Mapped.step {event : Event} (mapped : Mapped space memory) (taken : memory.step event = some after) :
    Mapped space after := by
  cases event with
  | store process place value =>
    obtain ⟨_, _, _, _, _, _, rfl⟩ := store_eq_some.mp taken
    exact mapped
  | fork parent =>
    obtain ⟨table, found, tables, _, _⟩ := fork_eq_some.mp taken
    intro process table' present place
    rw [tables] at present
    rcases Nat.lt_or_ge process memory.tables.length with old | new
    · rw [List.getElem?_append_left old] at present
      exact mapped process table' present place
    · rw [List.getElem?_append_right new, List.getElem?_singleton] at present
      split at present
      · cases present
        have same : process = memory.tables.length := by omega
        simp only [mapped parent table found place, same]
        cases space place with
        | none => rfl
        | some cell => cases shared : cell.mapping.shared <;> simp [frameOf, shared]
      · cases present

theorem mapped_of_run (run : Run step (boot space) history memory) : Mapped space memory :=
  Reachable.invariant (mapped_boot space) (fun mapped taken => mapped.step taken) ⟨_, run⟩

theorem Mapped.load (mapped : Mapped space memory) (present : space place = some cell)
    (member : process < memory.tables.length) :
    memory.load process place =
      if cell.mapping.read then some (memory.bytes (frameOf process place cell.mapping)) else none := by
  have slot := mapped process _ (List.getElem?_eq_getElem member) place
  rw [present] at slot
  simp [ForkedMemory.load, List.getElem?_eq_getElem member, slot]

theorem Mapped.stores {value : UInt8} (mapped : Mapped space memory)
    (taken : memory.step (.store process place value) = some after) :
    process < memory.tables.length ∧ ∃ cell, space place = some cell ∧
      after = { memory with
        bytes := Function.update memory.bytes (frameOf process place cell.mapping) value } := by
  obtain ⟨table, frame, mapping, found, slot, _, rfl⟩ := store_eq_some.mp taken
  rw [mapped process table found place] at slot
  cases present : space place with
  | none =>
    rw [present] at slot
    cases slot
  | some cell =>
    rw [present] at slot
    cases slot
    exact ⟨(List.getElem?_eq_some_iff.mp found).1, cell, rfl, rfl⟩

/-- At a place that is mapped shared every process reads what any of them stored last. -/
theorem load_shared (run : Run step (boot space) history memory) (present : space place = some cell)
    (shared : cell.mapping.shared = true) (member : process < memory.tables.length) :
    memory.load process place =
      if cell.mapping.read then some ((stored place history).getD cell.value) else none := by
  have held : memory.bytes (.common place) = (stored place history).getD cell.value := by
    clear member
    induction run with
    | start => simp [boot, stored, AddressSpace.value, present]
    | @next history memory event after earlier taken ih =>
      cases event with
      | fork parent =>
        obtain ⟨_, _, _, common, _⟩ := fork_eq_some.mp taken
        rw [common, ih, stored]
      | store writer target value =>
        obtain ⟨_, other, here, rfl⟩ := (mapped_of_run earlier).stores taken
        by_cases same : target = place
        · subst same
          cases here.symm.trans present
          simp [frameOf, shared, stored]
        · have apart : Frame.common place ≠ frameOf writer target other.mapping := by
            unfold frameOf
            split <;> simp [Ne.symm same]
          simp only [stored, if_neg same, Function.update_of_ne apart, ih]
  rw [(mapped_of_run run).load present member, frameOf, if_pos shared, held]

/-- Elsewhere it reads what it stored itself, or inherited when it was forked. -/
theorem load_own (run : Run step (boot space) history memory) (present : space place = some cell)
    (unshared : cell.mapping.shared = false) (member : process < memory.tables.length) :
    memory.load process place =
      if cell.mapping.read then some ((inherited process place history).getD cell.value) else none := by
  have held : memory.bytes (.own process place) = (inherited process place history).getD cell.value := by
    induction run generalizing process with
    | start => simp [boot, inherited, AddressSpace.value, present]
    | @next history memory event after earlier taken ih =>
      have mapped := mapped_of_run earlier
      cases event with
      | fork parent =>
        obtain ⟨table, found, tables, _, own⟩ := fork_eq_some.mp taken
        have parented := (List.getElem?_eq_some_iff.mp found).1
        rw [own, inherited]
        split
        · rw [mapped parent table found place, present, ← ih parented]
          simp [frameOf, unshared]
        · refine ih ?_
          rw [tables, List.length_append, List.length_singleton] at member
          omega
      | store writer target value =>
        obtain ⟨_, other, here, rfl⟩ := mapped.stores taken
        by_cases same : writer = process ∧ target = place
        · obtain ⟨rfl, rfl⟩ := same
          cases here.symm.trans present
          simp [frameOf, unshared, inherited]
        · have apart : Frame.own process place ≠ frameOf writer target other.mapping := by
            unfold frameOf
            split
            · simp
            · intro equal
              cases equal
              exact same ⟨rfl, rfl⟩
          simp only [inherited, if_neg same, Function.update_of_ne apart]
          exact ih member
  rw [(mapped_of_run run).load present member, frameOf, unshared, if_neg Bool.false_ne_true, held]

end ForkedMemory

end ProcessAsThread.Library
