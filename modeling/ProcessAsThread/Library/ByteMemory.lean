import Mathlib.Logic.Function.Basic
import Mathlib.Algebra.Ring.Nat

/-! A byte-addressed memory with little-endian words, an assignment of owners to
its bytes, and null-terminated lists threaded through its words. A store among
the bytes of one owner leaves what the others have stored alone. -/

namespace ProcessAsThread.Library

universe u

abbrev Memory := Nat → UInt8

namespace Memory

/-- The word of `width` bytes at an address. -/
def load (memory : Memory) (address : Nat) : Nat → Nat
  | 0 => 0
  | width + 1 => (memory address).toNat + 256 * load memory (address + 1) width

def store (memory : Memory) (address value width : Nat) : Memory := fun place =>
  if address ≤ place ∧ place < address + width then UInt8.ofNat (value / 256 ^ (place - address))
  else memory place

/-- `memset`. -/
def fill (memory : Memory) (address : Nat) (value : UInt8) (length : Nat) : Memory := fun place =>
  if address ≤ place ∧ place < address + length then value else memory place

/-- `memcpy`. -/
def copy (memory : Memory) (dest src length : Nat) : Memory := fun place =>
  if dest ≤ place ∧ place < dest + length then memory (src + (place - dest)) else memory place

theorem load_congr {memory memory' : Memory} {address width : Nat}
    (same : ∀ place, address ≤ place → place < address + width → memory' place = memory place) :
    memory'.load address width = memory.load address width := by
  induction width generalizing address with
  | zero => rfl
  | succ width ih =>
    have rest : memory'.load (address + 1) width = memory.load (address + 1) width :=
      ih fun place low high => same place (by omega) (by omega)
    simp only [load, rest, same address (Nat.le_refl _) (by omega)]

/-- Bytes that spell a value load as that value. -/
theorem load_of_bytes {memory : Memory} {address value width : Nat}
    (bytes : ∀ index < width, memory (address + index) = UInt8.ofNat (value / 256 ^ index)) :
    memory.load address width = value % 256 ^ width := by
  induction width generalizing address value with
  | zero => simp [load, Nat.mod_one]
  | succ width ih =>
    have rest : memory.load (address + 1) width = value / 256 % 256 ^ width := by
      refine ih fun index small => ?_
      have byte := bytes (index + 1) (by omega)
      rw [Nat.pow_succ', ← Nat.div_div_eq_div_mul] at byte
      rw [← byte]
      congr 1
      omega
    have first : memory address = UInt8.ofNat value := by simpa using bytes 0 (by omega)
    have split : value % 256 ^ (width + 1) = value % 256 + 256 * (value / 256 % 256 ^ width) := by
      rw [Nat.pow_succ', Nat.mod_mul]
    simp only [load, rest, first, UInt8.toNat_ofNat', split]

theorem load_store {memory : Memory} {address value width : Nat} :
    (memory.store address value width).load address width = value % 256 ^ width := by
  refine load_of_bytes fun index small => ?_
  simp [store, small]

theorem load_lt (memory : Memory) (address width : Nat) : memory.load address width < 256 ^ width := by
  induction width generalizing address with
  | zero => simp [load]
  | succ width ih =>
    have rest := ih (address + 1)
    have first := (memory address).toNat_lt
    rw [load, Nat.pow_succ']
    omega

theorem store_outside {memory : Memory} {address value width place : Nat}
    (outside : place < address ∨ address + width ≤ place) :
    memory.store address value width place = memory place := by
  simp only [store]
  rw [if_neg (by omega)]

theorem load_store_apart {memory : Memory} {address value width other width' : Nat}
    (apart : other + width' ≤ address ∨ address + width ≤ other) :
    (memory.store address value width).load other width' = memory.load other width' := by
  refine load_congr fun place low high => ?_
  exact store_outside (by omega)

theorem fill_outside {memory : Memory} {address length place : Nat} {value : UInt8}
    (outside : place < address ∨ address + length ≤ place) :
    memory.fill address value length place = memory place := by
  simp only [fill]
  rw [if_neg (by omega)]

theorem copy_inside {memory : Memory} {dest src length offset : Nat} (inside : offset < length) :
    memory.copy dest src length (dest + offset) = memory (src + offset) := by
  simp only [copy]
  rw [if_pos (by omega), Nat.add_sub_cancel_left]

theorem copy_outside {memory : Memory} {dest src length place : Nat}
    (outside : place < dest ∨ dest + length ≤ place) :
    memory.copy dest src length place = memory place := by
  simp only [copy]
  rw [if_neg (by omega)]

theorem copy_nothing (memory : Memory) (dest src : Nat) : memory.copy dest src 0 = memory := by
  funext place
  exact copy_outside (by omega)

attribute [irreducible] load store

end Memory

/-! Owners. -/

variable {Owner : Type u}

/-- Every byte of a range has this owner. -/
def Owns (own : Nat → Owner) (owner : Owner) (start length : Nat) : Prop :=
  ∀ place, start ≤ place → place < start + length → own place = owner

/-- Give a range to an owner. -/
def claim (own : Nat → Owner) (owner : Owner) (start length : Nat) : Nat → Owner := fun place =>
  if start ≤ place ∧ place < start + length then owner else own place

theorem claim_owns (own : Nat → Owner) (owner : Owner) (start length : Nat) :
    Owns (claim own owner start length) owner start length := by
  intro place low high
  simp [claim, low, high]

theorem claim_outside {own : Nat → Owner} {owner : Owner} {start length place : Nat}
    (outside : place < start ∨ start + length ≤ place) :
    claim own owner start length place = own place := by
  simp only [claim]
  rw [if_neg (by omega)]

theorem Owns.apart {own : Nat → Owner} {owner owner' : Owner} {start length start' length' place : Nat}
    (owns : Owns own owner start length) (owns' : Owns own owner' start' length')
    (different : owner ≠ owner') (low : start ≤ place) (high : place < start + length) :
    place < start' ∨ start' + length' ≤ place := by
  by_contra inside
  exact different ((owns place low high).symm.trans (owns' place (by omega) (by omega)))

theorem Owns.kept {own own' : Nat → Owner} {owner : Owner} {start length : Nat}
    (owns : Owns own owner start length) (kept : ∀ place, own place = owner → own' place = own place) :
    Owns own' owner start length := by
  intro place low high
  have here := owns place low high
  rw [kept place here, here]

/-- What an owner has stored is read back while its bytes are kept. -/
theorem Owns.load {own : Nat → Owner} {owner : Owner} {start length address width : Nat}
    {memory memory' : Memory} (owns : Owns own owner start length)
    (kept : ∀ place, own place = owner → memory' place = memory place)
    (low : start ≤ address) (high : address + width ≤ start + length) :
    memory'.load address width = memory.load address width :=
  Memory.load_congr fun place low' high' => kept place (owns place (by omega) (by omega))

/-- A store into a range changes no byte of another owner. -/
theorem Owns.store {own : Nat → Owner} {owner owner' : Owner} {start length address value width place : Nat}
    {memory : Memory} (owns : Owns own owner start length) (low : start ≤ address)
    (high : address + width ≤ start + length) (other : own place = owner') (different : owner' ≠ owner) :
    memory.store address value width place = memory place := by
  refine Memory.store_outside ?_
  by_contra inside
  exact different (other.symm.trans (owns place (by omega) (by omega)))

/-! Lists in memory. -/

/-- The nodes from `head` on, in order; each holds the next one, the last one holds 0. -/
def Chain (next : Nat → Nat) : Nat → List Nat → Prop
  | head, [] => head = 0
  | head, node :: rest => head = node ∧ node ≠ 0 ∧ Chain next (next node) rest

theorem Chain.kept {next next' : Nat → Nat} {head : Nat} {nodes : List Nat}
    (chain : Chain next head nodes) (kept : ∀ node ∈ nodes, next' node = next node) :
    Chain next' head nodes := by
  induction nodes generalizing head with
  | nil => exact chain
  | cons node rest ih =>
    obtain ⟨same, nonzero, tail⟩ := chain
    refine ⟨same, nonzero, ?_⟩
    rw [kept node (List.mem_cons_self ..)]
    exact ih tail fun other member => kept other (List.mem_cons_of_mem _ member)

theorem Chain.unique {next : Nat → Nat} {head : Nat} {nodes nodes' : List Nat}
    (chain : Chain next head nodes) (chain' : Chain next head nodes') : nodes = nodes' := by
  induction nodes generalizing head nodes' with
  | nil =>
    cases nodes' with
    | nil => rfl
    | cons node' rest' => exact (chain'.2.1 (chain'.1.symm.trans chain)).elim
  | cons node rest ih =>
    obtain ⟨same, nonzero, tail⟩ := chain
    cases nodes' with
    | nil => exact (nonzero (same.symm.trans chain')).elim
    | cons node' rest' =>
      obtain ⟨same', _, tail'⟩ := chain'
      obtain rfl := same.symm.trans same'
      rw [ih tail tail']

/-- The head of a list is 0 exactly when the list is empty. -/
theorem Chain.head_zero {next : Nat → Nat} {head : Nat} {nodes : List Nat}
    (chain : Chain next head nodes) : head = 0 ↔ nodes = [] := by
  cases nodes with
  | nil => simpa [Chain] using chain
  | cons node rest =>
    obtain ⟨same, nonzero, _⟩ := chain
    simp [same, nonzero]

end ProcessAsThread.Library
