import Mathlib.Logic.Function.Basic
import ProcessAsThread.Library.Run

/-! Blocks of bytes by name. A store remembers how large each block is and which of
its bytes are known: those that were put there, and those that came with them when
the block moved. -/

namespace ProcessAsThread.Library

universe u v

structure BlockStore (Name : Type u) (Byte : Type v) where
  size : Name → Option Nat
  byte : Name → Nat → Option Byte

namespace BlockStore

/-- A new block may come with all its bytes known; a block that moves changes its size. -/
inductive Event (Name : Type u) (Byte : Type v) where
  | create (name : Name) (size : Nat) (content : Option Byte)
  | put (name : Name) (offset : Nat) (value : Byte)
  | move (old new : Name) (size : Nat)
  | release (name : Name)
  deriving DecidableEq

variable {Name : Type u} {Byte : Type v}

def empty : BlockStore Name Byte := ⟨fun _ => none, fun _ _ => none⟩

def Inside (store : BlockStore Name Byte) (name : Name) (offset : Nat) : Prop :=
  ∃ size, store.size name = some size ∧ offset < size

instance (store : BlockStore Name Byte) (name : Name) (offset : Nat) : Decidable (store.Inside name offset) :=
  match known : store.size name with
  | none => .isFalse fun inside => by
    obtain ⟨size, same, _⟩ := inside
    cases known.symm.trans same
  | some size => decidable_of_iff (offset < size) ⟨fun less => ⟨size, known, less⟩, fun inside => by
    obtain ⟨size', same, less⟩ := inside
    cases known.symm.trans same
    exact less⟩

/-- Blocks are created under names that are free; what exists can be changed. -/
def Legal (store : BlockStore Name Byte) : Event Name Byte → Prop
  | .create name _ _ => store.size name = none
  | .put name offset _ => store.Inside name offset
  | .move old new _ => (store.size old).isSome = true ∧ store.size new = none
  | .release name => (store.size name).isSome = true

instance (store : BlockStore Name Byte) : (event : Event Name Byte) → Decidable (store.Legal event)
  | .create name _ _ => decidable_of_iff ((store.size name).isNone = true) Option.isNone_iff_eq_none
  | .put name offset _ => inferInstanceAs (Decidable (store.Inside name offset))
  | .move old new _ => decidable_of_iff ((store.size old).isSome = true ∧ (store.size new).isNone = true)
    (and_congr_right fun _ => Option.isNone_iff_eq_none)
  | .release name => inferInstanceAs (Decidable ((store.size name).isSome = true))

variable [DecidableEq Name]

def happen (store : BlockStore Name Byte) : Event Name Byte → BlockStore Name Byte
  | .create name size content =>
    { size := Function.update store.size name (some size)
      byte := Function.update store.byte name fun offset => if offset < size then content else none }
  | .put name offset value =>
    { store with
      byte := Function.update store.byte name (Function.update (store.byte name) offset (some value)) }
  | .move old new size =>
    { size := Function.update (Function.update store.size old none) new (some size)
      byte := Function.update (Function.update store.byte old fun _ => none) new
        fun offset => if offset < size then store.byte old offset else none }
  | .release name =>
    { size := Function.update store.size name none
      byte := Function.update store.byte name fun _ => none }

def step (store : BlockStore Name Byte) (event : Event Name Byte) : Option (BlockStore Name Byte) :=
  if store.Legal event then some (store.happen event) else none

theorem step_eq_some {store after : BlockStore Name Byte} {event : Event Name Byte} :
    store.step event = some after ↔ store.Legal event ∧ after = store.happen event := by
  unfold step
  split <;> simp [*, eq_comm]

/-- Only bytes of blocks are known. -/
def Known (store : BlockStore Name Byte) : Prop :=
  ∀ name offset value, store.byte name offset = some value → store.Inside name offset

def Shows (store : BlockStore Name Byte) (read : Name → Nat → Byte) : Prop :=
  ∀ name offset value, store.byte name offset = some value → read name offset = value

/-- What an event does to what is read: its own block is as it says, the others are as before. -/
def Effects (store : BlockStore Name Byte) (read read' : Name → Nat → Byte) : Event Name Byte → Prop
  | .create name size content =>
    (∀ value, content = some value → ∀ offset < size, read' name offset = value) ∧
      ∀ other offset, other ≠ name → store.Inside other offset → read' other offset = read other offset
  | .put name offset value => read' name offset = value ∧
      ∀ other offset', (other = name → offset' ≠ offset) → store.Inside other offset' →
        read' other offset' = read other offset'
  | .move old new size =>
    (∀ offset < size, store.Inside old offset → read' new offset = read old offset) ∧
      ∀ other offset, other ≠ old → store.Inside other offset → read' other offset = read other offset
  | .release name =>
    ∀ other offset, other ≠ name → store.Inside other offset → read' other offset = read other offset

variable {store after : BlockStore Name Byte} {event : Event Name Byte} {read read' : Name → Nat → Byte}

omit [DecidableEq Name] in
theorem known_empty : (empty : BlockStore Name Byte).Known := by
  intro name offset value same
  cases same

omit [DecidableEq Name] in
theorem shows_empty (read : Name → Nat → Byte) : (empty : BlockStore Name Byte).Shows read := by
  intro name offset value same
  cases same

theorem Known.step (known : store.Known) (taken : store.step event = some after) : after.Known := by
  obtain ⟨legal, rfl⟩ := step_eq_some.mp taken
  intro name offset value same
  cases event with
  | create new size content =>
    by_cases here : name = new
    · subst here
      simp only [happen, Function.update_self] at same
      split at same
      · exact ⟨size, Function.update_self .., ‹_›⟩
      · cases same
    · simp only [happen, Function.update_of_ne here] at same
      obtain ⟨full, sized, less⟩ := known _ _ _ same
      exact ⟨full, (Function.update_of_ne here ..).trans sized, less⟩
  | put changed at_ value' =>
    by_cases here : name = changed ∧ offset = at_
    · obtain ⟨rfl, rfl⟩ := here
      exact legal
    · refine known _ _ value ?_
      by_cases block : name = changed
      · subst block
        have other : offset ≠ at_ := fun same => here ⟨rfl, same⟩
        simpa [happen, Function.update_of_ne other] using same
      · simpa [happen, Function.update_of_ne block] using same
  | move old new size =>
    by_cases here : name = new
    · subst here
      simp only [happen, Function.update_self] at same
      split at same
      · exact ⟨size, Function.update_self .., ‹_›⟩
      · cases same
    · by_cases gone : name = old
      · subst gone
        simp [happen, Function.update_of_ne here] at same
      · simp only [happen, Function.update_of_ne here, Function.update_of_ne gone] at same
        obtain ⟨full, sized, less⟩ := known _ _ _ same
        refine ⟨full, ?_, less⟩
        simp only [happen, Function.update_of_ne here, Function.update_of_ne gone, sized]
  | release gone =>
    by_cases here : name = gone
    · subst here
      simp [happen] at same
    · simp only [happen, Function.update_of_ne here] at same
      obtain ⟨full, sized, less⟩ := known _ _ _ same
      exact ⟨full, (Function.update_of_ne here ..).trans sized, less⟩

/-- Reads that change as the events say go on showing what is known. -/
theorem Shows.step (shows_ : store.Shows read) (known : store.Known)
    (taken : store.step event = some after) (effects : store.Effects read read' event) : after.Shows read' := by
  obtain ⟨legal, rfl⟩ := step_eq_some.mp taken
  intro name offset value same
  cases event with
  | create new size content =>
    by_cases here : name = new
    · subst here
      simp only [happen, Function.update_self] at same
      split at same
      · exact effects.1 value same offset ‹_›
      · cases same
    · simp only [happen, Function.update_of_ne here] at same
      rw [effects.2 name offset here (known _ _ _ same)]
      exact shows_ _ _ _ same
  | put changed at_ value' =>
    by_cases here : name = changed ∧ offset = at_
    · obtain ⟨rfl, rfl⟩ := here
      simp only [happen, Function.update_self, Option.some.injEq] at same
      rw [← same]
      exact effects.1
    · have before : store.byte name offset = some value := by
        by_cases block : name = changed
        · subst block
          have other : offset ≠ at_ := fun same => here ⟨rfl, same⟩
          simpa [happen, Function.update_of_ne other] using same
        · simpa [happen, Function.update_of_ne block] using same
      rw [effects.2 name offset (fun block at_ => here ⟨block, at_⟩) (known _ _ _ before)]
      exact shows_ _ _ _ before
  | move old new size =>
    by_cases here : name = new
    · subst here
      simp only [happen, Function.update_self] at same
      split at same
      · rw [effects.1 offset ‹_› (known _ _ _ same)]
        exact shows_ _ _ _ same
      · cases same
    · by_cases gone : name = old
      · subst gone
        simp [happen, Function.update_of_ne here] at same
      · simp only [happen, Function.update_of_ne here, Function.update_of_ne gone] at same
        rw [effects.2 name offset gone (known _ _ _ same)]
        exact shows_ _ _ _ same
  | release gone =>
    by_cases here : name = gone
    · subst here
      simp [happen] at same
    · simp only [happen, Function.update_of_ne here] at same
      rw [effects name offset here (known _ _ _ same)]
      exact shows_ _ _ _ same

end BlockStore

end ProcessAsThread.Library
