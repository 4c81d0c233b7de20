import Mathlib.Logic.Basic

/-! An address space: what is mapped at an address, the byte there, and how it is
mapped. Ranges are given by a start and a length. -/

namespace ProcessAsThread.Library

/-- How a byte is mapped; `file` is the file behind it, if any. -/
structure Mapping where
  shared : Bool
  read : Bool
  write : Bool
  execute : Bool
  file : Option Nat
  deriving DecidableEq, Repr

structure Cell where
  value : UInt8
  mapping : Mapping
  deriving DecidableEq, Repr

abbrev AddressSpace := Nat → Option Cell

def Within (start length place : Nat) : Prop := start ≤ place ∧ place < start + length

instance (start length place : Nat) : Decidable (Within start length place) :=
  inferInstanceAs (Decidable (_ ∧ _))

namespace AddressSpace

variable {space : AddressSpace} {start length target source place : Nat}

def Free (space : AddressSpace) (start length : Nat) : Prop :=
  ∀ index < length, (space (start + index)).isNone = true

instance (space : AddressSpace) (start length : Nat) : Decidable (Free space start length) :=
  inferInstanceAs (Decidable (∀ index < length, _))

/-- Zero bytes in a range, instead of what was there. -/
def map (space : AddressSpace) (start length : Nat) (mapping : Mapping) : AddressSpace := fun place =>
  if Within start length place then some ⟨0, mapping⟩ else space place

def unmap (space : AddressSpace) (start length : Nat) : AddressSpace := fun place =>
  if Within start length place then none else space place

def Readable (space : AddressSpace) (start length : Nat) : Prop :=
  ∀ index < length, ((space (start + index)).map fun cell => cell.mapping.read) = some true

def Writable (space : AddressSpace) (start length : Nat) : Prop :=
  ∀ index < length, ((space (start + index)).map fun cell => cell.mapping.write) = some true

instance (space : AddressSpace) (start length : Nat) : Decidable (Readable space start length) :=
  inferInstanceAs (Decidable (∀ index < length, _))

instance (space : AddressSpace) (start length : Nat) : Decidable (Writable space start length) :=
  inferInstanceAs (Decidable (∀ index < length, _))

def value (space : AddressSpace) (place : Nat) : UInt8 := ((space place).map Cell.value).getD 0

/-- `memcpy` between ranges that do not overlap; `none` is a fault. -/
def copy (space : AddressSpace) (target source length : Nat) : Option AddressSpace :=
  if Readable space source length ∧ Writable space target length then
    some fun place =>
      if Within target length place then
        (space place).map fun cell => { cell with value := space.value (source + (place - target)) }
      else space place
  else none

theorem Free.unmapped (free : space.Free start length) (inside : Within start length place) :
    space place = none := by
  have here := free (place - start) (by have := inside.1; have := inside.2; omega)
  have same : start + (place - start) = place := by have := inside.1; omega
  rw [same] at here
  exact Option.isNone_iff_eq_none.mp here

theorem Readable.cell (readable : space.Readable start length) (inside : Within start length place) :
    ∃ cell, space place = some cell ∧ cell.mapping.read = true := by
  have here := readable (place - start) (by have := inside.1; have := inside.2; omega)
  have same : start + (place - start) = place := by have := inside.1; omega
  rw [same] at here
  exact Option.map_eq_some_iff.mp here

@[simp] theorem map_inside (mapping : Mapping) (inside : Within start length place) :
    space.map start length mapping place = some ⟨0, mapping⟩ := if_pos inside

@[simp] theorem map_outside (mapping : Mapping) (outside : ¬ Within start length place) :
    space.map start length mapping place = space place := if_neg outside

@[simp] theorem unmap_inside (inside : Within start length place) :
    space.unmap start length place = none := if_pos inside

@[simp] theorem unmap_outside (outside : ¬ Within start length place) :
    space.unmap start length place = space place := if_neg outside

theorem copy_eq_some {after : AddressSpace} : space.copy target source length = some after ↔
    (Readable space source length ∧ Writable space target length) ∧
    after = fun place =>
      if Within target length place then
        (space place).map fun cell => { cell with value := space.value (source + (place - target)) }
      else space place := by
  unfold copy
  split
  · simp [*, eq_comm]
  · simp [*]

end AddressSpace

end ProcessAsThread.Library
