import Mathlib.Data.List.Basic

/-! Multimaps that hold a sequence of values for every key, oldest first, and how
a list of all their entries in the order of insertion stands for one. Keys that
are `equal` are the same key. -/

namespace ProcessAsThread.Library

universe u v w

variable {Key : Type u} {Value : Type v} {Entry : Type w}

abbrev Multimap (Key : Type u) (Value : Type v) := Key → List Value

namespace Multimap

def empty : Multimap Key Value := fun _ => []

def insert (equal : Key → Key → Bool) (values : Multimap Key Value) (key : Key) (value : Value) :
    Multimap Key Value :=
  fun other => if equal key other then values other ++ [value] else values other

/-- The oldest value of the key goes. -/
def erase (equal : Key → Key → Bool) (values : Multimap Key Value) (key : Key) : Multimap Key Value :=
  fun other => if equal key other then (values other).tail else values other

/-- The values of a key in a list of entries. -/
def ofEntries (isOf : Key → Entry → Bool) (value : Entry → Value) (entries : List Entry) :
    Multimap Key Value :=
  fun key => (entries.filter (isOf key)).map value

end Multimap

/-! Taking out the first entry with a property, and what is left of other ones. -/

variable {check other : Entry → Bool} {entries : List Entry}

theorem filter_eraseP_self : (entries.eraseP check).filter check = (entries.filter check).tail := by
  induction entries with
  | nil => rfl
  | cons entry entries ih =>
    cases here : check entry with
    | true => simp [here]
    | false => simp [here, ih]

theorem filter_eraseP_of_disjoint (disjoint : ∀ entry, check entry = true → other entry = false) :
    (entries.eraseP check).filter other = entries.filter other := by
  induction entries with
  | nil => rfl
  | cons entry entries ih =>
    cases here : check entry with
    | true => simp [here, disjoint entry here]
    | false => simp [here, List.filter_cons, ih]

theorem filter_eraseP_of_imp (within : ∀ entry, check entry = true → other entry = true) :
    (entries.eraseP check).filter other = (entries.filter other).eraseP check := by
  rw [List.eraseP_filter]
  congr 2
  funext entry
  cases here : check entry with
  | true => simp [within entry here]
  | false => simp

theorem find?_filter_of_imp (within : ∀ entry, check entry = true → other entry = true) :
    (entries.filter other).find? check = entries.find? check := by
  rw [List.find?_filter]
  congr 1
  funext entry
  cases here : check entry with
  | true => simp [within entry here]
  | false => simp

namespace Multimap

/-- An entry is one of exactly the keys that are equal to any key it is one of. -/
structure Keyed (equal : Key → Key → Bool) (isOf : Key → Entry → Bool) : Prop where
  symm : ∀ {key other}, equal key other = true → equal other key = true
  keyed : ∀ {key other entry}, isOf key entry = true → isOf other entry = equal key other

variable {equal : Key → Key → Bool} {isOf : Key → Entry → Bool} {value : Entry → Value} {key : Key}

theorem ofEntries_append (entry : Entry) (keyed : ∀ other, isOf other entry = equal key other) :
    ofEntries isOf value (entries ++ [entry]) = insert equal (ofEntries isOf value entries) key (value entry) := by
  funext other
  simp only [ofEntries, insert, List.filter_append, List.map_append, List.filter_cons, keyed, List.filter_nil]
  cases equal key other <;> simp

theorem ofEntries_eraseP (keyed : Keyed equal isOf) :
    ofEntries isOf value (entries.eraseP (isOf key)) = erase equal (ofEntries isOf value entries) key := by
  funext other
  simp only [ofEntries, erase]
  cases same : equal key other with
  | true =>
    have agree : isOf key = isOf other := by
      funext entry
      cases here : isOf other entry with
      | true => exact (keyed.keyed here).trans (keyed.symm same)
      | false =>
        refine Bool.eq_false_iff.mpr fun there => ?_
        rw [keyed.keyed there, same] at here
        cases here
    rw [agree, filter_eraseP_self, if_pos rfl, List.map_tail]
  | false =>
    have apart : ∀ entry, isOf key entry = true → isOf other entry = false :=
      fun entry here => (keyed.keyed here).trans same
    rw [filter_eraseP_of_disjoint apart]
    simp

theorem head?_ofEntries : (ofEntries isOf value entries key).head? = (entries.find? (isOf key)).map value := by
  rw [ofEntries, List.head?_map, List.head?_filter]

theorem isEmpty_ofEntries : (ofEntries isOf value entries key).isEmpty = !entries.any (isOf key) := by
  rw [ofEntries, List.isEmpty_map, Bool.eq_iff_iff]
  simp

end Multimap

end ProcessAsThread.Library
