import Mathlib.Data.Nat.Find
import Mathlib.Data.Set.Insert
import Mathlib.Logic.Function.Basic

/-! Sets of numbers kept as words of bits. Number `i` is bit `i % width` of word `i / width`;
a word may have more bits than the `width` that are used. -/

namespace ProcessAsThread.Library

section Words

variable {w place : Nat} {word : BitVec w}

/-- One bit tells whether the word has it. -/
theorem twoPow_and_eq_zero : BitVec.twoPow w place &&& word = 0#w ↔ word.getLsbD place = false := by
  rw [BitVec.twoPow_and]
  cases present : word.getLsbD place with
  | false => simp
  | true =>
    have inside : place < w := BitVec.lt_of_getLsbD present
    simp only [if_true, Bool.true_eq_false, iff_false]
    intro none
    have bit := congrArg (BitVec.getLsbD · place) none
    simp [inside] at bit

theorem twoPow_shiftLeft_one : BitVec.twoPow w place <<< 1 = BitVec.twoPow w (place + 1) := by
  rw [BitVec.twoPow_eq, BitVec.twoPow_eq, BitVec.shiftLeft_add]

theorem twoPow_ne_zero (inside : place < w) : BitVec.twoPow w place ≠ 0#w := by
  intro none
  have bit := congrArg (BitVec.getLsbD · place) none
  simp [inside] at bit

/-- A word below a bit has neither that bit nor a higher one. -/
theorem lt_twoPow (inside : place < w) :
    word < BitVec.twoPow w place ↔ ∀ other, place ≤ other → word.getLsbD other = false := by
  rw [BitVec.lt_def, BitVec.toNat_twoPow_of_lt inside]
  constructor
  · intro below other above
    exact Nat.testBit_lt_two_pow (below.trans_le (Nat.pow_le_pow_right (by omega) above))
  · intro none
    exact Nat.lt_pow_two_of_testBit _ fun other above => none other above

/-- The lowest bit at or above a place, where there is one. -/
theorem exists_lowest {start : Nat} (some : ∃ place, start ≤ place ∧ word.getLsbD place = true) :
    ∃ place, start ≤ place ∧ word.getLsbD place = true ∧
      ∀ other, start ≤ other → other < place → word.getLsbD other = false := by
  classical
  obtain ⟨above, present⟩ := Nat.find_spec some
  refine ⟨Nat.find some, above, present, fun other first last => ?_⟩
  have missing := Nat.find_min some last
  simpa [first] using missing

end Words

namespace Bitmap

variable {w width bound i : Nat} {words : Nat → BitVec w}

def members (width : Nat) (words : Nat → BitVec w) : Set Nat :=
  {i | (words (i / width)).getLsbD (i % width) = true}

/-- No bit is set but those of numbers below the bound. -/
def Within (width bound : Nat) (words : Nat → BitVec w) : Prop :=
  ∀ block place, (words block).getLsbD place = true → place < width ∧ block * width + place < bound

def mark (width : Nat) (words : Nat → BitVec w) (i : Nat) : Nat → BitVec w :=
  Function.update words (i / width) (words (i / width) ||| BitVec.twoPow w (i % width))

def unmark (width : Nat) (words : Nat → BitVec w) (i : Nat) : Nat → BitVec w :=
  Function.update words (i / width) (words (i / width) &&& ~~~BitVec.twoPow w (i % width))

theorem mem_members_iff : i ∈ members width words ↔ (words (i / width)).getLsbD (i % width) = true := Iff.rfl

theorem mem_members {block place : Nat} (inside : place < width) :
    block * width + place ∈ members width words ↔ (words block).getLsbD place = true := by
  have quotient : (block * width + place) / width = block := by
    rw [Nat.mul_comm, Nat.mul_add_div (by omega), Nat.div_eq_of_lt inside, Nat.add_zero]
  have remainder : (block * width + place) % width = place := by
    rw [Nat.mul_comm, Nat.mul_add_mod, Nat.mod_eq_of_lt inside]
  rw [mem_members_iff, quotient, remainder]

theorem within_zero (width bound : Nat) : Within width bound (fun _ => 0#w) := by
  intro block place present
  simp at present

theorem Within.lt (within : Within width bound words) (member : i ∈ members width words) : i < bound := by
  have below := (within (i / width) (i % width) member).2
  rwa [Nat.div_add_mod'] at below

/-- Two numbers with the same word and the same bit in it are the same. -/
theorem eq_of_word {j : Nat} (word : i / width = j / width) (bit : i % width = j % width) : i = j := by
  rw [← Nat.div_add_mod' i width, ← Nat.div_add_mod' j width, word, bit]

theorem members_mark (positive : 0 < width) (fits : width ≤ w) :
    members width (mark width words i) = insert i (members width words) := by
  have inside : i % width < w := (Nat.mod_lt i positive).trans_le fits
  ext j
  rw [Set.mem_insert_iff, mem_members_iff, mem_members_iff, mark]
  by_cases word : j / width = i / width
  · rw [word, Function.update_self, BitVec.getLsbD_or, BitVec.getLsbD_twoPow, Bool.or_eq_true]
    constructor
    · rintro (old | new)
      · exact .inr old
      · simp only [inside, decide_true, Bool.true_and, decide_eq_true_eq] at new
        exact .inl (eq_of_word word new.symm)
    · rintro (same | old)
      · exact .inr (by simp [same, inside])
      · exact .inl old
  · rw [Function.update_of_ne word]
    refine ⟨.inr, fun either => either.resolve_left ?_⟩
    intro same
    exact word (by rw [same])

theorem members_unmark (positive : 0 < width) (fits : width ≤ w) :
    members width (unmark width words i) = members width words \ {i} := by
  have inside : i % width < w := (Nat.mod_lt i positive).trans_le fits
  ext j
  rw [Set.mem_sdiff, Set.mem_singleton_iff, mem_members_iff, mem_members_iff, unmark]
  by_cases word : j / width = i / width
  · have within : j % width < w := (Nat.mod_lt j positive).trans_le fits
    rw [word, Function.update_self, BitVec.getLsbD_and, BitVec.getLsbD_not, BitVec.getLsbD_twoPow,
      Bool.and_eq_true]
    refine and_congr_right fun _ => ?_
    have differs : j = i ↔ i % width = j % width :=
      ⟨fun same => by rw [same], fun bit => eq_of_word word bit.symm⟩
    simp [inside, within, differs]
  · rw [Function.update_of_ne word]
    refine ⟨fun old => ⟨old, ?_⟩, And.left⟩
    intro same
    exact word (by rw [same])

theorem Within.mark (within : Within width bound words) (positive : 0 < width) (below : i < bound) :
    Within width bound (mark width words i) := by
  intro block place present
  rw [Bitmap.mark] at present
  by_cases same : block = i / width
  · subst same
    rw [Function.update_self, BitVec.getLsbD_or, Bool.or_eq_true, BitVec.getLsbD_twoPow] at present
    rcases present with old | new
    · exact within _ _ old
    · simp only [Bool.and_eq_true, decide_eq_true_eq] at new
      rw [← new.2, Nat.div_add_mod']
      exact ⟨Nat.mod_lt i positive, below⟩
  · rw [Function.update_of_ne same] at present
    exact within _ _ present

theorem Within.unmark (within : Within width bound words) : Within width bound (unmark width words i) := by
  intro block place present
  rw [Bitmap.unmark] at present
  by_cases same : block = i / width
  · subst same
    rw [Function.update_self, BitVec.getLsbD_and, Bool.and_eq_true] at present
    exact within _ _ present.1
  · rw [Function.update_of_ne same] at present
    exact within _ _ present

end Bitmap

end ProcessAsThread.Library
