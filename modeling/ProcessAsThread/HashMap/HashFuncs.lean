import Mathlib.Data.Nat.ModEq
import ProcessAsThread.Library.ByteMemory

/-! The functions of hashfuncs.h for keys that are strings. -/

namespace ProcessAsThread.HashFuncs

open Library

variable {memory other : Memory} {len : BitVec 64}

/-- A `char`, which is signed, as it is added to an `unsigned long`. -/
def char (memory : Memory) (s : Nat) : BitVec 64 := (memory s).toBitVec.signExtend 64

/-- `for ( ; i <= len; i++, ++__s)`: the `int` is compared as a `size_t`. `none` is its overflow. -/
def hashLoop (memory : Memory) (len : BitVec 64) (i : Int) (s : Nat) (h : BitVec 64) : Option (BitVec 64) :=
  if i % 2 ^ 64 ≤ len.toNat then
    if 2 ^ 31 ≤ i + 1 then none else hashLoop memory len (i + 1) (s + 1) (5 * h + char memory s)
  else some h
termination_by (2 ^ 31 - i).toNat

/-- `i` is declared without a value: it is whatever the stack holds. -/
def hashString (memory : Memory) (start : Nat) (len : BitVec 64) (i : BitVec 32) : Option (BitVec 64) :=
  hashLoop memory len i.toInt start 0

/-- `strncmp` of the C library, with the sign of the first difference. -/
def strncmp (memory : Memory) (str1 str2 : Nat) : Nat → Int
  | 0 => 0
  | len + 1 =>
    if memory str1 ≠ memory str2 then (memory str1).toNat - (memory str2).toNat
    else if memory str1 = 0 then 0
    else strncmp memory (str1 + 1) (str2 + 1) len

def compareString (memory : Memory) (str1 str2 : Nat) (len : BitVec 64) : Bool :=
  strncmp memory str1 str2 len.toNat == 0

/-- A memory with the same bytes of a key. -/
def SameKey (memory other : Memory) (start : Nat) (len : BitVec 64) : Prop :=
  ∀ index < len.toNat, other (start + index) = memory (start + index)

/-- Both keys hash to one value, whatever the rest of the memory and the stack hold. -/
def Respects (memory : Memory) (a b : Nat) (len : BitVec 64) : Prop :=
  ∀ other, SameKey memory other a len → SameKey memory other b len → ∀ i i', ∃ hash,
    hashString other a len i = some hash ∧ hashString other b len i' = some hash

/-- The keys differ in a byte that no NUL comes before. -/
def DifferBeforeNul (memory : Memory) (a b len : Nat) : Prop :=
  ∃ index < len, memory (a + index) ≠ memory (b + index) ∧
    ∀ earlier < index, memory (a + earlier) = memory (b + earlier) ∧ memory (a + earlier) ≠ 0

private theorem differBeforeNul_succ {a b len : Nat} : DifferBeforeNul memory a b (len + 1) ↔
    memory a ≠ memory b ∨ memory a = memory b ∧ memory a ≠ 0 ∧ DifferBeforeNul memory (a + 1) (b + 1) len := by
  constructor
  · intro ⟨index, inside, different, before⟩
    cases index with
    | zero => exact .inl different
    | succ index =>
      obtain ⟨same, nonzero⟩ := before 0 (Nat.succ_pos index)
      refine .inr ⟨same, nonzero, index, Nat.lt_of_succ_lt_succ inside, ?_, fun earlier early => ?_⟩
      · simpa [Nat.add_assoc, Nat.add_comm 1] using different
      · simpa [Nat.add_assoc, Nat.add_comm 1] using before (earlier + 1) (Nat.succ_lt_succ early)
  · rintro (different | ⟨same, nonzero, index, inside, different, before⟩)
    · exact ⟨0, Nat.succ_pos len, different, fun _ early => (Nat.not_lt_zero _ early).elim⟩
    · refine ⟨index + 1, Nat.succ_lt_succ inside, ?_, fun earlier early => ?_⟩
      · simpa [Nat.add_assoc, Nat.add_comm 1] using different
      · cases earlier with
        | zero => exact ⟨same, nonzero⟩
        | succ earlier =>
          simpa [Nat.add_assoc, Nat.add_comm 1] using before earlier (Nat.lt_of_succ_lt_succ early)

private theorem strncmp_ne_zero_iff {a b len : Nat} :
    strncmp memory a b len ≠ 0 ↔ DifferBeforeNul memory a b len := by
  induction len generalizing a b with
  | zero => simp [strncmp, DifferBeforeNul]
  | succ len ih =>
    rw [differBeforeNul_succ, strncmp, ← ih]
    by_cases same : memory a = memory b
    · rw [if_neg (not_not.mpr same)]
      by_cases zero : memory a = 0
      · simp [zero, same.symm.trans zero]
      · simp [same, same ▸ zero]
    · have apart : ((memory a).toNat : Int) - (memory b).toNat ≠ 0 := by
        intro equal
        exact same (UInt8.toNat_inj.mp (by omega))
      simp [same, apart]

private theorem compareString_eq_false {a b : Nat} :
    compareString memory a b len = false ↔ DifferBeforeNul memory a b len.toNat := by
  rw [← strncmp_ne_zero_iff, compareString, beq_eq_false_iff_ne]

def hashBytes (memory : Memory) (s : Nat) : Nat → BitVec 64
  | 0 => 0
  | length + 1 => 5 * hashBytes memory s length + char memory (s + length)

private theorem hashBytes_congr {s length : Nat}
    (same : ∀ index < length, other (s + index) = memory (s + index)) :
    hashBytes other s length = hashBytes memory s length := by
  induction length with
  | zero => rfl
  | succ length ih =>
    have rest := ih fun index inside => same index (Nat.lt_succ_of_lt inside)
    rw [hashBytes, hashBytes, rest, char, char, same length (Nat.lt_succ_self length)]

/-- From zero on the loop takes one byte more than the key has. -/
theorem hashLoop_eq {start done left : Nat} (small : len.toNat + 1 < 2 ^ 31)
    (all : done + left = len.toNat + 1) :
    hashLoop memory len done (start + done) (hashBytes memory start done) =
      some (hashBytes memory start (len.toNat + 1)) := by
  induction left generalizing done with
  | zero =>
    rw [hashLoop, if_neg (by omega), ← all]
    rfl
  | succ left ih =>
    rw [hashLoop, if_pos (by omega), if_neg (by omega)]
    exact ih (show (done + 1) + left = len.toNat + 1 by omega)

private theorem hashLoop_overflow {i : Int} {s : Nat} {h : BitVec 64} (nonnegative : 0 ≤ i)
    (inside : i < 2 ^ 31)
    (large : 2 ^ 31 ≤ len.toNat + 1) : hashLoop memory len i s h = none := by
  induction left : (2 ^ 31 - i).toNat generalizing i s h with
  | zero => omega
  | succ left ih =>
    rw [hashLoop, if_pos (by omega)]
    split
    · rfl
    · exact ih (by omega) (by omega) (by omega)

private theorem hashString_zero {start : Nat} (small : len.toNat + 1 < 2 ^ 31) :
    hashString memory start len 0 =
      some (5 * hashBytes memory start len.toNat + char memory (start + len.toNat)) :=
  hashLoop_eq small (Nat.zero_add (len.toNat + 1))

private theorem hashString_overflow {start : Nat} (large : 2 ^ 31 ≤ len.toNat + 1) :
    hashString memory start len 0 = none := hashLoop_overflow (by decide) (by decide) large

/-- With a negative value on the stack the loop is not entered. -/
theorem hashString_negative {start : Nat} (small : len.toNat + 1 < 2 ^ 31) :
    hashString memory start len (-1) = some 0 := by
  have negative : (-1 : BitVec 32).toInt = -1 := by decide
  rw [hashString, negative, hashLoop, if_neg (by omega)]

/-! The byte after a key is hashed with it, and can be anything. -/

theorem sameKey_update {start place : Nat} (value : UInt8) (behind : start + len.toNat ≤ place) :
    SameKey memory (Function.update memory place value) start len :=
  fun index inside => Function.update_of_ne (by omega) ..

private theorem hashString_update {start : Nat} (value : UInt8) (small : len.toNat + 1 < 2 ^ 31) :
    hashString (Function.update memory (start + len.toNat) value) start len 0 =
      some (5 * hashBytes memory start len.toNat + value.toBitVec.signExtend 64) := by
  rw [hashString_zero small, hashBytes_congr (sameKey_update value (Nat.le_refl _)), char, Function.update_self]

theorem Respects.symm {a b : Nat} (respects : Respects memory a b len) : Respects memory b a len := by
  intro other same same' i i'
  obtain ⟨hash, first, second⟩ := respects other same' same i' i
  exact ⟨hash, second, first⟩

private theorem not_respects_of_le {a b : Nat} (small : len.toNat + 1 < 2 ^ 31) (order : a ≤ b) :
    ¬ Respects memory a b len := by
  intro respects
  have zero : ∀ value : UInt8, 5 * hashBytes memory b len.toNat + value.toBitVec.signExtend 64 = 0 := by
    intro value
    obtain ⟨hash, first, second⟩ := respects (Function.update memory (b + len.toNat) value)
      (sameKey_update value (by omega)) (sameKey_update value (Nat.le_refl _)) (-1) 0
    rw [hashString_negative small] at first
    rw [hashString_update value small] at second
    cases first
    exact Option.some.inj second
  have different := (zero 0).trans (zero 1).symm
  exact absurd ((BitVec.add_right_inj _).mp different) (by decide)

private theorem not_respects (memory : Memory) (a b : Nat) (len : BitVec 64) : ¬ Respects memory a b len := by
  by_cases small : len.toNat + 1 < 2 ^ 31
  · rcases Nat.le_total a b with order | order
    · exact not_respects_of_le small order
    · exact fun respects => not_respects_of_le small order respects.symm
  · intro respects
    obtain ⟨hash, first, _⟩ := respects memory (fun _ _ => rfl) (fun _ _ => rfl) 0 0
    rw [hashString_overflow (Nat.le_of_not_lt small)] at first
    cases first

private theorem exists_bucket (hash : BitVec 64) {buckets : Nat} (several : 2 ≤ buckets) (taken : Nat) :
    ∃ value : UInt8, (hash + value.toBitVec.signExtend 64).toNat % buckets ≠ taken := by
  by_contra all
  have same : ∀ value : UInt8, (hash + value.toBitVec.signExtend 64).toNat % buckets = taken :=
    fun value => not_not.mp fun different => all ⟨value, different⟩
  have first : hash.toNat % buckets = taken := by simpa using same 0
  have second : (hash.toNat + 1) % 2 ^ 64 % buckets = taken := by simpa [BitVec.toNat_add] using same 1
  have third : (hash.toNat + 2) % 2 ^ 64 % buckets = taken := by simpa [BitVec.toNat_add] using same 2
  by_cases last : hash.toNat + 1 < 2 ^ 64
  · rw [Nat.mod_eq_of_lt last] at second
    have divides := (Nat.modEq_iff_dvd' (Nat.le_succ hash.toNat)).mp (first.trans second.symm)
    have one := Nat.le_of_dvd (by omega) divides
    omega
  · -- The hash wraps to zero, and the next one is one.
    have top : hash.toNat = 2 ^ 64 - 1 := by omega
    rw [top] at second third
    have wrapped : (2 ^ 64 - 1 + 1) % 2 ^ 64 = 0 := by decide
    have after : (2 ^ 64 - 1 + 2) % 2 ^ 64 = 1 := by decide
    rw [wrapped, Nat.zero_mod] at second
    rw [after, Nat.mod_eq_of_lt several] at third
    omega

private theorem exists_split_of_lt {a b buckets : Nat} (small : len.toNat + 1 < 2 ^ 31) (order : a < b)
    (several : 2 ≤ buckets) : ∃ other hash hash', SameKey memory other a len ∧ SameKey memory other b len ∧
      hashString other a len 0 = some hash ∧ hashString other b len 0 = some hash' ∧
      hash.toNat % buckets ≠ hash'.toNat % buckets := by
  obtain ⟨value, apart⟩ := exists_bucket (5 * hashBytes memory b len.toNat) several
    ((hashBytes memory a (len.toNat + 1)).toNat % buckets)
  refine ⟨Function.update memory (b + len.toNat) value, _, _, sameKey_update value (by omega),
    sameKey_update value (Nat.le_refl _), ?_, hashString_update value small, Ne.symm apart⟩
  have same : ∀ index < len.toNat + 1,
      Function.update memory (b + len.toNat) value (a + index) = memory (a + index) :=
    fun index inside => Function.update_of_ne (by omega) ..
  rw [hashString_zero small]
  exact congrArg some (hashBytes_congr same)

/-- No pair of keys that compare equal is hashed alike in all surroundings: the loop
starts where the stack says, and goes one byte beyond the key. Even when it starts at
zero, the byte after one of the keys can put them in different buckets. -/
theorem hashString_respects_iff (memory : Memory) (a b : Nat) (len : BitVec 64) :
    ((compareString memory a b len = true → Respects memory a b len) ↔ DifferBeforeNul memory a b len.toNat) ∧
      (a ≠ b → len.toNat + 1 < 2 ^ 31 → ∀ buckets, 2 ≤ buckets → ∃ other hash hash',
        SameKey memory other a len ∧ SameKey memory other b len ∧
        hashString other a len 0 = some hash ∧ hashString other b len 0 = some hash' ∧
        hash.toNat % buckets ≠ hash'.toNat % buckets) := by
  constructor
  · rw [← compareString_eq_false]
    constructor
    · intro claim
      by_contra equal
      exact not_respects memory a b len (claim (Bool.eq_true_of_not_eq_false equal))
    · intro different equal
      rw [different] at equal
      cases equal
  · intro different small buckets several
    rcases Nat.lt_or_gt_of_ne different with order | order
    · exact exists_split_of_lt small order several
    · obtain ⟨other, hash, hash', first, second, hashed, hashed', apart⟩ :=
        exists_split_of_lt small order several
      exact ⟨other, hash', hash, second, first, hashed', hashed, Ne.symm apart⟩

/-- Two empty keys. -/
theorem hashString_empty : ¬ ∀ (memory : Memory) (a b : Nat) (len : BitVec 64),
    compareString memory a b len = true → Respects memory a b len :=
  fun claim => not_respects (fun _ => 0) 16 32 0 (claim _ 16 32 0 (by decide))

end ProcessAsThread.HashFuncs
