import Mathlib.Data.Nat.ModEq

/-! Steps that mix the bits of a word, `x ^^^ g x`. Where the bits of `g x` only depend
on lower ones of `x` the word can be read back from its lowest bit on. -/

namespace ProcessAsThread.Library

variable {w : Nat}

/-- The lowest `n` bits are the same. -/
def AgreeBelow (n : Nat) (x y : BitVec w) : Prop := x.toNat ≡ y.toNat [MOD 2 ^ n]

/-- Each bit of the result depends on lower bits only. -/
def LooksBelow (g : BitVec w → BitVec w) : Prop :=
  ∀ n < w, ∀ x y, AgreeBelow n x y → AgreeBelow (n + 1) (g x) (g y)

theorem AgreeBelow.eq {x y : BitVec w} (agree : AgreeBelow w x y) : x = y := by
  refine BitVec.eq_of_toNat_eq ?_
  have same : x.toNat % 2 ^ w = y.toNat % 2 ^ w := agree
  rwa [Nat.mod_eq_of_lt x.isLt, Nat.mod_eq_of_lt y.isLt] at same

theorem AgreeBelow.xor {n : Nat} {x x' y y' : BitVec w} (first : AgreeBelow n x y)
    (second : AgreeBelow n x' y') : AgreeBelow n (x ^^^ x') (y ^^^ y') := by
  have first : x.toNat % 2 ^ n = y.toNat % 2 ^ n := first
  have second : x'.toNat % 2 ^ n = y'.toNat % 2 ^ n := second
  simp only [AgreeBelow, Nat.ModEq, BitVec.toNat_xor, Nat.xor_mod_two_pow, first, second]

/-- What is cut off above the word does not matter below. -/
theorem modEq_word {n : Nat} (inside : n ≤ w) (value : Nat) : value % 2 ^ w ≡ value [MOD 2 ^ n] :=
  (Nat.mod_modEq value (2 ^ w)).of_dvd (pow_dvd_pow 2 inside)

theorem AgreeBelow.add {n : Nat} {x x' y y' : BitVec w} (inside : n ≤ w) (first : AgreeBelow n x y)
    (second : AgreeBelow n x' y') : AgreeBelow n (x + x') (y + y') := by
  rw [AgreeBelow, BitVec.toNat_add, BitVec.toNat_add]
  exact ((modEq_word inside _).trans (Nat.ModEq.add first second)).trans (modEq_word inside _).symm

theorem LooksBelow.const (value : BitVec w) : LooksBelow fun _ => value :=
  fun _ _ _ _ _ => Nat.ModEq.refl _

theorem LooksBelow.shiftLeft {shift : Nat} (positive : 0 < shift) :
    LooksBelow fun x : BitVec w => x <<< shift := by
  intro n inside x y agree
  have shifted : x.toNat * 2 ^ shift ≡ y.toNat * 2 ^ shift [MOD 2 ^ (n + 1)] := by
    have wider := Nat.ModEq.mul_right' (2 ^ shift) agree
    rw [← Nat.pow_add] at wider
    exact wider.of_dvd (pow_dvd_pow 2 (by omega))
  simp only [AgreeBelow, BitVec.toNat_shiftLeft, Nat.shiftLeft_eq]
  exact ((modEq_word inside _).trans shifted).trans (modEq_word inside _).symm

theorem LooksBelow.xor {g h : BitVec w → BitVec w} (first : LooksBelow g) (second : LooksBelow h) :
    LooksBelow fun x => g x ^^^ h x :=
  fun n inside x y agree => (first n inside x y agree).xor (second n inside x y agree)

theorem LooksBelow.add {g h : BitVec w → BitVec w} (first : LooksBelow g) (second : LooksBelow h) :
    LooksBelow fun x => g x + h x :=
  fun n inside x y agree => (first n inside x y agree).add inside (second n inside x y agree)

/-- From the lowest bit on, what is mixed in is known when the next bit is read back. -/
theorem LooksBelow.injective {g : BitVec w → BitVec w} (looks : LooksBelow g) :
    Function.Injective fun x => x ^^^ g x := by
  intro x y same
  have same : x ^^^ g x = y ^^^ g y := same
  have agree : ∀ n ≤ w, AgreeBelow n x y := by
    intro n inside
    induction n with
    | zero => exact Nat.modEq_one
    | succ n ih =>
      have mixed := looks n inside x y (ih (Nat.le_of_succ_le inside))
      have whole : AgreeBelow (n + 1) (x ^^^ g x) (y ^^^ g y) := same ▸ Nat.ModEq.refl _
      simpa [BitVec.xor_assoc] using whole.xor mixed
  exact (agree w (Nat.le_refl w)).eq

/-- A shift to the right: a difference would have to be a shift of itself. -/
theorem xor_shiftRight_injective {shift : Nat} (positive : 0 < shift) :
    Function.Injective fun x : BitVec w => x ^^^ x >>> shift := by
  intro x y same
  have difference : x ^^^ y = (x ^^^ y) >>> shift := by
    rw [BitVec.ushiftRight_xor_distrib]
    have same : x ^^^ x >>> shift = y ^^^ y >>> shift := same
    have moved := congrArg (fun z => z ^^^ (y ^^^ x >>> shift)) same
    have left : x ^^^ x >>> shift ^^^ (y ^^^ x >>> shift) = x ^^^ y := by
      rw [BitVec.xor_assoc, ← BitVec.xor_assoc (x >>> shift), BitVec.xor_comm (x >>> shift) y, BitVec.xor_assoc y,
        BitVec.xor_self, BitVec.xor_zero]
    have right : y ^^^ y >>> shift ^^^ (y ^^^ x >>> shift) = x >>> shift ^^^ y >>> shift := by
      rw [BitVec.xor_comm y (y >>> shift), BitVec.xor_assoc, ← BitVec.xor_assoc y, BitVec.xor_self, BitVec.zero_xor,
        BitVec.xor_comm]
    exact left.symm.trans (moved.trans right)
  have less : (x ^^^ y).toNat = (x ^^^ y).toNat / 2 ^ shift := by
    have moved := congrArg BitVec.toNat difference
    rwa [BitVec.toNat_ushiftRight, Nat.shiftRight_eq_div_pow] at moved
  have zero : (x ^^^ y).toNat = 0 := by
    rcases Nat.eq_zero_or_pos (x ^^^ y).toNat with none | some
    · exact none
    · have smaller := Nat.div_lt_self some (Nat.one_lt_two_pow (Nat.ne_of_gt positive))
      omega
  exact BitVec.xor_eq_zero_iff.mp (BitVec.eq_of_toNat_eq zero)

end ProcessAsThread.Library
