import Mathlib.SetTheory.Cardinal.NatCard
import Mathlib.Data.Set.Card
import ProcessAsThread.HashMap.Refinement
import ProcessAsThread.Library.BitMixing

/-! The functions of hashfuncs.h for keys that are numbers or addresses. -/

namespace ProcessAsThread.HashFuncs

open Library

/-- An `int` becomes a `size_t`. -/
def hashInt (x : BitVec 32) (_len : Nat) : Nat := (x.signExtend 64).toNat

/-- The six statements of `hashAddr` on `key`. -/
def mixAddr (key : BitVec 64) : BitVec 64 :=
  let key := key ^^^ (key <<< 15 ^^^ 0xcd7dcd7d)
  let key := key ^^^ key >>> 10
  let key := key ^^^ key <<< 3
  let key := key ^^^ key >>> 6
  let key := key ^^^ (key <<< 2 + key <<< 14)
  key ^^^ key >>> 16

def hashAddr (addr : BitVec 64) (_len : Nat) : Nat := (mixAddr addr).toNat

def compareInt (var1 var2 : BitVec 32) (_len : Nat) : Bool := var1 == var2

def intKeys : KeyFunctions (BitVec 32) := ⟨hashInt, compareInt⟩

/-- Keys that are compared by `==` may be hashed in any way. -/
theorem lawful_of_beq {Key : Type} [BEq Key] [LawfulBEq Key] (hashfunc : Key → Nat → Nat) :
    KeyFunctions.Lawful ⟨hashfunc, fun key other _ => key == other⟩ where
  refl _ _ := beq_self_eq_true _
  symm same := beq_iff_eq.mpr (beq_iff_eq.mp same).symm
  trans same same' := beq_iff_eq.mpr ((beq_iff_eq.mp same).trans (beq_iff_eq.mp same'))
  hash same := by rw [beq_iff_eq.mp same]

theorem intKeys_lawful : intKeys.Lawful := lawful_of_beq hashInt

private theorem mixAddr_injective : Function.Injective mixAddr := by
  have first : Function.Injective fun key : BitVec 64 => key ^^^ (key <<< 15 ^^^ 0xcd7dcd7d) :=
    ((LooksBelow.shiftLeft (by decide)).xor (.const _)).injective
  have third : Function.Injective fun key : BitVec 64 => key ^^^ key <<< 3 :=
    (LooksBelow.shiftLeft (by decide)).injective
  have fifth : Function.Injective fun key : BitVec 64 => key ^^^ (key <<< 2 + key <<< 14) :=
    ((LooksBelow.shiftLeft (by decide)).add (LooksBelow.shiftLeft (by decide))).injective
  have right : ∀ shift, 0 < shift → Function.Injective fun key : BitVec 64 => key ^^^ key >>> shift :=
    fun _ positive => xor_shiftRight_injective positive
  exact (right 16 (by decide)).comp (fifth.comp ((right 6 (by decide)).comp (third.comp
    ((right 10 (by decide)).comp first))))

private theorem exists_address {hash : Nat} (small : hash < 2 ^ 64) (len : Nat) :
    ∃ addr, hashAddr addr len = hash := by
  have finite : Finite (BitVec 64) := Finite.of_injective BitVec.toFin fun _ _ => BitVec.eq_of_toFin_eq
  obtain ⟨addr, same⟩ := (Finite.injective_iff_surjective.mp mixAddr_injective) (BitVec.ofNat 64 hash)
  refine ⟨addr, ?_⟩
  rw [hashAddr, same, BitVec.toNat_ofNat, Nat.mod_eq_of_lt small]

/-- Over `2 ^ bits` buckets the addresses are spread evenly. -/
theorem hashAddr_spread {bits index : Nat} (fits : bits ≤ 64) (inside : index < 2 ^ bits) (len : Nat) :
    {addr : BitVec 64 | hashAddr addr len % 2 ^ bits = index}.ncard = 2 ^ (64 - bits) := by
  have whole : 2 ^ bits * 2 ^ (64 - bits) = 2 ^ 64 := by
    rw [← Nat.pow_add, Nat.add_sub_cancel' fits]
  have small : ∀ turn < 2 ^ (64 - bits), index + 2 ^ bits * turn < 2 ^ 64 := by
    intro turn less
    calc index + 2 ^ bits * turn < 2 ^ bits + 2 ^ bits * turn := Nat.add_lt_add_right inside _
      _ = 2 ^ bits * (turn + 1) := by rw [Nat.mul_succ, Nat.add_comm]
      _ ≤ 2 ^ bits * 2 ^ (64 - bits) := Nat.mul_le_mul_left _ less
      _ = 2 ^ 64 := whole
  have counted : (Finset.range (2 ^ (64 - bits)) : Set Nat).ncard = 2 ^ (64 - bits) := by
    rw [Set.ncard_coe_finset, Finset.card_range]
  rw [← counted]
  refine Set.ncard_congr (fun addr _ => hashAddr addr len / 2 ^ bits) ?_ ?_ ?_
  · intro addr _
    have less : hashAddr addr len < 2 ^ bits * 2 ^ (64 - bits) := whole ▸ (mixAddr addr).isLt
    simpa using Nat.div_lt_of_lt_mul less
  · intro addr other here there same
    have hashes : hashAddr addr len = hashAddr other len := by
      rw [← Nat.mod_add_div (hashAddr addr len) (2 ^ bits), ← Nat.mod_add_div (hashAddr other len) (2 ^ bits), here,
        there, same]
    exact mixAddr_injective (BitVec.eq_of_toNat_eq hashes)
  · intro turn less
    obtain ⟨addr, same⟩ := exists_address (small turn (by simpa using less)) len
    refine ⟨addr, ?_, ?_⟩
    · rw [Set.mem_ofPred_eq, same, Nat.add_mul_mod_self_left, Nat.mod_eq_of_lt inside]
    · rw [same, Nat.add_mul_div_left _ _ (Nat.two_pow_pos bits), Nat.div_eq_of_lt inside, Nat.zero_add]

/-- The 4096 buckets a map has by default. -/
theorem hashAddr_spread_default :
    {addr : BitVec 64 | hashAddr addr 8 % 2 ^ 12 = 5}.ncard = 2 ^ 52 :=
  hashAddr_spread (by decide) (by decide) 8

end ProcessAsThread.HashFuncs
