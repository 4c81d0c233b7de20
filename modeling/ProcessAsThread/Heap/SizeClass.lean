import ProcessAsThread.Heap.Layers

/-! The Kingsley size classes: class `c` holds objects of `2 ^ (c + 3)` bytes, and
`size2Class` finds the smallest class a size fits in. None of their assertions
fails for a size up to the largest class. -/

namespace ProcessAsThread.Heap

theorem check_true {condition : Prop} [Decidable condition] (holds : condition) :
    check condition = .ok () := by
  simp [check, holds]

/-- A call that succeeds goes on with its result. -/
theorem ok_bind (value : α) (next : α → Outcome β) : (Except.ok value >>= next) = next value := rfl

theorem bind_eq_ok {call : Outcome α} {next : α → Outcome β} :
    (call >>= next) = .ok result ↔ ∃ value, call = .ok value ∧ next value = .ok result := by
  cases call <;> simp [bind, Except.bind]

theorem toOption_eq_some {call : Outcome α} : call.toOption = some result ↔ call = .ok result := by
  cases call <;> simp [Except.toOption]

theorem sizeT_small {value : Nat} (small : value < 2 ^ 64) : sizeT value = value :=
  Nat.mod_eq_of_lt small

namespace Kingsley

theorem class2Size_nat {c : Nat} (small : c ≤ 28) : class2Size c = 2 ^ (c + 3) := by
  have exponent : ((c : Int) + 3).toNat = c + 3 := by omega
  rw [class2Size, exponent, sizeT_small]
  exact Nat.pow_lt_pow_right (by omega) (by omega)

theorem maxObjectSize_eq : StrictSegHeap.maxObjectSize = 2 ^ 31 := class2Size_nat (Nat.le_refl 28)

private theorem cl_fits : ∀ index : Fin 16, ∃ c : Fin 5, cl.getD index 0 = (c : Nat) ∧
    8 * (index.val + 1) ≤ 2 ^ (c.val + 3) ∧ (0 < c.val → 2 ^ (c.val + 2) ≤ 8 * index.val) := by
  decide

private theorem countClass_fits {fuel sz1 : Nat} (c : Int) (bound : sz1 < 2 ^ (fuel + 3)) :
    ∃ k : Nat, countClass fuel sz1 c = c + k ∧ sz1 < 8 * 2 ^ k ∧ (0 < k → 4 * 2 ^ k ≤ sz1) := by
  induction fuel generalizing sz1 c with
  | zero => exact ⟨0, by simp [countClass], by omega, by omega⟩
  | succ fuel ih =>
    by_cases large : 7 < sz1
    · have half : sz1 / 2 < 2 ^ (fuel + 3) := by
        rw [Nat.pow_succ] at bound
        omega
      obtain ⟨k, counted, upper, lower⟩ := ih (c + 1) half
      refine ⟨k + 1, ?_, ?_, ?_⟩
      · simp only [countClass, large, if_true, counted]
        omega
      · rw [Nat.pow_succ]
        omega
      · intro _
        rw [Nat.pow_succ]
        rcases Nat.eq_zero_or_pos k with none | some
        · subst none
          omega
        · have := lower some
          omega
    · exact ⟨0, by simp [countClass, large], by omega, by omega⟩

theorem class_fits {sz : Nat} (low : 8 ≤ sz) (high : sz ≤ 2 ^ 31) :
    ∃ c : Nat, (if sz ≤ 128 then cl.getD ((sz - 1) / 8) 0 else countClass 64 ((sz - 1) / 32) 5) = c ∧
      sz ≤ 2 ^ (c + 3) ∧ (0 < c → 2 ^ (c + 2) < sz) := by
  by_cases small : sz ≤ 128
  · obtain ⟨c, looked, upper, lower⟩ := cl_fits ⟨(sz - 1) / 8, by omega⟩
    simp only at looked upper lower
    refine ⟨c, by rw [if_pos small]; exact looked, by omega, ?_⟩
    intro positive
    have := lower positive
    omega
  · obtain ⟨k, counted, upper, lower⟩ := @countClass_fits 64 ((sz - 1) / 32) 5 (by omega)
    refine ⟨k + 5, ?_, ?_, ?_⟩
    · rw [if_neg small, counted]
      omega
    · rw [show k + 5 + 3 = k + 8 by omega, Nat.pow_add]
      omega
    · intro _
      rw [show k + 5 + 2 = k + 7 by omega, Nat.pow_add]
      rcases Nat.eq_zero_or_pos k with none | some
      · subst none
        omega
      · have := lower some
        omega

/-- `size2Class` finds the smallest class that a size fits in. -/
theorem size2Class_fits {sz : Nat} (bound : sz ≤ StrictSegHeap.maxObjectSize) :
    ∃ c : Nat, c ≤ 28 ∧ size2Class sz = .ok c ∧ sz ≤ 2 ^ (c + 3) ∧ (0 < c → 2 ^ (c + 2) < sz) := by
  rw [maxObjectSize_eq] at bound
  have low : 8 ≤ if sz < 8 then 8 else sz := by split <;> omega
  have high : (if sz < 8 then 8 else sz) ≤ 2 ^ 31 := by split <;> omega
  obtain ⟨c, chosen, upper, lower⟩ := class_fits low high
  have strict : 0 < c → 2 ^ (c + 2) < sz := by
    intro positive
    have below := lower positive
    have := Nat.pow_le_pow_right (show 0 < 2 by omega) (show 3 ≤ c + 2 by omega)
    split at below <;> omega
  have small : c ≤ 28 := by
    by_contra large
    have := Nat.pow_le_pow_right (show 0 < 2 by omega) (show 31 ≤ c + 2 by omega)
    have := strict (by omega)
    omega
  refine ⟨c, small, ?_, ?_, strict⟩
  · simp only [size2Class, chosen, class2Size_nat small, check_true upper]
    rfl
  · split at upper <;> omega

/-- The size of a class is in that class. -/
theorem size2Class_class {c : Nat} (small : c ≤ 28) : size2Class (2 ^ (c + 3)) = .ok c := by
  have bound : 2 ^ (c + 3) ≤ StrictSegHeap.maxObjectSize := by
    rw [maxObjectSize_eq]
    exact Nat.pow_le_pow_right (by omega) (by omega)
  obtain ⟨c', _, found, upper, lower⟩ := size2Class_fits bound
  have above : c + 3 ≤ c' + 3 := (Nat.pow_le_pow_iff_right (by omega)).mp upper
  have same : c' = c := by
    rcases Nat.eq_zero_or_pos c' with none | some
    · omega
    · have := (Nat.pow_lt_pow_iff_right (show 1 < 2 by omega)).mp (lower some)
      omega
  rw [found, same]

theorem class2Size_below {c : Nat} (small : c ≤ 28) (positive : 0 < c) :
    class2Size ((c : Int) - 1) = 2 ^ (c + 2) := by
  obtain ⟨d, rfl⟩ : ∃ d, c = d + 1 := ⟨c - 1, by omega⟩
  rw [show ((d + 1 : Nat) : Int) - 1 = (d : Nat) by omega, class2Size_nat (by omega)]

private theorem lowerClass_tiny : ∀ sz : Fin 8, 0 < sz.val →
    class2Size (StrictSegHeap.lowerClass sz 32 0) ≤ sz ∧ StrictSegHeap.lowerClass sz 32 0 ≤ 0 := by
  decide

/-- From the class a size fits in, the loop ends at a class no larger than the size. -/
theorem lowerClass_fits {c sz : Nat} (small : c ≤ 28) (positive : 0 < sz) (upper : sz ≤ 2 ^ (c + 3))
    (lower : 0 < c → 2 ^ (c + 2) < sz) :
    class2Size (StrictSegHeap.lowerClass sz 32 c) ≤ sz ∧
      (0 < StrictSegHeap.lowerClass sz 32 c → class2Size (StrictSegHeap.lowerClass sz 32 c - 1) ≤ sz) ∧
      (sz = 2 ^ (c + 3) → StrictSegHeap.lowerClass sz 32 c = c) := by
  have here := class2Size_nat small
  by_cases full : sz = 2 ^ (c + 3)
  · have settled : StrictSegHeap.lowerClass sz 32 c = c := by
      simp only [StrictSegHeap.lowerClass, here]
      rw [if_neg (by omega)]
    rw [settled, here]
    refine ⟨by omega, fun some => ?_, fun _ => rfl⟩
    have some : 0 < c := by omega
    rw [class2Size_below small some]
    exact Nat.le_of_lt (lower some)
  · rcases Nat.eq_zero_or_pos c with none | some
    · subst none
      obtain ⟨fits, top⟩ := lowerClass_tiny ⟨sz, by omega⟩ positive
      exact ⟨fits, fun above => absurd above (Int.not_lt.mpr top), fun same => (full same).elim⟩
    · obtain ⟨d, rfl⟩ : ∃ d, c = d + 1 := ⟨c - 1, by omega⟩
      have below : 2 ^ (d + 3) < sz := lower some
      have next : class2Size d = 2 ^ (d + 3) := class2Size_nat (by omega)
      have lowered : StrictSegHeap.lowerClass sz 32 ((d + 1 : Nat) : Int) = (d : Nat) := by
        simp only [StrictSegHeap.lowerClass, here, show ((d + 1 : Nat) : Int) - 1 = (d : Nat) by omega, next]
        rw [if_pos (by omega), if_neg (by omega)]
      rw [lowered, next]
      refine ⟨by omega, fun above => ?_, fun same => (full same).elim⟩
      rw [class2Size_below (by omega) (by omega)]
      have := Nat.pow_le_pow_right (show 0 < 2 by omega) (show d + 2 ≤ d + 3 by omega)
      omega

end Kingsley

end ProcessAsThread.Heap
