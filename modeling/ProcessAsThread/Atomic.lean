import Mathlib.Algebra.Ring.Nat
import Mathlib.Algebra.Ring.Int.Defs
import ProcessAsThread.Library.Run

/-! The counters of atomic.h in the 64-bit build. Where the operand is an `int` or
the mnemonic ends in `l`, the instruction works on 32 bits: the low half of the
`unsigned long`. -/

namespace ProcessAsThread.Atomic

open Library

/-- The `int` at the address of an `unsigned long`. -/
def low (obj : BitVec 64) : BitVec 32 := obj.setWidth 32

/-- `addl` there: the carry out of it is lost. -/
def addl (i : BitVec 32) (obj : BitVec 64) : BitVec 64 := obj.extractLsb' 32 32 ++ (low obj + i)

/-- `xadd` of an `unsigned long`; what was there, and what is there now. -/
def atomicIncrementAndReturn (obj : BitVec 64) : BitVec 64 × BitVec 64 := (obj, obj + 1)

/-- `incl`. -/
def atomicIncrement (obj : BitVec 64) : BitVec 64 := addl 1 obj

def atomicAdd (i : BitVec 32) (obj : BitVec 64) : BitVec 64 := addl i obj

/-- `decl`. -/
def atomicDecrement (obj : BitVec 64) : BitVec 64 := addl (-1) obj

/-- `xadd` of an `int`. -/
def atomicDecrementAndReturn (obj : BitVec 64) : BitVec 32 × BitVec 64 := (low obj, addl (-1) obj)

inductive Operation where
  | increment
  | decrement
  | add (i : BitVec 32)
  | incrementAndReturn
  | decrementAndReturn
  deriving DecidableEq, Repr

/-- What a call returns, as an `unsigned long`, and the counter it leaves. -/
def perform (obj : BitVec 64) : Operation → Option (BitVec 64) × BitVec 64
  | .increment => (none, atomicIncrement obj)
  | .decrement => (none, atomicDecrement obj)
  | .add i => (none, atomicAdd i obj)
  | .incrementAndReturn => (some (atomicIncrementAndReturn obj).1, (atomicIncrementAndReturn obj).2)
  | .decrementAndReturn =>
    (some ((atomicDecrementAndReturn obj).1.signExtend 64), (atomicDecrementAndReturn obj).2)

def step (obj : BitVec 64) (operation : Operation) : Option (BitVec 64) := some (perform obj operation).2

def Operation.change : Operation → Int
  | .increment | .incrementAndReturn => 1
  | .decrement | .decrementAndReturn => -1
  | .add i => i.toInt

/-- In every state of a run the counter is the initial value with all changes so far,
and each value returned is that of the counter before the call. -/
def Exact (initial : BitVec 64) : List (BitVec 64 × Operation) → BitVec 64 → Prop
  | [], obj => obj = initial
  | (before, operation) :: earlier, obj =>
    obj = initial + BitVec.ofInt 64 (((before, operation) :: earlier).map fun entry => entry.2.change).sum ∧
    (∀ value, (perform before operation).1 = some value → value = before) ∧ Exact initial earlier before

/-- The change stays within the low half, and a returned `int` is the whole counter. -/
def NoCarry (obj : BitVec 64) : Operation → Prop
  | .increment => (low obj).toNat + 1 < 2 ^ 32
  | .decrement => 0 < (low obj).toNat
  | .add i => 0 ≤ (low obj).toNat + i.toInt ∧ (low obj).toNat + i.toInt < 2 ^ 32
  | .incrementAndReturn => True
  | .decrementAndReturn => 0 < (low obj).toNat ∧ (low obj).signExtend 64 = obj

instance (obj : BitVec 64) : (operation : Operation) → Decidable (NoCarry obj operation)
  | .increment => Nat.decLt ..
  | .decrement => Nat.decLt ..
  | .add _ => instDecidableAnd
  | .incrementAndReturn => instDecidableTrue
  | .decrementAndReturn => instDecidableAnd

private theorem toNat_addl (i : BitVec 32) (obj : BitVec 64) :
    (addl i obj).toNat = obj.toNat / 2 ^ 32 * 2 ^ 32 + (obj.toNat + i.toNat) % 2 ^ 32 := by
  have small : (low obj + i).toNat = (obj.toNat + i.toNat) % 2 ^ 32 := by
    simp [low, BitVec.toNat_add]
  have high : (obj.extractLsb' 32 32).toNat = obj.toNat / 2 ^ 32 := by
    rw [BitVec.extractLsb'_toNat, Nat.shiftRight_eq_div_pow]
    omega
  have bound : (obj.toNat + i.toNat) % 2 ^ 32 < 2 ^ 32 := Nat.mod_lt _ (by decide)
  rw [addl, BitVec.toNat_append, small, high, ← Nat.shiftLeft_add_eq_or_of_lt bound, Nat.shiftLeft_eq]

private theorem addl_eq_iff (i : BitVec 32) (obj : BitVec 64) : addl i obj = obj + BitVec.ofInt 64 i.toInt ↔
    0 ≤ (low obj).toNat + i.toInt ∧ (low obj).toNat + i.toInt < 2 ^ 32 := by
  have half : (low obj).toNat = obj.toNat % 2 ^ 32 := BitVec.toNat_setWidth ..
  have sum : (obj + BitVec.ofInt 64 i.toInt).toNat = ((obj.toNat + i.toInt) % 2 ^ 64).toNat := by
    rw [BitVec.toNat_add, BitVec.toNat_ofInt]
    omega
  have signed : i.toInt = i.toNat ∧ i.toNat < 2 ^ 31 ∨ i.toInt = i.toNat - 2 ^ 32 ∧ 2 ^ 31 ≤ i.toNat := by
    rw [BitVec.toInt_eq_toNat_cond]
    split <;> omega
  rw [← BitVec.toNat_inj, toNat_addl, sum, half]
  omega

private theorem addl_one_iff (obj : BitVec 64) :
    addl 1 obj = obj + BitVec.ofInt 64 1 ↔ (low obj).toNat + 1 < 2 ^ 32 := by
  have one : (1 : BitVec 32).toInt = 1 := by decide
  rw [← one, addl_eq_iff, one]
  omega

private theorem addl_neg_one_iff (obj : BitVec 64) :
    addl (-1) obj = obj + BitVec.ofInt 64 (-1) ↔ 0 < (low obj).toNat := by
  have minus : (-1 : BitVec 32).toInt = -1 := by decide
  rw [← minus, addl_eq_iff, minus]
  omega

/-- One call makes its change and returns the counter exactly if nothing is carried. -/
theorem perform_iff_noCarry (obj : BitVec 64) (operation : Operation) :
    (perform obj operation).2 = obj + BitVec.ofInt 64 operation.change ∧
      (∀ value, (perform obj operation).1 = some value → value = obj) ↔ NoCarry obj operation := by
  cases operation with
  | increment =>
    rw [NoCarry, ← addl_one_iff]
    simp [perform, atomicIncrement, Operation.change]
  | decrement =>
    rw [NoCarry, ← addl_neg_one_iff]
    simp [perform, atomicDecrement, Operation.change]
  | add i =>
    rw [NoCarry, ← addl_eq_iff]
    simp [perform, atomicAdd, Operation.change]
  | incrementAndReturn => simp [perform, atomicIncrementAndReturn, Operation.change, NoCarry]
  | decrementAndReturn =>
    rw [NoCarry, ← addl_neg_one_iff]
    simp [perform, atomicDecrementAndReturn, Operation.change]

theorem Exact.counter {initial obj : BitVec 64} {history : List (BitVec 64 × Operation)}
    (exact : Exact initial history obj) :
    obj = initial + BitVec.ofInt 64 (history.map fun entry => entry.2.change).sum := by
  cases history with
  | nil =>
    rw [show obj = initial from exact]
    exact (BitVec.add_zero initial).symm
  | cons entry earlier => exact exact.1

/-- In every run the counter is exact in all states, and so are the values returned,
exactly if no step has a carry out of the low half. -/
theorem exact_iff_noCarry {initial obj : BitVec 64} {history : List (BitVec 64 × Operation)}
    (run : Run step initial history obj) : Exact initial history obj ↔ Meets NoCarry history := by
  induction run with
  | start => simp [Exact, Meets]
  | @next earlier before operation after run taken ih =>
    cases taken
    have met : Meets NoCarry ((before, operation) :: earlier) ↔
        NoCarry before operation ∧ Meets NoCarry earlier := List.forall_mem_cons
    have changed : Exact initial earlier before →
        initial + BitVec.ofInt 64 (((before, operation) :: earlier).map fun entry => entry.2.change).sum =
          before + BitVec.ofInt 64 operation.change := by
      intro exact
      rw [exact.counter, List.map_cons, List.sum_cons, Int.add_comm, BitVec.ofInt_add, BitVec.add_assoc]
    rw [met, ← ih, ← perform_iff_noCarry, and_assoc, Exact]
    constructor
    · rintro ⟨counter, returned, exact⟩
      exact ⟨counter.trans (changed exact), returned, exact⟩
    · rintro ⟨counter, returned, exact⟩
      exact ⟨counter.trans (changed exact).symm, returned, exact⟩

def upAndDown : List (BitVec 64 × Operation) :=
  [(3, .incrementAndReturn), (4, .decrementAndReturn), (1, .add 3), (2, .decrement), (1, .increment),
    (5, .add (-4))]

theorem exact_iff_noCarry_upAndDown : Run step 5 upAndDown 4 ∧ Exact 5 upAndDown 4 := by
  have run : Run step 5 upAndDown 4 :=
    .next (.next (.next (.next (.next (.next .start rfl) rfl) rfl) rfl) rfl) rfl
  have meets : ∀ entry ∈ upAndDown, NoCarry entry.1 entry.2 := by decide
  exact ⟨run, (exact_iff_noCarry run).mpr meets⟩

/-- The carry of an increment is lost. -/
theorem exact_carry : ¬ ∀ (initial obj : BitVec 64) (history : List (BitVec 64 × Operation)),
    Run step initial history obj → Exact initial history obj := by
  intro claim
  have exact := claim (2 ^ 32 - 1) 0 [(2 ^ 32 - 1, .increment)] (Run.start.next (by decide))
  exact absurd exact.1 (by decide)

end ProcessAsThread.Atomic
