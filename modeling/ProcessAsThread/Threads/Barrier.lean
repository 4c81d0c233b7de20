import Mathlib.Data.Finset.Card
import Mathlib.Logic.Function.Basic
import ProcessAsThread.Library.Run

/-! The barrier functions of libmythread.cpp and myrun.h, for one barrier and any
number of threads. `barrier_wait` calls the real destroy function; the functions
behind WRAP are a parameter. -/

namespace ProcessAsThread

open Library

/-- The real barrier functions the wrappers call. A call that returns is its code
and the state it leaves; `none` is a code the call cannot return. `destroy` has
nothing to wait for: no thread is ever blocked in the real wait, which nobody calls. -/
structure RealBarrier where
  State : Type
  ready : State → Bool
  init : State → Nat → Int → Option State
  destroy : State → Int → Option State
  init_ready : init barrier count 0 = some after → ready after = true
  destroy_ends : destroy barrier 0 = some after → ready after = false
  destroy_fails : destroy barrier code = some after → code ≠ 0 → ready after = ready barrier
  destroy_returns : ∀ barrier, ∃ code after, destroy barrier code = some after
  destroy_succeeds : ready barrier = true → ∃ after, destroy barrier 0 = some after

/-- The barrier and the library around it. The counts and `destroyed`, which says
whether `pthread_barrier_destroy` has been called, are history. -/
structure BarrierUse (real : RealBarrier) where
  initialized : Bool
  barrier : real.State
  /-- In the real function `barrier_wait` calls. -/
  waiting : Nat → Bool
  entered : Nat
  returned : Nat
  destroyed : Bool

variable {real : RealBarrier}

/-- `pthread_barrier_init`; `count` reaches the real function, the attribute does not. -/
def pthreadBarrierInit (use : BarrierUse real) (count : Nat) (code : Int) : Option (BarrierUse real) :=
  if use.initialized then do
    let barrier ← real.init use.barrier count code
    return { use with barrier := barrier }
  else some use

def pthreadBarrierDestroy (use : BarrierUse real) (code : Int) : Option (BarrierUse real) :=
  let use := { use with destroyed := true }
  if use.initialized then do
    let barrier ← real.destroy use.barrier code
    return { use with barrier := barrier }
  else some use

/-- `pthread_barrier_wait`, up to the real function where it calls that. -/
def pthreadBarrierWait (use : BarrierUse real) (thread : Nat) : BarrierUse real :=
  let use := { use with entered := use.entered + 1 }
  if use.initialized then { use with waiting := Function.update use.waiting thread true }
  else { use with returned := use.returned + 1 }

/-- The rest of `pthread_barrier_wait`: `barrier_wait` has called the real destroy. -/
def pthreadBarrierWaitReturns (use : BarrierUse real) (thread : Nat) (code : Int) :
    Option (BarrierUse real) := do
  let barrier ← real.destroy use.barrier code
  return { use with
    barrier := barrier
    waiting := Function.update use.waiting thread false
    returned := use.returned + 1 }

/-- A step of one thread, or the destructor `finalize` in some exiting process. -/
inductive BarrierAction where
  | wait (thread : Nat)
  | waitReturns (thread : Nat) (code : Int)
  | destroy (code : Int)
  | finalize
  deriving DecidableEq, Repr

def barrierStep (use : BarrierUse real) : BarrierAction → Option (BarrierUse real)
  | .wait thread => if use.waiting thread then none else some (pthreadBarrierWait use thread)
  | .waitReturns thread code =>
    if use.waiting thread then pthreadBarrierWaitReturns use thread code else none
  | .destroy code => pthreadBarrierDestroy use code
  | .finalize => some { use with initialized := false }

/-- After the constructor, before any call on the barrier. -/
def BarrierUse.initial (barrier : real.State) : BarrierUse real where
  initialized := true
  barrier := barrier
  waiting := fun _ => false
  entered := 0
  returned := 0
  destroyed := false

/-- Calls return in full rounds only, and the barrier stays ready until it is destroyed. -/
structure RoundsKept (count : Nat) (use : BarrierUse real) : Prop where
  rounds : use.returned ≤ count * (use.entered / count)
  ready : use.destroyed = false → real.ready use.barrier = true

/-- The law, and that it still holds when the next waiting call comes back. -/
structure RoundsSafe (count : Nat) (use : BarrierUse real) : Prop where
  now : RoundsKept count use
  next : ∀ {thread code after}, barrierStep use (.waitReturns thread code) = some after →
    RoundsKept count after

/-- A call on a barrier of one that finds `initialized` cleared, or is made once
`pthread_barrier_destroy` has been called. -/
def WaitHarmless (count : Nat) (use : BarrierUse real) : BarrierAction → Prop
  | .wait _ => count = 1 ∧ (use.initialized = false ∨ use.destroyed = true)
  | .waitReturns _ _ | .destroy _ | .finalize => True

instance (count : Nat) (use : BarrierUse real) (action : BarrierAction) :
    Decidable (WaitHarmless count use action) := by
  unfold WaitHarmless
  split <;> infer_instance

/-- Every call that has been entered has returned or is waiting. -/
def Accounted (use : BarrierUse real) : Prop :=
  ∃ pending : Finset Nat, (∀ thread, use.waiting thread = true ↔ thread ∈ pending) ∧
    use.returned + pending.card = use.entered

theorem Accounted.wait {use : BarrierUse real} (accounted : Accounted use)
    (free : use.waiting thread = false) : Accounted (pthreadBarrierWait use thread) := by
  obtain ⟨pending, waits, balance⟩ := accounted
  unfold pthreadBarrierWait
  cases library : use.initialized with
  | false => exact ⟨pending, waits, by simp only [Bool.false_eq_true, ↓reduceIte]; omega⟩
  | true =>
    have absent : thread ∉ pending := by
      intro member
      rw [(waits thread).mpr member] at free
      cases free
    refine ⟨insert thread pending, fun other => ?_, ?_⟩
    · by_cases same : other = thread
      · simp [same]
      · simp [same, waits other]
    · simp only [Finset.card_insert_of_notMem absent, ↓reduceIte]
      omega

theorem Accounted.waitReturns {use after : BarrierUse real} (accounted : Accounted use)
    (waiting : use.waiting thread = true)
    (taken : pthreadBarrierWaitReturns use thread code = some after) :
    Accounted after ∧ use.returned < use.entered := by
  obtain ⟨pending, waits, balance⟩ := accounted
  obtain ⟨barrier, destroys, same⟩ := Option.bind_eq_some_iff.mp taken
  cases same
  have member := (waits thread).mp waiting
  have fewer := Finset.card_erase_add_one member
  refine ⟨⟨pending.erase thread, fun other => ?_, ?_⟩, by omega⟩
  · by_cases same : other = thread
    · simp [same]
    · simp [same, waits other]
  · simp only
    omega

/-- What harmless calls keep: the barrier stays ready, and only on a barrier of one
that is to be destroyed anyway there are calls of the real destroy under way. -/
structure Spared (count : Nat) (use : BarrierUse real) : Prop where
  accounted : Accounted use
  ready : use.destroyed = false → real.ready use.barrier = true
  late : use.waiting thread = true → use.destroyed = true
  single : 0 < use.entered → count = 1

theorem Spared.kept {use : BarrierUse real} (spared : Spared count use) : RoundsKept count use := by
  refine ⟨?_, spared.ready⟩
  obtain ⟨pending, _, balance⟩ := spared.accounted
  rcases Nat.eq_zero_or_pos use.entered with none | some
  · have quiet : use.returned = 0 := by omega
    rw [quiet]
    exact Nat.zero_le _
  · rw [spared.single some, Nat.div_one]
    omega

private theorem spared_wait {use : BarrierUse real} (spared : Spared count use)
    (free : use.waiting thread = false) (harmless : WaitHarmless count use (.wait thread)) :
    Spared count (pthreadBarrierWait use thread) := by
  have accounted := spared.accounted.wait free
  unfold pthreadBarrierWait at accounted ⊢
  cases library : use.initialized with
  | false =>
    simp only [library, Bool.false_eq_true, ↓reduceIte] at accounted ⊢
    exact ⟨accounted, spared.ready, spared.late, fun _ => harmless.1⟩
  | true =>
    have late : use.destroyed = true := by
      rcases harmless.2 with cleared | destroyed
      · rw [library] at cleared
        cases cleared
      · exact destroyed
    simp only [library, ↓reduceIte] at accounted ⊢
    exact ⟨accounted, spared.ready, fun _ => late, fun _ => harmless.1⟩

private theorem spared_waitReturns {use after : BarrierUse real} (spared : Spared count use)
    (waiting : use.waiting thread = true)
    (taken : pthreadBarrierWaitReturns use thread code = some after) : Spared count after := by
  have accounted := (spared.accounted.waitReturns waiting taken).1
  obtain ⟨barrier, destroys, same⟩ := Option.bind_eq_some_iff.mp taken
  cases same
  have late := spared.late waiting
  refine ⟨accounted, fun destroyed => ?_, fun _ => late, spared.single⟩
  rw [show use.destroyed = true from late] at destroyed
  cases destroyed

private theorem spared_destroy {use after : BarrierUse real} (spared : Spared count use)
    (taken : pthreadBarrierDestroy use code = some after) : Spared count after := by
  simp only [pthreadBarrierDestroy] at taken
  split at taken
  · obtain ⟨barrier, _, same⟩ := Option.bind_eq_some_iff.mp taken
    cases same
    exact ⟨spared.accounted, by simp, fun _ => rfl, spared.single⟩
  · cases taken
    exact ⟨spared.accounted, by simp, fun _ => rfl, spared.single⟩

theorem spared_step {use after : BarrierUse real} (spared : Spared count use)
    (harmless : WaitHarmless count use action) (taken : barrierStep use action = some after) :
    Spared count after := by
  cases action with
  | wait thread =>
    simp only [barrierStep] at taken
    split at taken
    · cases taken
    · rename_i free
      cases taken
      exact spared_wait spared (Bool.eq_false_iff.mpr free) harmless
  | waitReturns thread code =>
    simp only [barrierStep] at taken
    split at taken
    · rename_i waiting
      exact spared_waitReturns spared waiting taken
    · cases taken
  | destroy code => exact spared_destroy spared taken
  | finalize =>
    cases taken
    exact ⟨spared.accounted, spared.ready, spared.late, spared.single⟩

theorem Spared.safe {use : BarrierUse real} (spared : Spared count use) : RoundsSafe count use :=
  ⟨spared.kept, fun {thread code _} taken =>
    (spared_step spared (show WaitHarmless count use (.waitReturns thread code) from trivial) taken).kept⟩

private theorem single_of_first {use : BarrierUse real} (spared : Spared count use)
    (rounds : use.returned + 1 ≤ count * ((use.entered + 1) / count)) : count = 1 := by
  rcases Nat.eq_zero_or_pos use.entered with none | some
  · rw [none] at rounds
    by_contra several
    rcases Nat.eq_zero_or_pos count with zero | positive
    · rw [zero, Nat.zero_mul] at rounds
      omega
    · rw [Nat.div_eq_of_lt (by omega), Nat.mul_zero] at rounds
      omega
  · exact spared.single some

/-- Whatever the code of the real destroy, what the call has done shows when it comes back. -/
theorem waits_harmless {use : BarrierUse real} (spared : Spared count use)
    (safe : RoundsSafe count (pthreadBarrierWait use thread)) :
    WaitHarmless count use (.wait thread) := by
  cases library : use.initialized with
  | false =>
    have rounds := safe.now.rounds
    simp only [pthreadBarrierWait, library, Bool.false_eq_true, ↓reduceIte] at rounds
    exact ⟨single_of_first spared rounds, .inl library⟩
  | true =>
    have comesBack : ∀ {code barrier}, real.destroy use.barrier code = some barrier →
        barrierStep (pthreadBarrierWait use thread) (.waitReturns thread code) = some
          { use with
            barrier := barrier
            waiting := Function.update (Function.update use.waiting thread true) thread false
            entered := use.entered + 1
            returned := use.returned + 1 } := by
      intro code barrier destroys
      simp [barrierStep, pthreadBarrierWait, pthreadBarrierWaitReturns, library, destroys]
    obtain ⟨code, barrier, destroys⟩ := real.destroy_returns use.barrier
    refine ⟨single_of_first spared (safe.next (comesBack destroys)).rounds, .inr ?_⟩
    cases destroyed : use.destroyed with
    | true => rfl
    | false =>
      obtain ⟨gone, succeeds⟩ := real.destroy_succeeds (spared.ready destroyed)
      have ready := (safe.next (comesBack succeeds)).ready destroyed
      simp only [real.destroy_ends succeeds, Bool.false_eq_true] at ready

/-- In each state of a run the law holds, whichever waiting call comes back next,
exactly when no `pthread_barrier_wait` was called but on a barrier of one, with
`initialized` cleared or after `pthread_barrier_destroy`. -/
theorem roundsSafe_iff {barrier : real.State} {start use : BarrierUse real}
    (initialised : pthreadBarrierInit (.initial barrier) count 0 = some start)
    (run : Run barrierStep start history use) :
    (∀ seen ∈ visited history use, RoundsSafe count seen) ↔ Meets (WaitHarmless count) history := by
  have initially : Spared count start := by
    obtain ⟨ready, initialises, same⟩ := Option.bind_eq_some_iff.mp initialised
    cases same
    refine ⟨⟨∅, by simp [BarrierUse.initial], rfl⟩, fun _ => real.init_ready initialises, ?_, ?_⟩
    · intro thread waiting
      cases waiting
    · intro entered
      cases entered
  refine run.always_iff_kept initially (fun spared => spared_step spared) Spared.safe ?_
  intro use action after spared taken safe
  cases action with
  | wait thread =>
    simp only [barrierStep] at taken
    split at taken
    · cases taken
    · cases taken
      exact waits_harmless spared safe
  | waitReturns | destroy | finalize => trivial

/-- A real barrier that is ready or not; its calls return 0. -/
def switchedBarrier : RealBarrier where
  State := Bool
  ready barrier := barrier
  init _ _ code := if code = 0 then some true else none
  destroy _ code := if code = 0 then some false else none
  init_ready := by
    intro barrier count after taken
    cases taken
    rfl
  destroy_ends := by
    intro barrier after taken
    cases taken
    rfl
  destroy_fails := by
    intro barrier code after taken failed
    simp [failed] at taken
  destroy_returns _ := ⟨0, false, rfl⟩
  destroy_succeeds _ := ⟨false, rfl⟩

def readyBarrier : BarrierUse switchedBarrier := .initial true

private theorem readyBarrier_initialised (count : Nat) :
    pthreadBarrierInit (.initial (false : switchedBarrier.State)) count 0 = some readyBarrier := rfl

/-- Two threads call wait on a barrier of one, three times in all, after some process's exit. -/
theorem roundsSafe_iff_one : ∃ (use : BarrierUse switchedBarrier), use.returned = 3 ∧
    RoundsSafe 1 use := by
  have executed : ((execute (guarded barrierStep (WaitHarmless 1)) readyBarrier
      [.finalize, .wait 0, .wait 1, .wait 0]).map fun use => decide (use.returned = 3)) =
        some true := by
    decide +kernel
  obtain ⟨history, use, run, harmless, returned⟩ := exists_guarded executed
  have kept := (roundsSafe_iff (readyBarrier_initialised 1) run).mpr harmless
  exact ⟨use, returned, kept use (List.mem_cons_self ..)⟩

/-- One thread waits at a barrier of two and comes back; the barrier is gone. -/
theorem wait_destroys : ¬ ∀ (real : RealBarrier) (barrier : real.State) count start use, 1 ≤ count →
    pthreadBarrierInit (.initial barrier) count 0 = some start →
    Reachable barrierStep start use → RoundsKept count use := by
  have executed : ((execute barrierStep readyBarrier [.wait 0, .waitReturns 0 0]).map
      fun use => decide (use.returned = 1 ∧ use.entered = 1)) = some true := by
    decide +kernel
  obtain ⟨use, reached, checked⟩ := exists_reachable executed
  intro always
  have rounds := (always switchedBarrier _ 2 _ use (by decide) (readyBarrier_initialised 2) reached).rounds
  rw [checked.1, checked.2] at rounds
  omega

end ProcessAsThread
