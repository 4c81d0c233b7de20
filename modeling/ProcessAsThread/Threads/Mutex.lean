import Mathlib.Algebra.Ring.Nat
import Mathlib.Logic.Function.Basic
import ProcessAsThread.Library.Run

/-! The mutex functions of libmythread.cpp and myrun.h, for one mutex and any
number of threads. The functions behind WRAP are a parameter. -/

namespace ProcessAsThread

open Library

/-- The real mutex functions. A call that returns is its code and the state it
leaves; `none` is a code the call cannot return, or not yet. -/
structure RealMutex where
  State : Type
  holds : State → Nat → Bool
  lock : State → Nat → Int → Option State
  unlock : State → Nat → Int → Option State
  exclusive : holds mutex thread = true → holds mutex other = true → thread = other
  lock_holds : lock mutex thread 0 = some after → holds after thread = true
  lock_keeps : lock mutex thread code = some after → holds mutex other = true →
    holds after other = true
  lock_fails : lock mutex thread code = some after → code ≠ 0 → holds after = holds mutex
  unlock_keeps : unlock mutex thread code = some after → other ≠ thread →
    holds mutex other = true → holds after other = true

/-- The mutex and the library around it. `holding` is history: from a lock or
trylock of the thread that returned 0 to its next unlock. -/
structure MutexUse (real : RealMutex) where
  initialized : Bool
  /-- `myrun::_lock_count`. -/
  lockCount : Nat
  mutex : real.State
  /-- In the real lock function. -/
  locking : Nat → Bool
  holding : Nat → Bool

variable {real : RealMutex}

/-- A lock or trylock has returned 0. -/
def MutexUse.acquired (use : MutexUse real) (thread : Nat) : MutexUse real :=
  { use with holding := Function.update use.holding thread true }

def MutexUse.released (use : MutexUse real) (thread : Nat) : MutexUse real :=
  { use with holding := Function.update use.holding thread false }

/-- `pthread_mutex_lock`, up to the real lock function where it calls that. -/
def pthreadMutexLock (use : MutexUse real) (thread : Nat) : MutexUse real :=
  if use.initialized then
    { use with
      lockCount := (use.lockCount + 1) % 2 ^ 64
      locking := Function.update use.locking thread true }
  else use.acquired thread

/-- The rest of `pthread_mutex_lock`; `mutex_lock` drops the code and 0 is returned. -/
def pthreadMutexLockReturns (use : MutexUse real) (thread : Nat) (code : Int) :
    Option (MutexUse real) := do
  let mutex ← real.lock use.mutex thread code
  return { use with
    mutex := mutex, locking := Function.update use.locking thread false }.acquired thread

/-- Neither the mutex nor the library is looked at. -/
def pthreadMutexTrylock (use : MutexUse real) (thread : Nat) : MutexUse real := use.acquired thread

def pthreadMutexUnlock (use : MutexUse real) (thread : Nat) (code : Int) : Option (MutexUse real) :=
  if use.initialized then do
    let mutex ← real.unlock use.mutex thread code
    return { use with
      lockCount := (use.lockCount + (2 ^ 64 - 1)) % 2 ^ 64, mutex := mutex }.released thread
  else some (use.released thread)

/-- A step of one thread, or the destructor `finalize` in some exiting process. -/
inductive MutexAction where
  | lock (thread : Nat)
  | lockReturns (thread : Nat) (code : Int)
  | trylock (thread : Nat)
  | unlock (thread : Nat) (code : Int)
  | finalize
  deriving DecidableEq, Repr

/-- A thread makes one call at a time and only unlocks what it holds. -/
def mutexStep (use : MutexUse real) : MutexAction → Option (MutexUse real)
  | .lock thread => if use.locking thread then none else some (pthreadMutexLock use thread)
  | .lockReturns thread code =>
    if use.locking thread then pthreadMutexLockReturns use thread code else none
  | .trylock thread => if use.locking thread then none else some (pthreadMutexTrylock use thread)
  | .unlock thread code =>
    if use.locking thread || !use.holding thread then none else pthreadMutexUnlock use thread code
  | .finalize => some { use with initialized := false }

/-- After the constructor, with no call made on the mutex. -/
def MutexUse.initial (mutex : real.State) (lockCount : Nat) : MutexUse real where
  initialized := true
  lockCount := lockCount
  mutex := mutex
  locking := fun _ => false
  holding := fun _ => false

/-- No two threads hold the mutex at once. -/
def Exclusive (use : MutexUse real) : Prop :=
  ∀ thread other, use.holding thread = true → use.holding other = true → thread = other

/-- Every thread that holds the mutex by the codes it has got really does. -/
def Backed (use : MutexUse real) : Prop :=
  ∀ thread, use.holding thread = true → real.holds use.mutex thread = true

/-- A call that returns 0 without having taken the real mutex is made by a thread
that really holds it. -/
def ReallyLocks (use : MutexUse real) : MutexAction → Prop
  | .lock thread => use.initialized = true ∨ real.holds use.mutex thread = true
  | .lockReturns thread code => code = 0 ∨ real.holds use.mutex thread = true
  | .trylock thread => real.holds use.mutex thread = true
  | .unlock _ _ | .finalize => True

instance (use : MutexUse real) (action : MutexAction) : Decidable (ReallyLocks use action) := by
  unfold ReallyLocks
  split <;> infer_instance

theorem Backed.exclusive {use : MutexUse real} (backed : Backed use) : Exclusive use :=
  fun thread other held held' => real.exclusive (backed thread held) (backed other held')

private theorem backed_acquired {use : MutexUse real} (backed : Backed use) (thread : Nat) :
    Backed (use.acquired thread) ↔ real.holds use.mutex thread = true := by
  constructor
  · intro after
    exact after thread (by simp [MutexUse.acquired])
  · intro held other holding
    by_cases same : other = thread
    · subst same
      exact held
    · simp only [MutexUse.acquired, Function.update_of_ne same] at holding
      exact backed other holding

private theorem backed_lockReturns {use after : MutexUse real} (backed : Backed use)
    (taken : pthreadMutexLockReturns use thread code = some after) :
    Backed after ↔ code = 0 ∨ real.holds use.mutex thread = true := by
  obtain ⟨mutex, locks, same⟩ := Option.bind_eq_some_iff.mp taken
  cases same
  have kept : Backed { use with
      mutex := mutex, locking := Function.update use.locking thread false } :=
    fun other holding => real.lock_keeps locks (backed other holding)
  rw [backed_acquired kept]
  by_cases success : code = 0
  · subst success
    simp [real.lock_holds locks]
  · simp [real.lock_fails locks success, success]

/-- An unlock ends the holding, and the mutex is what the real unlock leaves, if that is called. -/
theorem unlock_cases {use after : MutexUse real}
    (taken : pthreadMutexUnlock use thread code = some after) :
    after.holding = Function.update use.holding thread false ∧
      (after.mutex = use.mutex ∨ real.unlock use.mutex thread code = some after.mutex) := by
  unfold pthreadMutexUnlock at taken
  split at taken
  · obtain ⟨mutex, unlocks, same⟩ := Option.bind_eq_some_iff.mp taken
    cases same
    exact ⟨rfl, .inr unlocks⟩
  · cases taken
    exact ⟨rfl, .inl rfl⟩

private theorem backed_unlock {use after : MutexUse real} (backed : Backed use)
    (taken : pthreadMutexUnlock use thread code = some after) : Backed after := by
  obtain ⟨released, mutex⟩ := unlock_cases taken
  intro other holding
  rw [released] at holding
  have different : other ≠ thread := by
    intro same
    simp [same] at holding
  rw [Function.update_of_ne different] at holding
  rcases mutex with same | unlocks
  · rw [same]
    exact backed other holding
  · exact real.unlock_keeps unlocks different (backed other holding)

theorem backed_step {use after : MutexUse real} (backed : Backed use)
    (taken : mutexStep use action = some after) : Backed after ↔ ReallyLocks use action := by
  cases action with
  | lock thread =>
    simp only [mutexStep] at taken
    split at taken
    · cases taken
    · cases taken
      unfold pthreadMutexLock
      cases ready : use.initialized with
      | true => exact ⟨fun _ => .inl ready, fun _ => backed⟩
      | false => simpa [ReallyLocks, ready] using backed_acquired backed thread
  | lockReturns thread code =>
    simp only [mutexStep] at taken
    split at taken
    · exact backed_lockReturns backed taken
    · cases taken
  | trylock thread =>
    simp only [mutexStep] at taken
    split at taken
    · cases taken
    · cases taken
      exact backed_acquired backed thread
  | unlock thread code =>
    simp only [mutexStep] at taken
    split at taken
    · cases taken
    · simpa [ReallyLocks] using backed_unlock backed taken
  | finalize =>
    cases taken
    exact ⟨fun _ => trivial, fun _ => backed⟩

/-- Every holder really holds the mutex all along a run exactly when each call
that returns 0 without taking it is made by a thread that has it; and in such a
run no two threads ever hold it at once. -/
theorem exclusive_of_reallyLocks {mutex : real.State}
    (run : Run mutexStep (MutexUse.initial mutex lockCount) history use) :
    ((∀ seen ∈ visited history use, Backed seen) ↔ Meets ReallyLocks history) ∧
    (Meets ReallyLocks history → ∀ seen ∈ visited history use, Exclusive seen) := by
  have exactly : (∀ seen ∈ visited history use, Backed seen) ↔ Meets ReallyLocks history := by
    refine run.always_iff (fun _ => trivial) ?_ (fun _ => backed_step)
    intro thread holding
    cases holding
  refine ⟨exactly, ?_⟩
  intro meets seen member
  exact (exactly.mpr meets seen member).exclusive

/-- A real mutex that one thread at a time owns; its calls return 0. -/
def ownedMutex : RealMutex where
  State := Option Nat
  holds owner thread := owner = some thread
  lock owner thread code := if owner = none ∧ code = 0 then some (some thread) else none
  unlock owner thread code := if owner = some thread ∧ code = 0 then some none else none
  exclusive := by
    intro owner thread other held held'
    simp only [decide_eq_true_eq] at held held'
    exact Option.some.inj (held.symm.trans held')
  lock_holds := by
    intro owner thread after taken
    split at taken <;> cases taken
    simp
  lock_keeps := by
    intro owner thread code after other taken held
    simp only [decide_eq_true_eq] at held
    simp [held] at taken
  lock_fails := by
    intro owner thread code after taken failed
    simp [failed] at taken
  unlock_keeps := by
    intro owner thread code after other taken different held
    simp only [decide_eq_true_eq] at held
    split at taken
    · rename_i mine
      exact (different (Option.some.inj (held.symm.trans mine.1))).elim
    · cases taken

/-- Two threads lock and unlock in turn. -/
theorem exclusive_of_reallyLocks_inTurn : ∃ (use : MutexUse ownedMutex), use.holding 1 = true ∧
    Exclusive use := by
  let initial : MutexUse ownedMutex := .initial none 0
  have executed : ((execute (guarded mutexStep ReallyLocks) initial
      [.lock 0, .lock 1, .lockReturns 0 0, .unlock 0 0, .lockReturns 1 0]).map
      fun use => decide (use.holding 1 = true)) = some true := by
    decide +kernel
  obtain ⟨history, use, run, meets, holding⟩ := exists_guarded executed
  exact ⟨use, holding, (exclusive_of_reallyLocks run).2 meets use (List.mem_cons_self ..)⟩

/-- One thread locks the mutex and another one gets 0 from `pthread_mutex_trylock`. -/
theorem trylock_intrudes : ¬ ∀ (real : RealMutex) (mutex : real.State) lockCount use,
    Reachable mutexStep (MutexUse.initial mutex lockCount) use → Exclusive use := by
  let initial : MutexUse ownedMutex := .initial none 0
  have executed : ((execute mutexStep initial [.lock 0, .lockReturns 0 0, .trylock 1]).map
      fun use => decide (use.holding 0 = true ∧ use.holding 1 = true)) = some true := by
    decide +kernel
  obtain ⟨use, reached, both⟩ := exists_reachable executed
  intro always
  cases always ownedMutex none 0 use reached 0 1 both.1 both.2

end ProcessAsThread
