import ProcessAsThread.Threads.Moves

/-! The flag `initialized`. It lies in the library's data segment, which all
thread-processes share, so the destructor of any of them clears it for all. -/

namespace ProcessAsThread

open Library

def Pc.ended : Pc → Bool
  | .exited | .crashed => true
  | _ => false

def MainAlive (state : State) : Prop := ∃ main ∈ state.procs[0]?, main.pc.ended = false

instance (state : State) : Decidable (MainAlive state) :=
  inferInstanceAs (Decidable (∃ main ∈ state.procs[0]?, main.pc.ended = false))

/-- The flag is set as long as the main thread's process lives. -/
def StaysInitialized (state : State) : Prop := MainAlive state → state.shared.initialized = true

/-- A thread-process other than main runs `exit` while main lives: behind its start
routine, in client code, or in an allocation that finds no memory left. -/
def FinalizesEarly (state : State) : Action → Prop
  | .act pid op => op = .exit ∧ pid ≠ 0 ∧ MainAlive state
  | .foreign .. => False

instance (state : State) : (action : Action) → Decidable (FinalizesEarly state action)
  | .act pid op => inferInstanceAs (Decidable (op = .exit ∧ pid ≠ 0 ∧ MainAlive state))
  | .foreign .. => inferInstanceAs (Decidable False)

@[simp] theorem Shared.setPage_initialized (shared : Shared) (page : Option Page)
    (change : Mythread.ThreadStatus → Mythread.ThreadStatus) :
    (shared.setPage page change).initialized = shared.initialized := by
  cases page <;> rfl

theorem Moves.initialized (moves : Moves shared proc op shared' proc' effect) (other : op ≠ .exit) :
    shared'.initialized = shared.initialized := by
  cases moves <;> simp at other ⊢

theorem Moves.alive (moves : Moves shared proc op shared' proc' effect) : proc.pc.ended = false := by
  cases moves <;> simp [Pc.ended, *]

theorem Woken.ended (woken : Woken effect old new) : new.pc.ended = old.pc.ended := by
  cases woken <;> simp [Pc.ended, Proc.goto, *]

private theorem mainAlive_before (taken : StepCases state action after) (alive : MainAlive after) :
    MainAlive state := by
  cases taken with
  | foreign outside => exact alive
  | act found moves applied =>
    obtain ⟨main, present, live⟩ := alive
    rcases lookup_after found applied present with ⟨same, _⟩ | ⟨_, old, before, woken⟩ | ⟨_, last⟩
    · subst same
      exact ⟨_, found, moves.alive⟩
    · exact ⟨old, before, by rw [← woken.ended]; exact live⟩
    · have inside := (List.getElem?_eq_some_iff.mp found).1
      omega

private theorem finalizesEarly_clears (taken : step state action = some after)
    (early : FinalizesEarly state action) : ¬ StaysInitialized after := by
  intro stays
  cases step_cases taken with
  | foreign outside => exact early
  | act found moves applied =>
    obtain ⟨exits, notMain, main, present, live⟩ := early
    subst exits
    obtain ⟨new, kept, woken⟩ := lookup_other (Ne.symm notMain) present applied
    have flag := stays ⟨new, kept, by rw [woken.ended]; exact live⟩
    cases moves
    simp at flag

theorem staysInitialized_step (stays : StaysInitialized state)
    (inTime : ¬ FinalizesEarly state action) (taken : step state action = some after) :
    StaysInitialized after := by
  intro alive
  have before := mainAlive_before (step_cases taken) alive
  cases step_cases taken with
  | foreign outside => exact stays before
  | @act pid proc op shared proc' effect procs found moves applied =>
    by_cases exits : op = .exit
    · subst exits
      have isMain : pid = 0 := by
        by_cases isMain : pid = 0
        · exact isMain
        · exact (inTime ⟨rfl, isMain, before⟩).elim
      subst isMain
      obtain ⟨main, present, live⟩ := alive
      obtain ⟨new, kept, woken⟩ := lookup_moved found applied
      have same := Option.some.inj (kept.symm.trans present)
      subst same
      rw [woken.ended] at live
      cases moves
      simp [Pc.ended, Proc.goto] at live
    · rw [show (State.mk shared procs).shared.initialized = state.shared.initialized from
        moves.initialized exits]
      exact stays before

/-- Along a run the flag stays set, as long as main lives, exactly when no
spawned thread's `exit` comes before main's end. -/
theorem staysInitialized_iff (run : Run step initialState history state) :
    (∀ seen ∈ visited history state, StaysInitialized seen) ↔
      Meets (fun state action => ¬ FinalizesEarly state action) history := by
  refine run.always_iff (fun _ => trivial) (fun _ => rfl) ?_
  intro state action after _ stays taken
  exact ⟨fun kept early => finalizesEarly_clears taken early kept,
    fun inTime => staysInitialized_step stays inTime taken⟩

/-- A thread that ends by `pthread_exit` and one that aborts, and main after them. -/
theorem staysInitialized_exitThread :
    ∃ history state, Run step initialState history state ∧ state.shared.initialized = false ∧
      ∀ seen ∈ visited history state, StaysInitialized seen := by
  have executed : ((execute (guarded step fun state action => ¬ FinalizesEarly state action) initialState
      (createActions 0 1 4096 1 ++ createActions 0 2 8192 2 ++ exitActions 1 ++
        [.act 2 .callAbort, .act 0 .callExit, .act 0 .exit])).map
      fun state => decide (state.shared.initialized = false)) = some true := by
    decide +kernel
  obtain ⟨history, state, run, inTime, cleared⟩ := exists_guarded executed
  exact ⟨history, state, run, cleared, (staysInitialized_iff run).mpr inTime⟩

/-- One thread that returns from its start routine. -/
theorem initialized_cleared :
    ¬ ∀ state, Reachable step initialState state → StaysInitialized state := by
  intro stays
  have cleared : ((execute step initialState (createActions 0 1 4096 1 ++ returnActions 1 7)).map
      fun state => decide (state.shared.initialized = false ∧
        ∃ main ∈ state.procs[0]?, main.pc.ended = false)) = some true := by
    decide +kernel
  obtain ⟨state, reached, flag, main, present, live⟩ := exists_reachable cleared
  have set := stays state reached ⟨main, present, live⟩
  rw [flag] at set
  exact Bool.false_ne_true set

end ProcessAsThread
