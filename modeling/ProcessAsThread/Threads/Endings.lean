import ProcessAsThread.Threads.Registry

/-! The two ways a thread can end: `run_thread` and `exit(0)` after it, and
`pthread_exit`, which leaves by `_exit(0)`. -/

namespace ProcessAsThread

open Library

/-- `pthread_exit` to the exit of the process. Its argument is not used. -/
def pthreadExitActions (initialized : Bool) (thread : Pid) (_value_ptr : Value) : List Action :=
  if initialized then exitActions thread else [.exitThread, .quit].map (.act thread)

/-- The shared state of the library: the registry, the statics, and the result
in the page of one thread. -/
structure SameLibraryState (page : Page) (left right : Shared) : Prop where
  determ : left.determ = right.determ
  myrun : left.myrun = right.myrun
  nestingLevel : left.nestingLevel = right.nestingLevel
  initialized : left.initialized = right.initialized
  retval : (left.pages.getD page .fresh).retval = (right.pages.getD page .fresh).retval

/-- The thread can return the value and can pass it to `pthread_exit`, and both
leave the same shared state. -/
def EndingsAgree (state : State) (thread : Pid) (page : Page) (value : Value) : Prop :=
  ∃ returned exited, execute step state (returnActions thread value) = some returned ∧
    execute step state (pthreadExitActions state.shared.initialized thread value) = some exited ∧
    SameLibraryState page returned.shared exited.shared

/-- The steps of one process that neither forks nor signals a parent. -/
def localExecute : Shared → Proc → List Op → Option (Shared × Proc)
  | shared, proc, [] => some (shared, proc)
  | shared, proc, op :: rest =>
    match localStep shared proc op with
    | some (shared, proc, .quiet) => localExecute shared proc rest
    | some (shared, proc, .broadcastJoin) => localExecute shared proc.wakeJoin rest
    | _ => none

/-- What a process does on its own is what the system does while only it moves. -/
theorem execute_local {state : State} {pid : Nat} {ops : List Op}
    (found : state.procs[pid]? = some proc)
    (success : localExecute state.shared proc ops = some (shared, proc')) :
    ∃ procs, execute step state (ops.map (.act pid)) = some ⟨shared, procs⟩ := by
  induction ops generalizing state proc with
  | nil =>
    cases success
    exact ⟨state.procs, rfl⟩
  | cons op rest ih =>
    have inside := (List.getElem?_eq_some_iff.mp found).1
    simp only [localExecute] at success
    split at success
    · rename_i shared' moved quiet
      let after : State := ⟨shared', state.procs.set pid moved⟩
      have present : after.procs[pid]? = some moved := List.getElem?_set_self inside
      obtain ⟨procs, remaining⟩ := ih present success
      refine ⟨procs, ?_⟩
      have taken : step state (.act pid op) = some after := by
        simp [step, found, quiet, Effect.apply, after]
      simpa [execute, taken] using remaining
    · rename_i shared' moved broadcast
      let after : State := ⟨shared', (state.procs.set pid moved).map Proc.wakeJoin⟩
      have present : after.procs[pid]? = some moved.wakeJoin := by
        rw [List.getElem?_map, List.getElem?_set_self inside]
        rfl
      obtain ⟨procs, remaining⟩ := ih present success
      refine ⟨procs, ?_⟩
      have taken : step state (.act pid op) = some after := by
        simp [step, found, broadcast, Effect.apply, after]
      simpa [execute, taken] using remaining
    · cases success

/-- A start routine that returns deregisters its thread, stores its result,
decrements `_nestingLevel` and runs the destructor. -/
theorem localExecute_return {shared : Shared} {proc : Proc} {determ : Mydeterm}
    (running : proc.pc = .running) (spawned : proc.status = some page)
    (deleted : shared.determ.deleteRegisterThread proc.currentIndex = some determ) (value : Value) :
    localExecute shared proc [.returnRoutine value, .deleteRegister, .storeRetval, .unnest, .exit] =
      some ({ shared with
        determ := determ
        pages := shared.pages.modify page fun status => { status with retval := value }
        nestingLevel := (shared.nestingLevel + (2 ^ 32 - 1)) % 2 ^ 32
        initialized := false },
        { proc with pc := .exited, result := some value, deleted := true }) := by
  simp [localExecute, localStep, Proc.wakeJoin, Proc.goto, Shared.setPage, running, spawned, deleted]

/-- `pthread_exit` only deregisters, and only while the library is initialised. -/
theorem localExecute_exit {shared : Shared} {proc : Proc} {determ : Mydeterm}
    (running : proc.pc = .running) (ready : shared.initialized = true)
    (deleted : shared.determ.deleteRegisterThread proc.currentIndex = some determ) :
    localExecute shared proc [.exitThread, .deleteRegister, .quit] =
      some ({ shared with determ := determ }, { proc with pc := .exited, deleted := true }) := by
  simp [localExecute, localStep, Proc.wakeJoin, Proc.goto, running, ready, deleted]

private theorem localExecute_exitUnready {shared : Shared} {proc : Proc} (running : proc.pc = .running)
    (unready : shared.initialized = false) : localExecute shared proc [.exitThread, .quit] =
      some (shared, { proc with pc := .exited }) := by
  simp [localExecute, localStep, Proc.goto, running, unready]

/-- Whatever thread ends and with whatever value, both ways lead to its exit and
the two shared states differ: `pthread_exit` leaves `_nestingLevel` and every
page as they are. -/
theorem endings_neverAgree {state : State} {proc : Proc} (reached : Reachable step initialState state)
    (found : state.procs[thread]? = some proc) (running : proc.pc = .running)
    (spawned : proc.status = some page) (value : Value) :
    (∃ returned, execute step state (returnActions thread value) = some returned) ∧
    (∃ exited, execute step state (pthreadExitActions state.shared.initialized thread value) =
      some exited ∧ exited.shared.pages = state.shared.pages) ∧
    ¬ EndingsAgree state thread page value := by
  obtain ⟨determ, deleted, _⟩ := (unlinked_of_reachable reached).deletes proc.currentIndex
  obtain ⟨procs, returns⟩ := execute_local found (localExecute_return running spawned deleted value)
  have exits : ∃ procs determ,
      execute step state (pthreadExitActions state.shared.initialized thread value) =
        some ⟨{ state.shared with determ := determ }, procs⟩ := by
    cases ready : state.shared.initialized with
    | true =>
      obtain ⟨procs, exits⟩ := execute_local found (localExecute_exit running ready deleted)
      exact ⟨procs, determ, exits⟩
    | false =>
      obtain ⟨procs, exits⟩ := execute_local found (localExecute_exitUnready running ready)
      exact ⟨procs, state.shared.determ, exits⟩
  obtain ⟨procs', determ', exits⟩ := exits
  refine ⟨⟨_, returns⟩, ⟨_, exits, rfl⟩, ?_⟩
  intro ⟨returned, exited, returns', exits', agree⟩
  cases Option.some.inj (returns.symm.trans returns')
  cases Option.some.inj (exits.symm.trans exits')
  have same : (state.shared.nestingLevel + (2 ^ 32 - 1)) % 2 ^ 32 = state.shared.nestingLevel :=
    agree.nestingLevel
  omega

/-- While the library is initialised, the registry is the same after both endings. -/
theorem endings_registry {state returned exited : State} {proc : Proc}
    (reached : Reachable step initialState state) (found : state.procs[thread]? = some proc)
    (running : proc.pc = .running) (spawned : proc.status = some page)
    (ready : state.shared.initialized = true)
    (returns : execute step state (returnActions thread value) = some returned)
    (exits : execute step state (exitActions thread) = some exited) :
    returned.shared.determ = exited.shared.determ := by
  obtain ⟨determ, deleted, _⟩ := (unlinked_of_reachable reached).deletes proc.currentIndex
  obtain ⟨procs, returns'⟩ := execute_local found (localExecute_return running spawned deleted value)
  obtain ⟨procs', exits'⟩ := execute_local found (localExecute_exit running ready deleted)
  cases Option.some.inj (returns.symm.trans returns')
  cases Option.some.inj (exits.symm.trans exits')
  rfl

/-- The first thread, just created, ends with 7. -/
theorem endings_neverAgree_first : ∃ state, Reachable step initialState state ∧
    ¬ EndingsAgree state 1 0 7 := by
  have executed : ((execute step initialState (createActions 0 1 4096 1)).map
      fun state => decide (∃ proc ∈ state.procs[1]?, proc.pc = .running ∧ proc.status = some 0)) =
        some true := by
    decide +kernel
  obtain ⟨state, reached, checked⟩ := exists_reachable executed
  obtain ⟨proc, found, running, spawned⟩ := checked
  exact ⟨state, reached, (endings_neverAgree reached found running spawned 7).2.2⟩

/-- The result 7 is in the page of the thread after its return only. -/
theorem exit_drops_value : ¬ ∀ state, Reachable step initialState state →
    ∀ thread proc page value, state.procs[thread]? = some proc → proc.pc = .running →
      proc.status = some page → EndingsAgree state thread page value := by
  have executed : ((execute step initialState (createActions 0 1 4096 1)).map
      fun state => decide ((∃ proc ∈ state.procs[1]?, proc.pc = .running ∧ proc.status = some 0) ∧
        ((execute step state (returnActions 1 7)).map
          fun returned => (returned.shared.pages.getD 0 .fresh).retval) = some 7 ∧
        ((execute step state (pthreadExitActions state.shared.initialized 1 7)).map
          fun exited => (exited.shared.pages.getD 0 .fresh).retval) = some 0)) = some true := by
    decide +kernel
  obtain ⟨state, reached, checked⟩ := exists_reachable executed
  obtain ⟨⟨proc, found, running, spawned⟩, seven, zero⟩ := checked
  intro always
  obtain ⟨returned, exited, returns, exits, agree⟩ :=
    always state reached 1 proc 0 7 found running spawned
  have retval := agree.retval
  rw [returns] at seven
  rw [exits] at zero
  have stored : (returned.shared.pages.getD 0 .fresh).retval = 7 := Option.some.inj seven
  have dropped : (exited.shared.pages.getD 0 .fresh).retval = 0 := Option.some.inj zero
  rw [stored, dropped] at retval
  cases retval

end ProcessAsThread
