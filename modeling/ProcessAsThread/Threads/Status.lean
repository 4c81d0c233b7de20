import ProcessAsThread.Threads.Moves

/-! The status each entry of the registry shows, against what the thread
registered there does. Registering, ending and joining each select the entry they
write through an index of their own. -/

namespace ProcessAsThread

open Library

/-- Blocked in `join`: from the start of its wait to the end of the call. -/
def Pc.blocked : Pc → Bool
  | .joinCond .. | .joinWoken .. => true
  | _ => false

/-- Past `deleteChildRegister`. -/
def Pc.ending : Pc → Bool
  | .deregistered _ | .stored | .exiting | .quitting | .exited => true
  | _ => false

/-- Before `registerThread`. -/
def Pc.unregistered : Pc → Bool
  | .starting | .incremented _ | .indexed => true
  | _ => false

/-- The status that says what a thread does. -/
def Proc.condition (proc : Proc) : Mydeterm.ThreadStatus :=
  if proc.deleted then .exit else if proc.pc.blocked then .joining else .ready

/-- Every entry shows the condition of each thread registered there. -/
def EntriesMatch (state : State) : Prop :=
  ∀ proc ∈ state.procs, ∀ index ∈ proc.registered,
    (state.shared.determ.entries index).status = proc.condition

/-- The entry whose status a step writes, and what it writes. -/
def marks (shared : Shared) (proc : Proc) : Op → Option (Int × Mydeterm.ThreadStatus)
  | .enter => some (toInt shared.myrun.threadIndex, .ready)
  | .deleteRegister => some (proc.currentIndex, .exit)
  | .enterJoin => match proc.pc with
    | .joinRead _ guestindex _ =>
      if (shared.determ.entries guestindex).status = .exit then none
      else some (proc.currentIndex, .joining)
    | _ => none
  | _ => none

/-- The threads registered at an entry, but for the one at place `pid`, are in
the condition that gets written there. -/
def Agrees (procs : List Proc) (pid : Nat) (index : Int) (status : Mydeterm.ThreadStatus) : Prop :=
  ∀ other ∈ List.range procs.length, other ≠ pid → ∀ proc ∈ procs[other]?,
    proc.registered = some index → proc.condition = status

instance (procs : List Proc) (pid : Nat) (index : Int) (status : Mydeterm.ThreadStatus) :
    Decidable (Agrees procs pid index status) := by
  unfold Agrees
  infer_instance

/-- A registered thread writes the entry it is registered at, no step writes an
entry against another thread registered there, and no registered thread leaves a
wait in `join`. -/
structure Marked (state : State) (pid : Nat) (proc : Proc) (op : Op) : Prop where
  own : ∀ mark ∈ marks state.shared proc op, ∀ index ∈ proc.registered, index = mark.1
  others : ∀ mark ∈ marks state.shared proc op, Agrees state.procs pid mark.1 mark.2
  stays : op = .leaveJoin → proc.registered = none

instance (state : State) (pid : Nat) (proc : Proc) (op : Op) :
    Decidable (Marked state pid proc op) :=
  decidable_of_iff (_ ∧ _ ∧ _) ⟨fun ⟨own, others, stays⟩ => ⟨own, others, stays⟩,
    fun marked => ⟨marked.own, marked.others, marked.stays⟩⟩

/-- The guard on a step. A write from outside counts as a mark by nobody. -/
def EntriesMarked (state : State) : Action → Prop
  | .act pid op => ∀ proc ∈ state.procs[pid]?, Marked state pid proc op
  | .foreign threadindex entry => Agrees state.procs state.procs.length threadindex entry.status

instance (state : State) : (action : Action) → Decidable (EntriesMarked state action)
  | .act pid op => inferInstanceAs (Decidable (∀ proc ∈ state.procs[pid]?, Marked state pid proc op))
  | .foreign threadindex entry =>
    inferInstanceAs (Decidable (Agrees state.procs state.procs.length threadindex entry.status))

/-- What holds of every reachable state. -/
structure Phases (state : State) : Prop where
  ending : ∀ proc ∈ state.procs, proc.deleted = true → proc.pc.ending = true
  unregistered : ∀ proc ∈ state.procs, proc.pc.unregistered = true → proc.registered = none

theorem Moves.ending (moves : Moves shared proc op shared' proc' effect)
    (before : proc.deleted = true → proc.pc.ending = true) (deleted : proc'.deleted = true) :
    proc'.pc.ending = true := by
  cases moves with
  | deleteReturned | deleteCalled => rfl
  | joinUnready => exact before deleted
  | storeRetval | unnest | exit | quit => rfl
  | _ =>
    have ended := before deleted
    simp [Pc.ending, *] at ended

theorem Moves.unregistered (moves : Moves shared proc op shared' proc' effect)
    (before : proc.pc.unregistered = true → proc.registered = none)
    (unregistered : proc'.pc.unregistered = true) : proc'.registered = none := by
  cases moves with
  | joinUnready => exact before unregistered
  | increment pc | storeIndex pc => exact before (by rw [pc]; rfl)
  | _ => cases unregistered

theorem Woken.ending (woken : Woken effect old new) : new.pc.ending = old.pc.ending := by
  cases woken with
  | same => rfl
  | join pc | parent pc => rw [pc]; rfl

theorem Woken.unregistered (woken : Woken effect old new) :
    new.pc.unregistered = old.pc.unregistered := by
  cases woken with
  | same => rfl
  | join pc | parent pc => rw [pc]; rfl

theorem phases_step (good : Phases state) (taken : step state action = some after) : Phases after := by
  cases step_cases taken with
  | foreign outside => exact ⟨good.ending, good.unregistered⟩
  | @act pid proc op shared proc' effect procs found moves applied =>
    have member := List.mem_of_getElem? found
    constructor
    case ending =>
      refine forall_procs_step found applied good.ending (moves.ending (good.ending proc member)) ?_ ?_
      · intro old new woken ending
        rwa [woken.deleted, woken.ending]
      · intro child forks
        subst forks
        obtain ⟨_, _, _, _, _, same⟩ := moves.forked
        subst same
        exact fun deleted => nomatch deleted
    case unregistered =>
      refine forall_procs_step found applied good.unregistered
        (moves.unregistered (good.unregistered proc member)) ?_ ?_
      · intro old new woken unregistered
        rwa [woken.registered, woken.unregistered]
      · intro child forks
        subst forks
        obtain ⟨_, _, _, _, _, same⟩ := moves.forked
        subst same
        exact fun _ => rfl

theorem phases_of_reachable (reached : Reachable step initialState state) : Phases state := by
  refine reached.invariant ?_ phases_step
  constructor <;> simp [initialState, mainProc]

def Mydeterm.statuses (determ : Mydeterm) (index : Int) : Mydeterm.ThreadStatus :=
  (determ.entries index).status

def marked (statuses : Int → Mydeterm.ThreadStatus) :
    Option (Int × Mydeterm.ThreadStatus) → Int → Mydeterm.ThreadStatus
  | none => statuses
  | some (index, status) => Function.update statuses index status

theorem Mydeterm.statuses_setEntry (determ : Mydeterm) (index : Int) (entry : Mydeterm.ThreadEntry) :
    (determ.setEntry index entry).statuses = Function.update determ.statuses index entry.status := by
  funext other
  by_cases same : other = index <;> simp [Mydeterm.statuses, Mydeterm.setEntry, same]

theorem Mydeterm.statuses_deleteRegisterThread {determ after : Mydeterm}
    (deleted : determ.deleteRegisterThread index = some after) :
    after.statuses = Function.update determ.statuses index .exit := by
  simp only [Mydeterm.deleteRegisterThread] at deleted
  split at deleted
  · contradiction
  · cases deleted
    rw [Mydeterm.freeThreadEntry, Mydeterm.statuses_setEntry]
    split <;> rfl

theorem Mydeterm.statuses_join {determ : Mydeterm} (myindex : Int)
    (alive : (determ.entries guestindex).status ≠ .exit) :
    (determ.join guestindex myindex).2.statuses = Function.update determ.statuses myindex .joining := by
  simp [Mydeterm.join, alive, Mydeterm.statuses_setEntry]

theorem Moves.statuses (moves : Moves shared proc op shared' proc' effect) :
    shared'.determ.statuses = marked shared.determ.statuses (marks shared proc op) := by
  cases moves with
  | enter => exact Mydeterm.statuses_setEntry ..
  | deleteReturned pc deleted | deleteCalled pc deleted =>
    exact Mydeterm.statuses_deleteRegisterThread deleted
  | joinBlocks pc alive =>
    simp only [marks, pc, alive]
    exact Mydeterm.statuses_join _ alive
  | joinPasses pc ended => simp only [marks, pc, ended]; rfl
  | record | storeRetval => cases status : proc.status <;> simp only [Shared.setPage] <;> rfl
  | _ => rfl

theorem Woken.condition (woken : Woken effect old new) : new.condition = old.condition := by
  cases woken with
  | same => rfl
  | join pc | parent pc => simp only [Proc.condition, Proc.goto, pc]; rfl

theorem alive_of_phase {proc : Proc} (ending : proc.deleted = true → proc.pc.ending = true)
    (pc : proc.pc.ending = false) : proc.deleted = false := by
  by_contra deleted
  simp [ending (by simpa using deleted)] at pc

theorem condition_alive {proc : Proc} (alive : proc.deleted = false) :
    proc.condition = if proc.pc.blocked then .joining else .ready := by
  simp [Proc.condition, alive]

/-- A thread that marks an entry is then in the condition it writes, and was in
another one before, or not registered. -/
theorem Moves.condition_marks {status : Mydeterm.ThreadStatus}
    (moves : Moves shared proc op shared' proc' effect)
    (ending : proc.deleted = true → proc.pc.ending = true)
    (unregistered : proc.pc.unregistered = true → proc.registered = none)
    (mark : marks shared proc op = some (index, status)) :
    proc'.condition = status ∧
      (proc.registered = none ∧ proc'.registered = some index ∨
        proc.condition ≠ status ∧ proc'.registered = proc.registered) := by
  cases moves with
  | enter pc =>
    obtain ⟨entry, ready⟩ := Prod.mk.inj (Option.some.inj mark)
    subst entry ready
    have alive := alive_of_phase ending (by rw [pc]; rfl)
    exact ⟨condition_alive alive, .inl ⟨unregistered (by rw [pc]; rfl), rfl⟩⟩
  | deleteReturned pc | deleteCalled pc =>
    cases mark
    have alive := alive_of_phase ending (by rw [pc]; rfl)
    refine ⟨rfl, .inr ⟨?_, rfl⟩⟩
    simp [condition_alive alive, pc, Pc.blocked]
  | joinBlocks pc exited =>
    simp only [marks, pc, exited, if_false] at mark
    cases mark
    have alive := alive_of_phase ending (by rw [pc]; rfl)
    refine ⟨condition_alive alive, .inr ⟨?_, rfl⟩⟩
    simp [condition_alive alive, pc, Pc.blocked]
  | joinPasses pc ended =>
    simp only [marks, pc, ended, if_true] at mark
    cases mark
  | _ => cases mark

/-- A step that marks nothing changes no condition, unless it ends a wait. -/
theorem Moves.condition_kept (moves : Moves shared proc op shared' proc' effect)
    (ending : proc.deleted = true → proc.pc.ending = true) (mark : marks shared proc op = none) :
    proc'.registered = proc.registered ∧ (op ≠ .leaveJoin → proc'.condition = proc.condition) ∧
      (op = .leaveJoin → proc'.condition ≠ proc.condition) := by
  cases moves with
  | leaveJoin pc =>
    have alive := alive_of_phase ending (by rw [pc]; rfl)
    have ready : (proc.goto .running).condition = .ready := condition_alive alive
    refine ⟨rfl, fun other => (other rfl).elim, fun _ => ?_⟩
    simp [Proc.goto] at ready
    simp [Proc.goto, ready, condition_alive alive, pc, Pc.blocked]
  | enter | deleteReturned | deleteCalled => cases mark
  | joinBlocks pc alive =>
    simp only [marks, pc, alive, if_false] at mark
    cases mark
  | joinUnready => exact ⟨rfl, fun _ => rfl, fun same => by cases same⟩
  | create pc | createUnready pc | countChild pc | readIndex pc | allocate pc | cloneFails pc | clone pc
  | waitPasses pc | waitBlocks pc | wakeChild pc | increment pc | storeIndex pc | insert pc | record pc
  | overwrite pc | notify pc | nest pc | join pc | readHandle pc | readUnmapped pc | joinPasses pc
  | exitThread pc | exitUnready pc | returnRoutine pc | callExit pc | callAbort pc | storeRetval pc | unnest pc | exit pc
  | quit pc =>
    refine ⟨rfl, fun _ => ?_, fun same => by cases same⟩
    simp only [Proc.condition, Proc.goto, pc]
    rfl

private theorem agrees_iff {procs : List Proc} {status : Mydeterm.ThreadStatus}
    {statuses : Int → Mydeterm.ThreadStatus}
    (good : ∀ other, other ≠ pid → ∀ proc ∈ procs[other]?, ∀ index ∈ proc.registered,
      statuses index = proc.condition) :
    (∀ other, other ≠ pid → ∀ proc ∈ procs[other]?, ∀ index' ∈ proc.registered,
      Function.update statuses index status index' = proc.condition) ↔
      Agrees procs pid index status := by
  constructor
  · intro matched other _ different proc present registered
    have shown := matched other different proc present index registered
    rw [Function.update_self] at shown
    exact shown.symm
  · intro agrees other different proc present index' registered
    have inside := (List.getElem?_eq_some_iff.mp present).1
    by_cases same : index' = index
    · subst same
      rw [Function.update_self]
      exact (agrees other (List.mem_range.mpr inside) different proc present registered).symm
    · rw [Function.update_of_ne same]
      exact good other different proc present index' registered

private theorem entriesMatch_split {state : State} {procs : List Proc} {pid : Nat}
    (found : state.procs[pid]? = some proc) (moves : Moves state.shared proc op shared proc' effect)
    (applied : effect.apply (state.procs.set pid proc') = some procs) :
    EntriesMatch ⟨shared, procs⟩ ↔
      (∀ index ∈ proc'.registered, shared.determ.statuses index = proc'.condition) ∧
      ∀ other, other ≠ pid → ∀ proc ∈ state.procs[other]?, ∀ index ∈ proc.registered,
        shared.determ.statuses index = proc.condition := by
  constructor
  · intro matched
    constructor
    · intro index registered
      obtain ⟨new, kept, woken⟩ := lookup_moved found applied
      rw [← woken.condition]
      exact matched new (List.mem_of_getElem? kept) index (by rwa [woken.registered])
    · intro other different old present index registered
      obtain ⟨new, kept, woken⟩ := lookup_other different present applied
      rw [← woken.condition]
      exact matched new (List.mem_of_getElem? kept) index (by rwa [woken.registered])
  · intro ⟨own, others⟩ new member index registered
    obtain ⟨other, present⟩ := List.mem_iff_getElem?.mp member
    rcases lookup_after found applied present with
      ⟨_, woken⟩ | ⟨different, old, before, woken⟩ | ⟨forked, _⟩
    · rw [woken.condition]
      exact own index (by rwa [← woken.registered])
    · rw [woken.condition]
      exact others other different old before index (by rwa [← woken.registered])
    · subst forked
      obtain ⟨_, _, _, _, _, same⟩ := moves.forked
      subst same
      cases registered

private theorem marked_iff {procs : List Proc} {pid : Nat} (phases : Phases state)
    (good : EntriesMatch state) (found : state.procs[pid]? = some proc)
    (moves : Moves state.shared proc op shared proc' effect)
    (applied : effect.apply (state.procs.set pid proc') = some procs) :
    EntriesMatch ⟨shared, procs⟩ ↔ Marked state pid proc op := by
  have member := List.mem_of_getElem? found
  have ending := phases.ending proc member
  have unregistered := phases.unregistered proc member
  have others : ∀ other, other ≠ pid → ∀ proc ∈ state.procs[other]?, ∀ index ∈ proc.registered,
      state.shared.determ.statuses index = proc.condition :=
    fun other _ old present => good old (List.mem_of_getElem? present)
  rw [entriesMatch_split found moves applied, moves.statuses]
  cases mark : marks state.shared proc op with
  | none =>
    obtain ⟨registered, kept, changed⟩ := moves.condition_kept ending mark
    simp only [marked]
    constructor
    · intro ⟨own, _⟩
      refine ⟨by simp [mark], by simp [mark], ?_⟩
      intro leaves
      cases held : proc.registered with
      | none => rfl
      | some index =>
        have before := good proc member index held
        have after := own index (by rw [registered]; exact held)
        exact (changed leaves (after.symm.trans before)).elim
    · intro guard
      refine ⟨?_, others⟩
      intro index held
      rw [registered] at held
      by_cases leaves : op = .leaveJoin
      · rw [guard.stays leaves] at held
        cases held
      · rw [kept leaves]
        exact good proc member index held
  | some written =>
    obtain ⟨index, status⟩ := written
    obtain ⟨condition, place⟩ := moves.condition_marks ending unregistered mark
    simp only [marked]
    rw [agrees_iff others, condition]
    constructor
    · intro ⟨own, agrees⟩
      constructor
      · intro written same held present
        cases Option.some.inj (mark.symm.trans same)
        rcases place with ⟨free, _⟩ | ⟨changed, registered⟩
        · rw [free] at present
          cases present
        · by_contra elsewhere
          have shown := own held (by rw [registered]; exact present)
          rw [Function.update_of_ne elsewhere] at shown
          exact changed ((good proc member held present).symm.trans shown)
      · intro written same
        cases Option.some.inj (mark.symm.trans same)
        exact agrees
      · intro leaves
        subst leaves
        cases mark
    · intro guard
      refine ⟨?_, guard.others _ mark⟩
      intro held present
      have same : held = index := by
        rcases place with ⟨_, entered⟩ | ⟨_, registered⟩
        · exact Option.some.inj (present.symm.trans entered)
        · rw [registered] at present
          exact guard.own _ mark held present
      rw [same, Function.update_self]

/-- A step keeps the entries right exactly when it meets the guard. -/
theorem entriesMatch_step (phases : Phases state) (good : EntriesMatch state)
    (taken : step state action = some after) : EntriesMatch after ↔ EntriesMarked state action := by
  cases step_cases taken with
  | @foreign threadindex entry outside =>
    have others : ∀ other, other ≠ state.procs.length → ∀ proc ∈ state.procs[other]?,
        ∀ index ∈ proc.registered, state.shared.determ.statuses index = proc.condition :=
      fun other _ old present => good old (List.mem_of_getElem? present)
    refine Iff.trans ?_ (agrees_iff others)
    rw [← Mydeterm.statuses_setEntry]
    constructor
    · exact fun matched other _ proc present => matched proc (List.mem_of_getElem? present)
    · intro matched proc member
      obtain ⟨other, present⟩ := List.mem_iff_getElem?.mp member
      have inside := (List.getElem?_eq_some_iff.mp present).1
      exact matched other (Nat.ne_of_lt inside) proc present
  | @act pid proc op shared proc' effect procs found moves applied =>
    rw [marked_iff phases good found moves applied]
    constructor
    · intro guard other present
      cases Option.some.inj (found.symm.trans present)
      exact guard
    · exact fun guard => guard proc found

/-- Along a run every entry shows the condition of the threads registered there
exactly when every step marks, if any, the entry of the thread that takes it. -/
theorem entriesMatch_iff (run : Run step initialState history state) :
    (∀ seen ∈ visited history state, EntriesMatch seen) ↔ Meets EntriesMarked history := by
  have initially : EntriesMatch initialState := by
    simp [EntriesMatch, initialState, mainProc]
  exact run.always_iff phases_of_reachable initially entriesMatch_step

/-- Two threads; the second is registered at index 0, where its end is marked. -/
theorem entriesMatch_lastThread :
    ∃ history state, Run step initialState history state ∧
      (state.procs.map Proc.condition, state.procs.map Proc.registered) =
        ([.ready, .ready, .exit], [none, some 1, some 0]) ∧
      ∀ seen ∈ visited history state, EntriesMatch seen := by
  have executed : ((execute (guarded step EntriesMarked) initialState
      (createActions 0 1 4096 0 ++ createActions 0 2 8192 1 ++ exitActions 2)).map
      fun state => decide ((state.procs.map Proc.condition, state.procs.map Proc.registered) =
        ([.ready, .ready, .exit], [none, some 1, some 0]))) = some true := by
    decide +kernel
  obtain ⟨history, state, run, meets, ended⟩ := exists_guarded executed
  exact ⟨history, state, run, ended, (entriesMatch_iff run).mpr meets⟩

/-- The first thread ends: it marks entry 0, and its own stays ready. -/
theorem end_unmarked : ¬ ∀ state, Reachable step initialState state → EntriesMatch state := by
  have missed : ((execute step initialState (createActions 0 1 4096 1 ++ exitActions 1)).map
      fun state => decide (∃ proc ∈ state.procs, ∃ index ∈ proc.registered,
        (state.shared.determ.entries index).status ≠ proc.condition)) = some true := by
    decide +kernel
  obtain ⟨state, reached, checked⟩ := exists_reachable missed
  obtain ⟨proc, member, index, registered, differs⟩ := checked
  exact fun matched => differs (matched state reached proc member index registered)

end ProcessAsThread
