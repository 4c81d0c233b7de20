import ProcessAsThread.Threads.Moves

/-! Who leaves `pthread_join`, and when. All joiners wait on one condition
variable that every ending thread broadcasts on, and none of them tests again
after its wait. -/

namespace ProcessAsThread

open Library

/-- The thread of a page has executed `deleteChildRegister`. -/
def Deleted (state : State) (page : Page) : Prop :=
  ∃ proc ∈ state.procs, proc.status = some page ∧ proc.deleted = true

instance (state : State) (page : Page) : Decidable (Deleted state page) :=
  inferInstanceAs (Decidable (∃ proc ∈ state.procs, proc.status = some page ∧ proc.deleted = true))

/-- The page of the thread a process waits for inside `pthread_cond_wait(&_cond_join)`. -/
def Pc.joinBlocked : Pc → Option Page
  | .joinCond page _ => some page
  | _ => none

/-- The page a process has been woken from waiting for. -/
def Pc.joinReleased : Pc → Option Page
  | .joinWoken page _ => some page
  | _ => none

theorem Moves.deleted (moves : Moves shared proc op shared' proc' effect) :
    proc'.deleted = proc.deleted ∨ op = .deleteRegister ∧ effect = .broadcastJoin := by
  cases moves <;> simp [Proc.goto]

theorem Moves.deleteRegister (moves : Moves shared proc .deleteRegister shared' proc' effect) :
    proc'.deleted = true ∧ effect = .broadcastJoin ∧ shared'.joins = shared.joins ∧
      proc'.pc.joinBlocked = none ∧ proc'.pc.joinReleased = none := by
  cases moves <;> exact ⟨rfl, rfl, rfl, rfl, rfl⟩

private theorem Moves.keeps_deleted (moves : Moves shared proc op shared' proc' effect)
    (deleted : proc.deleted = true) : proc'.deleted = true := by
  cases moves <;> first | exact deleted | rfl

theorem Deleted.later {after : State} (deleted : Deleted state page)
    (taken : StepCases state action after) : Deleted after page := by
  cases taken with
  | foreign outside => exact deleted
  | @act pid proc op shared proc' effect procs found moves applied =>
    obtain ⟨old, member, status, set⟩ := deleted
    obtain ⟨index, present⟩ := List.mem_iff_getElem?.mp member
    by_cases same : index = pid
    · subst same
      cases Option.some.inj (found.symm.trans present)
      obtain ⟨new, kept, woken⟩ := lookup_moved found applied
      refine ⟨new, List.mem_of_getElem? kept, ?_, ?_⟩
      · rw [woken.status, moves.status, status]
      · rw [woken.deleted, moves.keeps_deleted set]
    · obtain ⟨new, kept, woken⟩ := lookup_other same present applied
      refine ⟨new, List.mem_of_getElem? kept, ?_, ?_⟩
      · rw [woken.status, status]
      · rw [woken.deleted, set]

theorem Deleted.before {procs : List Proc}
    (found : state.procs[pid]? = some proc) (moves : Moves state.shared proc op shared proc' effect)
    (applied : effect.apply (state.procs.set pid proc') = some procs)
    (deleted : Deleted ⟨shared, procs⟩ page) :
    Deleted state page ∨
      op = .deleteRegister ∧ effect = .broadcastJoin ∧ proc.status = some page := by
  obtain ⟨new, member, status, set⟩ := deleted
  obtain ⟨index, present⟩ := List.mem_iff_getElem?.mp member
  rcases lookup_after found applied present with ⟨_, woken⟩ | ⟨_, old, before, woken⟩ | ⟨forked, _⟩
  · rcases moves.deleted with same | deletes
    · refine .inl ⟨proc, List.mem_of_getElem? found, ?_, ?_⟩
      · rw [← moves.status, ← woken.status, status]
      · rw [← same, ← woken.deleted, set]
    · exact .inr ⟨deletes.1, deletes.2, by rw [← moves.status, ← woken.status, status]⟩
  · refine .inl ⟨old, List.mem_of_getElem? before, ?_, ?_⟩
    · rw [← woken.status, status]
    · rw [← woken.deleted, set]
  · subst forked
    obtain ⟨_, _, _, _, _, same⟩ := moves.forked
    subst same
    simp [Proc.forked] at set

theorem Woken.joinBlocked (woken : Woken effect old new) (blocked : new.pc.joinBlocked = some page) :
    old.pc.joinBlocked = some page ∧ new = old := by
  cases woken with
  | same => exact ⟨blocked, rfl⟩
  | join | parent => simp [Pc.joinBlocked, Proc.goto] at blocked

theorem Woken.joinReleased (woken : Woken effect old new)
    (released : new.pc.joinReleased = some page) :
    old.pc.joinReleased = some page ∨ effect = .broadcastJoin ∧ old.pc.joinBlocked = some page := by
  cases woken with
  | same => exact .inl released
  | join pc => exact .inr ⟨rfl, by simpa [Pc.joinReleased, Pc.joinBlocked, Proc.goto, pc] using released⟩
  | parent => simp [Pc.joinReleased, Proc.goto] at released

/-- A broadcast leaves no joiner blocked. -/
theorem broadcast_unblocks {procs after : List Proc}
    (applied : Effect.broadcastJoin.apply procs = some after) (member : new ∈ after) :
    new.pc.joinBlocked = none := by
  cases applied
  obtain ⟨old, _, same⟩ := List.mem_map.mp member
  subst same
  unfold Proc.wakeJoin
  split
  · rfl
  · rename_i other
    cases blocked : old.pc with
    | joinCond page val => exact (other page val blocked).elim
    | _ => rfl

theorem Moves.joinBlocked (moves : Moves shared proc op shared' proc' effect)
    (blocked : proc'.pc.joinBlocked = some page) :
    op = .enterJoin ∧ effect = .quiet ∧ ∃ guestindex val, proc.pc = .joinRead page guestindex val ∧
      (shared.determ.entries guestindex).status ≠ .exit := by
  cases moves with
  | joinBlocks pc alive =>
    cases Option.some.inj blocked
    exact ⟨rfl, rfl, _, _, pc, alive⟩
  | joinUnready pc => rw [pc] at blocked; cases blocked
  | _ => cases blocked

theorem Moves.joinReleased (moves : Moves shared proc op shared' proc' effect) :
    proc'.pc.joinReleased = none := by
  cases moves with
  | joinUnready pc => rw [pc]; rfl
  | _ => rfl

/-! A joiner leaves only after the thread it joined has ended. -/

/-- What has to hold before a step of `pthread_join` or of an ending thread, so
that the step lets no joiner through too early: a thread ends only while every
blocked joiner waits for it or for an ended thread; a join that finds its entry
marked `STATUS_EXIT`, or the flag `initialized` cleared, joins an ended thread. -/
def InTime (state : State) (proc : Proc) : Op → Prop
  | .deleteRegister => ∀ other ∈ state.procs, ∀ page ∈ other.pc.joinBlocked,
      proc.status = some page ∨ Deleted state page
  | .enterJoin => match proc.pc with
    | .joinRead page guestindex _ =>
      (state.shared.determ.entries guestindex).status = .exit → Deleted state page
    | _ => True
  | .join handle _ => state.shared.initialized = false → Deleted state handle.page
  | _ => True

instance (state : State) (proc : Proc) (op : Op) : Decidable (InTime state proc op) := by
  unfold InTime
  repeat' split
  all_goals infer_instance

def JoinsInTime (state : State) : Action → Prop
  | .act pid op => ∀ proc ∈ state.procs[pid]?, InTime state proc op
  | .foreign .. => True

instance (state : State) : (action : Action) → Decidable (JoinsInTime state action)
  | .act pid op => inferInstanceAs (Decidable (∀ proc ∈ state.procs[pid]?, InTime state proc op))
  | .foreign .. => inferInstanceAs (Decidable True)

/-- Every `pthread_join` that has returned joined a thread that has ended. -/
def JoinsAfterEnd (state : State) : Prop := ∀ record ∈ state.shared.joins, Deleted state record.page

structure JoinInvariant (state : State) : Prop where
  released : ∀ proc ∈ state.procs, ∀ page ∈ proc.pc.joinReleased, Deleted state page
  returned : JoinsAfterEnd state

/-- A returned join is recorded by one of three steps. -/
theorem Moves.joins {record : JoinRecord} (moves : Moves shared proc op shared' proc' effect)
    (member : record ∈ shared'.joins) : record ∈ shared.joins ∨
      proc.pc.joinReleased = some record.page ∨
      (op = .enterJoin ∧ ∃ guestindex val, proc.pc = .joinRead record.page guestindex val ∧
        (shared.determ.entries guestindex).status = .exit) ∨
      ∃ handle val, op = .join handle val ∧ shared.initialized = false ∧
        handle.page = record.page := by
  cases moves with
  | joinUnready pc known unready =>
    rcases List.mem_cons.mp member with same | older
    · subst same
      exact .inr (.inr (.inr ⟨_, _, rfl, unready, rfl⟩))
    · exact .inl older
  | joinPasses pc ended =>
    rcases List.mem_cons.mp member with same | older
    · subst same
      exact .inr (.inr (.inl ⟨rfl, _, _, pc, ended⟩))
    · exact .inl older
  | leaveJoin pc =>
    rcases List.mem_cons.mp member with same | older
    · subst same
      exact .inr (.inl (by rw [pc]; rfl))
    · exact .inl older
  | record | storeRetval =>
    cases status : proc.status <;> simp only [status, Shared.setPage] at member <;> exact .inl member
  | _ => exact .inl member

theorem joinInvariant_step (good : JoinInvariant state) (inTime : JoinsInTime state action)
    (taken : step state action = some after) : JoinInvariant after := by
  have cases := step_cases taken
  cases cases with
  | foreign outside => exact ⟨good.released, good.returned⟩
  | @act pid proc op shared proc' effect procs found moves applied =>
    have taken := StepCases.act found moves applied
    have guard := inTime proc found
    constructor
    · intro new member page released
      obtain ⟨index, present⟩ := List.mem_iff_getElem?.mp member
      rcases lookup_after found applied present with ⟨_, woken⟩ | ⟨_, old, before, woken⟩ | ⟨forked, _⟩
      · rcases woken.joinReleased released with early | ⟨broadcast, blocked⟩
        · rw [moves.joinReleased] at early
          cases early
        · obtain ⟨_, quiet, _⟩ := moves.joinBlocked blocked
          rw [quiet] at broadcast
          cases broadcast
      · have oldMember := List.mem_of_getElem? before
        rcases woken.joinReleased released with early | ⟨broadcast, blocked⟩
        · exact (good.released old oldMember page early).later taken
        · subst broadcast
          have deletes : op = .deleteRegister := by cases moves <;> rfl
          subst deletes
          rcases guard old oldMember page blocked with own | ended
          · obtain ⟨moved, kept, woken⟩ := lookup_moved found applied
            refine ⟨moved, List.mem_of_getElem? kept, ?_, ?_⟩
            · rw [woken.status, moves.status, own]
            · rw [woken.deleted, moves.deleteRegister.1]
          · exact ended.later taken
      · subst forked
        obtain ⟨_, _, _, _, _, same⟩ := moves.forked
        subst same
        cases released
    · intro record member
      rcases moves.joins member with older | released | ⟨enters, guestindex, val, pc, ended⟩ |
        ⟨handle, val, joins, unready, named⟩
      · exact (good.returned record older).later taken
      · exact (good.released proc (List.mem_of_getElem? found) _ released).later taken
      · subst enters
        simp only [InTime, pc] at guard
        exact (guard ended).later taken
      · subst joins
        rw [← named]
        exact (guard unready).later taken

private theorem joinsAfterEnd_of_inTime (run : Run step initialState history state)
    (inTime : Meets JoinsInTime history) : JoinsAfterEnd state := by
  have initially : JoinInvariant initialState := by
    constructor
    · simp [initialState, mainProc, Pc.joinReleased]
    · simp [JoinsAfterEnd, initialState]
  exact (run.invariant initially joinInvariant_step inTime).returned

private theorem recorded_too_early {procs : List Proc} {record : JoinRecord}
    (found : state.procs[pid]? = some proc) (moves : Moves state.shared proc op shared proc' effect)
    (applied : effect.apply (state.procs.set pid proc') = some procs) (other : op ≠ .deleteRegister)
    (recorded : record ∈ shared.joins) (alive : ¬ Deleted state record.page) :
    ¬ JoinsAfterEnd ⟨shared, procs⟩ := by
  intro joined
  rcases Deleted.before found moves applied (joined record recorded) with ended | ⟨deletes, _⟩
  · exact alive ended
  · exact other deletes

/-- A thread that ends wakes every blocked joiner, whose next step then returns. -/
theorem woken_too_early {procs : List Proc} {page : Page}
    (found : state.procs[pid]? = some proc)
    (moves : Moves state.shared proc .deleteRegister shared proc' effect)
    (applied : effect.apply (state.procs.set pid proc') = some procs)
    (member : other ∈ state.procs) (blocked : other.pc.joinBlocked = some page)
    (notOwn : proc.status ≠ some page) (alive : ¬ Deleted state page) :
    ∃ later, Reachable step ⟨shared, procs⟩ later ∧ ¬ JoinsAfterEnd later := by
  obtain ⟨index, present⟩ := List.mem_iff_getElem?.mp member
  have different : index ≠ pid := by
    intro same
    subst same
    cases Option.some.inj (found.symm.trans present)
    cases moves <;> simp [Pc.joinBlocked, *] at blocked
  obtain ⟨_, broadcast, _⟩ := moves.deleteRegister
  subst broadcast
  cases pc : other.pc with
  | joinCond waited val =>
    rw [pc] at blocked
    cases Option.some.inj blocked
    have woken : procs[index]? = some (other.goto (.joinWoken page val)) := by
      cases applied
      rw [List.getElem?_map, List.getElem?_set_ne (Ne.symm different), present]
      simp [Proc.wakeJoin, pc]
    have leaves : step ⟨shared, procs⟩ (.act index .leaveJoin) = some
        ⟨{ shared with joins := ⟨page, val⟩ :: shared.joins },
          procs.set index ((other.goto (.joinWoken page val)).goto .running)⟩ := by
      simp [step, woken, localStep, Proc.goto, Effect.apply]
    refine ⟨_, (Reachable.refl step _).next leaves, ?_⟩
    cases step_cases leaves with
    | act found' moves' applied' =>
      refine recorded_too_early found' moves' applied' (by simp) (List.mem_cons_self ..) ?_
      intro ended
      rcases Deleted.before found moves applied ended with early | ⟨_, _, own⟩
      · exact alive early
      · exact notOwn own
  | _ => rw [pc] at blocked; cases blocked

/-- A step out of time makes the law fail, at once or one step later. -/
theorem inTime_needed (taken : step state action = some after)
    (late : ¬ JoinsInTime state action) :
    ∃ later, Reachable step after later ∧ ¬ JoinsAfterEnd later := by
  cases step_cases taken with
  | foreign outside => exact (late trivial).elim
  | @act pid proc op shared proc' effect procs found moves applied =>
    have broken : ¬ InTime state proc op := by
      intro inTime
      apply late
      intro other present
      cases Option.some.inj (found.symm.trans present)
      exact inTime
    cases op with
    | deleteRegister =>
      simp only [InTime, not_forall, not_or] at broken
      obtain ⟨other, member, page, blocked, notOwn, alive⟩ := broken
      exact woken_too_early found moves applied member blocked notOwn alive
    | enterJoin =>
      refine ⟨_, .refl step _, ?_⟩
      cases moves with
      | joinBlocks pc alive => simp [InTime, pc, alive] at broken
      | joinPasses pc ended =>
        simp only [InTime, pc, ended, forall_const] at broken
        exact recorded_too_early found (.joinPasses pc ended) applied (by simp)
          (List.mem_cons_self ..) broken
    | join handle val =>
      refine ⟨_, .refl step _, ?_⟩
      simp only [InTime, not_forall] at broken
      obtain ⟨unready, alive⟩ := broken
      cases moves with
      | join pc known ready =>
        rw [unready] at ready
        cases ready
      | joinUnready pc known _ =>
        exact recorded_too_early found (.joinUnready pc known unready) applied (by simp)
          (List.mem_cons_self ..) alive
    | _ => exact (broken trivial).elim

/-- In a run of steps in time every returned join joined an ended thread, and a
step out of time leads to a join that did not. -/
theorem joinsAfterEnd_exactly (run : Run step initialState history state) :
    (Meets JoinsInTime history → JoinsAfterEnd state) ∧
    ∀ {action after}, step state action = some after → ¬ JoinsInTime state action →
      ∃ later, Reachable step after later ∧ ¬ JoinsAfterEnd later :=
  ⟨joinsAfterEnd_of_inTime run, inTime_needed⟩

/-- Two threads, each joined by main while it runs. -/
theorem joinsAfterEnd_inOrder :
    ∃ state, Reachable step initialState state ∧ state.shared.joins.length = 2 ∧
      JoinsAfterEnd state := by
  have executed : ((execute (guarded step JoinsInTime) initialState
      (createActions 0 1 4096 1 ++ createActions 0 2 8192 2 ++ joinActions 0 ⟨0, 4096⟩ none ++
        exitActions 1 ++ [.act 0 .leaveJoin] ++ joinActions 0 ⟨1, 8192⟩ none ++ exitActions 2 ++
        [.act 0 .leaveJoin])).map fun state =>
          decide (state.shared.joins.length = 2)) = some true := by
    decide +kernel
  obtain ⟨history, state, run, inTime, both⟩ := exists_guarded executed
  exact ⟨state, ⟨history, run⟩, both, (joinsAfterEnd_exactly run).1 inTime⟩

/-- Main joins the first of two threads, and the end of the second lets it through. -/
theorem join_returns_early :
    ¬ ∀ state, Reachable step initialState state → JoinsAfterEnd state := by
  have early : ((execute step initialState
      (createActions 0 1 4096 1 ++ createActions 0 2 8192 2 ++ joinActions 0 ⟨0, 4096⟩ none ++
        exitActions 2 ++ [.act 0 .leaveJoin])).map
      fun state => decide (∃ record ∈ state.shared.joins, ¬ Deleted state record.page)) =
        some true := by
    decide +kernel
  obtain ⟨state, reached, record, member, alive⟩ := exists_reachable early
  exact fun joined => alive (joined state reached record member)

/-! A thread's end wakes the joiners that wait for it already; one that comes
later relies on the mark in the entry it looks at. -/

/-- No process is blocked on a thread that has ended. -/
def NoLostExit (state : State) : Prop :=
  ∀ proc ∈ state.procs, ∀ page ∈ proc.pc.joinBlocked, ¬ Deleted state page

/-- A join of an ended thread finds `STATUS_EXIT` in the entry at the index it
has read through the thread's handle. -/
def FindsExit (state : State) (proc : Proc) : Op → Prop
  | .enterJoin => match proc.pc with
    | .joinRead page guestindex _ =>
      Deleted state page → (state.shared.determ.entries guestindex).status = .exit
    | _ => True
  | _ => True

instance (state : State) (proc : Proc) (op : Op) : Decidable (FindsExit state proc op) := by
  unfold FindsExit
  repeat' split
  all_goals infer_instance

def EndVisible (state : State) : Action → Prop
  | .act pid op => ∀ proc ∈ state.procs[pid]?, FindsExit state proc op
  | .foreign .. => True

instance (state : State) : (action : Action) → Decidable (EndVisible state action)
  | .act pid op => inferInstanceAs (Decidable (∀ proc ∈ state.procs[pid]?, FindsExit state proc op))
  | .foreign .. => inferInstanceAs (Decidable True)

theorem noLostExit_step (good : NoLostExit state) (visible : EndVisible state action)
    (taken : step state action = some after) : NoLostExit after := by
  cases step_cases taken with
  | foreign outside => exact good
  | @act pid proc op shared proc' effect procs found moves applied =>
    intro new member page blocked ended
    rcases Deleted.before found moves applied ended with early | ⟨_, broadcast, _⟩
    · obtain ⟨index, present⟩ := List.mem_iff_getElem?.mp member
      rcases lookup_after found applied present with ⟨_, woken⟩ | ⟨_, old, before, woken⟩ | ⟨forked, _⟩
      · obtain ⟨enters, _, guestindex, val, pc, alive⟩ := moves.joinBlocked (woken.joinBlocked blocked).1
        have guard := visible proc found
        subst enters
        simp only [FindsExit, pc] at guard
        exact alive (guard early)
      · exact good old (List.mem_of_getElem? before) page (woken.joinBlocked blocked).1 early
      · subst forked
        obtain ⟨_, _, _, _, _, same⟩ := moves.forked
        subst same
        cases blocked
    · subst broadcast
      have unblocked := broadcast_unblocks applied member
      rw [unblocked] at blocked
      cases blocked

/-- A join that misses the mark of an ended thread blocks on it. -/
theorem endVisible_needed (taken : step state action = some after)
    (missed : ¬ EndVisible state action) : ¬ NoLostExit after := by
  cases step_cases taken with
  | foreign outside => exact (missed trivial).elim
  | @act pid proc op shared proc' effect procs found moves applied =>
    have broken : ¬ FindsExit state proc op := by
      intro finds
      apply missed
      intro other present
      cases Option.some.inj (found.symm.trans present)
      exact finds
    intro good
    have taken := StepCases.act found moves applied
    cases op with
    | enterJoin =>
      cases moves with
      | joinPasses pc ended => simp [FindsExit, pc, ended] at broken
      | @joinBlocks page guestindex val pc alive =>
        simp only [FindsExit, pc, alive, imp_false, not_not] at broken
        obtain ⟨new, kept, woken⟩ := lookup_moved found applied
        have blocked : new.pc.joinBlocked = some page := by
          cases woken
          rfl
        exact good new (List.mem_of_getElem? kept) page blocked (broken.later taken)
    | _ => exact (broken trivial).elim

/-- Along a run nobody stays blocked on an ended thread exactly when every join
of an ended thread finds the thread's entry marked. -/
theorem noLostExit_iff (run : Run step initialState history state) :
    (∀ seen ∈ visited history state, NoLostExit seen) ↔ Meets EndVisible history := by
  have initially : NoLostExit initialState := by
    simp [NoLostExit, initialState, mainProc, Pc.joinBlocked]
  refine run.always_iff (fun _ => trivial) initially ?_
  intro state action after _ good taken
  constructor
  · intro kept
    by_cases visible : EndVisible state action
    · exact visible
    · exact (endVisible_needed taken visible kept).elim
  · exact fun visible => noLostExit_step good visible taken

/-- Main joins two running threads, which end after that. -/
theorem noLostExit_inOrder :
    ∃ history state, Run step initialState history state ∧ state.shared.joins.length = 2 ∧
      ∀ seen ∈ visited history state, NoLostExit seen := by
  have executed : ((execute (guarded step EndVisible) initialState
      (createActions 0 1 4096 1 ++ createActions 0 2 8192 2 ++ joinActions 0 ⟨0, 4096⟩ none ++
        exitActions 1 ++ [.act 0 .leaveJoin] ++ joinActions 0 ⟨1, 8192⟩ none ++ exitActions 2 ++
        [.act 0 .leaveJoin])).map fun state =>
          decide (state.shared.joins.length = 2)) = some true := by
    decide +kernel
  obtain ⟨history, state, run, visible, both⟩ := exists_guarded executed
  exact ⟨history, state, run, both, (noLostExit_iff run).mpr visible⟩

/-- A thread ends before it is joined: its end is marked in entry 0, and main
looks at entry 1. -/
theorem exit_lost : ¬ ∀ state, Reachable step initialState state → NoLostExit state := by
  have lost : ((execute step initialState
      (createActions 0 1 4096 1 ++ exitActions 1 ++ joinActions 0 ⟨0, 4096⟩ none)).map
      fun state => decide (∃ proc ∈ state.procs, ∃ page ∈ proc.pc.joinBlocked, Deleted state page)) =
        some true := by
    decide +kernel
  obtain ⟨state, reached, proc, member, page, blocked, ended⟩ := exists_reachable lost
  exact fun good => good state reached proc member page blocked ended

end ProcessAsThread
