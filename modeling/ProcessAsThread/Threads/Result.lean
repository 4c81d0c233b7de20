import ProcessAsThread.Threads.Moves

/-! What `pthread_join` hands to its caller. `mythread::join`, which would copy
the return value out of the `ThreadStatus` page and release the page, is not on
its way. -/

namespace ProcessAsThread

open Library

/-- The caller's variable holds what the start routine of the joined thread has
returned, and the thread's page has been released once. -/
def Delivered (state : State) (record : JoinRecord) : Prop :=
  (∃ thread ∈ state.procs, thread.status = some record.page ∧ thread.result ≠ none ∧
    record.val = thread.result) ∧
  ∃ status ∈ state.shared.pages[record.page]?, status.releases = 1

/-- The pages of all threads, none of them released. -/
def Unreleased (state : State) : Prop := ∀ status ∈ state.shared.pages, status.releases = 0

private theorem Shared.setPage_releases {shared : Shared}
    {change : Mythread.ThreadStatus → Mythread.ThreadStatus}
    (unreleased : ∀ status ∈ shared.pages, status.releases = 0)
    (kept : ∀ status, (change status).releases = status.releases) (page : Option Page) :
    ∀ status ∈ (shared.setPage page change).pages, status.releases = 0 := by
  cases page with
  | none => exact unreleased
  | some page =>
    intro status member
    obtain ⟨index, present⟩ := List.mem_iff_getElem?.mp member
    simp only [Shared.setPage, List.getElem?_modify] at present
    obtain ⟨old, held, same⟩ := Option.map_eq_some_iff.mp present
    subst same
    have before := unreleased old (List.mem_of_getElem? held)
    split
    · rw [kept, before]
    · exact before

theorem Moves.unreleased (moves : Moves shared proc op shared' proc' effect)
    (unreleased : ∀ status ∈ shared.pages, status.releases = 0) :
    ∀ status ∈ shared'.pages, status.releases = 0 := by
  cases moves with
  | allocate =>
    intro status member
    rcases List.mem_append.mp member with older | fresh
    · exact unreleased status older
    · rw [List.mem_singleton.mp fresh]
      rfl
  | record | storeRetval => exact Shared.setPage_releases unreleased (by intro status; rfl) _
  | _ => exact unreleased

theorem unreleased_of_reachable (reached : Reachable step initialState state) : Unreleased state := by
  refine reached.invariant (by simp [Unreleased, initialState]) ?_
  intro state action after unreleased taken
  cases step_cases taken with
  | foreign outside => exact unreleased
  | act found moves applied => exact moves.unreleased unreleased

/-- The contents of the result variable a process carries through `pthread_join`. -/
def Pc.joinVal : Pc → Option (Option Value)
  | .joinCalled _ val | .joinRead _ _ val | .joinCond _ val | .joinWoken _ val => some val
  | _ => none

def Called (history : List (State × Action)) (val : Option Value) : Prop :=
  ∃ entry ∈ history, ∃ pid handle, entry.2 = .act pid (.join handle val)

theorem Moves.joinVal (moves : Moves shared proc op shared' proc' effect)
    (carried : proc'.pc.joinVal = some val) :
    proc.pc.joinVal = some val ∨ ∃ handle, op = .join handle val := by
  cases moves with
  | join =>
    cases carried
    exact .inr ⟨_, rfl⟩
  | joinUnready => exact .inl carried
  | readHandle pc | joinBlocks pc =>
    cases carried
    exact .inl (by rw [pc]; rfl)
  | _ => cases carried

private theorem Moves.joins_val {record : JoinRecord} (moves : Moves shared proc op shared' proc' effect)
    (member : record ∈ shared'.joins) : record ∈ shared.joins ∨
      proc.pc.joinVal = some record.val ∨ ∃ handle, op = .join handle record.val := by
  cases moves with
  | joinUnready =>
    rcases List.mem_cons.mp member with same | older
    · subst same
      exact .inr (.inr ⟨_, rfl⟩)
    · exact .inl older
  | joinPasses pc | leaveJoin pc =>
    rcases List.mem_cons.mp member with same | older
    · subst same
      exact .inr (.inl (by rw [pc]; rfl))
    · exact .inl older
  | record | storeRetval =>
    cases status : proc.status <;> simp only [status, Shared.setPage] at member <;> exact .inl member
  | _ => exact .inl member

theorem Woken.joinVal (woken : Woken effect old new) : new.pc.joinVal = old.pc.joinVal := by
  cases woken with
  | same => rfl
  | join pc | parent pc => rw [pc]; rfl

theorem Called.next (called : Called history val) : Called (entry :: history) val := by
  obtain ⟨entry', member, named⟩ := called
  exact ⟨entry', List.mem_cons_of_mem _ member, named⟩

/-- No step writes the result variable between a call of `pthread_join` and its return. -/
theorem called_of_run (run : Run step initialState history state) :
    (∀ proc ∈ state.procs, ∀ val, proc.pc.joinVal = some val → Called history val) ∧
      ∀ record ∈ state.shared.joins, Called history record.val := by
  induction run with
  | start => simp [initialState, mainProc, Pc.joinVal]
  | @next history state action after earlier taken ih =>
    obtain ⟨carried, returned⟩ := ih
    cases step_cases taken with
    | foreign outside =>
      exact ⟨fun proc member val held => (carried proc member val held).next,
        fun record member => (returned record member).next⟩
    | @act pid proc op shared proc' effect procs found moves applied =>
      have before := carried proc (List.mem_of_getElem? found)
      have called : ∀ handle val, op = .join handle val →
          Called ((state, .act pid op) :: history) val :=
        fun handle val same => ⟨_, List.mem_cons_self .., pid, handle, by rw [same]⟩
      constructor
      · refine forall_procs_step found applied (fun proc member val held =>
          (carried proc member val held).next) ?_ ?_ ?_
        · intro val held
          rcases moves.joinVal held with older | ⟨handle, same⟩
          · exact (before val older).next
          · exact called handle val same
        · intro old new woken carried val held
          exact carried val (by rw [← woken.joinVal, held])
        · intro child forks val held
          subst forks
          obtain ⟨_, _, _, _, _, same⟩ := moves.forked
          subst same
          cases held
      · intro record member
        rcases moves.joins_val member with older | held | ⟨handle, same⟩
        · exact (returned record older).next
        · exact (before _ held).next
        · exact called handle _ same

/-- A join that has returned never delivers: the caller's variable holds what it
held at a call, and the page is still allocated. -/
theorem join_neverDelivers {record : JoinRecord} (run : Run step initialState history state)
    (returned : record ∈ state.shared.joins) :
    Called history record.val ∧ Unreleased state ∧ ¬ Delivered state record := by
  have unreleased := unreleased_of_reachable ⟨history, run⟩
  refine ⟨(called_of_run run).2 record returned, unreleased, ?_⟩
  intro ⟨_, status, present, released⟩
  have none := unreleased status (List.mem_of_getElem? present)
  omega

/-- Main joins a thread that returns 7, with a variable that holds 0. -/
theorem join_neverDelivers_seven :
    ∃ state record, Reachable step initialState state ∧ record ∈ state.shared.joins ∧
      record.val = some 0 ∧ (∃ thread ∈ state.procs, thread.result = some 7) ∧
      ¬ Delivered state record := by
  have executed : ((execute step initialState (createActions 0 1 4096 1 ++
      joinActions 0 ⟨0, 4096⟩ (some 0) ++ returnActions 1 7 ++ [.act 0 .leaveJoin])).map
      fun state => decide (⟨0, some 0⟩ ∈ state.shared.joins ∧
        ∃ thread ∈ state.procs, thread.result = some 7)) = some true := by
    decide +kernel
  obtain ⟨state, ⟨history, run⟩, checked⟩ := exists_reachable executed
  exact ⟨state, _, ⟨history, run⟩, checked.1, rfl, checked.2, (join_neverDelivers run checked.1).2.2⟩

/-- The same run, as a counterexample. -/
theorem result_dropped : ¬ ∀ state, Reachable step initialState state →
    ∀ record ∈ state.shared.joins, record.val ≠ none → Delivered state record := by
  have executed : ((execute step initialState (createActions 0 1 4096 1 ++
      joinActions 0 ⟨0, 4096⟩ (some 0) ++ returnActions 1 7 ++ [.act 0 .leaveJoin])).map
      fun state => decide (⟨0, some 0⟩ ∈ state.shared.joins ∧
        ∀ thread ∈ state.procs, thread.result = none ∨ thread.result = some 7)) = some true := by
    decide +kernel
  obtain ⟨state, reached, checked⟩ := exists_reachable executed
  obtain ⟨returned, results⟩ := checked
  intro delivers
  obtain ⟨⟨thread, member, _, ended, same⟩, _⟩ :=
    delivers state reached ⟨0, some 0⟩ returned (by simp)
  rcases results thread member with none | seven
  · exact ended none
  · rw [seven] at same
    cases same

end ProcessAsThread
