import ProcessAsThread.Threads.Status

/-! The parent each thread is registered with. `spawn` passes the static
`_thread_index`, which is one variable for all processes and holds the index of
the thread that registered last. -/

namespace ProcessAsThread

open Library

/-- The process whose clone made the process at a place of the table. -/
def creatorOf (child : Pid) : List (State × Action) → Option Pid
  | [] => none
  | (state, action) :: earlier =>
    match action with
    | .act creator (.clone (some _)) =>
      if state.procs.length = child then some creator else creatorOf child earlier
    | _ => creatorOf child earlier

/-- The index a thread is registered under; the main thread has index 0. -/
def Proc.ownIndex (proc : Proc) : Int := proc.registered.getD 0

/-- The entry in which `registerThread` has put a child names its creator. -/
def ParentStored (history : List (State × Action)) (after : State) (child : Pid) : Prop :=
  ∃ creator parent entering index, creatorOf child history = some creator ∧
    after.procs[creator]? = some parent ∧ after.procs[child]? = some entering ∧
    entering.registered = some index ∧
    (after.shared.determ.entries index).tidParent = parent.ownIndex

/-- A thread that is about to create another one finds its own index in the static. -/
def OwnStatic (state : State) : Action → Prop
  | .act pid .readIndex => ∀ proc ∈ state.procs[pid]?,
      toInt state.shared.myrun.threadIndex = proc.ownIndex
  | _ => True

instance (state : State) (action : Action) : Decidable (OwnStatic state action) := by
  unfold OwnStatic
  split <;> infer_instance

/-- The parent index `spawn` was called with, up to the clone. -/
def Pc.parentIndex : Pc → Option Int
  | .allocating parentIndex | .cloning parentIndex _ => some parentIndex
  | _ => none

theorem Moves.settled (moves : Moves shared proc op shared' proc' effect)
    (settled : proc.pc.unregistered = false) : proc'.pc.unregistered = false := by
  cases moves with
  | increment pc | storeIndex pc => simp [pc, Pc.unregistered] at settled
  | joinUnready => exact settled
  | createUnready | create => rfl
  | _ => rfl

theorem Moves.ownIndex (moves : Moves shared proc op shared' proc' effect)
    (settled : proc.pc.unregistered = false) : proc'.ownIndex = proc.ownIndex := by
  cases moves with
  | enter pc => simp [pc, Pc.unregistered] at settled
  | _ => rfl

theorem Moves.keeps_parentIndex (moves : Moves shared proc op shared' proc' effect) :
    proc'.parentIndex = proc.parentIndex := by
  cases moves <;> rfl

theorem Woken.ownIndex (woken : Woken effect old new) : new.ownIndex = old.ownIndex := by
  cases woken <;> rfl

theorem Woken.keeps_parentIndex (woken : Woken effect old new) : new.parentIndex = old.parentIndex := by
  cases woken <;> rfl

theorem Woken.parentIndex (woken : Woken effect old new) : new.pc.parentIndex = old.pc.parentIndex := by
  cases woken with
  | same => rfl
  | join pc | parent pc => rw [pc]; rfl

/-- A parent index carried to the clone is the one `readIndex` took from the static. -/
theorem Moves.parentIndex (moves : Moves shared proc op shared' proc' effect)
    (carried : proc'.pc.parentIndex = some index) :
    proc.pc.parentIndex = some index ∨
      op = .readIndex ∧ index = toInt shared.myrun.threadIndex := by
  cases moves with
  | readIndex => exact .inr ⟨rfl, (Option.some.inj carried).symm⟩
  | allocate pc => exact .inl (by rw [pc]; exact carried)
  | joinUnready => exact .inl carried
  | _ => cases carried

/-- A spawned process carries the index of its creator, which has registered. -/
structure Lineage (history : List (State × Action)) (state : State) : Prop where
  main : ∀ proc ∈ state.procs, proc.status = none → proc.pc.unregistered = false
  carried : ∀ proc ∈ state.procs, ∀ parentIndex ∈ proc.pc.parentIndex, parentIndex = proc.ownIndex
  created : ∀ {child : Nat} {proc : Proc}, state.procs[child]? = some proc → proc.status ≠ none →
    ∃ creator parent, creatorOf child history = some creator ∧
      state.procs[creator]? = some parent ∧ parent.pc.unregistered = false ∧
      proc.parentIndex = parent.ownIndex

theorem creatorOf_step (inside : child < state.procs.length) (action : Action) :
    creatorOf child ((state, action) :: history) = creatorOf child history := by
  have older : state.procs.length ≠ child := Nat.ne_of_gt inside
  cases action with
  | foreign => rfl
  | act pid op =>
    cases op with
    | clone made => cases made <;> simp [creatorOf, older]
    | _ => rfl

private theorem lineage_kept {state : State} {procs : List Proc} {pid creator : Nat}
    (found : state.procs[pid]? = some proc) (moves : Moves state.shared proc op shared proc' effect)
    (applied : effect.apply (state.procs.set pid proc') = some procs)
    (present : state.procs[creator]? = some parent) (settled : parent.pc.unregistered = false) :
    ∃ later, procs[creator]? = some later ∧ later.pc.unregistered = false ∧
      later.ownIndex = parent.ownIndex := by
  by_cases same : creator = pid
  · subst same
    cases found.symm.trans present
    obtain ⟨later, seen, woken⟩ := lookup_moved found applied
    exact ⟨later, seen, by rw [woken.unregistered, moves.settled settled],
      by rw [woken.ownIndex, moves.ownIndex settled]⟩
  · obtain ⟨later, seen, woken⟩ := lookup_other same present applied
    exact ⟨later, seen, by rw [woken.unregistered, settled], woken.ownIndex⟩

section

variable {pid : Nat} {procs : List Proc}

private theorem Lineage.carried_moved (good : Lineage history state) (own : OwnStatic state (.act pid op))
    (found : state.procs[pid]? = some proc) (moves : Moves state.shared proc op shared proc' effect)
    (carried : proc'.pc.parentIndex = some index) : index = proc'.ownIndex := by
  rcases moves.parentIndex carried with before | ⟨reads, same⟩
  · have settled : proc.pc.unregistered = false := by
      revert before
      cases proc.pc <;> simp [Pc.parentIndex, Pc.unregistered]
    rw [moves.ownIndex settled]
    exact good.carried proc (List.mem_of_getElem? found) index before
  · subst reads
    rw [same, own proc found]
    cases moves
    rfl

private theorem Lineage.created_kept (good : Lineage history state) (found : state.procs[pid]? = some proc)
    (moves : Moves state.shared proc op shared proc' effect)
    (applied : effect.apply (state.procs.set pid proc') = some procs) {child : Nat} {old new : Proc}
    (present : state.procs[child]? = some old) (spawned : old.status ≠ none)
    (same : new.parentIndex = old.parentIndex) :
    ∃ creator parent, creatorOf child ((state, .act pid op) :: history) = some creator ∧
      procs[creator]? = some parent ∧ parent.pc.unregistered = false ∧
      new.parentIndex = parent.ownIndex := by
  obtain ⟨creator, parent, made, creates, settled, index⟩ := good.created present spawned
  obtain ⟨later, seen, settled, own⟩ := lineage_kept found moves applied creates settled
  have inside := (List.getElem?_eq_some_iff.mp present).1
  exact ⟨creator, later, by rw [creatorOf_step inside, made], seen, settled, by rw [same, index, own]⟩

/-- A new process has the process that made it for its creator. -/
theorem Lineage.created_forked (good : Lineage history state) (found : state.procs[pid]? = some proc)
    (moves : Moves state.shared proc op shared proc' (.fork new))
    (applied : (Effect.fork new).apply (state.procs.set pid proc') = some procs) :
    ∃ creator parent,
      creatorOf state.procs.length ((state, .act pid op) :: history) = some creator ∧
      procs[creator]? = some parent ∧ parent.pc.unregistered = false ∧
      new.parentIndex = parent.ownIndex := by
  cases moves with
  | clone pc =>
    obtain ⟨later, seen, woken⟩ := lookup_moved found applied
    have index := good.carried proc (List.mem_of_getElem? found) _ (by rw [pc]; rfl)
    refine ⟨pid, later, by simp [creatorOf], seen, ?_, ?_⟩
    · rw [woken.unregistered]
      rfl
    · rw [woken.ownIndex]
      exact index

end

theorem lineage_step (good : Lineage history state) (own : OwnStatic state action)
    (taken : step state action = some after) : Lineage ((state, action) :: history) after := by
  cases step_cases taken with
  | foreign outside => exact ⟨good.main, good.carried, good.created⟩
  | @act pid proc op shared proc' effect procs found moves applied =>
    constructor
    case main =>
      refine forall_procs_step found applied good.main ?_ ?_ ?_
      · intro main
        exact moves.settled (good.main proc (List.mem_of_getElem? found) (by rw [← moves.status, main]))
      · intro old new woken before main
        rw [woken.unregistered, before (by rw [← woken.status, main])]
      · intro child forks main
        subst forks
        obtain ⟨_, _, _, _, _, same⟩ := moves.forked
        subst same
        cases main
    case carried =>
      refine forall_procs_step found applied good.carried ?_ ?_ ?_
      · exact fun index carried => good.carried_moved own found moves carried
      · intro old new woken before index carried
        rw [woken.ownIndex]
        exact before index (by rw [← woken.parentIndex]; exact carried)
      · intro child forks index carried
        subst forks
        obtain ⟨_, _, _, _, _, same⟩ := moves.forked
        subst same
        cases carried
    case created =>
      intro child new seen spawned
      rcases lookup_after found applied seen with
        ⟨same, woken⟩ | ⟨_, old, before, woken⟩ | ⟨forked, last⟩
      · subst same
        exact good.created_kept found moves applied found
          (by rw [← moves.status, ← woken.status]; exact spawned)
          (by rw [woken.keeps_parentIndex, moves.keeps_parentIndex])
      · exact good.created_kept found moves applied before (by rw [← woken.status]; exact spawned)
          woken.keeps_parentIndex
      · subst forked last
        exact good.created_forked found moves applied

private theorem lineage_of_ownStatic (run : Run step initialState history state)
    (own : Meets OwnStatic history) : Lineage history state := by
  induction run with
  | start =>
    constructor
    case created =>
      intro child proc present spawned
      have member := List.mem_of_getElem? present
      simp only [initialState, List.mem_singleton] at member
      rw [member] at spawned
      exact (spawned rfl).elim
    all_goals simp [initialState, mainProc, Pc.unregistered, Pc.parentIndex]
  | next earlier taken ih => exact lineage_step (ih own.tail) own.head taken

/-- In a run in which every thread that creates another one finds its own index
in the static, each registration stores the index of the creator. -/
theorem parentStored_of_ownStatic (run : Run step initialState history state)
    (own : Meets OwnStatic history) (taken : step state (.act child .enter) = some after) :
    ParentStored history after child := by
  have lineage := lineage_of_ownStatic run own
  have lineage' := lineage_step lineage (by simp [OwnStatic]) taken
  cases step_cases taken with
  | @act pid proc op shared proc' effect procs found moves applied =>
    cases moves with
    | enter pc =>
      have spawned : proc.status ≠ none := by
        intro main
        have settled := lineage.main proc (List.mem_of_getElem? found) main
        simp [pc, Pc.unregistered] at settled
      obtain ⟨new, seen, woken⟩ := lookup_moved found applied
      obtain ⟨creator, parent, made, creates, _, index⟩ :=
        lineage'.created seen (by rw [woken.status]; exact spawned)
      refine ⟨creator, parent, new, _, made, creates, seen, woken.registered, ?_⟩
      rw [← index, woken.keeps_parentIndex]
      simp [Mydeterm.registerThread, Mydeterm.setEntry]

/-- The main thread creates a thread, which creates another one. -/
theorem parentStored_nested : ∃ history state after, Run step initialState history state ∧
    step state (.act 2 .enter) = some after ∧ ParentStored history after 2 := by
  have executed : ((execute (guarded step OwnStatic) initialState (createActions 0 1 4096 1 ++
      [.create, .countChild, .readIndex, .allocate 8192, .clone (some 0)].map (.act 1) ++
      [.increment, .storeIndex].map (.act 2))).map
      fun state => decide ((step state (.act 2 .enter)).isSome = true)) = some true := by
    decide +kernel
  obtain ⟨history, state, run, own, enters⟩ := exists_guarded executed
  obtain ⟨after, taken⟩ := Option.isSome_iff_exists.mp enters
  exact ⟨history, state, after, run, taken, parentStored_of_ownStatic run own taken⟩

/-- The main thread creates two threads one after the other: the second one is
registered with the first one as its parent. -/
theorem parent_misnamed : ¬ ∀ history state, Run step initialState history state →
    ∀ child after, step state (.act child .enter) = some after → ParentStored history after child := by
  have recorded : (record step [] initialState (createActions 0 1 4096 2 ++
      [.create, .countChild, .readIndex, .allocate 8192, .clone (some 0)].map (.act 0) ++
      [.increment, .storeIndex].map (.act 2))).map (fun (history, state) =>
        decide (∃ after ∈ step state (.act 2 .enter), creatorOf 2 history = some 0 ∧
          (∀ parent ∈ after.procs[0]?, parent.ownIndex = 0) ∧
          ∀ entering ∈ after.procs[2]?, ∀ index ∈ entering.registered,
            (after.shared.determ.entries index).tidParent = 1)) = some true := by
    decide +kernel
  obtain ⟨history, state, run, after, taken, made, own, stored⟩ := exists_run recorded
  intro always
  obtain ⟨creator, parent, entering, index, made', creates, entered, registered, named⟩ :=
    always history state run 2 after taken
  cases made.symm.trans made'
  rw [own parent creates, stored entering entered index registered] at named
  cases named

end ProcessAsThread
