import ProcessAsThread.Threads.Moves

/-! Who can read a thread handle. Its page is a shared mapping made by one
process, which only the processes cloned from that one afterwards inherit. -/

namespace ProcessAsThread

open Library

/-- The process has allocated the page of the handle, or is cloned from a process
that had it by then. -/
inductive Inherits (handle : Handle) : List (State × Action) → Pid → Prop where
  | allocated (page : handle = ⟨state.shared.pages.length, address⟩) :
      Inherits handle ((state, .act creator (.allocate address)) :: earlier) creator
  | cloned (parent : Inherits handle earlier creator) :
      Inherits handle ((state, .act creator (.clone (some pid))) :: earlier) state.procs.length
  | later (before : Inherits handle earlier process) : Inherits handle (entry :: earlier) process

/-- The handle a process carries through `pthread_create`. -/
def Pc.handle : Pc → Option Handle
  | .cloning _ handle | .awaiting handle | .awaitingCond handle | .awaitingWoken handle => some handle
  | _ => none

theorem Moves.space (moves : Moves shared proc op shared' proc' effect) :
    ((∀ address, op ≠ .allocate address) ∧ proc'.space = proc.space) ∨
      ∃ address, op = .allocate address ∧ proc.space.lookup address = none ∧
        proc'.space = (address, shared.pages.length) :: proc.space := by
  cases moves with
  | allocate pc free => exact .inr ⟨_, rfl, free, rfl⟩
  | _ => exact .inl ⟨by simp, rfl⟩

theorem Moves.handle (moves : Moves shared proc op shared' proc' effect)
    (carried : proc'.pc.handle = some held) :
    proc.pc.handle = some held ∨ ∃ address, op = .allocate address ∧
      held = ⟨shared.pages.length, address⟩ := by
  cases moves with
  | allocate => exact .inr ⟨_, rfl, (Option.some.inj carried).symm⟩
  | cloneFails pc | clone pc | waitBlocks pc => exact .inl (by rw [pc]; exact carried)
  | joinUnready => exact .inl carried
  | _ => cases carried

theorem Moves.returned (moves : Moves shared proc op shared' proc' effect)
    (returned : held ∈ shared'.spawned) : held ∈ shared.spawned ∨ proc.pc.handle = some held := by
  cases moves with
  | waitPasses pc | wakeChild pc =>
    rcases List.mem_cons.mp returned with same | older
    · exact .inr (by rw [pc, same]; rfl)
    · exact .inl older
  | record | storeRetval =>
    cases status : proc.status <;> simp only [status, Shared.setPage] at returned <;>
      exact .inl returned
  | _ => exact .inl returned

theorem Woken.space (woken : Woken effect old new) : new.space = old.space := by
  cases woken <;> rfl

theorem Woken.handle (woken : Woken effect old new) : new.pc.handle = old.pc.handle := by
  cases woken with
  | same => rfl
  | join pc | parent pc => rw [pc]; rfl

/-- The mappings of all processes, read off the history. -/
structure Mapped (history : List (State × Action)) (state : State) : Prop where
  spaces : ∀ {pid : Nat} {proc : Proc}, state.procs[pid]? = some proc → ∀ handle,
    proc.space.lookup handle.address = some handle.page ↔ Inherits handle history pid
  inside : ∀ {pid : Nat} {handle}, Inherits handle history pid → pid < state.procs.length
  carried : ∀ {pid : Nat} {proc : Proc}, state.procs[pid]? = some proc →
    ∀ handle ∈ proc.pc.handle, Inherits handle history pid
  returned : ∀ handle ∈ state.shared.spawned, ∃ creator, Inherits handle history creator

/-- A step adds a mapping to the process that allocates and to a forked child only. -/
theorem Inherits.before (inherits : Inherits handle ((state, action) :: history) process) :
    Inherits handle history process ∨
      (∃ address, action = .act process (.allocate address) ∧
        handle = ⟨state.shared.pages.length, address⟩) ∨
      ∃ creator pid, action = .act creator (.clone (some pid)) ∧ process = state.procs.length ∧
        Inherits handle history creator := by
  cases inherits with
  | allocated page => exact .inr (.inl ⟨_, rfl, page⟩)
  | cloned parent => exact .inr (.inr ⟨_, _, rfl, rfl, parent⟩)
  | later before => exact .inl before

theorem Mapped.moved (good : Mapped history state) {pid : Nat} (found : state.procs[pid]? = some proc)
    (moves : Moves state.shared proc op shared proc' effect) (handle : Handle) :
    proc'.space.lookup handle.address = some handle.page ↔
      Inherits handle ((state, .act pid op) :: history) pid := by
  have before := good.spaces found handle
  have inside := (List.getElem?_eq_some_iff.mp found).1
  rcases moves.space with ⟨other, kept⟩ | ⟨address, allocates, free, mapped⟩
  · rw [kept, before]
    constructor
    · exact .later
    · intro inherits
      rcases inherits.before with older | ⟨address, same, _⟩ | ⟨_, _, _, last, _⟩
      · exact older
      · cases same
        exact (other address rfl).elim
      · exact (Nat.ne_of_lt inside last).elim
  · subst allocates
    rw [mapped, List.lookup_cons]
    by_cases same : handle.address = address
    · subst same
      rw [free] at before
      simp only [beq_self_eq_true]
      constructor
      · intro page
        exact .allocated (by cases handle; cases page; rfl)
      · intro inherits
        rcases inherits.before with older | ⟨_, _, page⟩ | ⟨_, _, same, _⟩
        · cases before.mpr older
        · rw [page]
        · cases same
    · have different : (handle.address == address) = false := by simpa using same
      simp only [different]
      rw [before]
      constructor
      · exact .later
      · intro inherits
        rcases inherits.before with older | ⟨_, taken, page⟩ | ⟨_, _, taken, _⟩
        · exact older
        · cases taken
          rw [page] at same
          exact (same rfl).elim
        · cases taken

private theorem inherits_foreign : Inherits handle ((state, .foreign threadindex entry) :: history) process ↔
    Inherits handle history process := by
  constructor
  · intro inherits
    rcases inherits.before with older | ⟨_, same, _⟩ | ⟨_, _, same, _⟩
    · exact older
    · cases same
    · cases same
  · exact .later

private theorem inherits_elsewhere (different : process ≠ pid) (inside : process < state.procs.length) :
    Inherits handle ((state, .act pid op) :: history) process ↔ Inherits handle history process := by
  constructor
  · intro inherits
    rcases inherits.before with older | ⟨_, same, _⟩ | ⟨_, _, _, last, _⟩
    · exact older
    · cases same
      exact (different rfl).elim
    · exact (Nat.ne_of_lt inside last).elim
  · exact .later

private theorem inherits_child (fresh : ¬ Inherits handle history state.procs.length) :
    Inherits handle ((state, .act pid (.clone (some child))) :: history) state.procs.length ↔
      Inherits handle history pid := by
  constructor
  · intro inherits
    rcases inherits.before with older | ⟨_, same, _⟩ | ⟨_, _, same, _, inherited⟩
    · exact (fresh older).elim
    · cases same
    · cases same
      exact inherited
  · exact .cloned

section

variable {pid : Nat} {procs : List Proc}

private theorem Mapped.spaces_act (good : Mapped history state) (found : state.procs[pid]? = some proc)
    (moves : Moves state.shared proc op shared proc' effect)
    (applied : effect.apply (state.procs.set pid proc') = some procs) {other : Nat}
    (present : procs[other]? = some new) (handle : Handle) :
    new.space.lookup handle.address = some handle.page ↔
      Inherits handle ((state, .act pid op) :: history) other := by
  rcases lookup_after found applied present with
    ⟨same, woken⟩ | ⟨different, old, before, woken⟩ | ⟨forked, last⟩
  · subst same
    rw [woken.space]
    exact good.moved found moves handle
  · have inside := (List.getElem?_eq_some_iff.mp before).1
    rw [woken.space, good.spaces before handle, inherits_elsewhere different inside]
  · subst forked
    have fresh : ¬ Inherits handle history state.procs.length :=
      fun older => Nat.lt_irrefl _ (good.inside older)
    cases moves with
    | clone pc =>
      rw [last, inherits_child fresh]
      exact good.spaces found handle

private theorem Mapped.inside_act (good : Mapped history state) (found : state.procs[pid]? = some proc)
    (moves : Moves state.shared proc op shared proc' effect)
    (applied : effect.apply (state.procs.set pid proc') = some procs) {other : Nat}
    (inherits : Inherits handle ((state, .act pid op) :: history) other) : other < procs.length := by
  have stays := length_after found applied
  rcases inherits.before with older | ⟨_, same, _⟩ | ⟨_, _, same, last, _⟩
  · exact Nat.lt_of_lt_of_le (good.inside older) stays
  · cases same
    exact Nat.lt_of_lt_of_le (List.getElem?_eq_some_iff.mp found).1 stays
  · cases same
    cases moves with
    | clone pc =>
      cases applied
      simp [last]

private theorem Mapped.carried_act (good : Mapped history state) (found : state.procs[pid]? = some proc)
    (moves : Moves state.shared proc op shared proc' effect)
    (applied : effect.apply (state.procs.set pid proc') = some procs) {other : Nat}
    (present : procs[other]? = some new) (carried : new.pc.handle = some handle) :
    Inherits handle ((state, .act pid op) :: history) other := by
  rcases lookup_after found applied present with
    ⟨same, woken⟩ | ⟨_, old, before, woken⟩ | ⟨forked, _⟩
  · subst same
    rw [woken.handle] at carried
    rcases moves.handle carried with older | ⟨address, allocates, page⟩
    · exact (good.carried found handle older).later
    · subst allocates
      exact .allocated page
  · rw [woken.handle] at carried
    exact (good.carried before handle carried).later
  · subst forked
    obtain ⟨_, _, _, _, _, same⟩ := moves.forked
    subst same
    cases carried

end

theorem mapped_step (good : Mapped history state) (taken : step state action = some after) :
    Mapped ((state, action) :: history) after := by
  cases step_cases taken with
  | foreign outside =>
    constructor
    case spaces => exact fun present handle => (good.spaces present handle).trans inherits_foreign.symm
    case inside => exact fun inherits => good.inside (inherits_foreign.mp inherits)
    case carried => exact fun present handle held => (good.carried present handle held).later
    case returned =>
      intro handle returned
      obtain ⟨creator, inherits⟩ := good.returned handle returned
      exact ⟨creator, inherits.later⟩
  | @act pid proc op shared proc' effect procs found moves applied =>
    constructor
    case spaces => exact fun present handle => good.spaces_act found moves applied present handle
    case inside => exact fun inherits => good.inside_act found moves applied inherits
    case carried => exact fun present handle held => good.carried_act found moves applied present held
    case returned =>
      intro handle returned
      rcases moves.returned returned with older | held
      · obtain ⟨creator, inherits⟩ := good.returned handle older
        exact ⟨creator, inherits.later⟩
      · exact ⟨pid, (good.carried found handle held).later⟩

theorem mapped_of_run (run : Run step initialState history state) : Mapped history state := by
  induction run with
  | start =>
    constructor
    case spaces =>
      intro pid proc present handle
      have member := List.mem_of_getElem? present
      simp only [initialState, List.mem_singleton] at member
      subst member
      constructor
      · intro mapped
        cases mapped
      · intro inherits
        cases inherits
    case inside =>
      intro pid handle inherits
      cases inherits
    case carried =>
      intro pid proc present handle carried
      have member := List.mem_of_getElem? present
      simp only [initialState, List.mem_singleton] at member
      subst member
      cases carried
    case returned => simp [initialState]
  | next earlier taken ih => exact mapped_step ih taken

/-- A process can read a handle exactly if it has created the thread or is
descended, by clones after the creation, from the process that did; and what it
reads is the one page of the thread. -/
theorem handle_mapped_iff (run : Run step initialState history state)
    (returned : handle ∈ state.shared.spawned) :
    (∃ creator, Inherits handle history creator) ∧
    ∀ pid proc, state.procs[pid]? = some proc →
      (proc.space.lookup handle.address = some handle.page ↔ Inherits handle history pid) ∧
      (Inherits handle history pid → ∀ val,
        localStep state.shared (proc.goto (.joinCalled handle val)) .readHandle =
          some (state.shared, proc.goto (.joinRead handle.page
            (state.shared.pages.getD handle.page .fresh).threadIndex val), .quiet)) := by
  have mapped := mapped_of_run run
  refine ⟨mapped.returned handle returned, ?_⟩
  intro pid proc found
  refine ⟨mapped.spaces found handle, ?_⟩
  intro inherits val
  have present := (mapped.spaces found handle).mpr inherits
  simp [localStep, Proc.goto, present]

/-- The main thread creates a thread, and this one another one, which inherits
the handle of its parent. -/
theorem handle_mapped_nested : ∃ history, Inherits ⟨0, 4096⟩ history 2 ∧
    ¬ Inherits ⟨1, 8192⟩ history 0 := by
  have recorded : (record step [] initialState (createActions 0 1 4096 1 ++
      createActions 1 2 8192 2)).map (fun (_, state) =>
        decide (⟨0, 4096⟩ ∈ state.shared.spawned ∧ ⟨1, 8192⟩ ∈ state.shared.spawned ∧
          (∃ proc ∈ state.procs[2]?, proc.space.lookup 4096 = some 0) ∧
          ∃ proc ∈ state.procs[0]?, proc.space.lookup 8192 ≠ some 1)) = some true := by
    decide +kernel
  obtain ⟨history, state, run, checked⟩ := exists_run recorded
  obtain ⟨first, second, ⟨grandchild, present, maps⟩, main, present', misses⟩ := checked
  refine ⟨history, ((handle_mapped_iff run first).2 2 grandchild present).1.mp maps, ?_⟩
  intro inherits
  exact misses (((handle_mapped_iff run second).2 0 main present').1.mpr inherits)

/-- The main thread creates two threads; the first one has no mapping of the
second one's page. -/
theorem handle_unmapped : ¬ ∀ state, Reachable step initialState state →
    ∀ handle ∈ state.shared.spawned, (∀ record ∈ state.shared.joins, record.page ≠ handle.page) →
      ∀ proc ∈ state.procs, proc.pc = .running →
        proc.space.lookup handle.address = some handle.page := by
  have executed : ((execute step initialState (createActions 0 1 4096 1 ++
      createActions 0 2 8192 2)).map fun state =>
        decide (⟨1, 8192⟩ ∈ state.shared.spawned ∧ state.shared.joins = [] ∧
          ∃ proc ∈ state.procs, proc.pc = .running ∧ proc.space.lookup 8192 = none)) = some true := by
    decide +kernel
  obtain ⟨state, reached, checked⟩ := exists_reachable executed
  obtain ⟨returned, unjoined, first, member, running, unmapped⟩ := checked
  intro always
  have mapped := always state reached ⟨1, 8192⟩ returned (by simp [unjoined]) first member running
  rw [unmapped] at mapped
  cases mapped

end ProcessAsThread
