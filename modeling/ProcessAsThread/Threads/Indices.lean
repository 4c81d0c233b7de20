import ProcessAsThread.Threads.Moves

/-! The thread indices. A child gets its index from the shared counter, reads it
back from a static that every child writes, and then overwrites the counter
with the result of `childRegister`. -/

namespace ProcessAsThread

open Library

/-- A spawned thread no `pthread_join` has returned for. -/
def Unjoined (state : State) (proc : Proc) : Prop :=
  proc.status ≠ none ∧ ∀ record ∈ state.shared.joins, proc.status ≠ some record.page

instance (state : State) (proc : Proc) : Decidable (Unjoined state proc) :=
  inferInstanceAs (Decidable (_ ∧ _))

/-- The slots of `_entries` in which spawned, unjoined threads are registered
are inside the table, not the main thread's, and no two of them the same. -/
structure OwnSlots (state : State) : Prop where
  inTable : ∀ proc ∈ state.procs, Unjoined state proc → ∀ index ∈ proc.registered,
    index ≠ 0 ∧ Mydeterm.InTable index
  different : ∀ {pid other : Nat} {proc proc' : Proc}, state.procs[pid]? = some proc →
    state.procs[other]? = some proc' → Unjoined state proc → Unjoined state proc' →
    proc.registered = some index → proc'.registered = some index → pid = other

/-- The counter hands out an index that is inside the table, not 0, and not
that of an unjoined thread; and a child enters its registration while the static
still holds what its own increment returned. -/
def Indexed (state : State) (proc : Proc) : Op → Prop
  | .increment => 0 < state.shared.threadIndex ∧ (state.shared.threadIndex : Int) < maxThreads ∧
      ∀ other ∈ state.procs, Unjoined state other → other.allocated ≠ some state.shared.threadIndex
  | .enter => proc.allocated = some state.shared.myrun.threadIndex
  | _ => True

instance (state : State) (proc : Proc) (op : Op) : Decidable (Indexed state proc op) := by
  unfold Indexed
  split <;> infer_instance

def IndexedInOrder (state : State) : Action → Prop
  | .act pid op => ∀ proc ∈ state.procs[pid]?, Indexed state proc op
  | .foreign .. => True

instance (state : State) : (action : Action) → Decidable (IndexedInOrder state action)
  | .act pid op => inferInstanceAs (Decidable (∀ proc ∈ state.procs[pid]?, Indexed state proc op))
  | .foreign .. => inferInstanceAs (Decidable True)

private theorem toInt_small {index : Nat} (small : (index : Int) < maxThreads) : toInt index = index := by
  unfold maxThreads at small
  unfold toInt
  rw [Int.bmod_eq_of_le] <;> omega

theorem Moves.starting (moves : Moves shared proc op shared' proc' effect) : proc'.pc ≠ .starting := by
  cases moves with
  | joinUnready pc => simp [pc]
  | _ => simp [Proc.goto]

theorem Woken.starting (woken : Woken effect old new) (starting : new.pc = .starting) : new = old := by
  cases woken with
  | same => rfl
  | join | parent => simp [Proc.goto] at starting

/-- The indices handed out to unjoined threads, and how those a thread is
registered under come from them. -/
structure IndexInvariant (state : State) : Prop where
  fresh : ∀ proc ∈ state.procs, proc.pc = .starting → proc.registered = none
  bounds : ∀ proc ∈ state.procs, ∀ index ∈ proc.allocated, 0 < index ∧ (index : Int) < maxThreads
  apart : ∀ {pid other : Nat} {proc proc' : Proc}, state.procs[pid]? = some proc →
    state.procs[other]? = some proc' → Unjoined state proc → Unjoined state proc' →
    proc.allocated = some index → proc'.allocated = some index → pid = other
  own : ∀ proc ∈ state.procs, ∀ index ∈ proc.registered,
    ∃ allocated, proc.allocated = some allocated ∧ index = allocated

private theorem IndexInvariant.ownSlots (good : IndexInvariant state) : OwnSlots state where
  inTable := by
    intro proc member _ index registered
    obtain ⟨allocated, found, same⟩ := good.own proc member index registered
    obtain ⟨positive, small⟩ := good.bounds proc member allocated found
    subst same
    exact ⟨by omega, by omega, small⟩
  different := by
    intro index pid other proc proc' present present' unjoined unjoined' registered registered'
    obtain ⟨allocated, found, same⟩ := good.own proc (List.mem_of_getElem? present) index registered
    obtain ⟨allocated', found', same'⟩ :=
      good.own proc' (List.mem_of_getElem? present') index registered'
    have equal : allocated = allocated' := by omega
    subst equal
    exact good.apart present present' unjoined unjoined' found found'

theorem Unjoined.before {procs : List Proc}
    (moves : Moves state.shared proc op shared proc' effect) (status : old.status = new.status)
    (unjoined : Unjoined ⟨shared, procs⟩ new) : Unjoined state old := by
  unfold Unjoined
  rw [status]
  exact ⟨unjoined.1, fun record member => unjoined.2 record (moves.joins_subset member)⟩

/-- An index some process holds after a step was its own before, or is the one
the step takes from the counter. -/
theorem allocated_before {state : State} {procs : List Proc} {pid other : Nat}
    (found : state.procs[pid]? = some proc) (moves : Moves state.shared proc op shared proc' effect)
    (applied : effect.apply (state.procs.set pid proc') = some procs)
    (present : procs[other]? = some new) (allocated : new.allocated = some index) :
    (∃ old, state.procs[other]? = some old ∧ old.status = new.status ∧ old.allocated = some index) ∨
      other = pid ∧ op = .increment ∧ index = state.shared.threadIndex := by
  rcases lookup_after found applied present with ⟨same, woken⟩ | ⟨_, old, before, woken⟩ | ⟨forked, _⟩
  · rw [woken.allocated] at allocated
    rcases moves.allocated with kept | ⟨increments, _, taken⟩
    · subst same
      exact .inl ⟨proc, found, by rw [woken.status, moves.status], by rw [← kept, allocated]⟩
    · exact .inr ⟨same, increments, Option.some.inj (allocated.symm.trans taken)⟩
  · exact .inl ⟨old, before, woken.status.symm, by rw [← woken.allocated, allocated]⟩
  · subst forked
    obtain ⟨_, _, _, _, _, same⟩ := moves.forked
    subst same
    cases allocated

theorem indexInvariant_step (good : IndexInvariant state) (guard : IndexedInOrder state action)
    (taken : step state action = some after) : IndexInvariant after := by
  cases step_cases taken with
  | foreign outside => exact ⟨good.fresh, good.bounds, good.apart, good.own⟩
  | @act pid proc op shared proc' effect procs found moves applied =>
    have guard := guard proc found
    constructor
    case fresh =>
      intro new member starting
      obtain ⟨index, present⟩ := List.mem_iff_getElem?.mp member
      rcases lookup_after found applied present with ⟨_, woken⟩ | ⟨_, old, before, woken⟩ | ⟨forked, _⟩
      · rw [woken.starting starting] at starting
        exact (moves.starting starting).elim
      · cases woken.starting starting
        exact good.fresh new (List.mem_of_getElem? before) starting
      · subst forked
        obtain ⟨_, _, _, _, _, same⟩ := moves.forked
        subst same
        rfl
    case bounds =>
      intro new member index allocated
      obtain ⟨other, present⟩ := List.mem_iff_getElem?.mp member
      rcases allocated_before found moves applied present allocated with
        ⟨old, before, _, held⟩ | ⟨_, increments, same⟩
      · exact good.bounds old (List.mem_of_getElem? before) index held
      · subst increments
        subst same
        exact ⟨guard.1, guard.2.1⟩
    case apart =>
      intro index this other new new' present present' unjoined unjoined' allocated allocated'
      rcases allocated_before found moves applied present allocated with
        ⟨old, before, status, held⟩ | ⟨same, increments, counter⟩ <;>
      rcases allocated_before found moves applied present' allocated' with
        ⟨old', before', status', held'⟩ | ⟨same', increments', counter'⟩
      · exact good.apart before before' (unjoined.before moves status) (unjoined'.before moves status')
          held held'
      · subst increments'
        rw [counter'] at held
        exact (guard.2.2 old (List.mem_of_getElem? before) (unjoined.before moves status) held).elim
      · subst increments
        rw [counter] at held'
        exact (guard.2.2 old' (List.mem_of_getElem? before') (unjoined'.before moves status')
          held').elim
      · rw [same, same']
    case own =>
      intro new member index registered
      obtain ⟨other, present⟩ := List.mem_iff_getElem?.mp member
      rcases lookup_after found applied present with ⟨_, woken⟩ | ⟨_, old, before, woken⟩ | ⟨forked, _⟩
      · rw [woken.registered] at registered
        rw [woken.allocated]
        have member := List.mem_of_getElem? found
        rcases moves.registered with kept | ⟨enters, allocated, entered⟩
        · rw [kept] at registered
          rcases moves.allocated with same | ⟨_, starting, _⟩
          · rw [same]
            exact good.own proc member index registered
          · rw [good.fresh proc member starting] at registered
            cases registered
        · subst enters
          have own : proc.allocated = some state.shared.myrun.threadIndex := guard
          rw [entered] at registered
          refine ⟨state.shared.myrun.threadIndex, by rw [allocated, own], ?_⟩
          rw [← Option.some.inj registered]
          exact toInt_small (good.bounds proc member _ own).2
      · rw [woken.registered] at registered
        rw [woken.allocated]
        exact good.own old (List.mem_of_getElem? before) index registered
      · subst forked
        obtain ⟨_, _, _, _, _, same⟩ := moves.forked
        subst same
        cases registered

/-- In a run in which the counter hands out no index twice and every child enters
its registration before another one writes the static, unjoined threads have
slots of their own. -/
theorem ownSlots_of_indexed (run : Run step initialState history state)
    (indexed : Meets IndexedInOrder history) : OwnSlots state := by
  have initially : IndexInvariant initialState := by
    constructor
    case apart =>
      intro index pid other proc proc' present _ unjoined
      have member := List.mem_of_getElem? present
      simp only [initialState, List.mem_singleton] at member
      subst member
      exact (unjoined.1 rfl).elim
    all_goals simp [initialState, mainProc]
  exact (run.invariant initially indexInvariant_step indexed).ownSlots

/-- Two threads, the second created after the first has stored the next index
into the counter. -/
theorem ownSlots_two :
    ∃ state, Reachable step initialState state ∧
      state.procs.map Proc.registered = [none, some 1, some 2] ∧ OwnSlots state := by
  have executed : ((execute (guarded step IndexedInOrder) initialState
      (createActions 0 1 4096 2 ++ createActions 0 2 8192 3)).map
      fun state => decide (state.procs.map Proc.registered = [none, some 1, some 2])) = some true := by
    decide +kernel
  obtain ⟨history, state, run, indexed, two⟩ := exists_guarded executed
  exact ⟨state, ⟨history, run⟩, two, ownSlots_of_indexed run indexed⟩

/-- `childRegister` returns the index just allocated, so the counter hands it
out again. -/
theorem slot_shared : ¬ ∀ state, Reachable step initialState state → OwnSlots state := by
  have shared : ((execute step initialState (createActions 0 1 4096 1 ++ createActions 0 2 8192 1)).map
      fun state => decide (∃ proc ∈ state.procs[1]?, ∃ proc' ∈ state.procs[2]?,
        Unjoined state proc ∧ Unjoined state proc' ∧
          proc.registered = some 1 ∧ proc'.registered = some 1)) = some true := by
    decide +kernel
  obtain ⟨state, reached, checked⟩ := exists_reachable shared
  obtain ⟨proc, present, proc', present', unjoined, unjoined', registered, registered'⟩ := checked
  intro own
  have same := (own state reached).different present present' unjoined unjoined' registered registered'
  exact absurd same (by decide)

end ProcessAsThread
