import ProcessAsThread.Threads.System

/-! What one step can do, read off `localStep` and `step` once. The invariants
are derived from these cases and never unfold the two functions again. -/

namespace ProcessAsThread

open Library

inductive Moves (shared : Shared) (proc : Proc) : Op → Shared → Proc → Effect → Prop where
  | create (pc : proc.pc = .running) (ready : shared.initialized = true) :
      Moves shared proc .create shared (proc.goto .counting) .quiet
  | createUnready (pc : proc.pc = .running) (unready : shared.initialized = false) :
      Moves shared proc .create shared (proc.goto .running) .quiet
  | countChild (pc : proc.pc = .counting) : Moves shared proc .countChild
      { shared with myrun := { shared.myrun with
          childrenThreadsCount := (shared.myrun.childrenThreadsCount + 1) % 2 ^ 64 } }
      (proc.goto .spawning) .quiet
  | readIndex (pc : proc.pc = .spawning) : Moves shared proc .readIndex shared
      (proc.goto (.allocating (toInt shared.myrun.threadIndex))) .quiet
  | allocate (pc : proc.pc = .allocating parentIndex) (free : proc.space.lookup address = none) :
      Moves shared proc (.allocate address)
        { shared with pages := shared.pages ++ [.fresh] }
        { proc with
          pc := .cloning parentIndex ⟨shared.pages.length, address⟩
          space := (address, shared.pages.length) :: proc.space } .quiet
  | cloneFails (pc : proc.pc = .cloning parentIndex handle) :
      Moves shared proc (.clone none) shared (proc.goto (.awaiting handle)) .quiet
  | clone (pc : proc.pc = .cloning parentIndex handle) :
      Moves shared proc (.clone (some pid)) shared (proc.goto (.awaiting handle))
        (.fork (proc.forked parentIndex handle.page pid))
  | waitPasses (pc : proc.pc = .awaiting handle) (flag : shared.determ.childregistered = true) :
      Moves shared proc .waitChild
        { shared with
          determ := { shared.determ with childregistered := false }
          spawned := handle :: shared.spawned } (proc.goto .running) .quiet
  | waitBlocks (pc : proc.pc = .awaiting handle) (flag : shared.determ.childregistered = false) :
      Moves shared proc .waitChild shared (proc.goto (.awaitingCond handle)) .quiet
  | wakeChild (pc : proc.pc = .awaitingWoken handle) :
      Moves shared proc .wakeChild
        { shared with
          determ := shared.determ.childRegisteredWoken
          spawned := handle :: shared.spawned } (proc.goto .running) .quiet
  | increment (pc : proc.pc = .starting) : Moves shared proc .increment
      { shared with threadIndex := (shared.threadIndex + 1) % 2 ^ 64 }
      { proc with pc := .incremented shared.threadIndex, allocated := some shared.threadIndex } .quiet
  | storeIndex (pc : proc.pc = .incremented old) : Moves shared proc .storeIndex
      { shared with myrun := { shared.myrun with threadIndex := old, lockCount := 0 } }
      (proc.goto .indexed) .quiet
  | enter (pc : proc.pc = .indexed) : Moves shared proc .enter
      { shared with determ :=
          shared.determ.registerThread (toInt shared.myrun.threadIndex) proc.pid proc.parentIndex }
      { proc with
        pc := .entered (toInt shared.myrun.threadIndex)
        registered := some (toInt shared.myrun.threadIndex) } .quiet
  | insert (pc : proc.pc = .entered threadindex) : Moves shared proc .insert
      { shared with determ := shared.determ.insertActive threadindex } (proc.goto .inserted) .quiet
  | record (pc : proc.pc = .inserted) (isInt : IsInt childRegister) :
      Moves shared proc (.record childRegister)
        (shared.setPage proc.status fun status =>
          { status with threadIndex := childRegister, tid := proc.pid })
        { proc with pc := .recorded childRegister, childRegister := some childRegister } .quiet
  | overwrite (pc : proc.pc = .recorded threadindex) : Moves shared proc .overwrite
      { shared with threadIndex := toUnsignedLong threadindex } (proc.goto .overwritten) .quiet
  | notify (pc : proc.pc = .overwritten) : Moves shared proc (.notify woken)
      { shared with determ := shared.determ.waitParentNotify } (proc.goto .notified)
      (.signalParent woken)
  | nest (pc : proc.pc = .notified) : Moves shared proc .nest
      { shared with nestingLevel := (shared.nestingLevel + 1) % 2 ^ 32 } (proc.goto .running) .quiet
  | join (pc : proc.pc = .running) (known : handle ∈ shared.spawned)
      (ready : shared.initialized = true) :
      Moves shared proc (.join handle val) shared (proc.goto (.joinCalled handle val)) .quiet
  | joinUnready (pc : proc.pc = .running) (known : handle ∈ shared.spawned)
      (unready : shared.initialized = false) :
      Moves shared proc (.join handle val)
        { shared with joins := ⟨handle.page, val⟩ :: shared.joins } proc .quiet
  | readHandle (pc : proc.pc = .joinCalled handle val)
      (found : proc.space.lookup handle.address = some mapped) :
      Moves shared proc .readHandle shared
        (proc.goto (.joinRead handle.page (shared.pages.getD mapped .fresh).threadIndex val)) .quiet
  | readUnmapped (pc : proc.pc = .joinCalled handle val)
      (unmapped : proc.space.lookup handle.address = none) :
      Moves shared proc .readHandle shared (proc.goto .crashed) .quiet
  | joinBlocks (pc : proc.pc = .joinRead page guestindex val)
      (alive : (shared.determ.entries guestindex).status ≠ .exit) :
      Moves shared proc .enterJoin
        { shared with determ := (shared.determ.join guestindex proc.currentIndex).2 }
        (proc.goto (.joinCond page val)) .quiet
  | joinPasses (pc : proc.pc = .joinRead page guestindex val)
      (ended : (shared.determ.entries guestindex).status = .exit) :
      Moves shared proc .enterJoin { shared with joins := ⟨page, val⟩ :: shared.joins }
        (proc.goto .running) .quiet
  | leaveJoin (pc : proc.pc = .joinWoken page val) : Moves shared proc .leaveJoin
      { shared with joins := ⟨page, val⟩ :: shared.joins } (proc.goto .running) .quiet
  | exitThread (pc : proc.pc = .running) (ready : shared.initialized = true) :
      Moves shared proc .exitThread shared (proc.goto .exitCalled) .quiet
  | exitUnready (pc : proc.pc = .running) (unready : shared.initialized = false) :
      Moves shared proc .exitThread shared (proc.goto .quitting) .quiet
  | returnRoutine (pc : proc.pc = .running) (spawned : proc.status = some page) :
      Moves shared proc (.returnRoutine result) shared
        { proc with pc := .returned result, result := some result } .quiet
  | callExit (pc : proc.pc = .running) :
      Moves shared proc .callExit shared (proc.goto .exiting) .quiet
  | callAbort (pc : proc.pc = .running) :
      Moves shared proc .callAbort shared (proc.goto .crashed) .quiet
  | deleteReturned (pc : proc.pc = .returned result)
      (deleted : shared.determ.deleteRegisterThread proc.currentIndex = some determ) :
      Moves shared proc .deleteRegister { shared with determ := determ }
        { proc with pc := .deregistered result, deleted := true } .broadcastJoin
  | deleteCalled (pc : proc.pc = .exitCalled)
      (deleted : shared.determ.deleteRegisterThread proc.currentIndex = some determ) :
      Moves shared proc .deleteRegister { shared with determ := determ }
        { proc with pc := .quitting, deleted := true } .broadcastJoin
  | storeRetval (pc : proc.pc = .deregistered result) : Moves shared proc .storeRetval
      (shared.setPage proc.status fun status => { status with retval := result })
      (proc.goto .stored) .quiet
  | unnest (pc : proc.pc = .stored) : Moves shared proc .unnest
      { shared with nestingLevel := (shared.nestingLevel + (2 ^ 32 - 1)) % 2 ^ 32 }
      (proc.goto .exiting) .quiet
  | exit (pc : proc.pc = .exiting) : Moves shared proc .exit
      { shared with initialized := false } (proc.goto .exited) .quiet
  | quit (pc : proc.pc = .quitting) : Moves shared proc .quit shared (proc.goto .exited) .quiet

theorem Mydeterm.join_fst (determ : Mydeterm) (guestindex myindex : Int) :
    (determ.join guestindex myindex).1 = decide ((determ.entries guestindex).status ≠ .exit) := by
  by_cases ended : (determ.entries guestindex).status = .exit
  · simp [Mydeterm.join, ended]
  · by_cases same : guestindex = myindex
    · subst same
      simp [Mydeterm.join, Mydeterm.setEntry, ended]
    · simp [Mydeterm.join, Mydeterm.setEntry, ended, same]

theorem Mydeterm.join_exited {determ : Mydeterm} {guestindex : Int} (myindex : Int)
    (ended : (determ.entries guestindex).status = .exit) :
    (determ.join guestindex myindex).2 = determ := by
  simp [Mydeterm.join, ended]

theorem localStep_moves (taken : localStep shared proc op = some (shared', proc', effect)) :
    Moves shared proc op shared' proc' effect := by
  cases op <;> simp only [localStep] at taken
  case create | exitThread =>
    split at taken
    · rename_i pc
      cases ready : shared.initialized <;> simp only [ready] at taken <;> cases taken <;>
        constructor <;> assumption
    · contradiction
  case join handle val =>
    split at taken
    · rename_i pc
      split at taken
      · contradiction
      · rename_i known
        have known := Decidable.of_not_not known
        split at taken
        · rename_i ready
          cases taken
          exact .join pc known ready
        · rename_i unready
          cases taken
          exact .joinUnready pc known (Bool.eq_false_iff.mpr unready)
    · contradiction
  case allocate address =>
    split at taken
    · rename_i pc
      cases free : proc.space.lookup address <;> simp only [free] at taken <;> cases taken
      exact .allocate pc free
    · contradiction
  case waitChild =>
    split at taken
    · rename_i pc
      cases flag : shared.determ.childregistered <;>
        simp only [Mydeterm.waitChildRegistered, flag] at taken <;> cases taken
      · exact .waitBlocks pc flag
      · exact .waitPasses pc flag
    · contradiction
  case enterJoin =>
    split at taken
    · rename_i guestindex _ pc
      simp only [Mydeterm.join_fst] at taken
      by_cases ended : (shared.determ.entries guestindex).status = .exit
      · simp only [ended, Mydeterm.join_exited _ ended] at taken
        cases taken
        exact .joinPasses pc ended
      · simp only [ne_eq, ended] at taken
        cases taken
        exact .joinBlocks pc ended
    · contradiction
  case deleteRegister =>
    split at taken
    · rename_i pc
      obtain ⟨determ, deleted, same⟩ := Option.bind_eq_some_iff.mp taken
      cases same
      exact .deleteReturned pc deleted
    · rename_i pc
      obtain ⟨determ, deleted, same⟩ := Option.bind_eq_some_iff.mp taken
      cases same
      exact .deleteCalled pc deleted
    · contradiction
  all_goals repeat' split at taken
  all_goals first | contradiction | (cases taken; constructor <;> assumption)

/-- What an effect can do to a process: nothing, or end its wait. -/
inductive Woken : Effect → Proc → Proc → Prop where
  | same : Woken effect proc proc
  | join (pc : proc.pc = .joinCond page val) :
      Woken .broadcastJoin proc (proc.goto (.joinWoken page val))
  | parent (pc : proc.pc = .awaitingCond handle) :
      Woken (.signalParent (some woken)) proc (proc.goto (.awaitingWoken handle))

private theorem Proc.wakeJoin_woken (proc : Proc) : Woken .broadcastJoin proc proc.wakeJoin := by
  unfold Proc.wakeJoin
  split
  · rename_i pc
    exact .join pc
  · exact .same

private theorem Proc.wakeParent_woken (proc : Proc) (woken : Pid) :
    Woken (.signalParent (some woken)) proc proc.wakeParent := by
  unfold Proc.wakeParent
  split
  · rename_i pc
    exact .parent pc
  · exact .same

theorem Effect.signal_cases (applied : (Effect.signalParent woken).apply procs = some after) :
    woken = none ∧ after = procs ∨ ∃ pid, woken = some pid ∧ after = procs.modify pid Proc.wakeParent := by
  cases woken with
  | none =>
    simp only [Effect.apply] at applied
    split at applied
    · contradiction
    · exact .inl ⟨rfl, (Option.some.inj applied).symm⟩
  | some pid =>
    simp only [Effect.apply] at applied
    split at applied
    · exact .inr ⟨pid, rfl, (Option.some.inj applied).symm⟩
    · contradiction

/-- Every process after an effect is a process before it, perhaps woken, or the
forked child. -/
theorem Effect.apply_backward {effect : Effect} {procs after : List Proc}
    (applied : effect.apply procs = some after) (found : after[pid]? = some proc) :
    (∃ old, procs[pid]? = some old ∧ Woken effect old proc) ∨ effect = .fork proc ∧ pid = procs.length := by
  cases effect with
  | quiet =>
    cases applied
    exact .inl ⟨proc, found, .same⟩
  | broadcastJoin =>
    cases applied
    obtain ⟨old, present, same⟩ := Option.map_eq_some_iff.mp (List.getElem?_map ▸ found)
    subst same
    exact .inl ⟨old, present, old.wakeJoin_woken⟩
  | signalParent woken =>
    left
    rcases signal_cases applied with ⟨_, same⟩ | ⟨signalled, chosen, same⟩
    · subst same
      exact ⟨proc, found, .same⟩
    · subst chosen same
      rw [List.getElem?_modify] at found
      obtain ⟨old, present, same⟩ := Option.map_eq_some_iff.mp found
      refine ⟨old, present, ?_⟩
      subst same
      split
      · exact old.wakeParent_woken signalled
      · exact .same
  | fork child =>
    cases applied
    rcases Nat.lt_or_ge pid procs.length with inside | outside
    · rw [List.getElem?_append_left inside] at found
      exact .inl ⟨proc, found, .same⟩
    · rw [List.getElem?_append_right outside] at found
      obtain ⟨bound, same⟩ := List.getElem?_eq_some_iff.mp found
      have last : pid - procs.length = 0 := by simpa using bound
      simp only [last, List.getElem_cons_zero] at same
      exact .inr ⟨by rw [same], by omega⟩

private theorem Effect.apply_forward {effect : Effect} {procs after : List Proc} {pid : Nat}
    (applied : effect.apply procs = some after) (found : procs[pid]? = some proc) :
    ∃ new, after[pid]? = some new ∧ Woken effect proc new := by
  cases effect with
  | quiet =>
    cases applied
    exact ⟨proc, found, .same⟩
  | broadcastJoin =>
    cases applied
    exact ⟨proc.wakeJoin, by simp [found], proc.wakeJoin_woken⟩
  | signalParent woken =>
    rcases signal_cases applied with ⟨_, same⟩ | ⟨signalled, chosen, same⟩
    · subst same
      exact ⟨proc, found, .same⟩
    · subst chosen same
      rw [List.getElem?_modify, found]
      by_cases same : signalled = pid
      · exact ⟨proc.wakeParent, by simp [same], proc.wakeParent_woken signalled⟩
      · exact ⟨proc, by simp [same], .same⟩
  | fork child =>
    cases applied
    have inside := (List.getElem?_eq_some_iff.mp found).1
    exact ⟨proc, by rw [List.getElem?_append_left inside]; exact found, .same⟩

/-- What a step never changes in the process that takes it. -/
theorem Moves.status (moves : Moves shared proc op shared' proc' effect) :
    proc'.status = proc.status := by
  cases moves <;> rfl

theorem Moves.forked (moves : Moves shared proc op shared' proc' (.fork child)) :
    ∃ parentIndex handle pid, proc.pc = .cloning parentIndex handle ∧
      proc' = proc.goto (.awaiting handle) ∧ child = proc.forked parentIndex handle.page pid := by
  cases moves with
  | clone pc => exact ⟨_, _, _, pc, rfl, rfl⟩

theorem Moves.allocated (moves : Moves shared proc op shared' proc' effect) :
    proc'.allocated = proc.allocated ∨
      op = .increment ∧ proc.pc = .starting ∧ proc'.allocated = some shared.threadIndex := by
  cases moves with
  | increment pc => exact .inr ⟨rfl, pc, rfl⟩
  | _ => exact .inl rfl

theorem Moves.registered (moves : Moves shared proc op shared' proc' effect) :
    proc'.registered = proc.registered ∨
      op = .enter ∧ proc'.allocated = proc.allocated ∧
        proc'.registered = some (toInt shared.myrun.threadIndex) := by
  cases moves <;> simp [Proc.goto]

theorem Moves.joins_subset (moves : Moves shared proc op shared' proc' effect) :
    shared.joins ⊆ shared'.joins := by
  cases moves with
  | joinUnready | joinPasses | leaveJoin => exact List.subset_cons_self ..
  | record | storeRetval =>
    cases status : proc.status <;> simp only [Shared.setPage] <;> exact List.Subset.refl _
  | _ => exact List.Subset.refl _

theorem Woken.status (woken : Woken effect old new) : new.status = old.status := by
  cases woken <;> rfl

theorem Woken.deleted (woken : Woken effect old new) : new.deleted = old.deleted := by
  cases woken <;> rfl

theorem Woken.allocated (woken : Woken effect old new) : new.allocated = old.allocated := by
  cases woken <;> rfl

theorem Woken.registered (woken : Woken effect old new) : new.registered = old.registered := by
  cases woken <;> rfl

inductive StepCases (state : State) : Action → State → Prop where
  | act (found : state.procs[pid]? = some proc)
      (moves : Moves state.shared proc op shared proc' effect)
      (applied : effect.apply (state.procs.set pid proc') = some procs) :
      StepCases state (.act pid op) ⟨shared, procs⟩
  | foreign (outside : ¬ Mydeterm.InTable threadindex) :
      StepCases state (.foreign threadindex entry)
        { state with shared :=
            { state.shared with determ := state.shared.determ.setEntry threadindex entry } }

theorem step_cases (taken : step state action = some after) : StepCases state action after := by
  cases action with
  | act pid op =>
    obtain ⟨proc, found, remaining⟩ := Option.bind_eq_some_iff.mp taken
    obtain ⟨⟨shared, proc', effect⟩, moved, remaining⟩ := Option.bind_eq_some_iff.mp remaining
    obtain ⟨procs, applied, same⟩ := Option.bind_eq_some_iff.mp remaining
    cases same
    exact .act found (localStep_moves moved) applied
  | foreign threadindex entry =>
    simp only [step] at taken
    split at taken
    · contradiction
    · rename_i outside
      cases taken
      exact .foreign outside

/-- Who a process after a step is: the one that moved, another one that was
there, or the forked child. -/
theorem lookup_after {procs after : List Proc} {effect : Effect} {pid other : Nat}
    (found : procs[pid]? = some proc) (applied : effect.apply (procs.set pid proc') = some after)
    (seen : after[other]? = some new) :
    (other = pid ∧ Woken effect proc' new) ∨
    (other ≠ pid ∧ ∃ old, procs[other]? = some old ∧ Woken effect old new) ∨
    effect = .fork new ∧ other = procs.length := by
  have inside := (List.getElem?_eq_some_iff.mp found).1
  rcases Effect.apply_backward applied seen with ⟨old, present, woken⟩ | ⟨forked, last⟩
  · by_cases same : other = pid
    · subst same
      simp only [List.getElem?_set_self inside, Option.some.injEq] at present
      subst present
      exact .inl ⟨rfl, woken⟩
    · rw [List.getElem?_set_ne (Ne.symm same)] at present
      exact .inr (.inl ⟨same, old, present, woken⟩)
  · exact .inr (.inr ⟨forked, by simpa using last⟩)

theorem lookup_moved {procs after : List Proc} {effect : Effect} {pid : Nat}
    (found : procs[pid]? = some proc) (applied : effect.apply (procs.set pid proc') = some after) :
    ∃ new, after[pid]? = some new ∧ Woken effect proc' new := by
  have inside := (List.getElem?_eq_some_iff.mp found).1
  exact Effect.apply_forward applied (List.getElem?_set_self inside)

theorem lookup_other {procs after : List Proc} {effect : Effect} {pid other : Nat}
    (different : other ≠ pid) (present : procs[other]? = some old)
    (applied : effect.apply (procs.set pid proc') = some after) :
    ∃ new, after[other]? = some new ∧ Woken effect old new :=
  Effect.apply_forward applied (by rwa [List.getElem?_set_ne (Ne.symm different)])

theorem length_after {before procs : List Proc} {effect : Effect} {pid : Nat}
    (found : before[pid]? = some proc) (applied : effect.apply (before.set pid proc') = some procs) :
    before.length ≤ procs.length := by
  refine Nat.le_of_not_lt fun shorter => ?_
  by_cases same : procs.length = pid
  · obtain ⟨_, seen, _⟩ := lookup_moved found applied
    have inside := (List.getElem?_eq_some_iff.mp seen).1
    omega
  · obtain ⟨_, seen, _⟩ := lookup_other same (List.getElem?_eq_getElem shorter) applied
    have inside := (List.getElem?_eq_some_iff.mp seen).1
    omega

/-- What holds of every process still does, if the process that moves keeps it,
no wake-up breaks it, and a forked child has it. -/
theorem forall_procs_step {Good : Proc → Prop} {procs after : List Proc} {effect : Effect} {pid : Nat}
    (found : procs[pid]? = some proc) (applied : effect.apply (procs.set pid proc') = some after)
    (good : ∀ proc ∈ procs, Good proc) (moved : Good proc')
    (woken : ∀ {old new}, Woken effect old new → Good old → Good new)
    (forked : ∀ {child}, effect = .fork child → Good child) : ∀ proc ∈ after, Good proc := by
  intro new member
  obtain ⟨index, present⟩ := List.mem_iff_getElem?.mp member
  rcases lookup_after found applied present with ⟨_, wakes⟩ | ⟨_, old, before, wakes⟩ | ⟨forks, _⟩
  · exact woken wakes moved
  · exact woken wakes (good old (List.mem_of_getElem? before))
  · exact forked forks

end ProcessAsThread
