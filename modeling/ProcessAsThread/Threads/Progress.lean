import ProcessAsThread.Threads.Registration
import ProcessAsThread.Threads.Registry

/-! What the library does once the client code makes no more calls. Every step of
the library leaves less to do, and while anything but a join is left some process
can go on, if no clone fails and none is made while a parent waits. -/

namespace ProcessAsThread

open Library

/-- A call made by client code, which starts in `running`. -/
def Op.called : Op → Bool
  | .create | .join _ _ | .exitThread | .returnRoutine _ | .callExit | .callAbort => true
  | _ => false

/-- Every clone succeeds, and is made while no parent is in `waitChildRegistered`. -/
def Orderly (state : State) : Action → Prop
  | .act _ (.clone child) => child.isSome = true ∧ ∀ proc ∈ state.procs, proc.pc.waitsChild = none
  | _ => True

/-- A step of the library itself. -/
def Internal (state : State) (action : Action) : Prop :=
  match action with
  | .act _ op => op.called = false ∧ Orderly state action
  | .foreign _ _ => False

instance (state : State) : (action : Action) → Decidable (Orderly state action)
  | .act _ (.clone child) =>
    inferInstanceAs (Decidable (child.isSome = true ∧ ∀ proc ∈ state.procs, proc.pc.waitsChild = none))
  | .act _ .create | .act _ (.join _ _) | .act _ .exitThread | .act _ (.returnRoutine _) | .act _ .callExit
  | .act _ .callAbort | .act _ .countChild | .act _ .readIndex | .act _ (.allocate _) | .act _ .waitChild | .act _ .wakeChild
  | .act _ .increment | .act _ .storeIndex | .act _ .enter | .act _ .insert | .act _ (.record _)
  | .act _ .overwrite | .act _ (.notify _) | .act _ .nest | .act _ .readHandle | .act _ .enterJoin
  | .act _ .leaveJoin | .act _ .deleteRegister | .act _ .storeRetval | .act _ .unnest | .act _ .exit
  | .act _ .quit | .foreign _ _ => .isTrue trivial

instance (state : State) : (action : Action) → Decidable (Internal state action)
  | .act _ _ => inferInstanceAs (Decidable (_ ∧ _))
  | .foreign _ _ => .isFalse id

/-- The most steps a process still takes inside the library, with those of the child it clones. -/
def Pc.work : Pc → Nat
  | .running | .exited | .crashed => 0
  | .notified | .awaitingWoken _ | .joinWoken _ _ | .exiting | .quitting => 1
  | .overwritten | .awaitingCond _ | .joinCond _ _ | .stored | .exitCalled => 2
  | .recorded _ | .awaiting _ | .joinRead _ _ _ | .deregistered _ => 3
  | .inserted | .joinCalled _ _ | .returned _ => 4
  | .entered _ => 5
  | .indexed => 6
  | .incremented _ => 7
  | .starting => 8
  | .cloning _ _ => 12
  | .allocating _ => 13
  | .spawning => 14
  | .counting => 15

def workOf (procs : List Proc) : Nat := (procs.map (·.pc.work)).sum

def State.work (state : State) : Nat := workOf state.procs

/-- Back in client code, ended, or blocked in a join. -/
def Pc.atRest : Pc → Bool
  | .running | .exited | .crashed | .joinCond _ _ => true
  | _ => false

/-- The child a process waits for is among the processes. -/
def HasChild (procs : List Proc) (proc : Proc) : Prop :=
  ∀ page ∈ proc.pc.waitsChild, ∃ child ∈ procs, child.status = some page

def Attended (state : State) : Prop := ∀ proc ∈ state.procs, HasChild state.procs proc

theorem Orderly.inTurn (orderly : Orderly state action) : SpawnsInTurn state action := by
  unfold SpawnsInTurn
  split
  · exact orderly.2
  · trivial

theorem Internal.orderly (internal : Internal state action) : Orderly state action := by
  cases action with
  | act pid op => exact internal.2
  | foreign threadindex entry => exact internal.elim

/-! A step of the library leaves less to do. -/

private theorem workOf_modify {procs : List Proc} {pid : Nat} {change : Proc → Proc}
    (less : ∀ proc, (change proc).pc.work ≤ proc.pc.work) :
    workOf (procs.modify pid change) ≤ workOf procs := by
  induction procs generalizing pid with
  | nil => simp [workOf]
  | cons proc rest ih =>
    cases pid with
    | zero =>
      have := less proc
      simp only [workOf, List.modify_zero_cons, List.map_cons, List.sum_cons]
      omega
    | succ pid =>
      have := @ih pid
      simp only [workOf, List.modify_succ_cons, List.map_cons, List.sum_cons] at this ⊢
      omega

private theorem workOf_map {procs : List Proc} {change : Proc → Proc}
    (less : ∀ proc, (change proc).pc.work ≤ proc.pc.work) : workOf (procs.map change) ≤ workOf procs := by
  induction procs with
  | nil => simp [workOf]
  | cons proc rest ih =>
    have := less proc
    simp only [workOf, List.map_cons, List.sum_cons] at ih ⊢
    omega

private theorem workOf_set {procs : List Proc} {pid : Nat} (found : procs[pid]? = some proc) (proc' : Proc) :
    workOf (procs.set pid proc') + proc.pc.work = workOf procs + proc'.pc.work := by
  induction procs generalizing pid with
  | nil => cases found
  | cons first rest ih =>
    cases pid with
    | zero =>
      cases found
      simp only [workOf, List.set_cons_zero, List.map_cons, List.sum_cons]
      omega
    | succ pid =>
      have := @ih pid found
      simp only [workOf, List.set_cons_succ, List.map_cons, List.sum_cons] at this ⊢
      omega

private theorem Proc.wakeJoin_work (proc : Proc) : proc.wakeJoin.pc.work ≤ proc.pc.work := by
  cases pc : proc.pc <;> simp [Proc.wakeJoin, Proc.goto, pc, Pc.work]

private theorem Proc.wakeParent_work (proc : Proc) : proc.wakeParent.pc.work ≤ proc.pc.work := by
  cases pc : proc.pc <;> simp [Proc.wakeParent, Proc.goto, pc, Pc.work]

/-- What an effect adds: a forked child. -/
def Effect.work : Effect → Nat
  | .fork child => child.pc.work
  | _ => 0

private theorem Effect.apply_work {effect : Effect} {procs after : List Proc}
    (applied : effect.apply procs = some after) : workOf after ≤ workOf procs + effect.work := by
  cases effect with
  | quiet =>
    cases applied
    exact Nat.le_refl _
  | broadcastJoin =>
    cases applied
    exact workOf_map Proc.wakeJoin_work
  | signalParent woken =>
    rcases signal_cases applied with ⟨_, rfl⟩ | ⟨pid, _, rfl⟩
    · exact Nat.le_refl _
    · exact workOf_modify Proc.wakeParent_work
  | fork child =>
    cases applied
    simp [workOf, Effect.work]

theorem Moves.work (moves : Moves shared proc op shared' proc' effect) (internal : op.called = false) :
    proc'.pc.work + effect.work < proc.pc.work := by
  cases moves with
  | create | createUnready | join | joinUnready | exitThread | exitUnready | returnRoutine
  | callExit | callAbort => cases internal
  | countChild pc | readIndex pc | allocate pc free | cloneFails pc | clone pc | waitPasses pc flag
  | waitBlocks pc flag | wakeChild pc | increment pc | storeIndex pc | enter pc | insert pc | record pc isInt
  | overwrite pc | notify pc | nest pc | readHandle pc found | readUnmapped pc unmapped | joinBlocks pc alive
  | joinPasses pc ended | leaveJoin pc | deleteReturned pc deleted | deleteCalled pc deleted | storeRetval pc
  | unnest pc | exit pc | quit pc =>
    simp [pc, Proc.goto, Proc.forked, Pc.work, Effect.work]

theorem work_step (internal : Internal state action) (taken : step state action = some after) :
    after.work < state.work := by
  cases step_cases taken with
  | foreign outside => exact internal.elim
  | @act _ _ _ _ proc' _ _ found moves applied =>
    have less := moves.work internal.1
    have sum := workOf_set found proc'
    have most := Effect.apply_work applied
    simp only [State.work]
    omega

/-! While anything is left some process can go on. -/

theorem Moves.waitsChild (moves : Moves shared proc op shared' proc' effect)
    (waits : proc'.pc.waitsChild = some page) :
    proc.pc.waitsChild = some page ∨ (∃ parentIndex handle, proc.pc = .cloning parentIndex handle ∧
      handle.page = page ∧ ∃ child, op = .clone child) := by
  cases moves with
  | cloneFails pc | clone pc => exact .inr ⟨_, _, pc, Option.some.inj waits, _, rfl⟩
  | waitBlocks pc flag => exact .inl (by rw [pc]; exact waits)
  | joinUnready => exact .inl waits
  | _ => cases waits

theorem Woken.waitsChild (woken : Woken effect old new) : new.pc.waitsChild = old.pc.waitsChild := by
  cases woken with
  | same => rfl
  | join pc | parent pc => rw [pc]; rfl

theorem attended_step (attended : Attended state) (orderly : Orderly state action)
    (taken : step state action = some after) : Attended after := by
  cases step_cases taken with
  | foreign outside => exact attended
  | @act pid proc op shared proc' effect procs found moves applied =>
    have kept : ∀ page, (∃ child ∈ state.procs, child.status = some page) →
        ∃ child ∈ procs, child.status = some page := by
      rintro page ⟨child, member, own⟩
      obtain ⟨index, present⟩ := List.mem_iff_getElem?.mp member
      by_cases same : index = pid
      · subst same
        cases present.symm.trans found
        obtain ⟨new, seen, woken⟩ := lookup_moved found applied
        exact ⟨new, List.mem_of_getElem? seen, by rw [woken.status, moves.status, own]⟩
      · obtain ⟨new, seen, woken⟩ := lookup_other same present applied
        exact ⟨new, List.mem_of_getElem? seen, by rw [woken.status, own]⟩
    have forks : ∀ parentIndex handle child, proc.pc = .cloning parentIndex handle → op = .clone child →
        ∃ child ∈ procs, child.status = some handle.page := by
      rintro parentIndex handle child pc rfl
      cases moves with
      | cloneFails => cases orderly.1
      | clone pc' =>
        cases pc.symm.trans pc'
        cases applied
        exact ⟨_, List.mem_append_right _ (List.mem_singleton.mpr rfl), rfl⟩
    have earlier : ∀ proc ∈ state.procs, HasChild procs proc :=
      fun other member page waits => kept page (attended other member page waits)
    refine forall_procs_step found applied earlier ?_ ?_ ?_
    · intro page waits
      rcases moves.waitsChild waits with before | ⟨parentIndex, handle, pc, rfl, child, cloned⟩
      · exact kept page (attended proc (List.mem_of_getElem? found) page before)
      · exact forks parentIndex handle child pc cloned
    · intro old new woken good page waits
      rw [woken.waitsChild] at waits
      exact good page waits
    · rintro child rfl page waits
      obtain ⟨_, _, _, _, _, rfl⟩ := moves.forked
      cases waits

private theorem attended_of_orderly (run : Run step initialState history state)
    (orderly : Meets Orderly history) :
    Attended state := by
  refine run.invariant ?_ attended_step orderly
  intro proc member page waits
  cases List.mem_singleton.mp member
  cases waits

/-- Some process can take a step of the library. -/
def GoesOn (state : State) : Prop := ∃ action after, guarded step Internal state action = some after

theorem goesOn_of_step {op : Op} (internal : op.called = false) (orderly : Orderly state (.act pid op))
    (taken : step state (.act pid op) = some after) : GoesOn state :=
  ⟨.act pid op, after, guarded_eq_some.mpr ⟨⟨internal, orderly⟩, taken⟩⟩

private theorem goesOn_of_local (op : Op) {pid : Nat} (found : state.procs[pid]? = some proc)
    (internal : op.called = false) (orderly : Orderly state (.act pid op))
    (moved : localStep state.shared proc op = some (shared, proc', effect))
    (quiet : effect = .quiet ∨ effect = .broadcastJoin) : GoesOn state := by
  rcases quiet with rfl | rfl
  · have taken : step state (.act pid op) = some ⟨shared, state.procs.set pid proc'⟩ := by
      simp [step, found, moved, Effect.apply]
    exact goesOn_of_step internal orderly taken
  · have taken : step state (.act pid op) = some ⟨shared, (state.procs.set pid proc').map Proc.wakeJoin⟩ := by
      simp [step, found, moved, Effect.apply]
    exact goesOn_of_step internal orderly taken

/-- The next step of a process, where it needs nothing and wakes nobody in particular. -/
def Pc.onward : Pc → Option Op
  | .counting => some .countChild
  | .spawning => some .readIndex
  | .awaiting _ => some .waitChild
  | .awaitingWoken _ => some .wakeChild
  | .starting => some .increment
  | .incremented _ => some .storeIndex
  | .indexed => some .enter
  | .entered _ => some .insert
  | .inserted => some (.record 0)
  | .recorded _ => some .overwrite
  | .notified => some .nest
  | .joinCalled _ _ => some .readHandle
  | .joinRead _ _ _ => some .enterJoin
  | .joinWoken _ _ => some .leaveJoin
  | .returned _ | .exitCalled => some .deleteRegister
  | .deregistered _ => some .storeRetval
  | .stored => some .unnest
  | .exiting => some .exit
  | .quitting => some .quit
  | _ => none

private theorem localStep_onward (unlinked : shared.determ.Unlinked) (onward : proc.pc.onward = some op) :
    ∃ shared' proc' effect, localStep shared proc op = some (shared', proc', effect) ∧
      (effect = .quiet ∨ effect = .broadcastJoin) := by
  cases pc : proc.pc <;> rw [pc] at onward <;> cases onward
  case awaiting handle =>
    cases flag : shared.determ.childregistered
    · exact ⟨_, _, _, by simp only [localStep, pc, Mydeterm.waitChildRegistered, flag]; rfl, .inl rfl⟩
    · exact ⟨_, _, _, by simp only [localStep, pc, Mydeterm.waitChildRegistered, flag]; rfl, .inl rfl⟩
  case joinCalled handle val =>
    cases mapped : proc.space.lookup handle.address
    · exact ⟨_, _, _, by simp only [localStep, pc, mapped]; rfl, .inl rfl⟩
    · exact ⟨_, _, _, by simp only [localStep, pc, mapped]; rfl, .inl rfl⟩
  case joinRead page guestindex val =>
    cases waits : (shared.determ.join guestindex proc.currentIndex).1
    · exact ⟨_, _, _, by simp only [localStep, pc, waits]; rfl, .inl rfl⟩
    · exact ⟨_, _, _, by simp only [localStep, pc, waits]; rfl, .inl rfl⟩
  case returned result | exitCalled =>
    obtain ⟨determ, deleted, _⟩ := unlinked.deletes proc.currentIndex
    exact ⟨_, _, _, by simp only [localStep, pc, deleted]; rfl, .inr rfl⟩
  all_goals exact ⟨_, _, _, by simp only [localStep, pc]; rfl, .inl rfl⟩

private theorem goesOn_of_onward {pid : Nat} (unlinked : state.shared.determ.Unlinked)
    (found : state.procs[pid]? = some proc) (onward : proc.pc.onward = some op) : GoesOn state := by
  obtain ⟨shared', proc', effect, moved, quiet⟩ := localStep_onward unlinked onward
  have internal : op.called = false ∧ Orderly state (.act pid op) := by
    cases pc : proc.pc <;> rw [pc] at onward <;> cases onward <;> exact ⟨rfl, trivial⟩
  exact goesOn_of_local op found internal.1 internal.2 moved quiet

private theorem goesOn_of_overwritten {pid : Nat} (found : state.procs[pid]? = some proc)
    (pc : proc.pc = .overwritten) : GoesOn state := by
  have moved : ∀ woken, localStep state.shared proc (.notify woken) = some
      ({ state.shared with determ := state.shared.determ.waitParentNotify }, proc.goto .notified,
        .signalParent woken) := by
    intro woken
    simp [localStep, pc]
  cases waiting : (state.procs.set pid (proc.goto .notified)).any (·.pc.waitsParent) with
  | false =>
    have taken : step state (.act pid (.notify none)) = some
        ⟨{ state.shared with determ := state.shared.determ.waitParentNotify },
          state.procs.set pid (proc.goto .notified)⟩ := by
      simp only [step, found, Option.bind_eq_bind, Option.bind_some, moved, Effect.apply, waiting]
      rfl
    exact @goesOn_of_step _ _ _ (.notify none) rfl trivial taken
  | true =>
    obtain ⟨waiter, member, waits⟩ := List.any_eq_true.mp waiting
    obtain ⟨woken, present⟩ := List.mem_iff_getElem?.mp member
    have taken : step state (.act pid (.notify (some woken))) = some
        ⟨{ state.shared with determ := state.shared.determ.waitParentNotify },
          (state.procs.set pid (proc.goto .notified)).modify woken Proc.wakeParent⟩ := by
      simp only [step, found, Option.bind_eq_bind, Option.bind_some, moved, Effect.apply, present,
        Option.map_some, waits, if_true]
      rfl
    exact @goesOn_of_step _ _ _ (.notify (some woken)) rfl trivial taken

private theorem goesOn_of_registering {pid : Nat} (unlinked : state.shared.determ.Unlinked)
    (found : state.procs[pid]? = some proc) (registering : proc.pc.registering = true) : GoesOn state := by
  by_cases last : proc.pc = .overwritten
  · exact goesOn_of_overwritten found last
  · have onward : ∃ op, proc.pc.onward = some op := by
      cases pc : proc.pc <;> simp_all [Pc.registering, Pc.onward]
    obtain ⟨op, onward⟩ := onward
    exact goesOn_of_onward unlinked found onward

private theorem goesOn_of_waitsChild (good : Registering state) (attended : Attended state)
    (unlinked : state.shared.determ.Unlinked) (member : proc ∈ state.procs)
    (waits : proc.pc.waitsChild = some page) : GoesOn state := by
  obtain ⟨pid, found⟩ := List.mem_iff_getElem?.mp member
  cases onward : proc.pc.onward with
  | some op => exact goesOn_of_onward unlinked found onward
  | none =>
    have phase : proc.party.phase = .blocked page := by
      cases pc : proc.pc <;> rw [pc] at waits onward <;> cases waits <;> cases onward
      simp [Proc.party, pc, Pc.phase]
    obtain ⟨child, member', own⟩ := attended proc member page waits
    obtain ⟨index, present⟩ := List.mem_iff_getElem?.mp member'
    have silent := good.turns.blocked (parties_found found) phase
    refine goesOn_of_registering unlinked present ?_
    cases registering : child.pc.registering with
    | true => rfl
    | false => exact (silent ((announced_iff state page).mpr ⟨child, member', own, registering⟩)).elim

private theorem exists_free (space : List (Address × Page)) : ∃ address, space.lookup address = none := by
  have bounded : ∃ bound, ∀ entry ∈ space, entry.1 < bound := by
    induction space with
    | nil => exact ⟨0, nofun⟩
    | cons first rest ih =>
      obtain ⟨bound, below⟩ := ih
      refine ⟨max bound (first.1 + 1), fun entry member => ?_⟩
      rcases List.mem_cons.mp member with same | later
      · subst same
        exact Nat.lt_of_lt_of_le (Nat.lt_succ_self _) (Nat.le_max_right ..)
      · exact Nat.lt_of_lt_of_le (below entry later) (Nat.le_max_left ..)
  obtain ⟨bound, below⟩ := bounded
  refine ⟨bound, List.lookup_eq_none_iff.mpr fun entry member => ?_⟩
  have different : bound ≠ entry.1 := Nat.ne_of_gt (below entry member)
  simpa using different

private theorem goesOn_of_choice {pid : Nat} (good : Registering state) (attended : Attended state)
    (unlinked : state.shared.determ.Unlinked) (found : state.procs[pid]? = some proc)
    (restless : proc.pc.atRest = false) (choice : proc.pc.onward = none) : GoesOn state := by
  cases pc : proc.pc <;> rw [pc] at restless choice <;> cases restless <;> cases choice
  case allocating parentIndex =>
    obtain ⟨address, free⟩ := exists_free proc.space
    exact goesOn_of_local (.allocate address) found rfl trivial (by simp only [localStep, pc, free]; rfl)
      (.inl rfl)
  case cloning parentIndex handle =>
    by_cases alone : ∀ proc ∈ state.procs, proc.pc.waitsChild = none
    · have taken : ∃ after, step state (.act pid (.clone (some 0))) = some after := by
        simp [step, found, localStep, pc, Effect.apply]
      obtain ⟨after, taken⟩ := taken
      exact @goesOn_of_step _ _ _ (.clone (some 0)) rfl ⟨rfl, alone⟩ taken
    · obtain ⟨other, waiting⟩ := not_forall.mp alone
      obtain ⟨present, waits⟩ := Classical.not_imp.mp waiting
      obtain ⟨page, waits⟩ := Option.ne_none_iff_exists'.mp waits
      exact goesOn_of_waitsChild good attended unlinked present waits
  case awaitingCond handle =>
    exact goesOn_of_waitsChild good attended unlinked (List.mem_of_getElem? found) (by rw [pc]; rfl)
  case overwritten => exact goesOn_of_overwritten found pc

/-- While a process is inside the library and not blocked in a join, some process can go on. -/
theorem goesOn_of_restless (good : Registering state) (attended : Attended state)
    (unlinked : state.shared.determ.Unlinked) (member : proc ∈ state.procs)
    (restless : proc.pc.atRest = false) : GoesOn state := by
  obtain ⟨pid, found⟩ := List.mem_iff_getElem?.mp member
  cases onward : proc.pc.onward with
  | some op => exact goesOn_of_onward unlinked found onward
  | none => exact goesOn_of_choice good attended unlinked found restless onward

theorem Moves.restless (moves : Moves shared proc op shared' proc' effect) (internal : op.called = false) :
    proc.pc.atRest = false := by
  cases moves with
  | create | createUnready | join | joinUnready | exitThread | exitUnready | returnRoutine
  | callExit | callAbort => cases internal
  | countChild pc | readIndex pc | allocate pc free | cloneFails pc | clone pc | waitPasses pc flag
  | waitBlocks pc flag | wakeChild pc | increment pc | storeIndex pc | enter pc | insert pc | record pc isInt
  | overwrite pc | notify pc | nest pc | readHandle pc found | readUnmapped pc unmapped | joinBlocks pc alive
  | joinPasses pc ended | leaveJoin pc | deleteReturned pc deleted | deleteCalled pc deleted | storeRetval pc
  | unnest pc | exit pc | quit pc =>
    rw [pc]
    rfl

theorem work_run {state after : State} (later : Run (guarded step Internal) state steps after) :
    steps.length + after.work ≤ state.work := by
  induction later with
  | start => simp
  | next earlier taken ih =>
    obtain ⟨internal, moved⟩ := guarded_eq_some.mp taken
    have less := work_step internal moved
    simp only [List.length_cons]
    omega

end ProcessAsThread
