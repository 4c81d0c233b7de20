import ProcessAsThread.Library.Handshake
import ProcessAsThread.Threads.Moves

/-! The handshake between `waitParentNotify` in a child and `waitChildRegistered`
in its parent, as an instance of the one-flag handshake whose tokens are the
`ThreadStatus` pages. All parents share the one flag. -/

namespace ProcessAsThread

open Library

/-- In the child branch of `forkSpawn`, not yet past `waitParentNotify`. -/
def Pc.registering : Pc → Bool
  | .starting | .incremented _ | .indexed | .entered _ | .inserted | .recorded _ | .overwritten => true
  | _ => false

/-- In `waitChildRegistered`, for the child of this page. -/
def Pc.waitsChild : Pc → Option Page
  | .awaiting handle | .awaitingCond handle | .awaitingWoken handle => some handle.page
  | _ => none

/-- Blocked in `waitChildRegistered`: no signal is pending. -/
def Pc.blockedOn : Pc → Option Page
  | .awaitingCond handle => some handle.page
  | _ => none

/-- The thread of a page is past `waitParentNotify`. -/
def Notified (state : State) (page : Page) : Prop :=
  ∃ child ∈ state.procs, child.status = some page ∧ child.pc.registering = false

instance (state : State) (page : Page) : Decidable (Notified state page) :=
  inferInstanceAs (Decidable (∃ child ∈ state.procs, _ ∧ _))

/-- The page of a thread names it: its pid and the result of its `childRegister`. -/
def Names (state : State) (page : Page) : Prop :=
  ∃ child ∈ state.procs, child.status = some page ∧ child.pc.registering = false ∧
    ∃ status ∈ state.shared.pages[page]?, status.tid = child.pid ∧
      child.childRegister = some status.threadIndex

/-- Every handle `forkSpawn` has returned names a thread that has registered. -/
def HandlesRegistered (state : State) : Prop := ∀ handle ∈ state.shared.spawned, Names state handle.page

/-- No parent is blocked waiting for a child that has notified it. -/
def NoLostNotice (state : State) : Prop :=
  ∀ proc ∈ state.procs, ∀ page ∈ proc.pc.blockedOn, ¬ Notified state page

/-- A clone is made while no parent is in `waitChildRegistered`. -/
def SpawnsInTurn (state : State) : Action → Prop
  | .act _ (.clone _) => ∀ proc ∈ state.procs, proc.pc.waitsChild = none
  | _ => True

instance (state : State) (action : Action) : Decidable (SpawnsInTurn state action) := by
  unfold SpawnsInTurn
  split <;> infer_instance

/-! The view of a state as a handshake. -/

def Pc.phase (pc : Pc) : Handshake.Phase Page :=
  match pc with
  | .cloning _ handle => .calling handle.page
  | .awaiting handle => .awaiting handle.page
  | .awaitingCond handle => .blocked handle.page
  | .awaitingWoken handle => .woken handle.page
  | pc => if pc.registering then .unannounced else .idle

def Proc.party (proc : Proc) : Handshake.Party Page := ⟨proc.pc.phase, proc.status⟩

def parties (procs : List Proc) (pid : Nat) : Option (Handshake.Party Page) :=
  procs[pid]?.map Proc.party

def State.handshake (state : State) : Handshake Nat Page where
  flag := state.shared.determ.childregistered
  parties := parties state.procs
  returned := state.shared.spawned.map Handle.page

private theorem Pc.phase_unannounced (pc : Pc) : pc.phase = .unannounced ↔ pc.registering = true := by
  cases pc <;> simp [Pc.phase, Pc.registering]

private theorem Pc.phase_waits (pc : Pc) : pc.phase.waits = pc.waitsChild.isSome := by
  cases pc <;> rfl

theorem announced_iff (state : State) (page : Page) :
    Handshake.Announced state.handshake.parties page ↔ Notified state page := by
  constructor
  · intro ⟨pid, party, present, own, done⟩
    obtain ⟨proc, found, same⟩ := Option.map_eq_some_iff.mp present
    subst same
    refine ⟨proc, List.mem_of_getElem? found, own, ?_⟩
    rw [← Bool.not_eq_true, ← Pc.phase_unannounced]
    exact done
  · intro ⟨proc, member, own, done⟩
    obtain ⟨pid, found⟩ := List.mem_iff_getElem?.mp member
    refine ⟨pid, proc.party, by simp [State.handshake, parties, found], own, ?_⟩
    intro phase
    rw [(Pc.phase_unannounced _).mp phase] at done
    cases done

theorem parties_set {procs : List Proc} {pid : Nat} (found : procs[pid]? = some proc) (proc' : Proc) :
    parties (procs.set pid proc') = Function.update (parties procs) pid (some proc'.party) := by
  have inside := (List.getElem?_eq_some_iff.mp found).1
  funext other
  by_cases same : other = pid
  · subst same
    simp [parties, inside]
  · simp [parties, Function.update_of_ne same, List.getElem?_set_ne (Ne.symm same)]

private theorem Proc.wakeJoin_party (proc : Proc) : proc.wakeJoin.party = proc.party := by
  unfold Proc.wakeJoin
  split
  · rename_i pc
    simp [Proc.party, Proc.goto, pc, Pc.phase, Pc.registering]
  · rfl

private theorem parties_wakeJoin (procs : List Proc) : parties (procs.map Proc.wakeJoin) = parties procs := by
  funext pid
  cases found : procs[pid]? <;> simp [parties, found, Proc.wakeJoin_party]

private theorem parties_append (procs : List Proc) (child : Proc) :
    parties (procs ++ [child]) = Function.update (parties procs) procs.length (some child.party) := by
  funext pid
  by_cases last : pid = procs.length
  · subst last
    simp [parties]
  · rw [Function.update_of_ne last]
    rcases Nat.lt_or_gt_of_ne last with inside | outside
    · simp [parties, List.getElem?_append_left inside]
    · simp [parties, List.getElem?_append, Nat.not_lt.mpr (Nat.le_of_lt outside),
        show pid - procs.length ≠ 0 by omega]

private theorem parties_wakeParent {procs : List Proc} {woken : Nat} {handle : Handle}
    (found : procs[woken]? = some proc) (pc : proc.pc = .awaitingCond handle) :
    parties (procs.modify woken Proc.wakeParent) = Function.update (parties procs) woken
      (some (proc.party.goto (.woken handle.page))) := by
  funext other
  by_cases same : other = woken
  · subst same
    simp [parties, found, Proc.wakeParent, pc, Proc.goto, Proc.party, Pc.phase, Handshake.Party.goto]
  · simp [parties, Function.update_of_ne same, Ne.symm same]

/-- The pages in use are pages that have been allocated. -/
structure PagesBounded (state : State) : Prop where
  status : ∀ proc ∈ state.procs, ∀ page ∈ proc.status, page < state.shared.pages.length
  calling : ∀ proc ∈ state.procs, ∀ page, proc.pc.phase = .calling page →
    page < state.shared.pages.length

private theorem Shared.setPage_determ (shared : Shared) (page : Option Page)
    (change : Mythread.ThreadStatus → Mythread.ThreadStatus) :
    (shared.setPage page change).determ = shared.determ := by
  cases page <;> rfl

private theorem Shared.setPage_spawned (shared : Shared) (page : Option Page)
    (change : Mythread.ThreadStatus → Mythread.ThreadStatus) :
    (shared.setPage page change).spawned = shared.spawned := by
  cases page <;> rfl

private theorem Shared.setPage_length (shared : Shared) (page : Option Page)
    (change : Mythread.ThreadStatus → Mythread.ThreadStatus) :
    (shared.setPage page change).pages.length = shared.pages.length := by
  cases page <;> simp [Shared.setPage]

private theorem Moves.pages_length (moves : Moves shared proc op shared' proc' effect) :
    shared.pages.length ≤ shared'.pages.length := by
  cases moves with
  | allocate => simp
  | record | storeRetval => exact Nat.le_of_eq (Shared.setPage_length ..).symm
  | _ => exact Nat.le_refl _

private theorem Woken.phase_calling (woken : Woken effect old new) (phase : new.pc.phase = .calling page) :
    old.pc.phase = .calling page := by
  cases woken with
  | same => exact phase
  | join | parent => simp [Proc.goto, Pc.phase, Pc.registering] at phase

/-- A process is about to clone for a page it has before, or just allocated. -/
theorem Moves.phase_calling (moves : Moves shared proc op shared' proc' effect)
    (phase : proc'.pc.phase = .calling page) :
    proc.pc.phase = .calling page ∨ page = shared.pages.length ∧ page < shared'.pages.length := by
  cases moves with
  | allocate =>
    have same : shared.pages.length = page := by simpa [Pc.phase] using phase
    subst same
    exact .inr ⟨rfl, by simp⟩
  | joinUnready => exact .inl phase
  | create pc ready | createUnready pc unready => simp [Proc.goto, Pc.phase, Pc.registering] at phase
  | _ => simp [Proc.goto, Pc.phase, Pc.registering] at phase

theorem pagesBounded_step (good : PagesBounded state) (taken : step state action = some after) :
    PagesBounded after := by
  cases step_cases taken with
  | foreign outside => exact ⟨good.status, good.calling⟩
  | @act pid proc op shared proc' effect procs found moves applied =>
    have member := List.mem_of_getElem? found
    have grows := moves.pages_length
    have calling : ∀ proc ∈ state.procs, ∀ page, proc.pc.phase = .calling page →
        page < shared.pages.length :=
      fun proc member page phase => Nat.lt_of_lt_of_le (good.calling proc member page phase) grows
    have status : ∀ proc ∈ state.procs, ∀ page ∈ proc.status, page < shared.pages.length :=
      fun proc member page own => Nat.lt_of_lt_of_le (good.status proc member page own) grows
    constructor
    case status =>
      refine forall_procs_step found applied status ?_ ?_ ?_
      · rw [moves.status]
        exact status proc member
      · intro old new woken own
        rwa [woken.status]
      · intro child forks page own
        subst forks
        obtain ⟨parentIndex, handle, _, pc, _, same⟩ := moves.forked
        subst same
        cases own
        exact calling proc member _ (by rw [pc]; rfl)
    case calling =>
      refine forall_procs_step found applied calling ?_ ?_ ?_
      · intro page phase
        rcases moves.phase_calling phase with before | ⟨_, inside⟩
        · exact calling proc member page before
        · exact inside
      · intro old new woken bounded page phase
        exact bounded page (woken.phase_calling phase)
      · intro child forks page phase
        subst forks
        obtain ⟨_, _, _, _, _, same⟩ := moves.forked
        subst same
        cases phase

/-- The handshake does not see a step that changes neither flag nor returned
handles nor the party that takes it. -/
theorem handshake_stutter {state : State} {shared : Shared} {proc proc' : Proc} {after : List Proc}
    {pid : Nat} (found : state.procs[pid]? = some proc)
    (party : proc'.party = proc.party)
    (flag : shared.determ.childregistered = state.shared.determ.childregistered)
    (spawned : shared.spawned = state.shared.spawned)
    (effect : after = state.procs.set pid proc' ∨ after = (state.procs.set pid proc').map Proc.wakeJoin) :
    State.handshake ⟨shared, after⟩ = state.handshake := by
  have same : parties after = parties state.procs := by
    have kept : parties (state.procs.set pid proc') = parties state.procs := by
      rw [parties_set found, party]
      exact Function.update_eq_self_iff.mpr (by simp [parties, found])
    rcases effect with same | same
    · rw [same, kept]
    · rw [same, parties_wakeJoin, kept]
  simp only [State.handshake, flag, spawned, same]

theorem Mydeterm.childregistered_deleteRegisterThread {determ after : Mydeterm}
    (deleted : determ.deleteRegisterThread index = some after) :
    after.childregistered = determ.childregistered := by
  simp only [Mydeterm.deleteRegisterThread] at deleted
  split at deleted
  · contradiction
  · cases deleted
    split <;> rfl

theorem Mydeterm.childregistered_join (determ : Mydeterm) (guestindex myindex : Int) :
    (determ.join guestindex myindex).2.childregistered = determ.childregistered := by
  simp only [Mydeterm.join]
  split <;> rfl

private theorem Pc.waitsParent_blocked (pc : Pc) :
    pc.waitsParent = true ↔ ∃ handle, pc = .awaitingCond handle := by
  cases pc <;> simp [Pc.waitsParent]

private theorem Pc.phase_blocked (pc : Pc) (blocked : pc.phase = .blocked page) : pc.waitsParent = true := by
  cases pc <;> simp [Pc.phase, Pc.registering, Pc.waitsParent] at blocked ⊢

theorem parties_found {procs : List Proc} {pid : Nat} (found : procs[pid]? = some proc) :
    parties procs pid = some proc.party := by
  simp [parties, found]

private theorem parties_member {procs : List Proc} {pid : Nat} (present : parties procs pid = some party) :
    ∃ proc ∈ procs, party = proc.party := by
  obtain ⟨proc, found, same⟩ := Option.map_eq_some_iff.mp present
  exact ⟨proc, List.mem_of_getElem? found, same.symm⟩

private theorem quiet_of_inTurn {state : State} (inTurn : ∀ proc ∈ state.procs, proc.pc.waitsChild = none) :
    Handshake.Quiet (parties state.procs) := by
  intro pid party present
  obtain ⟨proc, member, same⟩ := parties_member present
  subst same
  rw [Proc.party, Pc.phase_waits, inTurn proc member]
  rfl

theorem PagesBounded.fresh (bounded : PagesBounded state) {other : Nat} {party : Handshake.Party Page}
    (present : parties state.procs other = some party) :
    party.token ≠ some state.shared.pages.length ∧
      party.phase ≠ .calling state.shared.pages.length := by
  obtain ⟨proc, member, same⟩ := parties_member present
  subst same
  exact ⟨fun own => Nat.lt_irrefl _ (bounded.status proc member _ own),
    fun phase => Nat.lt_irrefl _ (bounded.calling proc member _ phase)⟩

section

variable {state : State} {proc : Proc} {pid : Nat}

private theorem handshake_announce (found : state.procs[pid]? = some proc) (pc : proc.pc = .overwritten)
    (nobody : ¬ (state.procs.set pid (proc.goto .notified)).any (·.pc.waitsParent) = true) :
    Handshake.Step state.handshake (State.handshake
      ⟨{ state.shared with determ := state.shared.determ.waitParentNotify },
        state.procs.set pid (proc.goto .notified)⟩) := by
  have view := parties_found found
  have phase : proc.party.phase = .unannounced := by
    rw [Proc.party, pc]
    rfl
  simp only [State.handshake, parties_set found]
  refine .announce view phase ?_
  intro other party present token blocked
  obtain ⟨proc', there, same⟩ := Option.map_eq_some_iff.mp present
  subst same
  apply nobody
  have different : pid ≠ other := by
    intro same
    subst same
    cases Option.some.inj (found.symm.trans there)
    simp [Proc.party, pc, Pc.phase, Pc.registering] at blocked
  refine List.any_eq_true.mpr ⟨proc', ?_, (Pc.phase_blocked _ blocked)⟩
  exact List.mem_of_getElem? (by rwa [List.getElem?_set_ne different])

private theorem handshake_signal {woken : Nat} (found : state.procs[pid]? = some proc)
    (pc : proc.pc = .overwritten)
    (waits : ((state.procs.set pid (proc.goto .notified))[woken]?.map (·.pc.waitsParent)) = some true) :
    Handshake.Step state.handshake (State.handshake
      ⟨{ state.shared with determ := state.shared.determ.waitParentNotify },
        (state.procs.set pid (proc.goto .notified)).modify woken Proc.wakeParent⟩) := by
  obtain ⟨waiter, present, waiting⟩ := Option.map_eq_some_iff.mp waits
  obtain ⟨handle, cond⟩ := (Pc.waitsParent_blocked _).mp waiting
  have different : pid ≠ woken := by
    intro same
    subst same
    rw [List.getElem?_set_self (List.getElem?_eq_some_iff.mp found).1] at present
    cases present
    cases cond
  have there := present
  rw [List.getElem?_set_ne different] at there
  have view := parties_found found
  have phase : proc.party.phase = .unannounced := by
    rw [Proc.party, pc]
    rfl
  simp only [State.handshake, parties_wakeParent present cond, parties_set found]
  exact .signal view phase (parties_found there) (by rw [Proc.party, cond]; rfl)

end

/-- A step under the guard is a step of the handshake, or not part of it. -/
theorem handshake_step (bounded : PagesBounded state) (inTurn : SpawnsInTurn state action)
    (taken : step state action = some after) :
    after.handshake = state.handshake ∨ Handshake.Step state.handshake after.handshake := by
  cases step_cases taken with
  | foreign outside => exact .inl rfl
  | @act pid proc op shared proc' effect procs found moves applied =>
    have view := parties_found found
    have idle {pc : Pc} (same : proc.pc = pc) : proc.party.phase = pc.phase := by rw [← same]; rfl
    cases moves with
    | @allocate parentIndex address pc =>
      cases applied
      right
      simp only [State.handshake, parties_set found]
      exact .prepare view (idle pc) bounded.fresh
    | cloneFails pc =>
      cases applied
      right
      simp only [State.handshake, parties_set found]
      exact .spawnFails view (idle pc) (quiet_of_inTurn inTurn)
    | clone pc =>
      cases applied
      right
      simp only [State.handshake, parties_append, List.length_set, parties_set found]
      exact .spawn view (idle pc) (quiet_of_inTurn inTurn) (by simp [parties])
    | waitPasses pc flag =>
      cases applied
      right
      simp only [State.handshake, parties_set found]
      exact .pass view (idle pc) flag
    | waitBlocks pc flag =>
      cases applied
      right
      simp only [State.handshake, parties_set found]
      exact .block view (idle pc) flag
    | wakeChild pc =>
      cases applied
      right
      simp only [State.handshake, parties_set found]
      exact .leave view (idle pc)
    | @notify woken pc =>
      right
      cases woken with
      | none =>
        simp only [Effect.apply] at applied
        split at applied
        · contradiction
        · rename_i nobody
          cases applied
          exact handshake_announce found pc nobody
      | some woken =>
        simp only [Effect.apply] at applied
        split at applied
        · rename_i waits
          cases applied
          exact handshake_signal found pc waits
        · contradiction
    | deleteReturned pc deleted | deleteCalled pc deleted =>
      cases applied
      refine .inl (handshake_stutter found ?_ ?_ rfl (.inr rfl))
      · simp [Proc.party, pc, Pc.phase, Pc.registering]
      · exact Mydeterm.childregistered_deleteRegisterThread deleted
    | record pc | storeRetval pc =>
      cases applied
      refine .inl (handshake_stutter found ?_ ?_ ?_ (.inl rfl))
      · simp [Proc.party, Proc.goto, pc, Pc.phase, Pc.registering]
      · rw [Shared.setPage_determ]
      · rw [Shared.setPage_spawned]
    | joinBlocks pc =>
      cases applied
      refine .inl (handshake_stutter found ?_ ?_ rfl (.inl rfl))
      · simp [Proc.party, Proc.goto, pc, Pc.phase, Pc.registering]
      · exact Mydeterm.childregistered_join ..
    | joinUnready =>
      cases applied
      exact .inl (handshake_stutter found rfl rfl rfl (.inl rfl))
    | create pc | createUnready pc | countChild pc | readIndex pc | increment pc | storeIndex pc
    | enter pc | insert pc | overwrite pc | nest pc | join pc | readHandle pc | readUnmapped pc
    | joinPasses pc | leaveJoin pc | exitThread pc | exitUnready pc | returnRoutine pc | callExit pc | callAbort pc
    | unnest pc | exit pc | quit pc =>
      cases applied
      refine .inl (handshake_stutter found ?_ rfl rfl (.inl rfl))
      simp [Proc.party, Proc.goto, pc, Pc.phase, Pc.registering]

/-! What a child writes into its page. -/

/-- In the child branch of `forkSpawn`, before it has filled in its page. -/
def Pc.unrecorded : Pc → Bool
  | .starting | .incremented _ | .indexed | .entered _ | .inserted => true
  | _ => false

/-- A page holds the pid of the process it was given to, and the result of its `childRegister`. -/
def Recorded (pages : List Mythread.ThreadStatus) (proc : Proc) : Prop :=
  ∀ page ∈ proc.status, ∀ childRegister ∈ proc.childRegister,
    ∃ status ∈ pages[page]?, status.tid = proc.pid ∧ status.threadIndex = childRegister

theorem Moves.pid (moves : Moves shared proc op shared' proc' effect) : proc'.pid = proc.pid := by
  cases moves <;> rfl

theorem Moves.childRegister (moves : Moves shared proc op shared' proc' effect) :
    (∀ childRegister, op ≠ .record childRegister) ∧ proc'.childRegister = proc.childRegister ∧
        (proc'.pc.unrecorded = false → proc.pc.unrecorded = false) ∨
      ∃ childRegister, op = .record childRegister ∧ proc'.childRegister = some childRegister := by
  cases moves with
  | record => exact .inr ⟨_, rfl, rfl⟩
  | joinUnready => exact .inl ⟨nofun, rfl, id⟩
  | increment | storeIndex | enter | insert => exact .inl ⟨nofun, rfl, nofun⟩
  | create pc | createUnready pc | countChild pc | readIndex pc | allocate pc | cloneFails pc | clone pc
  | waitPasses pc | waitBlocks pc | wakeChild pc | overwrite pc | notify pc | nest pc | join pc
  | readHandle pc | readUnmapped pc | joinBlocks pc | joinPasses pc | leaveJoin pc | exitThread pc
  | exitUnready pc | returnRoutine pc | callExit pc | callAbort pc | deleteReturned pc | deleteCalled pc
  | storeRetval pc | unnest pc | exit pc | quit pc =>
    refine .inl ⟨nofun, rfl, fun _ => ?_⟩
    rw [pc]
    rfl

theorem Woken.record (woken : Woken effect old new) : new.pid = old.pid ∧ new.status = old.status ∧
    new.childRegister = old.childRegister ∧ new.pc.unrecorded = old.pc.unrecorded := by
  cases woken with
  | same => exact ⟨rfl, rfl, rfl, rfl⟩
  | join pc | parent pc => exact ⟨rfl, rfl, rfl, by rw [pc]; rfl⟩

/-- Only the thread of a page writes its tid and index. -/
theorem Moves.pages {record : Mythread.ThreadStatus}
    (moves : Moves shared proc op shared' proc' effect) (present : shared.pages[page]? = some record)
    (other : (∀ childRegister, op ≠ .record childRegister) ∨ proc.status ≠ some page) :
    ∃ record', shared'.pages[page]? = some record' ∧ record'.tid = record.tid ∧
      record'.threadIndex = record.threadIndex := by
  have inside := (List.getElem?_eq_some_iff.mp present).1
  cases moves with
  | allocate => exact ⟨record, by rw [List.getElem?_append_left inside, present], rfl, rfl⟩
  | record =>
    cases own : proc.status with
    | none => exact ⟨record, present, rfl, rfl⟩
    | some page' =>
      have different : page' ≠ page := by
        intro same
        subst same
        rcases other with other | other
        · exact other _ rfl
        · exact other own
      refine ⟨record, ?_, rfl, rfl⟩
      simpa [Shared.setPage, List.getElem?_modify, different] using present
  | storeRetval =>
    cases own : proc.status with
    | none => exact ⟨record, present, rfl, rfl⟩
    | some page' =>
      simp only [Shared.setPage, List.getElem?_modify, present]
      by_cases same : page' = page
      · refine ⟨_, by simp only [if_pos same]; rfl, ?_, ?_⟩ <;> rfl
      · exact ⟨record, by simp only [if_neg same]; rfl, rfl, rfl⟩
  | _ => exact ⟨record, present, rfl, rfl⟩

private theorem Moves.pages_record {proc : Proc} {childRegister : Int}
    (moves : Moves shared proc (.record childRegister) shared' proc' effect)
    (own : proc.status = some page) (inside : page < shared.pages.length) :
    ∃ record, shared'.pages[page]? = some record ∧ record.tid = proc.pid ∧
      record.threadIndex = childRegister := by
  cases moves with
  | record =>
    have held : (shared.setPage proc.status fun status =>
        { status with threadIndex := childRegister, tid := proc.pid }).pages[page]? =
        some { shared.pages[page] with threadIndex := childRegister, tid := proc.pid } := by
      simp [own, Shared.setPage, inside]
    exact ⟨_, held, rfl, rfl⟩

/-- A page in use keeps what is recorded in it, unless its thread records anew. -/
theorem Recorded.kept {proc other : Proc} (recorded : Recorded shared.pages other)
    (moves : Moves shared proc op shared' proc' effect)
    (apart : (∀ childRegister, op ≠ .record childRegister) ∨
      ∀ page, other.status = some page → proc.status ≠ some page) : Recorded shared'.pages other := by
  intro page own childRegister result
  obtain ⟨record, present, tid, threadIndex⟩ := recorded page own childRegister result
  obtain ⟨record', present', tid', threadIndex'⟩ :=
    moves.pages present (apart.imp_right fun different => different page own)
  exact ⟨record', present', tid'.trans tid, threadIndex'.trans threadIndex⟩

/-- What a run of spawns in turn keeps. -/
structure Registering (state : State) : Prop where
  bounded : PagesBounded state
  tokens : Handshake.Tokens state.handshake.parties
  turns : Handshake.Turns state.handshake.flag state.handshake.parties state.handshake.returned
  recorded : ∀ proc ∈ state.procs, Recorded state.shared.pages proc
  written : ∀ proc ∈ state.procs, proc.status ≠ none → proc.pc.unrecorded = false →
    proc.childRegister ≠ none

private theorem Registering.onePage (good : Registering state) {pid other : Nat}
    (found : state.procs[pid]? = some proc) (present : state.procs[other]? = some proc')
    (own : proc.status = some page) (own' : proc'.status = some page) : pid = other :=
  good.tokens.own (parties_found found) (parties_found present) own own'

theorem Woken.recorded (woken : Woken effect old new) :
    Recorded pages new ↔ Recorded pages old := by
  obtain ⟨pid, status, childRegister, _⟩ := woken.record
  unfold Recorded
  rw [pid, status, childRegister]

theorem recorded_step {state : State} {procs : List Proc} {pid : Nat} (good : Registering state)
    (found : state.procs[pid]? = some proc) (moves : Moves state.shared proc op shared proc' effect)
    (applied : effect.apply (state.procs.set pid proc') = some procs) :
    ∀ proc ∈ procs, Recorded shared.pages proc := by
  intro new member
  have before := good.recorded proc (List.mem_of_getElem? found)
  obtain ⟨index, present⟩ := List.mem_iff_getElem?.mp member
  rcases lookup_after found applied present with ⟨_, woken⟩ | ⟨different, old, held, woken⟩ | ⟨forks, _⟩
  · rw [woken.recorded]
    rcases moves.childRegister with ⟨other, same, _⟩ | ⟨childRegister, records, same⟩
    · have kept := before.kept moves (.inl other)
      unfold Recorded at kept ⊢
      rw [moves.status, moves.pid, same]
      exact kept
    · subst records
      intro page own result held
      rw [moves.status] at own
      rw [same] at held
      cases held
      rw [moves.pid]
      exact moves.pages_record own (good.bounded.status proc (List.mem_of_getElem? found) page own)
  · rw [woken.recorded]
    refine (good.recorded old (List.mem_of_getElem? held)).kept moves (.inr ?_)
    exact fun page own own' => different (good.onePage held found own own')
  · subst forks
    obtain ⟨_, _, _, _, _, same⟩ := moves.forked
    subst same
    intro page _ result none
    cases none

theorem written_step {state : State} {procs : List Proc} {pid : Nat} (good : Registering state)
    (found : state.procs[pid]? = some proc) (moves : Moves state.shared proc op shared proc' effect)
    (applied : effect.apply (state.procs.set pid proc') = some procs) :
    ∀ proc ∈ procs, proc.status ≠ none → proc.pc.unrecorded = false → proc.childRegister ≠ none := by
  refine forall_procs_step found applied good.written ?_ ?_ ?_
  · intro spawned written
    rcases moves.childRegister with ⟨_, same, past⟩ | ⟨childRegister, _, same⟩
    · rw [same]
      rw [moves.status] at spawned
      exact good.written proc (List.mem_of_getElem? found) spawned (past written)
    · simp [same]
  · intro old new woken written
    obtain ⟨_, status, childRegister, past⟩ := woken.record
    rwa [status, childRegister, past]
  · intro child forks spawned written
    subst forks
    obtain ⟨_, _, _, _, _, same⟩ := moves.forked
    subst same
    cases written

theorem registering_step (good : Registering state) (inTurn : SpawnsInTurn state action)
    (taken : step state action = some after) : Registering after := by
  have bounded := pagesBounded_step good.bounded taken
  have handshake := handshake_step good.bounded inTurn taken
  have tokens : Handshake.Tokens after.handshake.parties := by
    rcases handshake with same | moved
    · rw [same]
      exact good.tokens
    · exact good.tokens.step moved
  have turns : Handshake.Turns after.handshake.flag after.handshake.parties after.handshake.returned := by
    rcases handshake with same | moved
    · rw [same]
      exact good.turns
    · exact good.turns.step good.tokens moved
  cases step_cases taken with
  | foreign outside => exact ⟨bounded, tokens, turns, good.recorded, good.written⟩
  | act found moves applied =>
    exact ⟨bounded, tokens, turns, recorded_step good found moves applied,
      written_step good found moves applied⟩

theorem registering_of_inTurn (run : Run step initialState history state)
    (inTurn : Meets SpawnsInTurn history) : Registering state := by
  have alone : ∀ pid party, initialState.handshake.parties pid = some party →
      pid = 0 ∧ party = ⟨.idle, none⟩ := by
    intro pid party present
    cases pid with
    | zero => exact ⟨rfl, (Option.some.inj present).symm⟩
    | succ => cases present
  refine run.invariant ⟨?_, ?_, ?_, ?_, ?_⟩ registering_step inTurn
  · constructor <;> simp [initialState, mainProc, Pc.phase, Pc.registering]
  · constructor
    · intro i j party other token present present' _ _
      rw [(alone i party present).1, (alone j other present').1]
    · intro i j party other token present _ phase
      rw [(alone i party present).2] at phase
      cases phase
    · intro i j party other token present _ phase
      rw [(alone i party present).2] at phase
      cases phase
  · refine Handshake.Turns.of_quiet ?_ rfl ?_ ?_
    · intro pid party present
      rw [(alone pid party present).2]
      rfl
    · intro pid party present
      rw [(alone pid party present).2]
      exact nofun
    · simp [State.handshake, initialState]
  · simp [initialState, mainProc, Recorded]
  · simp [initialState, mainProc]

theorem Registering.names (good : Registering state) (notified : Notified state page) :
    Names state page := by
  obtain ⟨child, member, own, past⟩ := notified
  have unrecorded : child.pc.unrecorded = false := by
    cases pc : child.pc <;> simp [pc, Pc.registering, Pc.unrecorded] at past ⊢
  have written := good.written child member (by simp [own]) unrecorded
  obtain ⟨childRegister, result⟩ := Option.ne_none_iff_exists'.mp written
  obtain ⟨record, present, tid, threadIndex⟩ := good.recorded child member page own childRegister result
  exact ⟨child, member, own, past, record, present, tid, by rw [result, threadIndex]⟩

/-- In a run in which no thread is cloned while a parent waits for another, every
returned handle names a registered thread. -/
theorem handlesRegistered_of_inTurn (run : Run step initialState history state)
    (inTurn : Meets SpawnsInTurn history) : HandlesRegistered state := by
  have good := registering_of_inTurn run inTurn
  intro handle member
  refine good.names ((announced_iff state handle.page).mp ?_)
  exact good.turns.passed handle.page (List.mem_map_of_mem member)

/-- Main creates a thread, which creates another one. -/
theorem handlesRegistered_nested :
    ∃ state, Reachable step initialState state ∧ state.shared.spawned = [⟨1, 8192⟩, ⟨0, 4096⟩] ∧
      HandlesRegistered state := by
  have executed : ((execute (guarded step SpawnsInTurn) initialState
      (createActions 0 1 4096 1 ++ createActions 1 2 8192 2)).map
      fun state => decide (state.shared.spawned = [⟨1, 8192⟩, ⟨0, 4096⟩])) = some true := by
    decide +kernel
  obtain ⟨history, state, run, inTurn, two⟩ := exists_guarded executed
  exact ⟨state, ⟨history, run⟩, two, handlesRegistered_of_inTurn run inTurn⟩

/-- A `pthread_create` up to its clone, and a child up to `waitParentNotify`. -/
def cloneActions (parent : Pid) (address : Address) : List Action :=
  [.create, .countChild, .readIndex, .allocate address, .clone (some 0)].map (.act parent)

def notifyActions (child : Pid) : List Action :=
  [.increment, .storeIndex, .enter, .insert, .record 0, .overwrite, .notify none].map (.act child)

/-- Main and its first thread create one thread each; the notice of main's
child lets the other parent through. -/
theorem unregistered_handle :
    ¬ ∀ state, Reachable step initialState state → HandlesRegistered state := by
  have early : ((execute step initialState (createActions 0 1 4096 1 ++ cloneActions 0 8192 ++
      cloneActions 1 12288 ++ notifyActions 2 ++ [.act 1 .waitChild])).map
      fun state => decide (∃ handle ∈ state.shared.spawned, ¬ Notified state handle.page)) =
        some true := by
    decide +kernel
  obtain ⟨state, reached, handle, member, missing⟩ := exists_reachable early
  intro registered
  obtain ⟨child, present, own, past, _⟩ := registered state reached handle member
  exact missing ⟨child, present, own, past⟩

/-- In such a run no parent is blocked after its child has notified it. -/
theorem noLostNotice_of_inTurn (run : Run step initialState history state)
    (inTurn : Meets SpawnsInTurn history) : NoLostNotice state := by
  have good := registering_of_inTurn run inTurn
  intro proc member page blocked notified
  obtain ⟨pid, found⟩ := List.mem_iff_getElem?.mp member
  have phase : proc.party.phase = .blocked page := by
    cases pc : proc.pc <;> simp [pc, Pc.blockedOn] at blocked
    subst blocked
    simp [Proc.party, pc, Pc.phase]
  exact good.turns.blocked (parties_found found) phase ((announced_iff state page).mpr notified)

/-- Main waits for its second thread before that one has started to register. -/
theorem noLostNotice_waiting :
    ∃ state, Reachable step initialState state ∧ state.procs.map (·.pc.blockedOn) = [some 1, none, none] ∧
      NoLostNotice state := by
  have executed : ((execute (guarded step SpawnsInTurn) initialState
      (createActions 0 1 4096 1 ++ cloneActions 0 8192 ++ [.act 0 .waitChild])).map
      fun state => decide (state.procs.map (·.pc.blockedOn) = [some 1, none, none])) = some true := by
    decide +kernel
  obtain ⟨history, state, run, inTurn, waits⟩ := exists_guarded executed
  exact ⟨state, ⟨history, run⟩, waits, noLostNotice_of_inTurn run inTurn⟩

/-- Two children notify before either parent waits: the flag lets one through. -/
theorem notice_lost : ¬ ∀ state, Reachable step initialState state → NoLostNotice state := by
  have lost : ((execute step initialState (createActions 0 1 4096 1 ++ cloneActions 0 8192 ++
      cloneActions 1 12288 ++ notifyActions 2 ++ notifyActions 3 ++
      [.act 0 .waitChild, .act 1 .waitChild])).map
      fun state => decide (∃ proc ∈ state.procs, ∃ page ∈ proc.pc.blockedOn, Notified state page)) =
        some true := by
    decide +kernel
  obtain ⟨state, reached, proc, member, page, blocked, notified⟩ := exists_reachable lost
  exact fun good => good state reached proc member page blocked notified

end ProcessAsThread
