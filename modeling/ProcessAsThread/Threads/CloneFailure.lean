import Mathlib.Tactic.Cases
import ProcessAsThread.Threads.Moves

/-! `pthread_create` when the clone of `forkSpawn` fails. The count of children
and the page of the thread are made before the clone and nothing takes them back. -/

namespace ProcessAsThread

open Library

/-- The result of `pthread_create`; `return 0` is its only way out. -/
def pthreadCreateResult : Int := 0

def Op.counted : Op → Nat
  | .countChild => 1
  | _ => 0

def Op.allocations : Op → Nat
  | .allocate _ => 1
  | _ => 0

/-- What the steps of all other processes amount to. -/
def byOthers (pid : Pid) (amount : Op → Nat) : List (State × Action) → Nat
  | [] => 0
  | (_, .act other op) :: earlier => byOthers pid amount earlier + if other = pid then 0 else amount op
  | (_, .foreign _ _) :: earlier => byOthers pid amount earlier

def OthersOnly (pid : Pid) (history : List (State × Action)) : Prop :=
  ∀ entry ∈ history, ∀ op, entry.2 ≠ .act pid op

/-- A call that failed in `after` is as if it had not been made: it has an error to
return, does not wait, takes no notice from the registry, and the count and the
pages are what the other processes have made of them since `before`. -/
structure CreateUndone (pid : Pid) (before : State) (during : List (State × Action))
    (after : State) : Prop where
  error : pthreadCreateResult ≠ 0
  waitless : step after (.act pid .waitChild) = none
  keeps : ∀ {history waiting op final}, Run step after history waiting → OthersOnly pid history →
    step waiting (.act pid op) = some final →
      final.shared.determ = waiting.shared.determ ∧ final.shared.threadIndex = waiting.shared.threadIndex
  count : after.shared.myrun.childrenThreadsCount =
    (before.shared.myrun.childrenThreadsCount + byOthers pid Op.counted during) % 2 ^ 64
  pages : after.shared.pages.length = before.shared.pages.length + byOthers pid Op.allocations during

/-- What the call leaves instead: success, one child and one page too many, and a
caller that takes the next notice there is, whoever sent it. -/
structure CreateLeft (pid : Pid) (before : State) (during : List (State × Action))
    (after : State) : Prop where
  success : pthreadCreateResult = 0
  waits : ∃ waiting, step after (.act pid .waitChild) = some waiting
  takes : ∀ {history waiting op final}, Run step after history waiting → OthersOnly pid history →
    step waiting (.act pid op) = some final → op = .waitChild ∧
      (waiting.shared.determ.childregistered = true → final.shared.determ.childregistered = false)
  count : after.shared.myrun.childrenThreadsCount =
    (before.shared.myrun.childrenThreadsCount + byOthers pid Op.counted during + 1) % 2 ^ 64
  pages : after.shared.pages.length =
    before.shared.pages.length + byOthers pid Op.allocations during + 1

/-- Not both: the count alone tells them apart. -/
theorem CreateLeft.not_undone (left : CreateLeft pid before during after) :
    ¬ CreateUndone pid before during after := by
  intro undone
  have counted := left.count.symm.trans undone.count
  omega

theorem Moves.count (moves : Moves shared proc op shared' proc' effect)
    (small : shared.myrun.childrenThreadsCount < 2 ^ 64) : shared'.myrun.childrenThreadsCount =
      (shared.myrun.childrenThreadsCount + op.counted) % 2 ^ 64 := by
  cases moves with
  | countChild => rfl
  | record | storeRetval =>
    cases status : proc.status <;> exact (Nat.mod_eq_of_lt small).symm
  | _ => exact (Nat.mod_eq_of_lt small).symm

private theorem Moves.pages_added (moves : Moves shared proc op shared' proc' effect) :
    shared'.pages.length = shared.pages.length + op.allocations := by
  cases moves with
  | allocate => simp [Op.allocations]
  | record | storeRetval => cases status : proc.status <;> simp [Shared.setPage, Op.allocations]
  | _ => rfl

private theorem count_lt (reached : Reachable step initialState state) :
    state.shared.myrun.childrenThreadsCount < 2 ^ 64 := by
  obtain ⟨history, run⟩ := reached
  induction run with
  | start => exact Nat.two_pow_pos 64
  | next earlier taken ih =>
    cases step_cases taken with
    | foreign => exact ih
    | act found moves applied =>
      rw [moves.count ih]
      exact Nat.mod_lt _ (Nat.two_pow_pos 64)

/-- How often a process has counted a child and allocated a page in its call, by
where it is; `none` outside the part before the clone. -/
def Pc.made : Pc → Option (Nat × Nat)
  | .counting => some (0, 0)
  | .spawning | .allocating _ => some (1, 0)
  | .cloning _ _ => some (1, 1)
  | _ => none

theorem Woken.made (woken : Woken effect old new) : new.pc.made = old.pc.made := by
  cases woken with
  | same => rfl
  | join pc | parent pc =>
    rw [pc]
    rfl

theorem Moves.made (moves : Moves shared proc op shared' proc' effect) (goesOn : op ≠ .create)
    (inside : proc'.pc.made = some (children, own)) :
    ∃ children' own', proc.pc.made = some (children', own') ∧
      children = children' + op.counted ∧ own = own' + op.allocations := by
  cases moves with
  | create | createUnready => exact (goesOn rfl).elim
  | countChild pc | readIndex pc | allocate pc =>
    cases inside
    exact ⟨_, _, by rw [pc]; rfl, rfl, rfl⟩
  | joinUnready pc =>
    rw [pc] at inside
    cases inside
  | _ => cases inside

/-- The count and the pages are those before the call, changed by what the other
processes have done and what the caller has made. -/
structure Made (pid : Pid) (before : State) (during : List (State × Action)) (state : State)
    (children own : Nat) : Prop where
  count : state.shared.myrun.childrenThreadsCount =
    (before.shared.myrun.childrenThreadsCount + byOthers pid Op.counted during + children) % 2 ^ 64
  pages : state.shared.pages.length =
    before.shared.pages.length + byOthers pid Op.allocations during + own

/-- Until its clone the caller has made what its place says. -/
def Underway (pid : Nat) (before : State) (during : List (State × Action)) (state : State) : Prop :=
  ∀ {proc children own}, state.procs[pid]? = some proc → proc.pc.made = some (children, own) →
    Made pid before during state children own

private theorem underway_create {pid : Nat} (reached : Reachable step initialState before)
    (called : step before (.act pid .create) = some started) : Underway pid before [] started := by
  intro proc children own seen made
  have small := count_lt reached
  cases step_cases called with
  | act found moves applied =>
    obtain ⟨new, present, woken⟩ := lookup_moved found applied
    cases Option.some.inj (present.symm.trans seen)
    rw [woken.made] at made
    cases moves with
    | create =>
      cases made
      exact ⟨(Nat.mod_eq_of_lt small).symm, rfl⟩
    | createUnready => cases made

private theorem Made.byCaller (good : Made pid before during state children own)
    (small : state.shared.myrun.childrenThreadsCount < 2 ^ 64)
    (moves : Moves state.shared proc op shared proc' effect) :
    Made pid before ((state, .act pid op) :: during) ⟨shared, procs⟩ (children + op.counted)
      (own + op.allocations) := by
  constructor
  case count =>
    have counted := good.count
    have moved := moves.count small
    simp only [byOthers, if_true]
    omega
  case pages =>
    have pages := good.pages
    have moved := moves.pages_added
    simp only [byOthers, if_true]
    omega

private theorem Made.byOther (good : Made pid before during state children own)
    (small : state.shared.myrun.childrenThreadsCount < 2 ^ 64) {other : Nat} (different : other ≠ pid)
    (moves : Moves state.shared proc op shared proc' effect) :
    Made pid before ((state, .act other op) :: during) ⟨shared, procs⟩ children own := by
  constructor
  case count =>
    have counted := good.count
    have moved := moves.count small
    simp only [byOthers, different, if_false]
    omega
  case pages =>
    have pages := good.pages
    have moved := moves.pages_added
    simp only [byOthers, different, if_false]
    omega

theorem underway_step {pid : Nat} (good : Underway pid before during state)
    (inside : pid < state.procs.length) (reached : Reachable step initialState state)
    (goesOn : action ≠ .act pid .create) (taken : step state action = some after) :
    Underway pid before ((state, action) :: during) after := by
  intro proc children own seen made
  have small := count_lt reached
  cases step_cases taken with
  | foreign =>
    have older := good seen made
    exact ⟨older.count, older.pages⟩
  | @act mover old op shared moved effect procs found moves applied =>
    rcases lookup_after found applied seen with ⟨same, woken⟩ | ⟨different, old, present, woken⟩ | ⟨_, last⟩
    · subst same
      rw [woken.made] at made
      obtain ⟨children', own', before, counted, allocated⟩ :=
        moves.made (fun create => goesOn (by rw [create])) made
      subst counted allocated
      exact (good found before).byCaller small moves
    · rw [woken.made] at made
      exact (good present made).byOther small (Ne.symm different) moves
    · exact (Nat.ne_of_lt inside last).elim

/-- From the call on, until the caller calls again. -/
theorem underway_of_run {pid : Nat} (reached : Reachable step initialState before)
    (called : step before (.act pid .create) = some started) (run : Run step started during state)
    (goesOn : ∀ entry ∈ during, entry.2 ≠ .act pid .create) :
    Underway pid before during state ∧ pid < state.procs.length := by
  induction run with
  | start =>
    refine ⟨underway_create reached called, ?_⟩
    cases step_cases called with
    | act found moves applied =>
      obtain ⟨new, present, _⟩ := lookup_moved found applied
      exact (List.getElem?_eq_some_iff.mp present).1
  | @next during state action after earlier taken ih =>
    obtain ⟨good, inside⟩ := ih fun entry member => goesOn entry (List.mem_cons_of_mem _ member)
    have newest := goesOn (state, action) (List.mem_cons_self ..)
    refine ⟨underway_step good inside ((reached.next called).trans earlier) newest taken, ?_⟩
    cases step_cases taken with
    | foreign => exact inside
    | act found moves applied => exact Nat.lt_of_lt_of_le inside (length_after found applied)

def Awaits (pid : Nat) (state : State) : Prop :=
  ∃ proc handle, state.procs[pid]? = some proc ∧ proc.pc = .awaiting handle

private theorem awaits_cloneFails {pid : Nat} (taken : step failing (.act pid (.clone none)) = some after) :
    Awaits pid after ∧ after.shared = failing.shared ∧
      ∃ proc, failing.procs[pid]? = some proc ∧ proc.pc.made = some (1, 1) := by
  cases step_cases taken with
  | act found moves applied =>
    obtain ⟨new, present, woken⟩ := lookup_moved found applied
    cases moves with
    | cloneFails pc =>
      cases woken with
      | same => exact ⟨⟨_, _, present, rfl⟩, rfl, _, found, by rw [pc]; rfl⟩

theorem awaits_step {pid : Nat} (awaits : Awaits pid state) (others : ∀ op, action ≠ .act pid op)
    (taken : step state action = some after) : Awaits pid after := by
  obtain ⟨proc, handle, present, pc⟩ := awaits
  cases step_cases taken with
  | foreign => exact ⟨proc, handle, present, pc⟩
  | @act mover old op shared moved effect procs found moves applied =>
    have different : pid ≠ mover := fun same => others op (by rw [same])
    obtain ⟨new, seen, woken⟩ := lookup_other different present applied
    cases woken with
    | same => exact ⟨proc, handle, seen, pc⟩
    | join elsewhere | parent elsewhere =>
      rw [pc] at elsewhere
      cases elsewhere

private theorem awaits_of_others {pid : Nat} (run : Run step after history waiting)
    (others : OthersOnly pid history) (awaits : Awaits pid after) : Awaits pid waiting := by
  induction run with
  | start => exact awaits
  | next earlier taken ih =>
    refine awaits_step (ih fun entry member => others entry (List.mem_cons_of_mem _ member)) ?_ taken
    exact others _ (List.mem_cons_self ..)

private theorem awaits_takes {pid : Nat} (awaits : Awaits pid waiting)
    (taken : step waiting (.act pid op) = some final) : op = .waitChild ∧
      (waiting.shared.determ.childregistered = true → final.shared.determ.childregistered = false) := by
  obtain ⟨proc, handle, present, pc⟩ := awaits
  cases step_cases taken with
  | act found moves applied =>
    cases Option.some.inj (found.symm.trans present)
    cases moves with
    | waitPasses => exact ⟨rfl, fun _ => rfl⟩
    | waitBlocks _ flag => exact ⟨rfl, fun notice => flag⟩
    | _ => simp_all

private theorem awaits_waits {pid : Nat} (awaits : Awaits pid state) :
    ∃ waiting, step state (.act pid .waitChild) = some waiting := by
  obtain ⟨proc, handle, present, pc⟩ := awaits
  cases flag : state.shared.determ.childregistered <;>
    simp [step, present, localStep, pc, Mydeterm.waitChildRegistered, flag, Effect.apply]

/-- Whatever happens around it, a `pthread_create` whose clone fails leaves one
child counted and one page allocated, waits, and returns 0. -/
theorem create_neverUndone {pid : Pid} (run : Run step initialState
      ((failing, .act pid (.clone none)) :: during ++ (before, .act pid .create) :: earlier) after)
    (goesOn : ∀ entry ∈ during, entry.2 ≠ .act pid .create) :
    ¬ CreateUndone pid before during after ∧ CreateLeft pid before during after := by
  obtain ⟨started, called, called'⟩ := run.split
  cases called with
  | next first create =>
    cases called' with
    | next underway taken =>
      obtain ⟨awaits, same, proc, found, made⟩ := awaits_cloneFails taken
      have good := (underway_of_run ⟨_, first⟩ create underway goesOn).1 found made
      have left : CreateLeft pid before during after := by
        constructor
        case success => rfl
        case waits => exact awaits_waits awaits
        case takes => exact fun run others taken => awaits_takes (awaits_of_others run others awaits) taken
        case count =>
          rw [same]
          exact good.count
        case pages =>
          rw [same]
          exact good.pages
      exact ⟨left.not_undone, left⟩

/-- The first `pthread_create` of the main thread, up to a clone that fails. -/
def failedCreate : List Action :=
  [.create, .countChild, .readIndex, .allocate 4096, .clone none].map (.act 0)

private theorem failedCreate_run : ∃ failing during before after,
    Run step initialState ((failing, .act 0 (.clone none)) :: during ++ [(before, .act 0 .create)]) after ∧
      (∀ entry ∈ during, entry.2 ≠ .act 0 .create) ∧ after.shared.pages.length = 1 := by
  have executed : ((record step [] initialState failedCreate).map fun recorded =>
      decide (recorded.1.map Prod.snd = failedCreate.reverse ∧
        recorded.2.shared.pages.length = 1)) = some true := by
    decide +kernel
  obtain ⟨history, after, run, actions, pages⟩ := exists_run executed
  obtain ⟨⟨failing, clone⟩, rest, same, newest, actions⟩ := List.map_eq_cons_iff.mp actions
  obtain ⟨during, oldest, split, middle, first⟩ := List.map_eq_append_iff.mp
    (show rest.map Prod.snd = [.act 0 (.allocate 4096), .act 0 .readIndex, .act 0 .countChild] ++
      [.act 0 .create] from actions)
  obtain ⟨⟨before, create⟩, nothing, alone, called, none⟩ := List.map_eq_cons_iff.mp first
  cases List.map_eq_nil_iff.mp none
  subst same split alone newest called
  refine ⟨failing, during, before, after, run, ?_, pages⟩
  intro entry member create
  have listed : Action.act 0 .create ∈ during.map Prod.snd := create ▸ List.mem_map_of_mem member
  rw [middle] at listed
  simp at listed

theorem create_neverUndone_first : ∃ before during after, after.shared.pages.length = 1 ∧
    CreateLeft 0 before during after := by
  obtain ⟨failing, during, before, after, run, goesOn, pages⟩ := failedCreate_run
  exact ⟨before, during, after, pages, (create_neverUndone run goesOn).2⟩

/-- A failed clone of the first child leaves its page mapped. -/
theorem failedCreate_leaks : ¬ ∀ failing during before earlier after (pid : Pid),
    Run step initialState ((failing, .act pid (.clone none)) :: during ++
      (before, .act pid .create) :: earlier) after →
    (∀ entry ∈ during, entry.2 ≠ .act pid .create) → CreateUndone pid before during after := by
  intro always
  obtain ⟨failing, during, before, after, run, goesOn, pages⟩ := failedCreate_run
  have error := (always failing during before [] after 0 run goesOn).error
  exact error rfl

end ProcessAsThread
