import Mathlib.Order.Interval.Finset.Nat
import ProcessAsThread.HashMap.Locking

/-! Calls of the hash map come to an end: each takes only so many statements, and some
thread can go on until all have returned. -/

namespace ProcessAsThread.HashMap

open Library

variable {Key Value : Type} {functions : KeyFunctions Key} {shared after : Shared Key Value}
variable {map map' : HashMap Key Value} {chain chain' : Nat → List Nat} {thread first most : Nat}
variable {stage : Stage Key Value}

/-! The counter of a bucket after some calls: it counts entries that are there or, once
keys have been erased that were not stored, is below zero. -/

def Tallied (performed length count : Nat) : Prop :=
  count ≤ performed ∧ count ≤ length ∨ 2 ^ 64 ≤ count + performed ∧ count < 2 ^ 64

section

variable {performed length count : Nat}

theorem Tallied.turns (tallied : Tallied performed length count) (few : performed < 2 ^ 31) :
    turns count ≤ performed ∧ turns count ≤ length := by
  rcases tallied with ⟨counted, listed⟩ | ⟨wrapped, bounded⟩
  · exact ⟨(turns_le count).trans counted, (turns_le count).trans listed⟩
  · have none : HashMap.turns count = 0 := by
      unfold HashMap.turns
      rw [Int.bmod_def]
      split <;> omega
    rw [none]
    exact ⟨Nat.zero_le _, Nat.zero_le _⟩

theorem Tallied.keep (tallied : Tallied performed length count) : Tallied (performed + 1) length count := by
  unfold Tallied at *
  omega

theorem Tallied.insert (tallied : Tallied performed length count) :
    Tallied (performed + 1) (length + 1) ((count + 1) % 2 ^ 64) := by
  unfold Tallied at *
  omega

theorem Tallied.erase (tallied : Tallied performed (length + 1) count) (counted : 0 < count) :
    Tallied (performed + 1) length ((count + (2 ^ 64 - 1)) % 2 ^ 64) := by
  unfold Tallied at *
  omega

theorem Tallied.miss (tallied : Tallied performed length count) :
    Tallied (performed + 1) length ((count + (2 ^ 64 - 1)) % 2 ^ 64) := by
  unfold Tallied at *
  omega

end

/-- What some calls leave of counters and entries. -/
structure Tallies (map : HashMap Key Value) (chain : Nat → List Nat) (performed : Nat) : Prop where
  counters : ∀ index < map.buckets, Tallied performed (chain index).length (map.counts index)
  entries : ∃ used : List Nat, used.length ≤ performed ∧
    ∀ address, (map.entries address).isSome = true → address ∈ used

theorem Tallies.step {performed : Nat} (tallies : Tallies map chain performed) (first address : Nat)
    (buckets : map'.buckets = map.buckets)
    (elsewhere : ∀ index, index ≠ first → chain' index = chain index ∧ map'.counts index = map.counts index)
    (here : first < map.buckets → Tallied (performed + 1) (chain' first).length (map'.counts first))
    (entries : ∀ other, other ≠ address → (map'.entries other).isSome = true → (map.entries other).isSome = true) :
    Tallies map' chain' (performed + 1) := by
  constructor
  case counters =>
    intro index inside
    rw [buckets] at inside
    by_cases same : index = first
    · subst same
      exact here inside
    · obtain ⟨list, count⟩ := elsewhere index same
      rw [list, count]
      exact (tallies.counters index inside).keep
  case entries =>
    obtain ⟨used, bounded, listed⟩ := tallies.entries
    refine ⟨address :: used, Nat.succ_le_succ bounded, fun other held => ?_⟩
    by_cases same : other = address
    · exact same ▸ List.mem_cons_self ..
    · exact List.mem_cons_of_mem _ (listed other (entries other same held))

theorem Tallies.insertEntry {performed keylen address : Nat} {key : Key} {value : Value}
    (tallies : Tallies map chain performed)
    (made : map.insertEntry first key keylen value address = some map') :
    Tallies map' (Function.update chain first (chain first ++ [address])) (performed + 1) := by
  obtain ⟨_, _, _, rfl⟩ := insertEntry_cases made
  refine tallies.step first address rfl
    (fun index away => ⟨Function.update_of_ne away .., Function.update_of_ne away ..⟩)
    (fun inside => ?_) (fun other away held => ?_)
  · simpa using (tallies.counters first inside).insert
  · exact (congrArg Option.isSome (Function.update_of_ne away ..)).symm.trans held

theorem Performs.tallies {performed : Nat} {operation : Operation Key Value} {result : Result Value}
    (performs : Performs functions map chain operation result map' chain')
    (tallies : Tallies map chain performed) : Tallies map' chain' (performed + 1) := by
  cases performs with
  | insert _ made | absent _ _ made => exact tallies.insertEntry made
  | present | find =>
    exact tallies.step 0 0 rfl (fun _ _ => ⟨rfl, rfl⟩) (fun inside => (tallies.counters 0 inside).keep)
      (fun _ _ held => held)
  | @erase key keylen first xs address ys first_ split found oldest early =>
    refine tallies.step first address rfl
      (fun index away => ⟨Function.update_of_ne away .., Function.update_of_ne away ..⟩)
      (fun inside => ?_) (fun other away held => ?_)
    · have tallied := tallies.counters first inside
      have length : (chain first).length = (xs ++ ys).length + 1 := by
        simp only [split, List.length_append, List.length_cons]
        omega
      rw [length] at tallied
      have counted : 0 < map.counts first := (Nat.zero_le _).trans_lt (early.trans_le (turns_le _))
      simpa [HashMap.decrement, freeEntry] using tallied.erase counted
    · exact (congrArg Option.isSome (Function.update_of_ne away ..)).symm.trans held
  | @miss key keylen first first_ inside missing =>
    refine tallies.step first 0 rfl (fun index away => ⟨rfl, Function.update_of_ne away ..⟩) (fun inside => ?_)
      (fun _ _ held => held)
    simpa [HashMap.decrement] using (tallies.counters first inside).miss

theorem Serial.tallies {size : Nat} {counts : Nat → Nat} {links : ListMemory Node}
    {log : List (Nat × Operation Key Value × Result Value)}
    (serial : Serial functions (setup (new counts links) size) log map) :
    map.buckets = size ∧ ∃ chain, Chains map chain ∧ Tallies map chain log.length := by
  induction serial with
  | start =>
    refine ⟨setup_buckets size counts links, _, setup_chains size counts links, fun index inside => ?_, [],
      Nat.le_refl _, fun address held => ?_⟩
    · rw [setup_buckets] at inside
      exact .inl ⟨(setup_counts counts links index inside).le, (setup_counts counts links index inside).le⟩
    · simp [setup_entries] at held
  | next earlier performed ih =>
    obtain ⟨buckets, chain, chains, tallies⟩ := ih
    obtain ⟨chain', performs⟩ := perform_cases chains performed
    exact ⟨performs.buckets.trans buckets, chain', performs.chains chains, performs.tallies tallies⟩

theorem Chains.unique {index : Nat} (chains : Chains map chain) (chains' : Chains map chain')
    (inside : index < map.buckets) : chain index = chain' index := by
  have same := (chains.rings index inside).unique (chains'.rings index inside)
  have injective : Function.Injective fun address => some (Node.entry address) := by
    intro address other equal
    cases equal
    rfl
  exact List.map_injective_iff.mpr injective same

/-! Each statement leaves fewer to do. -/

/-- The most statements a thread still takes for its call, if no search takes more than `most` turns. -/
def Stage.remaining (most : Nat) : Stage Key Value → Nat
  | .idle => 0
  | .entering _ => most + 6
  | .looking _ _ turns _ => turns + 5
  | .creating _ _ _ _ _ | .unlinking _ _ _ _ => 4
  | .created _ _ _ | .unlinked _ _ _ _ => 3
  | .linked _ _ | .counting _ _ => 2
  | .leaving _ _ => 1

private theorem searched_advances (shared : Shared Key Value) (thread first : Nat) (call : Call Key Value)
    (result : Option Nat) : ∃ stage',
    (searched shared thread first call result).stages = shared.stages.set thread stage' ∧
    (searched shared thread first call result).holders = shared.holders ∧
    (searched shared thread first call result).returns = shared.returns ∧
    stage'.held = some first ∧ stage'.remaining most ≤ 4 := by
  cases call with
  | insert => exact ⟨_, rfl, rfl, rfl, rfl, Nat.le_refl 4⟩
  | insertIfAbsent =>
    cases result with
    | none => exact ⟨_, rfl, rfl, rfl, rfl, Nat.le_refl 4⟩
    | some => exact ⟨_, rfl, rfl, rfl, rfl, Nat.le_add_left 1 3⟩
  | erase =>
    cases result with
    | none => exact ⟨_, rfl, rfl, rfl, rfl, Nat.le_add_left 2 2⟩
    | some => exact ⟨_, rfl, rfl, rfl, rfl, Nat.le_refl 4⟩

/-- Statements that take a lock, that keep it, and that give it back. -/
inductive Locks (shared after : Shared Key Value) (thread : Nat) (stage stage' : Stage Key Value) : Prop where
  | enter {first : Nat} {call : Call Key Value} (outside : stage = .entering call)
      (inside : stage'.held = some first)
      (holders : after.holders = Function.update shared.holders first (some thread))
      (returns : after.returns = shared.returns)
  | stay {first : Nat} (inside : stage.held = some first) (inside' : stage'.held = some first)
      (holders : after.holders = shared.holders) (returns : after.returns = shared.returns)
  | leave {first : Nat} {result : Result Value} (inside : stage.held = some first) (idle : stage' = .idle)
      (holders : after.holders = Function.update shared.holders first none)
      (returns : after.returns = (thread, result) :: shared.returns)

private theorem Proceeds.advances (proceeds : Proceeds functions shared thread stage after) (most : Nat) :
    ∃ stage', after.stages = shared.stages.set thread stage' ∧ Locks shared after thread stage stage' ∧
      ((∀ first < shared.map.buckets, shared.holders first = none → turns (shared.map.counts first) ≤ most) →
        stage'.remaining most < stage.remaining most) := by
  cases proceeds with
  | @enter first call first_ free =>
    refine ⟨entered shared.map first call, rfl, ?_, fun few => ?_⟩
    · cases call <;> exact .enter rfl rfl rfl rfl
    · have bounded := few first (bucket_lt first_) free
      cases call <;> simp only [entered, Stage.remaining] <;> omega
  | @miss call first entry =>
    obtain ⟨stage', stages, holders, returns, held, bounded⟩ :=
      @searched_advances _ _ most shared thread first call none
    have more : 4 < 0 + 5 := Nat.lt_succ_self 4
    exact ⟨stage', stages, .stay rfl held holders returns, fun _ => bounded.trans_lt more⟩
  | @find address entry call first count held here =>
    obtain ⟨stage', stages, holders, returns, held, bounded⟩ :=
      @searched_advances _ _ most shared thread first call (some address)
    have more : 4 < count + 1 + 5 := Nat.lt_add_left (count + 1) (Nat.lt_succ_self 4)
    exact ⟨stage', stages, .stay rfl held holders returns, fun _ => bounded.trans_lt more⟩
  | look =>
    refine ⟨_, rfl, .stay rfl rfl rfl rfl, fun _ => ?_⟩
    simp only [Stage.remaining]
    omega
  | create | link | count | unlink | free | decrement =>
    exact ⟨_, rfl, .stay rfl rfl rfl rfl, fun _ => Nat.lt_succ_self _⟩
  | leave => exact ⟨_, rfl, .leave rfl rfl rfl rfl, fun _ => Nat.one_pos⟩

/-! A lock is held by a thread that is where it holds it. -/

def Owned (shared : Shared Key Value) : Prop :=
  ∀ index thread, shared.holders index = some thread →
    ∃ stage, shared.stages[thread]? = some stage ∧ stage.held = some index

private theorem set_self {stages : List (Stage Key Value)} (found : stages[thread]? = some stage)
    (stage' : Stage Key Value) : (stages.set thread stage')[thread]? = some stage' :=
  List.getElem?_set_self (List.getElem?_eq_some_iff.mp found).1

theorem Owned.locks {stage' : Stage Key Value} (owned : Owned shared) (found : shared.stages[thread]? = some stage)
    (stages : after.stages = shared.stages.set thread stage') (locks : Locks shared after thread stage stage') :
    Owned after := by
  have self := set_self found stage'
  rw [← stages] at self
  have kept : ∀ {index other}, shared.holders index = some other →
      (stage.held = some index → stage'.held = some index) →
      ∃ stage, after.stages[other]? = some stage ∧ stage.held = some index := by
    intro index other holder passed
    obtain ⟨stage₂, found', held⟩ := owned index other holder
    by_cases same : other = thread
    · subst same
      cases found.symm.trans found'
      exact ⟨stage', self, passed held⟩
    · rw [stages, List.getElem?_set_ne (Ne.symm same)]
      exact ⟨stage₂, found', held⟩
  intro index other holder
  cases locks with
  | @enter first call outside inside holders returns =>
    rw [holders] at holder
    by_cases here : index = first
    · subst here
      rw [Function.update_self] at holder
      cases holder
      exact ⟨stage', self, inside⟩
    · rw [Function.update_of_ne here] at holder
      refine kept holder fun held => ?_
      rw [outside] at held
      cases held
  | @stay first inside inside' holders returns =>
    rw [holders] at holder
    exact kept holder fun held => inside'.trans (inside.symm.trans held)
  | @leave first result inside idle holders returns =>
    rw [holders] at holder
    by_cases here : index = first
    · subst here
      rw [Function.update_self] at holder
      cases holder
    · rw [Function.update_of_ne here] at holder
      exact kept holder fun held => (here (Option.some.inj (held.symm.trans inside))).elim

private theorem owned_act {action : Action Key Value} (owned : Owned shared)
    (taken : act functions shared action = some after) : Owned after := by
  cases action with
  | call thread call =>
    obtain ⟨idle, rfl⟩ := act_call taken
    intro index other holder
    obtain ⟨stage, found, held⟩ := owned index other holder
    have away : other ≠ thread := by
      rintro rfl
      cases idle.symm.trans found
      cases held
    exact ⟨stage, (List.getElem?_set_ne (Ne.symm away)).trans found, held⟩
  | proceed thread address =>
    obtain ⟨stage, found, proceeds⟩ := act_proceed taken
    obtain ⟨stage', stages, locks, _⟩ := proceeds.advances 0
    exact owned.locks found stages locks

/-! Who can go on. -/

private theorem exists_block {performed : Nat} (tallies : Tallies map chain performed)
    (few : performed < 2 ^ 31) :
    ∃ address, 0 < address ∧ address < 2 ^ 64 ∧ map.entries address = none := by
  obtain ⟨used, bounded, listed⟩ := tallies.entries
  have fewer : used.toFinset.card < (Finset.Icc 1 (2 ^ 31)).card := by
    have distinct := used.toFinset_card_le
    rw [Nat.card_Icc]
    omega
  obtain ⟨address, inside, unused⟩ := Finset.exists_mem_notMem_of_card_lt_card fewer
  obtain ⟨positive, small⟩ := Finset.mem_Icc.mp inside
  refine ⟨address, positive, by omega, ?_⟩
  cases held : map.entries address with
  | none => rfl
  | some entry => exact (unused (List.mem_toFinset.mpr (listed address (by rw [held, Option.isSome_some])))).elim

theorem Shadowed.goesOn {performed : Nat} (shadowed : Shadowed functions shared map chain chain')
    (tallies : Tallies map chain' performed) (few : performed < 2 ^ 31)
    (found : shared.stages[thread]? = some stage) (held : stage.held = some first) :
    ∃ address, (HashMap.act functions shared (.proceed thread address)).isSome = true := by
  obtain ⟨inside, holder, agrees⟩ := shadowed.locked thread stage first found held
  simp only [HashMap.act, found, Option.bind_some]
  cases stage with
  | idle | entering => cases held
  | looking call first turns entry =>
    cases held
    cases turns with
    | zero => exact ⟨0, rfl⟩
    | succ turns =>
      obtain ⟨first_, same, count, before, rest, split, head, searches⟩ := agrees
      have bounded := ((tallies.counters first inside).turns few).2
      rw [shadowed.chains.getEntry inside, search_eq bounded] at searches
      cases rest with
      | nil => cases searches
      | cons address rest =>
        cases head
        have listed : address ∈ chain' first := by
          rw [← same, split]
          exact List.mem_append_right _ (List.mem_cons_self ..)
        obtain ⟨entry, present⟩ :=
          Option.isSome_iff_exists.mp ((shadowed.chains.held address).mpr ⟨first, inside, listed⟩)
        rw [← shadowed.entries] at present
        refine ⟨0, ?_⟩
        simp only [HashMap.proceed, present, Option.bind_eq_bind, Option.bind_some]
        split <;> rfl
  | creating first key keylen value absent =>
    obtain ⟨address, positive, small, free⟩ := exists_block tallies few
    refine ⟨address, ?_⟩
    rw [← shadowed.entries] at free
    have supplied : ¬ (address = 0 ∨ 2 ^ 64 ≤ address ∨ (shared.map.entries address).isSome) := by
      simp only [free, Option.isSome_none, Bool.false_eq_true, or_false]
      omega
    rw [HashMap.proceed, if_neg supplied, Option.isSome_some]
  | created | linked | unlinking | unlinked | counting | leaving => exact ⟨0, rfl⟩

theorem Shadowed.enters (shadowed : Shadowed functions shared map chain chain') {call : Call Key Value}
    (positive : 0 < map.buckets) (found : shared.stages[thread]? = some (.entering call)) :
    ∃ first < map.buckets, shared.holders first = none →
      (HashMap.act functions shared (.proceed thread 0)).isSome = true := by
  have same := @bucket_congr _ _ functions map shared.map
    (shadowed.initialized.trans shadowed.chains.initialized.symm) shadowed.buckets call.key call.keylen
  have first_ : bucket functions map call.key call.keylen = some _ := shadowed.chains.bucket positive _ _
  refine ⟨_, bucket_lt first_, fun free => ?_⟩
  simp [HashMap.act, found, HashMap.proceed, same, first_, free]

/-- Threads of which none can go on are between two calls. -/
theorem Shadowed.idle {performed : Nat} (shadowed : Shadowed functions shared map chain chain')
    (tallies : Tallies map chain' performed) (few : performed < 2 ^ 31) (owned : Owned shared)
    (positive : 0 < map.buckets)
    (stuck : ∀ thread address, HashMap.act functions shared (.proceed thread address) = none)
    (found : shared.stages[thread]? = some stage) : stage = .idle := by
  have noneHeld : ∀ {thread : Nat} {stage : Stage Key Value} {first : Nat},
      shared.stages[thread]? = some stage → stage.held ≠ some first := by
    intro thread stage first found held
    obtain ⟨address, proceeded⟩ := shadowed.goesOn tallies few found held
    rw [stuck thread address] at proceeded
    cases proceeded
  cases stage with
  | idle => rfl
  | entering call =>
    obtain ⟨first, inside, enters⟩ := shadowed.enters positive found
    cases holder : shared.holders first with
    | none =>
      have proceeded := enters holder
      rw [stuck thread 0] at proceeded
      cases proceeded
    | some other =>
      obtain ⟨stage, found', held⟩ := owned first other holder
      exact (noneHeld found' held).elim
  | looking | creating | created | linked | unlinking | unlinked | counting | leaving =>
    exact (noneHeld found rfl).elim

/-! The statements and the calls of a thread in a run. -/

def Action.isCall (thread : Nat) : Action Key Value → Bool
  | .call other _ => other == thread
  | .proceed _ _ => false

def Action.isStatement (thread : Nat) : Action Key Value → Bool
  | .call _ _ => false
  | .proceed other _ => other == thread

def callsOf (thread : Nat) (history : List (Shared Key Value × Action Key Value)) : Nat :=
  history.countP fun entry => entry.2.isCall thread

def statementsOf (thread : Nat) (history : List (Shared Key Value × Action Key Value)) : Nat :=
  history.countP fun entry => entry.2.isStatement thread

def Stage.calls : Stage Key Value → Nat
  | .idle => 0
  | _ => 1

theorem Stage.calls_held (held : stage.held = some first) : stage.calls = 1 := by
  cases stage with
  | idle => cases held
  | entering | looking | creating | created | linked | unlinking | unlinked | counting | leaving => rfl

/-- Each call of a thread pays for its statements, those that are left included. -/
structure Paid (most thread : Nat) (history : List (Shared Key Value × Action Key Value))
    (shared : Shared Key Value) : Prop where
  statements : statementsOf thread history + (shared.stages[thread]?).elim 0 (Stage.remaining most) ≤
    callsOf thread history * (most + 6)
  returns : callsOf thread history =
    (returned thread shared.returns).length + (shared.stages[thread]?).elim 0 Stage.calls

section

variable {history : List (Shared Key Value × Action Key Value)}

@[simp] theorem callsOf_call (other : Nat) (call : Call Key Value) :
    callsOf thread ((shared, .call other call) :: history) =
      callsOf thread history + if other = thread then 1 else 0 := by
  simp [callsOf, List.countP_cons, Action.isCall]

@[simp] theorem callsOf_proceed (other address : Nat) :
    callsOf thread ((shared, .proceed other address) :: history) = callsOf thread history := by
  simp [callsOf, Action.isCall]

@[simp] theorem statementsOf_call (other : Nat) (call : Call Key Value) :
    statementsOf thread ((shared, .call other call) :: history) = statementsOf thread history := by
  simp [statementsOf, Action.isStatement]

@[simp] theorem statementsOf_proceed (other address : Nat) :
    statementsOf thread ((shared, .proceed other address) :: history) =
      statementsOf thread history + if other = thread then 1 else 0 := by
  simp [statementsOf, List.countP_cons, Action.isStatement]

theorem Paid.call {call : Call Key Value} {other : Nat} (paid : Paid most thread history shared)
    (idle : shared.stages[other]? = some .idle) :
    Paid most thread ((shared, .call other call) :: history) (shared.goto other (.entering call)) := by
  obtain ⟨statements, returns⟩ := paid
  by_cases same : other = thread
  · subst same
    have entering : (shared.goto other (.entering call)).stages[other]? = some (.entering call) := set_self idle _
    rw [idle, Option.elim_some] at statements returns
    constructor
    · rw [statementsOf_call, callsOf_call, if_pos rfl, entering, Option.elim_some, Nat.add_mul]
      simp only [Stage.remaining] at statements ⊢
      omega
    · rw [callsOf_call, if_pos rfl, entering, Option.elim_some, returns]
      rfl
  · have unmoved : (shared.goto other (.entering call)).stages[thread]? = shared.stages[thread]? :=
      List.getElem?_set_ne same
    constructor
    · rwa [statementsOf_call, callsOf_call, if_neg same, unmoved]
    · rwa [callsOf_call, if_neg same, unmoved]

theorem Paid.proceed {stage' : Stage Key Value} {other : Nat} (paid : Paid most thread history shared)
    (address : Nat) (found : shared.stages[other]? = some stage)
    (stages : after.stages = shared.stages.set other stage')
    (less : stage'.remaining most < stage.remaining most) (locks : Locks shared after other stage stage') :
    Paid most thread ((shared, .proceed other address) :: history) after := by
  obtain ⟨statements, returns⟩ := paid
  by_cases same : other = thread
  · subst same
    have moved : after.stages[other]? = some stage' := stages ▸ set_self found stage'
    rw [found, Option.elim_some] at statements returns
    constructor
    · rw [statementsOf_proceed, callsOf_proceed, if_pos rfl, moved, Option.elim_some]
      omega
    · rw [callsOf_proceed, moved, Option.elim_some, returns]
      cases locks with
      | enter outside inside holders unchanged =>
        rw [unchanged, outside, Stage.calls_held inside]
        rfl
      | stay inside inside' holders unchanged =>
        rw [unchanged, Stage.calls_held inside, Stage.calls_held inside']
      | leave inside idle holders result =>
        rw [result, idle, Stage.calls_held inside]
        simp [returned, Stage.calls]
  · have unmoved : after.stages[thread]? = shared.stages[thread]? := by
      rw [stages, List.getElem?_set_ne same]
    have others : returned thread after.returns = returned thread shared.returns := by
      cases locks with
      | enter _ _ _ unchanged | stay _ _ _ unchanged => rw [unchanged]
      | leave _ _ _ result => simp [result, returned, same]
    constructor
    · rwa [statementsOf_proceed, callsOf_proceed, if_neg same, unmoved]
    · rwa [callsOf_proceed, unmoved, others]

theorem act_suffix {action : Action Key Value} (taken : act functions shared action = some after) :
    shared.log <:+ after.log := by
  cases action with
  | call thread call =>
    obtain ⟨_, rfl⟩ := act_call taken
    exact List.suffix_refl _
  | proceed thread address =>
    obtain ⟨stage, _, proceeds⟩ := act_proceed taken
    obtain ⟨_, _, ⟨log, _⟩ | ⟨_, _, log, _⟩ | ⟨_, log, _⟩⟩ := proceeds.answers
    · rw [log]
    · rw [log]
      exact List.suffix_cons ..
    · rw [log]

variable {size threads : Nat} {counts : Nat → Nat} {links : ListMemory Node}

theorem tallies_of_run
    (run : Run (act functions) (.start (setup (new counts links) size) threads) history shared) :
    ∃ map chain chain', Shadowed functions shared map chain chain' ∧ map.buckets = size ∧
      Tallies map chain' shared.log.length := by
  obtain ⟨map, chain, chain', serial, shadowed⟩ := serial_of_run run
  obtain ⟨buckets, listed, chains, tallies⟩ := serial.tallies
  refine ⟨map, chain, chain', shadowed, buckets, fun index inside => ?_, tallies.entries⟩
  rw [shadowed.chains.unique chains inside]
  exact tallies.counters index inside

theorem paid_of_run
    (run : Run (act functions) (.start (setup (new counts links) size) threads) history shared)
    (bounded : shared.log.length ≤ most) (few : most < 2 ^ 31) (thread : Nat) :
    Paid most thread history shared := by
  induction run with
  | start =>
    have atRest : ∀ measure : Stage Key Value → Nat, measure .idle = 0 →
        ((List.replicate threads (Stage.idle : Stage Key Value))[thread]?).elim 0 measure = 0 := by
      intro measure zero
      simp only [List.getElem?_replicate]
      split
      · exact zero
      · rfl
    constructor
    · rw [Shared.start, atRest _ rfl]
      simp [statementsOf]
    · rw [Shared.start, atRest _ rfl]
      rfl
  | @next history shared action after earlier taken ih =>
    have before := (act_suffix taken).length_le.trans bounded
    have paid := ih before
    cases action with
    | call other call =>
      obtain ⟨idle, rfl⟩ := act_call taken
      exact paid.call idle
    | proceed other address =>
      obtain ⟨stage, found, proceeds⟩ := act_proceed taken
      obtain ⟨stage', stages, locks, less⟩ := proceeds.advances most
      obtain ⟨map, chain, chain', shadowed, _, tallies⟩ := tallies_of_run earlier
      refine paid.proceed address found stages (less fun first inside free => ?_) locks
      rw [shadowed.buckets] at inside
      rw [(shadowed.unlocked first inside free).2]
      exact ((tallies.counters first inside).turns (before.trans_lt few)).1.trans before

/-- As long as fewer than 2^31 calls are in the log, every call comes to its end in so
many statements however those of other threads come between, a thread that has a lock is
never stuck, and as long as some call has not returned some thread can go on. -/
theorem calls_return (positive : 0 < size)
    (run : Run (act functions) (.start (setup (new counts links) size) threads) history shared)
    (few : shared.log.length < 2 ^ 31) :
    (∀ thread, statementsOf thread history ≤ callsOf thread history * (shared.log.length + 6)) ∧
      (∀ thread stage first, shared.stages[thread]? = some stage → stage.held = some first →
        ∃ address, (act functions shared (.proceed thread address)).isSome = true) ∧
      ((∀ thread address, act functions shared (.proceed thread address) = none) →
        ∀ thread, (returned thread shared.returns).length = callsOf thread history) := by
  have paid := paid_of_run run (Nat.le_refl _) few
  obtain ⟨map, chain, chain', shadowed, buckets, tallies⟩ := tallies_of_run run
  have owned : Owned shared := by
    refine Reachable.invariant (fun index thread holder => ?_) (fun owned taken => owned_act owned taken)
      ⟨_, run⟩
    cases holder
  refine ⟨fun thread => (Nat.le_add_right _ _).trans (paid thread).statements, ?_, fun stuck thread => ?_⟩
  · intro thread stage first found held
    exact shadowed.goesOn tallies few found held
  · have returns := (paid thread).returns
    have none : (shared.stages[thread]?).elim 0 Stage.calls = 0 := by
      cases found : shared.stages[thread]? with
      | none => rfl
      | some stage =>
        rw [shadowed.idle tallies few owned (buckets ▸ positive) stuck found]
        rfl
    rw [none] at returns
    exact returns.symm

/-- Two threads call for the same bucket, and the second one waits until the first has left. -/
theorem calls_return_two : ∃ history shared,
    Run (act HashFuncs.intKeys) (.start twoBuckets 2) history shared ∧
      statementsOf 0 history ≤ callsOf 0 history * 8 ∧
      ∀ thread, (returned thread shared.returns).length = callsOf thread history := by
  have executed : ((record (act HashFuncs.intKeys) [] (.start twoBuckets 2)
      [.call 0 (.erase 1 4), .call 1 (.insertIfAbsent 1 4 20), .proceed 1 0, .proceed 1 0, .proceed 1 16,
        .proceed 1 0, .proceed 1 0, .proceed 1 0, .proceed 0 0, .proceed 0 0, .proceed 0 0, .proceed 0 0,
        .proceed 0 0, .proceed 0 0]).map fun recorded => Decidable.decide
          (recorded.2.log.length = 2 ∧ recorded.2.stages = [.idle, .idle])) = some true := by
    decide +kernel
  obtain ⟨history, shared, run, length, stages⟩ := exists_run executed
  obtain ⟨bounded, _, returns⟩ := calls_return (by decide) run (by rw [length]; decide)
  rw [length] at bounded
  refine ⟨history, shared, run, bounded 0, returns fun thread address => ?_⟩
  rw [act, stages]
  rcases thread with _ | _ | thread <;> rfl

end

end ProcessAsThread.HashMap
