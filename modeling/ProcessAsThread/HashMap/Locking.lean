import ProcessAsThread.HashMap.Keys

/-! Calls of the hash map by several threads, statement by statement: each takes the
lock of its bucket, and between any two statements others may go on. `find` takes no
lock and is not among them. -/

namespace ProcessAsThread.HashMap

open Library

variable {Key Value : Type}

/-- A call that locks its bucket. -/
inductive Call (Key Value : Type) where
  | insert (key : Key) (keylen : Nat) (value : Value)
  | insertIfAbsent (key : Key) (keylen : Nat) (value : Value)
  | erase (key : Key) (keylen : Nat)
  deriving DecidableEq, Repr

namespace Call

def key : Call Key Value → Key
  | insert key _ _ | insertIfAbsent key _ _ | erase key _ => key

def keylen : Call Key Value → Nat
  | insert _ keylen _ | insertIfAbsent _ keylen _ | erase _ keylen => keylen

/-- The same as one call, with the address `SourceHeap::malloc` has returned. -/
def operation (address : Nat) : Call Key Value → Operation Key Value
  | insert key keylen value => .insert key keylen value address
  | insertIfAbsent key keylen value => .insertIfAbsent key keylen value address
  | erase key keylen => .erase key keylen

end Call

/-- Which statement of a call is next. -/
inductive Stage (Key Value : Type) where
  | idle
  -- first->Lock()
  | entering (call : Call Key Value)
  -- the loop of getEntry
  | looking (call : Call Key Value) (first count : Nat) (entry : Option Node)
  -- insertEntry: createNewEntry, listInsertTail, head->count++
  | creating (first : Nat) (key : Key) (keylen : Nat) (value : Value) (absent : Bool)
  | created (first address : Nat) (result : Result Value)
  | linked (first : Nat) (result : Result Value)
  -- erase: entry->erase(), SourceHeap::free, first->count--
  | unlinking (first : Nat) (key : Key) (keylen address : Nat)
  | unlinked (first : Nat) (key : Key) (keylen address : Nat)
  | counting (first : Nat) (result : Result Value)
  -- first->Unlock()
  | leaving (first : Nat) (result : Result Value)
  deriving DecidableEq, Repr

/-- `insert` returns nothing, `insertIfAbsent` that it has found no entry. -/
def inserted (absent : Bool) : Result Value := if absent then .isFound false else .done

def insertion (absent : Bool) (key : Key) (keylen : Nat) (value : Value) (address : Nat) : Operation Key Value :=
  if absent then .insertIfAbsent key keylen value address else .insert key keylen value address

/-- A map, the thread that holds the lock of each bucket, and where the threads are.
The last two fields are history: every call with its result, put down by its thread at
the statement by which it is decided, and the results that were returned, newest first. -/
structure Shared (Key Value : Type) where
  map : HashMap Key Value
  holders : Nat → Option Nat
  stages : List (Stage Key Value)
  log : List (Nat × Operation Key Value × Result Value)
  returns : List (Nat × Result Value)

namespace Shared

/-- As `setup` leaves the map, with some threads. -/
def start (map : HashMap Key Value) (threads : Nat) : Shared Key Value :=
  ⟨map, fun _ => none, List.replicate threads .idle, [], []⟩

def goto (shared : Shared Key Value) (thread : Nat) (stage : Stage Key Value) : Shared Key Value :=
  { shared with stages := shared.stages.set thread stage }

def decide (shared : Shared Key Value) (thread : Nat) (operation : Operation Key Value) (result : Result Value) :
    Shared Key Value :=
  { shared with log := (thread, operation, result) :: shared.log }

end Shared

inductive Action (Key Value : Type) where
  | call (thread : Nat) (call : Call Key Value)
  /-- The next statement, with the address `SourceHeap::malloc` returns if it is called. -/
  | proceed (thread : Nat) (address : Nat)
  deriving DecidableEq, Repr

/-- What follows `getEntry`. -/
def searched (shared : Shared Key Value) (thread first : Nat) :
    Call Key Value → Option Nat → Shared Key Value
  | .insert key keylen value, _ => shared.goto thread (.creating first key keylen value false)
  | .insertIfAbsent key keylen value, none => shared.goto thread (.creating first key keylen value true)
  | .insertIfAbsent key keylen value, some _ =>
    (shared.decide thread (.insertIfAbsent key keylen value 0) (.isFound true)).goto thread
      (.leaving first (.isFound true))
  | .erase key keylen, some address => shared.goto thread (.unlinking first key keylen address)
  | .erase key keylen, none =>
    (shared.decide thread (.erase key keylen) (.isFound false)).goto thread (.counting first (.isFound false))

/-- What follows the lock. -/
def entered (map : HashMap Key Value) (first : Nat) : Call Key Value → Stage Key Value
  | .insert key keylen value => .creating first key keylen value false
  | call => .looking call first (turns (map.counts first)) (map.links (some (.head first))).next

/-- One statement of a thread; `none` if it waits for a lock or the statement fails. -/
def proceed (functions : KeyFunctions Key) (shared : Shared Key Value) (thread address : Nat) :
    Stage Key Value → Option (Shared Key Value)
  | .idle => none
  | .entering call => do
    let first ← bucket functions shared.map call.key call.keylen
    if (shared.holders first).isSome then none
    else
      let holders := Function.update shared.holders first (some thread)
      return { shared with holders := holders }.goto thread (entered shared.map first call)
  | .looking call first 0 _ => some (searched shared thread first call none)
  | .looking call first (count + 1) (some (.entry address)) => do
    let entry ← shared.map.entries address
    if entry.matches functions call.key call.keylen then
      return searched shared thread first call (some address)
    else
      return shared.goto thread
        (.looking call first count (shared.map.links (some (.entry address))).next)
  | .looking _ _ (_ + 1) _ => none
  | .creating first key keylen value absent =>
    if address = 0 ∨ 2 ^ 64 ≤ address ∨ (shared.map.entries address).isSome then none
    else
      let map := { shared.map with
        entries := Function.update shared.map.entries address (some ⟨key, intParameter keylen, value⟩)
        links := nodeInit shared.map.links (some (.entry address)) }
      some (({ shared with map := map }.decide thread (insertion absent key keylen value address)
        (inserted absent)).goto thread (.created first address (inserted absent)))
  | .created first address result =>
    let map := { shared.map with
      links := listInsertTail shared.map.links (some (.entry address)) (some (.head first)) }
    some ({ shared with map := map }.goto thread (.linked first result))
  | .linked first result =>
    let map := { shared.map with
      counts := Function.update shared.map.counts first ((shared.map.counts first + 1) % 2 ^ 64) }
    some ({ shared with map := map }.goto thread (.leaving first result))
  | .unlinking first key keylen address =>
    let map := { shared.map with links := listRemoveNode shared.map.links (some (.entry address)) }
    some ({ shared with map := map }.goto thread (.unlinked first key keylen address))
  | .unlinked first key keylen address =>
    let map := { shared.map with entries := Function.update shared.map.entries address none }
    some (({ shared with map := map }.decide thread (.erase key keylen) (.isFound true)).goto thread
      (.counting first (.isFound true)))
  | .counting first result =>
    some ({ shared with map := shared.map.decrement first }.goto thread (.leaving first result))
  | .leaving first result =>
    some ({ shared with
      holders := Function.update shared.holders first none
      returns := (thread, result) :: shared.returns }.goto thread .idle)

def act (functions : KeyFunctions Key) (shared : Shared Key Value) : Action Key Value → Option (Shared Key Value)
  | .call thread call =>
    match shared.stages[thread]? with
    | some .idle => some (shared.goto thread (.entering call))
    | _ => none
  | .proceed thread address => (shared.stages[thread]?).bind (proceed functions shared thread address)

/-- A statement, by its stage. -/
inductive Proceeds (functions : KeyFunctions Key) (shared : Shared Key Value) (thread : Nat) :
    Stage Key Value → Shared Key Value → Prop where
  | enter (first_ : bucket functions shared.map call.key call.keylen = some first)
      (free : shared.holders first = none) :
      Proceeds functions shared thread (.entering call)
        ({ shared with holders := Function.update shared.holders first (some thread) }.goto thread
          (entered shared.map first call))
  | miss : Proceeds functions shared thread (.looking call first 0 entry) (searched shared thread first call none)
  | find (held : shared.map.entries address = some entry)
      (here : entry.matches functions call.key call.keylen = true) :
      Proceeds functions shared thread (.looking call first (count + 1) (some (.entry address)))
        (searched shared thread first call (some address))
  | look (held : shared.map.entries address = some entry)
      (other : entry.matches functions call.key call.keylen = false) :
      Proceeds functions shared thread (.looking call first (count + 1) (some (.entry address)))
        (shared.goto thread (.looking call first count (shared.map.links (some (.entry address))).next))
  | create (free : shared.map.entries address = none) (inMemory : 0 < address ∧ address < 2 ^ 64) :
      Proceeds functions shared thread (.creating first key keylen value absent)
        (({ shared with map := { shared.map with
            entries := Function.update shared.map.entries address (some ⟨key, intParameter keylen, value⟩)
            links := nodeInit shared.map.links (some (.entry address)) } }.decide thread
          (insertion absent key keylen value address) (inserted absent)).goto thread
            (.created first address (inserted absent)))
  | link : Proceeds functions shared thread (.created first address result)
      ({ shared with map := { shared.map with
          links := listInsertTail shared.map.links (some (.entry address)) (some (.head first)) } }.goto thread
        (.linked first result))
  | count : Proceeds functions shared thread (.linked first result)
      ({ shared with map := { shared.map with
          counts := Function.update shared.map.counts first ((shared.map.counts first + 1) % 2 ^ 64) } }.goto
        thread (.leaving first result))
  | unlink : Proceeds functions shared thread (.unlinking first key keylen address)
      ({ shared with map := { shared.map with
          links := listRemoveNode shared.map.links (some (.entry address)) } }.goto thread
        (.unlinked first key keylen address))
  | free : Proceeds functions shared thread (.unlinked first key keylen address)
      (({ shared with map := { shared.map with
          entries := Function.update shared.map.entries address none } }.decide thread (.erase key keylen)
        (.isFound true)).goto thread (.counting first (.isFound true)))
  | decrement : Proceeds functions shared thread (.counting first result)
      ({ shared with map := shared.map.decrement first }.goto thread (.leaving first result))
  | leave : Proceeds functions shared thread (.leaving first result)
      ({ shared with
          holders := Function.update shared.holders first none
          returns := (thread, result) :: shared.returns }.goto thread .idle)

section

variable {functions : KeyFunctions Key} {shared after : Shared Key Value} {thread : Nat}

theorem proceed_cases {address : Nat} {stage : Stage Key Value}
    (taken : proceed functions shared thread address stage = some after) :
    Proceeds functions shared thread stage after := by
  cases stage with
  | idle => cases taken
  | entering call =>
    obtain ⟨first, first_, entered⟩ := Option.bind_eq_some_iff.mp taken
    split at entered
    · cases entered
    · rename_i free
      cases entered
      exact .enter first_ (by simpa using free)
  | looking call first count entry =>
    cases count with
    | zero =>
      cases taken
      exact .miss
    | succ count =>
      rcases entry with _ | ⟨index⟩ | ⟨address⟩
      · cases taken
      · cases taken
      · obtain ⟨entry, held, compared⟩ := Option.bind_eq_some_iff.mp taken
        split at compared
        · rename_i here
          cases compared
          exact .find held here
        · rename_i other
          cases compared
          exact .look held (by simpa using other)
  | creating first key keylen value absent =>
    simp only [proceed] at taken
    split at taken
    · cases taken
    · rename_i supplied
      cases taken
      have none : shared.map.entries address = none := by
        cases held : shared.map.entries address <;> simp_all
      exact .create none ⟨by omega, by omega⟩
  | created first address result =>
    cases taken
    exact .link
  | linked first result =>
    cases taken
    exact .count
  | unlinking first key keylen address =>
    cases taken
    exact .unlink
  | unlinked first key keylen address =>
    cases taken
    exact .free
  | counting first result =>
    cases taken
    exact .decrement
  | leaving first result =>
    cases taken
    exact .leave

end

/-! The map in which the calls of the log have been performed one after the other, and
what the threads have made of it so far. -/

/-- The log, call by call on a map of its own. -/
inductive Serial (functions : KeyFunctions Key) (initial : HashMap Key Value) :
    List (Nat × Operation Key Value × Result Value) → HashMap Key Value → Prop where
  | start : Serial functions initial [] initial
  | next (earlier : Serial functions initial log map)
      (performed : perform functions map operation = some (result, after)) :
      Serial functions initial ((thread, operation, result) :: log) after

/-- The bucket whose lock a thread has. -/
def Stage.held : Stage Key Value → Option Nat
  | .idle | .entering _ => none
  | .looking _ first _ _ | .creating first _ _ _ _ | .created first _ _ | .linked first _
  | .unlinking first _ _ _ | .unlinked first _ _ _ | .counting first _ | .leaving first _ => some first

/-- How far a thread has come with its bucket: `chain` and `count` are what it has made of
the bucket, `chain'` the list in `map`. -/
def Agrees (functions : KeyFunctions Key) (map : HashMap Key Value) (chain chain' : List Nat) (count : Nat) :
    Stage Key Value → Prop
  | .idle | .entering _ => True
  | .looking call first turns entry =>
    bucket functions map call.key call.keylen = some first ∧ chain = chain' ∧ count = map.counts first ∧
      ∃ before rest, chain = before ++ rest ∧ (nodes rest ++ [some (Node.head first)]).head? = some entry ∧
        search (holds functions map call.key call.keylen) turns rest =
          getEntry functions map first call.key call.keylen
  | .creating first key keylen _ absent =>
    bucket functions map key keylen = some first ∧ chain = chain' ∧ count = map.counts first ∧
      (absent = true → getEntry functions map first key keylen = some none)
  | .created first address _ => chain' = chain ++ [address] ∧ map.counts first = (count + 1) % 2 ^ 64
  | .linked first _ => chain = chain' ∧ map.counts first = (count + 1) % 2 ^ 64
  | .unlinking first key keylen address =>
    bucket functions map key keylen = some first ∧ chain = chain' ∧ count = map.counts first ∧
      getEntry functions map first key keylen = some (some address)
  | .unlinked first key keylen address =>
    bucket functions map key keylen = some first ∧ count = map.counts first ∧
      getEntry functions map first key keylen = some (some address) ∧
      ∃ before rest, chain' = before ++ address :: rest ∧ chain = before ++ rest
  | .counting first _ => chain = chain' ∧ map.counts first = (count + (2 ^ 64 - 1)) % 2 ^ 64
  | .leaving first _ => chain = chain' ∧ count = map.counts first

/-- Every bucket is as it will be when the thread that has its lock leaves, but for what
that thread has still to do. -/
structure Shadowed (functions : KeyFunctions Key) (shared : Shared Key Value) (map : HashMap Key Value)
    (chain chain' : Nat → List Nat) : Prop where
  chains : Chains map chain'
  initialized : shared.map.initialized = true
  buckets : shared.map.buckets = map.buckets
  entries : shared.map.entries = map.entries
  rings : ∀ index < map.buckets, shared.map.links.IsRing (some (.head index)) (nodes (chain index))
  listed : ∀ index < map.buckets, chain index ⊆ chain' index
  unlocked : ∀ index < map.buckets, shared.holders index = none →
    chain index = chain' index ∧ shared.map.counts index = map.counts index
  locked : ∀ thread stage first, shared.stages[thread]? = some stage → stage.held = some first →
    first < map.buckets ∧ shared.holders first = some thread ∧
      Agrees functions map (chain first) (chain' first) (shared.map.counts first) stage

section

variable {functions : KeyFunctions Key} {shared after : Shared Key Value} {map map' : HashMap Key Value}
variable {chain chain' chain₁ chain₁' : Nat → List Nat} {thread first : Nat} {stage stage' : Stage Key Value}

private theorem search_congr {found found' : Nat → Bool} {chain : List Nat}
    (same : ∀ address ∈ chain, found address = found' address) (count : Nat) :
    search found count chain = search found' count chain := by
  induction chain generalizing count with
  | nil => cases count <;> rfl
  | cons address rest ih =>
    cases count with
    | zero => rfl
    | succ count =>
      rw [search, search, same address (List.mem_cons_self ..),
        ih (fun other member => same other (List.mem_cons_of_mem _ member)) count]

/-- What a call does in one bucket is not seen in the others. -/
structure Elsewhere (first : Nat) (map map' : HashMap Key Value) (chain chain' : Nat → List Nat) : Prop where
  initialized : map'.initialized = map.initialized
  buckets : map'.buckets = map.buckets
  counts : ∀ index, index ≠ first → map'.counts index = map.counts index
  chains : ∀ index, index ≠ first → chain' index = chain index
  entries : ∀ index < map.buckets, index ≠ first → ∀ address ∈ chain index,
    map'.entries address = map.entries address

theorem Elsewhere.refl (first : Nat) (map : HashMap Key Value) (chain : Nat → List Nat) :
    Elsewhere first map map chain chain :=
  ⟨rfl, rfl, fun _ _ => rfl, fun _ _ => rfl, fun _ _ _ _ _ => rfl⟩

theorem bucket_congr (initialized : map'.initialized = map.initialized) (buckets : map'.buckets = map.buckets)
    (key : Key) (keylen : Nat) : bucket functions map' key keylen = bucket functions map key keylen := by
  have same : map'.getHashEntry = map.getHashEntry := by
    funext index
    simp only [getHashEntry, buckets]
  simp only [bucket, hashIndex, initialized, buckets, same]

theorem Elsewhere.holds (elsewhere : Elsewhere first map map' chain chain') (inside : index < map.buckets)
    (away : index ≠ first) (member : address ∈ chain index) (key : Key) (keylen : Nat) :
    holds functions map' key keylen address = holds functions map key keylen address := by
  rw [HashMap.holds, HashMap.holds, elsewhere.entries index inside away address member]

theorem Elsewhere.getEntry (elsewhere : Elsewhere first map map' chain chain') (chains : Chains map chain)
    (chains' : Chains map' chain') (inside : index < map.buckets) (away : index ≠ first) (key : Key)
    (keylen : Nat) : getEntry functions map' index key keylen = getEntry functions map index key keylen := by
  rw [chains.getEntry inside, chains'.getEntry (elsewhere.buckets ▸ inside), elsewhere.counts index away,
    elsewhere.chains index away]
  exact search_congr (fun address member => elsewhere.holds inside away member key keylen) _

theorem Agrees.elsewhere {chain₂ : List Nat} {count : Nat} (elsewhere : Elsewhere first map map' chain chain')
    (chains : Chains map chain) (chains' : Chains map' chain') (inside : index < map.buckets)
    (away : index ≠ first) (held : stage.held = some index)
    (listed : chain₂ ⊆ chain index) (agrees : Agrees functions map chain₂ (chain index) count stage) :
    Agrees functions map' chain₂ (chain' index) count stage := by
  have bucket : ∀ key keylen, HashMap.bucket functions map' key keylen = HashMap.bucket functions map key keylen :=
    bucket_congr elsewhere.initialized elsewhere.buckets
  have getEntry : ∀ key keylen, HashMap.getEntry functions map' index key keylen =
      HashMap.getEntry functions map index key keylen := elsewhere.getEntry chains chains' inside away
  have counts := elsewhere.counts index away
  rw [elsewhere.chains index away]
  cases stage with
  | idle | entering => exact agrees
  | looking call first turns entry =>
    cases held
    obtain ⟨first_, same, count, before, rest, split, head, searches⟩ := agrees
    refine ⟨(bucket ..).trans first_, same, count.trans counts.symm, before, rest, split, head, ?_⟩
    rw [getEntry, ← searches]
    refine search_congr (fun address member => ?_) turns
    exact elsewhere.holds inside away (listed (split ▸ List.mem_append_right _ member)) _ _
  | creating first key keylen value absent =>
    cases held
    obtain ⟨first_, same, count, missing⟩ := agrees
    exact ⟨(bucket ..).trans first_, same, count.trans counts.symm, fun absent => (getEntry ..).trans (missing absent)⟩
  | created | linked | counting =>
    cases held
    exact ⟨agrees.1, counts.trans agrees.2⟩
  | unlinking first key keylen address =>
    cases held
    obtain ⟨first_, same, count, found⟩ := agrees
    exact ⟨(bucket ..).trans first_, same, count.trans counts.symm, (getEntry ..).trans found⟩
  | unlinked first key keylen address =>
    cases held
    obtain ⟨first_, count, found, split⟩ := agrees
    exact ⟨(bucket ..).trans first_, count.trans counts.symm, (getEntry ..).trans found, split⟩
  | leaving =>
    cases held
    exact ⟨agrees.1, agrees.2.trans counts.symm⟩

theorem set_cases {stages : List (Stage Key Value)} {other : Nat}
    (found : (stages.set thread stage')[other]? = some stage) :
    other = thread ∧ stage = stage' ∨ other ≠ thread ∧ stages[other]? = some stage := by
  by_cases self : other = thread
  · subst self
    have small : other < stages.length := by
      have small := (List.getElem?_eq_some_iff.mp found).1
      rwa [List.length_set] at small
    rw [List.getElem?_set_self small] at found
    exact .inl ⟨rfl, (Option.some.inj found).symm⟩
  · rw [List.getElem?_set_ne (Ne.symm self)] at found
    exact .inr ⟨self, found⟩

/-- What a statement has to keep: the bucket of its thread, and the links of the others. -/
theorem Shadowed.step (shadowed : Shadowed functions shared map chain chain')
    (mine : ∀ other, shared.holders first = some other → other = thread) (inside : first < map.buckets)
    (elsewhere : Elsewhere first map map' chain' chain₁') (chains : Chains map' chain₁')
    (initialized : after.map.initialized = true) (buckets : after.map.buckets = map'.buckets)
    (entries : after.map.entries = map'.entries) (stages : after.stages = shared.stages.set thread stage')
    (holders : ∀ index, index ≠ first → after.holders index = shared.holders index)
    (counts : ∀ index, index ≠ first → after.map.counts index = shared.map.counts index)
    (same : ∀ index, index ≠ first → chain₁ index = chain index)
    (ring : after.map.links.IsRing (some (.head first)) (nodes (chain₁ first)))
    (rings : ∀ index < map.buckets, index ≠ first →
      after.map.links.IsRing (some (.head index)) (nodes (chain index)))
    (listed : chain₁ first ⊆ chain₁' first)
    (held : stage'.held = some first ∧ after.holders first = some thread ∧
        Agrees functions map' (chain₁ first) (chain₁' first) (after.map.counts first) stage' ∨
      stage'.held = none ∧ after.holders first = none ∧ chain₁ first = chain₁' first ∧
        after.map.counts first = map'.counts first) :
    Shadowed functions after map' chain₁ chain₁' := by
  refine ⟨chains, initialized, buckets, entries, fun index inside' => ?_, fun index inside' => ?_,
    fun index inside' free => ?_, fun other stage index found lock => ?_⟩
  · rw [elsewhere.buckets] at inside'
    by_cases here : index = first
    · rwa [here]
    · rw [same index here]
      exact rings index inside' here
  · rw [elsewhere.buckets] at inside'
    by_cases here : index = first
    · rwa [here]
    · rw [same index here, elsewhere.chains index here]
      exact shadowed.listed index inside'
  · rw [elsewhere.buckets] at inside'
    by_cases here : index = first
    · subst here
      rcases held with ⟨_, holder, _⟩ | ⟨_, _, agree⟩
      · cases holder.symm.trans free
      · exact agree
    · rw [same index here, elsewhere.chains index here, counts index here, elsewhere.counts index here]
      exact shadowed.unlocked index inside' (holders index here ▸ free)
  · rw [stages] at found
    rcases set_cases found with ⟨rfl, rfl⟩ | ⟨self, found⟩
    · rcases held with ⟨own, holder, agrees⟩ | ⟨none, _⟩
      · cases own.symm.trans lock
        exact ⟨elsewhere.buckets ▸ inside, holder, agrees⟩
      · cases none.symm.trans lock
    · obtain ⟨inside', holder, agrees⟩ := shadowed.locked other stage index found lock
      have away : index ≠ first := fun here => self (mine other (here ▸ holder))
      refine ⟨elsewhere.buckets ▸ inside', (holders index away).trans holder, ?_⟩
      rw [same index away, counts index away]
      exact agrees.elsewhere elsewhere shadowed.chains chains inside' away lock (shadowed.listed index inside')

theorem Shadowed.moves (shadowed : Shadowed functions shared map chain chain')
    (mine : ∀ other, shared.holders first = some other → other = thread) (inside : first < map.buckets)
    (unchanged : after.map = shared.map) (stages : after.stages = shared.stages.set thread stage')
    (holders : ∀ index, index ≠ first → after.holders index = shared.holders index)
    (held : stage'.held = some first ∧ after.holders first = some thread ∧
        Agrees functions map (chain first) (chain' first) (shared.map.counts first) stage' ∨
      stage'.held = none ∧ after.holders first = none ∧ chain first = chain' first ∧
        shared.map.counts first = map.counts first) :
    Shadowed functions after map chain chain' := by
  refine shadowed.step mine inside (.refl first map chain') shadowed.chains ?_ ?_ ?_ stages holders
    (fun index _ => ?_) (fun _ _ => rfl) ?_ (fun index inside' _ => ?_) (shadowed.listed first inside) ?_
  all_goals rw [unchanged]
  · exact shadowed.initialized
  · exact shadowed.buckets
  · exact shadowed.entries
  · exact shadowed.rings first inside
  · exact shadowed.rings index inside'
  · exact held

theorem Elsewhere.insertEntry {keylen address : Nat} {key : Key} {value : Value} (chains : Chains map chain)
    (inserted : map.insertEntry first key keylen value address = some map') :
    Elsewhere first map map' chain (Function.update chain first (chain first ++ [address])) := by
  obtain ⟨free, _, _, same⟩ := insertEntry_cases inserted
  subst same
  refine ⟨rfl, rfl, fun index away => Function.update_of_ne away .., fun index away => Function.update_of_ne away ..,
    fun index inside _ other member => Function.update_of_ne ?_ ..⟩
  rintro rfl
  have held := (chains.held other).mpr ⟨index, inside, member⟩
  rw [free] at held
  cases held

theorem Elsewhere.decrement (first : Nat) (map : HashMap Key Value) (chain : Nat → List Nat) :
    Elsewhere first map (map.decrement first) chain chain :=
  ⟨rfl, rfl, fun _ away => Function.update_of_ne away .., fun _ _ => rfl, fun _ _ _ _ _ => rfl⟩

theorem Elsewhere.erase {address : Nat} {xs ys : List Nat} (chains : Chains map chain)
    (inside : first < map.buckets) (split : chain first = xs ++ address :: ys) :
    Elsewhere first map ((map.freeEntry address).decrement first) chain (Function.update chain first (xs ++ ys)) := by
  refine ⟨rfl, rfl, fun index away => Function.update_of_ne away .., fun index away => Function.update_of_ne away ..,
    fun index inside' away other member => Function.update_of_ne ?_ ..⟩
  rintro rfl
  exact chains.apart first inside index inside' (Ne.symm away) other (by simp [split]) member

theorem Shadowed.rings_apart (shadowed : Shadowed functions shared map chain chain') (inside : first < map.buckets)
    (inside' : index < map.buckets) (away : index ≠ first) :
    ∀ node ∈ some (.head first) :: nodes (chain first), node ∉ some (.head index) :: nodes (chain index) := by
  intro node member member'
  have wider : ∀ index < map.buckets, ∀ node ∈ some (.head index) :: nodes (chain index),
      node ∈ some (.head index) :: nodes (chain' index) :=
    fun index inside node member => List.cons_subset_cons _
      (List.map_subset _ (shadowed.listed index inside)) member
  exact shadowed.chains.rings_apart inside inside' (Ne.symm away) node (wider first inside node member)
    (wider index inside' node member')

private theorem next_rest {links : ListMemory Node} {before rest : List Nat} {address : Nat}
    (ring : links.IsRing (some (.head first)) (nodes (before ++ address :: rest))) :
    (nodes rest ++ [some (Node.head first)]).head? = some (links (some (.entry address))).next := by
  have linked := ring.linked
  have whole : some (Node.head first) :: nodes (before ++ address :: rest) ++ [some (.head first)] =
      (some (.head first) :: nodes before) ++ some (.entry address) :: (nodes rest ++ [some (.head first)]) := by
    simp [nodes]
  rw [whole] at linked
  have rest' := (linked_split.mp linked).2
  cases rest with
  | nil => exact congrArg some (linked_cons.mp rest').1.forth.symm
  | cons following rest => exact congrArg some (linked_cons.mp rest').1.forth.symm

/-- The log after a statement: as before, or with a call that has been performed. -/
def Logs (functions : KeyFunctions Key) (shared after : Shared Key Value) (thread : Nat)
    (map map' : HashMap Key Value) : Prop :=
  after.log = shared.log ∧ map' = map ∨
    ∃ operation result, after.log = (thread, operation, result) :: shared.log ∧
      perform functions map operation = some (result, map')

theorem Shadowed.searched (shadowed : Shadowed functions shared map chain chain') {call : Call Key Value}
    {result : Option Nat} (inside : first < map.buckets) (holder : shared.holders first = some thread)
    (first_ : bucket functions map call.key call.keylen = some first) (same : chain first = chain' first)
    (count : shared.map.counts first = map.counts first)
    (found : getEntry functions map first call.key call.keylen = some result) :
    ∃ map', Shadowed functions (searched shared thread first call result) map' chain chain' ∧
      Logs functions shared (searched shared thread first call result) thread map map' := by
  have mine : ∀ other, shared.holders first = some other → other = thread := by
    intro other held
    cases holder.symm.trans held
    rfl
  cases call with
  | insert key keylen value =>
    exact ⟨map, shadowed.moves mine inside rfl rfl (fun _ _ => rfl)
      (.inl ⟨rfl, holder, first_, same, count, nofun⟩), .inl ⟨rfl, rfl⟩⟩
  | insertIfAbsent key keylen value =>
    cases result with
    | none =>
      exact ⟨map, shadowed.moves mine inside rfl rfl (fun _ _ => rfl)
        (.inl ⟨rfl, holder, first_, same, count, fun _ => found⟩), .inl ⟨rfl, rfl⟩⟩
    | some address =>
      exact ⟨map, shadowed.moves mine inside rfl rfl (fun _ _ => rfl) (.inl ⟨rfl, holder, same, count⟩),
        .inr ⟨_, _, rfl, insertIfAbsent_of_found value 0 first_ found⟩⟩
  | erase key keylen =>
    cases result with
    | none =>
      have decremented : Shadowed functions (HashMap.searched shared thread first (.erase key keylen) none)
          (map.decrement first) chain chain' := by
        refine shadowed.step mine inside (.decrement first map chain') (shadowed.chains.count _)
          shadowed.initialized shadowed.buckets shadowed.entries rfl (fun _ _ => rfl) (fun _ _ => rfl)
          (fun _ _ => rfl) (shadowed.rings first inside) (fun index inside' _ => shadowed.rings index inside')
          (shadowed.listed first inside) (.inl ⟨rfl, holder, same, ?_⟩)
        exact (Function.update_self ..).trans (by rw [← count]; rfl)
      exact ⟨_, decremented, .inr ⟨_, _, rfl, erase_of_missing first_ found⟩⟩
    | some address =>
      exact ⟨map, shadowed.moves mine inside rfl rfl (fun _ _ => rfl)
        (.inl ⟨rfl, holder, first_, same, count, found⟩), .inl ⟨rfl, rfl⟩⟩

/-- A thread that has taken the lock of its bucket finds the bucket as it is in the log. -/
theorem Shadowed.enter (shadowed : Shadowed functions shared map chain chain') {call : Call Key Value}
    (first_ : bucket functions shared.map call.key call.keylen = some first)
    (free : shared.holders first = none) :
    Shadowed functions ({ shared with holders := Function.update shared.holders first (some thread) }.goto thread
      (entered shared.map first call)) map chain chain' := by
  have first' : bucket functions map call.key call.keylen = some first :=
    (bucket_congr (shadowed.chains.initialized.trans shadowed.initialized.symm) shadowed.buckets.symm _ _).trans first_
  have inside := bucket_lt first'
  obtain ⟨same, count⟩ := shadowed.unlocked first inside free
  have ring := shadowed.rings first inside
  have agrees : (entered shared.map first call).held = some first ∧
      Agrees functions map (chain first) (chain' first) (shared.map.counts first)
        (entered shared.map first call) := by
    have looking : Agrees functions map (chain first) (chain' first) (shared.map.counts first)
        (.looking call first (turns (shared.map.counts first)) (shared.map.links (some (.head first))).next) := by
      refine ⟨first', same, count, [], chain first, rfl, ?_, ?_⟩
      · cases listed : chain first with
        | nil =>
          rw [listed] at ring
          exact congrArg some (linked_cons.mp ring.linked).1.forth.symm
        | cons address rest =>
          rw [listed] at ring
          exact congrArg some (linked_cons.mp ring.linked).1.forth.symm
      · rw [shadowed.chains.getEntry inside, same, count]
    cases call with
    | insert key keylen value => exact ⟨rfl, first', same, count, nofun⟩
    | insertIfAbsent | erase => exact ⟨rfl, looking⟩
  refine shadowed.moves ?_ inside rfl rfl (fun index away => Function.update_of_ne away ..)
    (.inl ⟨agrees.1, Function.update_self .., agrees.2⟩)
  intro other holder
  cases free.symm.trans holder

private theorem perform_insertion {key : Key} {keylen address : Nat} {value : Value} {absent : Bool}
    (first_ : bucket functions map key keylen = some first)
    (missing : absent = true → getEntry functions map first key keylen = some none)
    (made : map.insertEntry first key keylen value address = some map') :
    perform functions map (insertion absent key keylen value address) = some (inserted absent, map') := by
  cases absent with
  | false => exact Option.map_eq_some_iff.mpr ⟨_, Option.bind_eq_some_iff.mpr ⟨first, first_, made⟩, rfl⟩
  | true => exact insertIfAbsent_of_missing first_ (missing rfl) made

/-- The call is performed once its entry is there, though it is not yet in the list. -/
theorem Shadowed.create (shadowed : Shadowed functions shared map chain chain') {key : Key}
    {keylen address : Nat} {value : Value} {absent : Bool} (inside : first < map.buckets)
    (holder : shared.holders first = some thread)
    (mine : ∀ other, shared.holders first = some other → other = thread) (same : chain first = chain' first)
    (counted : shared.map.counts first = map.counts first)
    (made : map.insertEntry first key keylen value address = some map') :
    Shadowed functions (({ shared with map := { shared.map with
        entries := Function.update shared.map.entries address (some ⟨key, intParameter keylen, value⟩)
        links := nodeInit shared.map.links (some (.entry address)) } }.decide thread
      (insertion absent key keylen value address) (inserted absent)).goto thread
        (.created first address (inserted absent)))
      map' chain (Function.update chain' first (chain' first ++ [address])) := by
  have elsewhere := Elsewhere.insertEntry shadowed.chains made
  have chains := shadowed.chains.insertEntry inside made
  obtain ⟨free, _, _, rfl⟩ := insertEntry_cases made
  have absent' : ∀ index < map.buckets, address ∉ chain index := by
    intro index inside' member
    have held := (shadowed.chains.held address).mpr ⟨index, inside', shadowed.listed index inside' member⟩
    rw [free] at held
    cases held
  have rings : ∀ index < map.buckets, (nodeInit shared.map.links (some (.entry address))).IsRing
      (some (.head index)) (nodes (chain index)) := fun index inside' =>
    nodeInit_frame (shadowed.rings index inside') (by simpa using absent' index inside')
  refine shadowed.step mine inside elsewhere chains shadowed.initialized shadowed.buckets ?_ rfl
    (fun _ _ => rfl) (fun _ _ => rfl) (fun _ _ => rfl) (rings first inside) (fun index inside' _ => rings index inside')
    ?_ (.inl ⟨rfl, holder, ?_, ?_⟩)
  · exact congrArg (Function.update · address (some ⟨key, intParameter keylen, value⟩)) shadowed.entries
  · rw [Function.update_self, same]
    exact List.subset_append_left ..
  · rw [Function.update_self, same]
  · exact (Function.update_self ..).trans (by rw [← counted]; rfl)

theorem Shadowed.link (shadowed : Shadowed functions shared map chain chain') {address : Nat}
    {result : Result Value} (inside : first < map.buckets) (holder : shared.holders first = some thread)
    (mine : ∀ other, shared.holders first = some other → other = thread)
    (split : chain' first = chain first ++ [address])
    (counted : map.counts first = (shared.map.counts first + 1) % 2 ^ 64) :
    Shadowed functions ({ shared with map := { shared.map with
        links := listInsertTail shared.map.links (some (.entry address)) (some (.head first)) } }.goto thread
      (.linked first result)) map (Function.update chain first (chain first ++ [address])) chain' := by
  have listed : address ∈ chain' first := by simp [split]
  have fresh : address ∉ chain first := by
    have distinct := shadowed.chains.nodup inside
    rw [split, List.nodup_append] at distinct
    exact fun member => distinct.2.2 address member address (List.mem_singleton_self _) rfl
  have apart : some (.entry address) ∉ some (.head first) :: nodes (chain first) := by simpa using fresh
  have ring := listInsertTail_ring (shadowed.rings first inside) apart
  refine shadowed.step mine inside (.refl first map chain') shadowed.chains shadowed.initialized shadowed.buckets
    shadowed.entries rfl (fun _ _ => rfl) (fun _ _ => rfl) (fun index away => Function.update_of_ne away ..) ?_
    (fun index inside' away => ?_) ?_ (.inl ⟨rfl, holder, ?_, counted⟩)
  · rw [Function.update_self]
    simpa [nodes, Shared.goto] using ring
  · refine listInsertTail_frame (shadowed.rings first inside) (shadowed.rings index inside')
      (shadowed.rings_apart inside inside' away) ?_
    have outside : address ∉ chain index := fun member => shadowed.chains.apart first inside index inside'
      (Ne.symm away) address listed (shadowed.listed index inside' member)
    simpa using outside
  · rw [Function.update_self, split]
    exact List.Subset.refl _
  · rw [Function.update_self, split]

theorem Shadowed.unlink (shadowed : Shadowed functions shared map chain chain') {key : Key}
    {keylen address : Nat} (inside : first < map.buckets) (holder : shared.holders first = some thread)
    (mine : ∀ other, shared.holders first = some other → other = thread)
    (first_ : bucket functions map key keylen = some first) (same : chain first = chain' first)
    (counted : shared.map.counts first = map.counts first)
    (found : getEntry functions map first key keylen = some (some address)) :
    ∃ chain₁, Shadowed functions ({ shared with map := { shared.map with
        links := listRemoveNode shared.map.links (some (.entry address)) } }.goto thread
      (.unlinked first key keylen address)) map chain₁ chain' := by
  rw [shadowed.chains.getEntry inside] at found
  obtain ⟨xs, ys, split, _⟩ := search_found found
  rw [← shadowed.chains.getEntry inside] at found
  have ring := shadowed.rings first inside
  have split' : nodes (chain first) = nodes xs ++ some (.entry address) :: nodes ys := by simp [same, split, nodes]
  rw [split'] at ring
  refine ⟨Function.update chain first (xs ++ ys), shadowed.step mine inside (.refl first map chain') shadowed.chains
    shadowed.initialized shadowed.buckets shadowed.entries rfl (fun _ _ => rfl) (fun _ _ => rfl)
    (fun index away => Function.update_of_ne away ..) ?_ (fun index inside' away => ?_) ?_
    (.inl ⟨rfl, holder, first_, counted, found, xs, ys, split, Function.update_self ..⟩)⟩
  · rw [Function.update_self, nodes, List.map_append]
    exact listRemoveNode_ring ring
  · refine listRemoveNode_frame ring (shadowed.rings index inside') ?_
    rw [← split']
    exact shadowed.rings_apart inside inside' away
  · rw [Function.update_self, split]
    exact (List.Sublist.append_left (List.sublist_cons_self address ys) xs).subset

/-- The call is performed once its entry is free again, though it is still counted. -/
theorem Shadowed.free (shadowed : Shadowed functions shared map chain chain') {key : Key}
    {keylen address : Nat} {before rest : List Nat} (inside : first < map.buckets)
    (holder : shared.holders first = some thread)
    (mine : ∀ other, shared.holders first = some other → other = thread)
    (counted : shared.map.counts first = map.counts first) (split : chain' first = before ++ address :: rest)
    (removed : chain first = before ++ rest) :
    Shadowed functions (({ shared with map := { shared.map with
        entries := Function.update shared.map.entries address none } }.decide thread (.erase key keylen)
        (.isFound true)).goto thread (.counting first (.isFound true)))
      ((map.freeEntry address).decrement first) chain (Function.update chain' first (before ++ rest)) := by
  refine shadowed.step mine inside (.erase shadowed.chains inside split)
    ((shadowed.chains.freeEntry inside split).count _) shadowed.initialized shadowed.buckets ?_ rfl (fun _ _ => rfl)
    (fun _ _ => rfl) (fun _ _ => rfl) (shadowed.rings first inside)
    (fun index inside' _ => shadowed.rings index inside') ?_ (.inl ⟨rfl, holder, ?_, ?_⟩)
  · exact congrArg (Function.update · address none) shadowed.entries
  · rw [Function.update_self, removed]
    exact List.Subset.refl _
  · rw [Function.update_self, removed]
  · exact (Function.update_self ..).trans
      (congrArg (fun count => (count + (2 ^ 64 - 1)) % 2 ^ 64) counted.symm)

theorem Shadowed.counts (shadowed : Shadowed functions shared map chain chain') {count : Nat}
    {result : Result Value} (inside : first < map.buckets) (holder : shared.holders first = some thread)
    (mine : ∀ other, shared.holders first = some other → other = thread) (same : chain first = chain' first)
    (counted : map.counts first = count) :
    Shadowed functions ({ shared with map := { shared.map with
        counts := Function.update shared.map.counts first count } }.goto thread (.leaving first result))
      map chain chain' :=
  shadowed.step mine inside (.refl first map chain') shadowed.chains shadowed.initialized shadowed.buckets
    shadowed.entries rfl (fun _ _ => rfl) (fun _ away => Function.update_of_ne away ..) (fun _ _ => rfl)
    (shadowed.rings first inside) (fun index inside' _ => shadowed.rings index inside') (shadowed.listed first inside)
    (.inl ⟨rfl, holder, same, (Function.update_self ..).trans counted.symm⟩)

/-- Whatever statement is next, the map of the log goes along. -/
theorem Shadowed.proceed (shadowed : Shadowed functions shared map chain chain')
    (found : shared.stages[thread]? = some stage) (proceeds : Proceeds functions shared thread stage after) :
    ∃ map' chain₁ chain₁', Shadowed functions after map' chain₁ chain₁' ∧
      Logs functions shared after thread map map' := by
  have locked := fun first => shadowed.locked thread stage first found
  have mine : ∀ {first}, shared.holders first = some thread →
      ∀ other, shared.holders first = some other → other = thread := by
    intro first holder other held
    cases holder.symm.trans held
    rfl
  cases proceeds with
  | enter first_ free => exact ⟨map, chain, chain', shadowed.enter first_ free, .inl ⟨rfl, rfl⟩⟩
  | @miss call first entry =>
    obtain ⟨inside, holder, first_, same, count, before, rest, split, head, searches⟩ := locked first rfl
    obtain ⟨map', shadowed', logs⟩ := shadowed.searched inside holder first_ same count
      (searches.symm.trans (by cases rest <;> rfl))
    exact ⟨map', chain, chain', shadowed', logs⟩
  | @find address entry call first count held here =>
    obtain ⟨inside, holder, first_, same, counted, before, rest, split, head, searches⟩ := locked first rfl
    cases rest with
    | nil => cases head
    | cons other rest =>
      cases head
      have found : holds functions map call.key call.keylen address = true := by
        rw [holds, ← shadowed.entries, held]
        exact here
      rw [search, if_pos found] at searches
      obtain ⟨map', shadowed', logs⟩ := shadowed.searched inside holder first_ same counted searches.symm
      exact ⟨map', chain, chain', shadowed', logs⟩
  | @look address entry call first count held here =>
    obtain ⟨inside, holder, first_, same, counted, before, rest, split, head, searches⟩ := locked first rfl
    cases rest with
    | nil => cases head
    | cons other rest =>
      cases head
      have missed : holds functions map call.key call.keylen address = false := by
        rw [holds, ← shadowed.entries, held]
        exact here
      rw [search, if_neg (by simp [missed])] at searches
      have ring := shadowed.rings first inside
      rw [split] at ring
      have split' : chain first = (before ++ [address]) ++ rest := by simp [split]
      exact ⟨map, chain, chain', shadowed.moves (mine holder) inside rfl rfl (fun _ _ => rfl)
        (.inl ⟨rfl, holder, first_, same, counted, _, rest, split', next_rest ring, searches⟩), .inl ⟨rfl, rfl⟩⟩
  | @create address first key keylen value absent free inMemory =>
    obtain ⟨inside, holder, first_, same, counted, missing⟩ := locked first rfl
    rw [shadowed.entries] at free
    obtain ⟨map', made⟩ := insertEntry_supplied ⟨inMemory.1, inMemory.2, free⟩ first key keylen value
    exact ⟨map', chain, _, shadowed.create inside holder (mine holder) same counted made,
      .inr ⟨_, _, rfl, perform_insertion first_ missing made⟩⟩
  | @link first address result =>
    obtain ⟨inside, holder, split, counted⟩ := locked first rfl
    exact ⟨map, _, chain', shadowed.link inside holder (mine holder) split counted, .inl ⟨rfl, rfl⟩⟩
  | @count first result =>
    obtain ⟨inside, holder, same, counted⟩ := locked first rfl
    exact ⟨map, chain, chain', shadowed.counts inside holder (mine holder) same counted, .inl ⟨rfl, rfl⟩⟩
  | @unlink first key keylen address =>
    obtain ⟨inside, holder, first_, same, counted, found⟩ := locked first rfl
    obtain ⟨chain₁, shadowed'⟩ := shadowed.unlink inside holder (mine holder) first_ same counted found
    exact ⟨map, chain₁, chain', shadowed', .inl ⟨rfl, rfl⟩⟩
  | @free first key keylen address =>
    obtain ⟨inside, holder, first_, counted, found, before, rest, split, removed⟩ := locked first rfl
    exact ⟨_, chain, _, shadowed.free inside holder (mine holder) counted split removed,
      .inr ⟨_, _, rfl, erase_of_found first_ found⟩⟩
  | @decrement first result =>
    obtain ⟨inside, holder, same, counted⟩ := locked first rfl
    exact ⟨map, chain, chain', shadowed.counts inside holder (mine holder) same counted, .inl ⟨rfl, rfl⟩⟩
  | @leave first result =>
    obtain ⟨inside, holder, same, counted⟩ := locked first rfl
    exact ⟨map, chain, chain', shadowed.moves (mine holder) inside rfl rfl
      (fun index away => Function.update_of_ne away ..)
      (.inr ⟨rfl, Function.update_self .., same, counted⟩), .inl ⟨rfl, rfl⟩⟩

private theorem shadowed_start (size threads : Nat) (counts : Nat → Nat) (links : ListMemory Node) :
    Shadowed functions (.start (setup (new counts links) size : HashMap Key Value) threads)
      (setup (new counts links) size) (fun _ => []) fun _ => [] := by
  have chains : Chains (setup (new counts links) size : HashMap Key Value) fun _ => [] :=
    setup_chains size counts links
  refine ⟨chains, chains.initialized, rfl, rfl, chains.rings, fun _ _ => List.Subset.refl _,
    fun _ _ _ => ⟨rfl, rfl⟩, fun thread stage first found held => ?_⟩
  cases (List.mem_replicate.mp (List.mem_of_getElem? found)).2
  cases held

theorem act_call {call : Call Key Value} (taken : act functions shared (.call thread call) = some after) :
    shared.stages[thread]? = some .idle ∧ after = shared.goto thread (.entering call) := by
  simp only [act] at taken
  split at taken
  · rename_i idle
    cases taken
    exact ⟨idle, rfl⟩
  · cases taken

theorem act_proceed {address : Nat} (taken : act functions shared (.proceed thread address) = some after) :
    ∃ stage, shared.stages[thread]? = some stage ∧ Proceeds functions shared thread stage after := by
  obtain ⟨stage, found, proceeded⟩ := Option.bind_eq_some_iff.mp taken
  exact ⟨stage, found, proceed_cases proceeded⟩

theorem Shadowed.act {action : Action Key Value} (shadowed : Shadowed functions shared map chain chain')
    (taken : act functions shared action = some after) :
    ∃ map' chain₁ chain₁' thread, Shadowed functions after map' chain₁ chain₁' ∧
      Logs functions shared after thread map map' := by
  cases action with
  | proceed thread address =>
    obtain ⟨stage, found, proceeds⟩ := act_proceed taken
    obtain ⟨map', chain₁, chain₁', shadowed', logs⟩ := shadowed.proceed found proceeds
    exact ⟨map', chain₁, chain₁', thread, shadowed', logs⟩
  | call thread call =>
    obtain ⟨idle, rfl⟩ := act_call taken
    refine ⟨map, chain, chain', thread, ⟨shadowed.chains, shadowed.initialized, shadowed.buckets, shadowed.entries,
      shadowed.rings, shadowed.listed, shadowed.unlocked, fun other stage first found held => ?_⟩, .inl ⟨rfl, rfl⟩⟩
    rcases set_cases found with ⟨rfl, rfl⟩ | ⟨_, found⟩
    · cases held
    · exact shadowed.locked other stage first found held

theorem serial_of_run {size threads : Nat} {counts : Nat → Nat} {links : ListMemory Node}
    (run : Run (HashMap.act functions) (.start (setup (new counts links) size) threads) history shared) :
    ∃ map chain chain', Serial functions (setup (new counts links) size) shared.log map ∧
      Shadowed functions shared map chain chain' := by
  induction run with
  | start => exact ⟨_, _, _, .start, shadowed_start size threads counts links⟩
  | next earlier taken ih =>
    obtain ⟨map, chain, chain', serial, shadowed⟩ := ih
    obtain ⟨map', chain₁, chain₁', thread, shadowed', logs⟩ := shadowed.act taken
    refine ⟨map', chain₁, chain₁', ?_, shadowed'⟩
    rcases logs with ⟨log, rfl⟩ | ⟨operation, result, log, performed⟩
    · rwa [log]
    · rw [log]
      exact serial.next performed

/-! Every call returns what is in the log. -/

/-- The result of a call that is decided but has not returned. -/
def Stage.pending : Stage Key Value → List (Result Value)
  | .created _ _ result | .linked _ result | .counting _ result | .leaving _ result => [result]
  | _ => []

def returned (thread : Nat) (returns : List (Nat × Result Value)) : List (Result Value) :=
  (returns.filter fun entry => entry.1 == thread).map Prod.snd

def logged (thread : Nat) (log : List (Nat × Operation Key Value × Result Value)) : List (Result Value) :=
  (log.filter fun entry => entry.1 == thread).map fun entry => entry.2.2

private theorem searched_answers (shared : Shared Key Value) (thread : Nat) {call : Call Key Value}
    {result : Option Nat} : ∃ stage',
    (searched shared thread first call result).stages = shared.stages.set thread stage' ∧
    (searched shared thread first call result).returns = shared.returns ∧
    ((searched shared thread first call result).log = shared.log ∧ stage'.pending = [] ∨
      ∃ operation answer, (searched shared thread first call result).log =
        (thread, operation, answer) :: shared.log ∧ stage'.pending = [answer]) := by
  cases call with
  | insert => exact ⟨_, rfl, rfl, .inl ⟨rfl, rfl⟩⟩
  | insertIfAbsent =>
    cases result with
    | none => exact ⟨_, rfl, rfl, .inl ⟨rfl, rfl⟩⟩
    | some => exact ⟨_, rfl, rfl, .inr ⟨_, _, rfl, rfl⟩⟩
  | erase =>
    cases result with
    | none => exact ⟨_, rfl, rfl, .inr ⟨_, _, rfl, rfl⟩⟩
    | some => exact ⟨_, rfl, rfl, .inl ⟨rfl, rfl⟩⟩

theorem Proceeds.answers (proceeds : Proceeds functions shared thread stage after) : ∃ stage',
    after.stages = shared.stages.set thread stage' ∧
    (after.log = shared.log ∧ after.returns = shared.returns ∧ stage'.pending = stage.pending ∨
      (∃ operation answer, after.log = (thread, operation, answer) :: shared.log ∧
        after.returns = shared.returns ∧ stage.pending = [] ∧ stage'.pending = [answer]) ∨
      ∃ answer, after.log = shared.log ∧ after.returns = (thread, answer) :: shared.returns ∧
        stage.pending = [answer] ∧ stage'.pending = []) := by
  cases proceeds with
  | @enter first call =>
    refine ⟨_, rfl, .inl ⟨rfl, rfl, ?_⟩⟩
    cases call <;> rfl
  | miss | find =>
    obtain ⟨stage', stages, returns, ⟨log, pending⟩ | ⟨operation, answer, log, pending⟩⟩ :=
      searched_answers shared thread
    · exact ⟨stage', stages, .inl ⟨log, returns, pending⟩⟩
    · exact ⟨stage', stages, .inr (.inl ⟨operation, answer, log, returns, rfl, pending⟩)⟩
  | look | link | count | unlink | decrement => exact ⟨_, rfl, .inl ⟨rfl, rfl, rfl⟩⟩
  | create | free => exact ⟨_, rfl, .inr (.inl ⟨_, _, rfl, rfl, rfl, rfl⟩)⟩
  | leave => exact ⟨_, rfl, .inr (.inr ⟨_, rfl, rfl, rfl, rfl⟩)⟩

def Answered (shared : Shared Key Value) : Prop :=
  ∀ thread stage, shared.stages[thread]? = some stage →
    stage.pending ++ returned thread shared.returns = logged thread shared.log

theorem answered_start (map : HashMap Key Value) (threads : Nat) : Answered (.start map threads) := by
  intro thread stage found
  cases (List.mem_replicate.mp (List.mem_of_getElem? found)).2
  rfl

theorem answered_act {action : Action Key Value} (answered : Answered shared)
    (taken : act functions shared action = some after) : Answered after := by
  cases action with
  | call thread call =>
    obtain ⟨idle, rfl⟩ := act_call taken
    intro other stage found
    rcases set_cases found with ⟨rfl, rfl⟩ | ⟨_, found⟩
    · exact answered other .idle idle
    · exact answered other stage found
  | proceed thread address =>
    obtain ⟨stage, found, proceeds⟩ := act_proceed taken
    obtain ⟨stage', stages, effect⟩ := proceeds.answers
    intro other stage₂ found'
    rw [stages] at found'
    have before := answered thread stage found
    rcases set_cases found' with ⟨rfl, rfl⟩ | ⟨self, found'⟩
    · rcases effect with ⟨log, returns, pending⟩ | ⟨operation, answer, log, returns, quiet, pending⟩ |
        ⟨answer, log, returns, pending, quiet⟩
      · rwa [log, returns, pending]
      · rw [quiet] at before
        simpa [log, returns, pending, logged] using before
      · rw [pending] at before
        simpa [log, returns, quiet, returned] using before
    · have others := answered other stage₂ found'
      rcases effect with ⟨log, returns, _⟩ | ⟨operation, answer, log, returns, _, _⟩ | ⟨answer, log, returns, _, _⟩
      · rwa [log, returns]
      · simpa [log, returns, logged, Ne.symm self] using others
      · simpa [log, returns, returned, Ne.symm self] using others

/-- However the statements of the threads are interleaved, the calls come out as if each
had been performed at once, in the order of the log: with these results, the same
entries, and in every bucket that is not locked the same list and counter. -/
theorem calls_serialize {size threads : Nat} {counts : Nat → Nat} {links : ListMemory Node}
    (run : Run (act functions) (.start (setup (new counts links) size) threads) history shared) :
    ∃ map chain, Serial functions (setup (new counts links) size) shared.log map ∧ Chains map chain ∧
      shared.map.entries = map.entries ∧
      (∀ index < map.buckets, shared.holders index = none →
        shared.map.links.IsRing (some (.head index)) (nodes (chain index)) ∧
          shared.map.counts index = map.counts index) ∧
      ∀ thread stage, shared.stages[thread]? = some stage →
        stage.pending ++ returned thread shared.returns = logged thread shared.log := by
  obtain ⟨map, chain, chain', serial, shadowed⟩ := serial_of_run run
  have answered : Answered shared := Reachable.invariant (answered_start _ threads)
    (fun answered taken => answered_act answered taken) ⟨_, run⟩
  refine ⟨map, chain', serial, shadowed.chains, shadowed.entries, fun index inside free => ?_, answered⟩
  obtain ⟨same, count⟩ := shadowed.unlocked index inside free
  exact ⟨same ▸ shadowed.rings index inside, count⟩

def twoBuckets : HashMap (BitVec 32) Nat := setup (new (fun _ => 0) (fun _ => ⟨none, none⟩)) 2

/-- Two threads insert into different buckets at once, and one erases what the other has inserted. -/
theorem calls_serialize_two : ∃ history shared map,
    Run (act HashFuncs.intKeys) (.start twoBuckets 2) history shared ∧
      shared.log = [(1, .erase 1 4, .isFound true), (1, .insertIfAbsent 2 4 20 32, .isFound false),
        (0, .insertIfAbsent 1 4 10 16, .isFound false)] ∧
      Serial HashFuncs.intKeys twoBuckets shared.log map ∧ shared.map.entries = map.entries := by
  have executed : ((record (act HashFuncs.intKeys) [] (.start twoBuckets 2)
      [.call 0 (.insertIfAbsent 1 4 10), .call 1 (.insertIfAbsent 2 4 20), .proceed 0 0, .proceed 1 0,
        .proceed 0 0, .proceed 1 0, .proceed 0 16, .proceed 1 32, .proceed 1 0, .proceed 0 0, .proceed 0 0,
        .proceed 1 0, .proceed 1 0, .call 1 (.erase 1 4), .proceed 0 0, .proceed 1 0, .proceed 1 0,
        .proceed 1 0, .proceed 1 0]).map fun recorded => Decidable.decide
          (recorded.2.log = [(1, .erase 1 4, .isFound true), (1, .insertIfAbsent 2 4 20 32, .isFound false),
            (0, .insertIfAbsent 1 4 10 16, .isFound false)])) = some true := by
    decide +kernel
  obtain ⟨history, shared, run, log⟩ := exists_run executed
  obtain ⟨map, _, serial, _, entries, _⟩ := calls_serialize run
  exact ⟨history, shared, map, run, log, serial, entries⟩

/-! Who inserts a key that several threads insert if it is absent. -/

def Operation.fullKey : Operation Key Value → FullKey Key
  | .insert key keylen _ _ | .insertIfAbsent key keylen _ _ | .find key keylen | .erase key keylen => (key, keylen)

def Result.isNew : Result Value → Bool
  | .isFound false => true
  | _ => false

/-- The calls that have inserted a key. -/
def winners (functions : KeyFunctions Key) (key : FullKey Key)
    (log : List (Nat × Operation Key Value × Result Value)) : List (Nat × Operation Key Value × Result Value) :=
  log.filter fun entry => equalKeys functions entry.2.1.fullKey key && entry.2.2.isNew

def mentions (functions : KeyFunctions Key) (key : FullKey Key)
    (log : List (Nat × Operation Key Value × Result Value)) : Bool :=
  log.any fun entry => equalKeys functions entry.2.1.fullKey key

private theorem winners_cons (functions : KeyFunctions Key) (other : FullKey Key) (thread : Nat) (key : Key)
    (keylen : Nat) (value : Value) (address : Nat) (found : Bool)
    (log : List (Nat × Operation Key Value × Result Value)) :
    (winners functions other ((thread, .insertIfAbsent key keylen value address, .isFound found) :: log)).length =
      if equalKeys functions (key, keylen) other && !found then (winners functions other log).length + 1
      else (winners functions other log).length := by
  cases equal : equalKeys functions (key, keylen) other <;> cases found <;>
    simp [winners, Operation.fullKey, Result.isNew, equal]

private theorem mentions_cons (functions : KeyFunctions Key) (other : FullKey Key) (thread : Nat) (key : Key)
    (keylen : Nat) (value : Value) (address : Nat) (result : Result Value)
    (log : List (Nat × Operation Key Value × Result Value)) :
    mentions functions other ((thread, .insertIfAbsent key keylen value address, result) :: log) =
      (equalKeys functions (key, keylen) other || mentions functions other log) := rfl

/-- All calls are `insertIfAbsent`, with lengths that are ints. -/
def OnlyAbsent (log : List (Nat × Operation Key Value × Result Value)) : Prop :=
  ∀ entry ∈ log, ∃ key keylen value address,
    entry.2.1 = .insertIfAbsent key keylen value address ∧ keylen < 2 ^ 31

private theorem stored_length (functions : KeyFunctions Key)
    (history : List (HashMap Key Value × Operation Key Value)) :
    (stored functions history).length ≤ history.length := by
  induction history with
  | nil => exact Nat.le_refl _
  | cons entry earlier ih =>
    obtain ⟨map, operation⟩ := entry
    cases operation with
    | insert => simpa [stored] using ih
    | insertIfAbsent =>
      simp only [stored, List.length_cons]
      split
      · omega
      · simpa using ih
    | find => exact Nat.le_succ_of_le ih
    | erase key keylen =>
      have shorter : ((stored functions earlier).eraseP (Entry.matches functions key keylen)).length ≤
          (stored functions earlier).length := List.eraseP_sublist.length_le
      simp only [stored, List.length_cons]
      omega

theorem stored_countP (functions : KeyFunctions Key) (history : List (HashMap Key Value × Operation Key Value))
    (check : Entry Key Value → Bool) : (stored functions history).countP check ≤ history.length :=
  List.countP_le_length.trans (stored_length functions history)

private theorem matches_equal (functions : KeyFunctions Key) (key : Key) (keylen : Nat) (value : Value)
    (other : FullKey Key) :
    (Entry.mk key keylen value).matches functions other.1 other.2 = equalKeys functions (key, keylen) other := by
  rw [Bool.eq_iff_iff, matches_iff, equalKeys, Bool.and_eq_true, beq_iff_eq]
  refine and_congr_right fun lengths => ?_
  have same : keylen = other.2 := lengths
  rw [← same]

/-- A key is stored once it is mentioned, and then it has been inserted once. -/
structure Wins (functions : KeyFunctions Key) (size : Nat)
    (log : List (Nat × Operation Key Value × Result Value))
    (history : List (HashMap Key Value × Operation Key Value)) : Prop where
  permitted : Permitted functions size history
  length : history.length = log.length
  stored : ∀ key : FullKey Key,
    (stored functions history).any (Entry.matches functions key.1 key.2) = mentions functions key log
  once : ∀ key, (winners functions key log).length = if mentions functions key log then 1 else 0

/-- One more `insertIfAbsent`, which has found an entry exactly if the key was mentioned. -/
theorem Wins.next {size keylen address : Nat} {key : Key} {value : Value}
    {log : List (Nat × Operation Key Value × Result Value)}
    {history : List (HashMap Key Value × Operation Key Value)} (lawful : functions.Lawful)
    (wins : Wins functions size log history) (small : keylen < 2 ^ 31) (few : log.length + 1 < 2 ^ 31) :
    Wins functions size ((thread, .insertIfAbsent key keylen value address,
        .isFound (mentions functions (key, keylen) log)) :: log)
      ((map, .insertIfAbsent key keylen value address) :: history) := by
  have mine := wins.stored (key, keylen)
  have keyed := @matches_keyed Key Value functions lawful
  -- a key that equals a mentioned one is mentioned itself
  have spread : ∀ other : FullKey Key, equalKeys functions (key, keylen) other = true →
      mentions functions other log = mentions functions (key, keylen) log := by
    intro other equal
    rw [← wins.stored, ← wins.stored]
    have same : (Entry.matches functions other.1 other.2 : Entry Key Value → Bool) =
        Entry.matches functions key keylen := by
      funext entry
      rw [Bool.eq_iff_iff]
      constructor
      · intro here
        exact (keyed.keyed here).trans (keyed.symm equal)
      · intro here
        exact (keyed.keyed here).trans equal
    rw [same]
  constructor
  case permitted =>
    refine ⟨wins.permitted, small, fun index _ => ?_⟩
    have counted := stored_countP functions ((map, .insertIfAbsent key keylen value address) :: history)
      (inBucket functions size index)
    rw [List.length_cons, wins.length] at counted
    omega
  case length => rw [List.length_cons, List.length_cons, wins.length]
  case stored =>
    intro other
    rw [HashMap.stored, mentions_cons]
    cases present : mentions functions (key, keylen) log with
    | true =>
      rw [if_pos (mine.trans present), wins.stored]
      cases equal : equalKeys functions (key, keylen) other with
      | true => exact (spread other equal).trans present
      | false => rfl
    | false =>
      rw [if_neg (by simp [mine, present])]
      simp [matches_equal, wins.stored, Bool.or_comm]
  case once =>
    intro other
    have before := wins.once other
    rw [winners_cons, mentions_cons]
    cases equal : equalKeys functions (key, keylen) other with
    | false => exact before
    | true =>
      rw [spread other equal] at before
      rw [before]
      cases mentions functions (key, keylen) log <;> rfl

private theorem wins_of_serial {size : Nat} {counts : Nat → Nat} {links : ListMemory Node}
    {log : List (Nat × Operation Key Value × Result Value)} (lawful : functions.Lawful) (positive : 0 < size)
    (serial : Serial functions (setup (new counts links) size) log map) (only : OnlyAbsent log)
    (few : log.length < 2 ^ 31) :
    ∃ history, Run (step functions) (setup (new counts links) size) history map ∧
      Wins functions size log history := by
  induction serial with
  | start => exact ⟨[], .start, trivial, rfl, fun _ => rfl, fun _ => rfl⟩
  | @next log map operation result after thread earlier performed ih =>
    obtain ⟨history, run, wins⟩ := ih (fun entry member => only entry (List.mem_cons_of_mem _ member))
      (Nat.lt_of_succ_lt few)
    obtain ⟨key, keylen, value, address, called, small⟩ := only _ (List.mem_cons_self ..)
    cases called
    obtain ⟨chain, good⟩ := represents_of_run lawful positive run wins.permitted
    obtain ⟨first, _, first_, _, found, searched, _, present⟩ :=
      good.search lawful positive wins.permitted.small key keylen
    rw [wins.stored (key, keylen)] at present
    have answer : result = .isFound (mentions functions (key, keylen) log) := by
      rw [← present]
      obtain ⟨chain', performs⟩ := perform_cases good.chains performed
      cases performs with
      | absent first' missing =>
        cases first_.symm.trans first'
        cases searched.symm.trans missing
        rfl
      | present first' found' =>
        cases first_.symm.trans first'
        cases searched.symm.trans found'
        rfl
    rw [answer]
    exact ⟨_, run.next (Option.map_eq_some_iff.mpr ⟨_, performed, rfl⟩), wins.next lawful small few⟩

/-- If threads only insert keys that are absent, then of all calls for a key, however they
are interleaved, exactly one inserts it. -/
theorem one_winner {size threads : Nat} {counts : Nat → Nat} {links : ListMemory Node} (lawful : functions.Lawful)
    (positive : 0 < size) (run : Run (act functions) (.start (setup (new counts links) size) threads) history shared)
    (only : OnlyAbsent shared.log) (few : shared.log.length < 2 ^ 31) (key : FullKey Key) :
    (winners functions key shared.log).length = if mentions functions key shared.log then 1 else 0 := by
  obtain ⟨map, chain, chain', serial, _⟩ := serial_of_run run
  obtain ⟨history, _, wins⟩ := wins_of_serial lawful positive serial only few
  exact wins.once key

/-- Two threads insert one key; the second one to get the lock finds it there. -/
theorem one_winner_two : ∃ history shared,
    Run (act HashFuncs.intKeys) (.start twoBuckets 2) history shared ∧
      shared.log = [(0, .insertIfAbsent 1 4 10 0, .isFound true),
        (1, .insertIfAbsent 1 4 20 16, .isFound false)] ∧
      (winners HashFuncs.intKeys (1, 4) shared.log).length = 1 := by
  have executed : ((record (act HashFuncs.intKeys) [] (.start twoBuckets 2)
      [.call 0 (.insertIfAbsent 1 4 10), .call 1 (.insertIfAbsent 1 4 20), .proceed 1 0, .proceed 1 0,
        .proceed 1 16, .proceed 1 0, .proceed 1 0, .proceed 1 0, .proceed 0 0, .proceed 0 0]).map
          fun recorded => Decidable.decide
            (recorded.2.log = [(0, .insertIfAbsent 1 4 10 0, .isFound true),
              (1, .insertIfAbsent 1 4 20 16, .isFound false)])) = some true := by
    decide +kernel
  obtain ⟨history, shared, run, log⟩ := exists_run executed
  have only : OnlyAbsent shared.log := by
    rw [log]
    intro entry member
    rcases List.mem_pair.mp member with rfl | rfl
    · exact ⟨1, 4, 10, 0, rfl, by decide⟩
    · exact ⟨1, 4, 20, 16, rfl, by decide⟩
  have one := one_winner HashFuncs.intKeys_lawful (by decide) run only (by rw [log]; decide) (1, 4)
  refine ⟨history, shared, run, log, one.trans ?_⟩
  rw [log]
  decide

end

end ProcessAsThread.HashMap
