import ProcessAsThread.HashMap.Chains

/-! What one operation can do to the lists of the buckets, read off the code once. -/

namespace ProcessAsThread.HashMap

open Library

variable {Key Value : Type} {functions : KeyFunctions Key} {map : HashMap Key Value}
variable {chain : Nat → List Nat}

section

variable {key : Key} {keylen first address : Nat}

/-- The entry at the address is one of the key. -/
def holds (functions : KeyFunctions Key) (map : HashMap Key Value) (key : Key) (keylen address : Nat) :
    Bool := (map.entries address).any fun entry => entry.matches functions key keylen

/-- `getEntry` on the addresses of a bucket. -/
def search (found : Nat → Bool) : Nat → List Nat → Option (Option Nat)
  | 0, _ => some none
  | _ + 1, [] => none
  | count + 1, address :: rest => if found address then some (some address) else search found count rest

theorem search_found {found : Nat → Bool} {count : Nat} {chain : List Nat}
    (success : search found count chain = some (some address)) :
    ∃ xs ys, chain = xs ++ address :: ys ∧ found address = true ∧ (∀ other ∈ xs, found other = false) ∧
      xs.length < count := by
  induction chain generalizing count with
  | nil => cases count <;> cases success
  | cons head rest ih =>
    cases count with
    | zero => cases success
    | succ count =>
      rw [search] at success
      split at success
      · rename_i here
        cases success
        exact ⟨[], rest, rfl, here, by simp, Nat.succ_pos count⟩
      · rename_i goesOn
        obtain ⟨xs, ys, same, here, others, early⟩ := ih success
        subst same
        exact ⟨head :: xs, ys, rfl, here, List.forall_mem_cons.mpr ⟨by simpa using goesOn, others⟩,
          Nat.succ_lt_succ early⟩

private theorem search_missing {found : Nat → Bool} {count : Nat} {chain : List Nat}
    (success : search found count chain = some none) :
    count ≤ chain.length ∧ ∀ other ∈ chain.take count, found other = false := by
  induction chain generalizing count with
  | nil => cases count <;> simp_all [search]
  | cons head rest ih =>
    cases count with
    | zero => simp
    | succ count =>
      rw [search] at success
      split at success
      · cases success
      · rename_i goesOn
        obtain ⟨inside, others⟩ := ih success
        exact ⟨Nat.succ_le_succ inside, List.forall_mem_cons.mpr ⟨by simpa using goesOn, others⟩⟩

/-- A search that does not leave the list finds the first one there is. -/
theorem search_eq {found : Nat → Bool} {count : Nat} {chain : List Nat} (inside : count ≤ chain.length) :
    search found count chain = some ((chain.take count).find? found) := by
  induction chain generalizing count with
  | nil => cases count <;> simp_all [search]
  | cons head rest ih =>
    cases count with
    | zero => rfl
    | succ count =>
      rw [search, List.take_succ_cons, List.find?_cons]
      split
      · rename_i here
        simp [here]
      · rename_i goesOn
        simp [goesOn, ih (Nat.le_of_succ_le_succ inside)]

theorem turns_le (count : Nat) : turns count ≤ count := by
  unfold turns
  rw [Int.bmod_def]
  split <;> omega

theorem turns_eq {count : Nat} (small : count < 2 ^ 31) : turns count = count := by
  unfold turns
  rw [Int.bmod_eq_of_le] <;> omega

theorem intParameter_eq {keylen : Nat} (small : keylen < 2 ^ 31) : intParameter keylen = keylen := by
  unfold intParameter
  rw [Int.bmod_eq_of_le] <;> omega

/-! Along a bucket from any of its nodes on. -/

theorem next_of_last {index : Nat} {node : Option Node}
    (linked : Linked map.links.nexts map.links.prevs (node :: nodes [] ++ [some (.head index)])) :
    (map.links node).next = some (.head index) := (linked_cons.mp linked).1.forth

theorem next_of_cons {index address : Nat} {node : Option Node} {rest : List Nat}
    (linked : Linked map.links.nexts map.links.prevs (node :: nodes (address :: rest) ++ [some (.head index)])) :
    (map.links node).next = some (.entry address) ∧
      Linked map.links.nexts map.links.prevs (some (.entry address) :: nodes rest ++ [some (.head index)]) := by
  obtain ⟨edge, rest⟩ := linked_cons.mp (show Linked _ _
    (node :: some (.entry address) :: (nodes rest ++ [some (.head index)])) from linked)
  exact ⟨edge.forth, rest⟩

theorem getEntryLoop_eq {count index : Nat} {node : Option Node} {rest : List Nat}
    (linked : Linked map.links.nexts map.links.prevs (node :: nodes rest ++ [some (.head index)]))
    (present : ∀ address ∈ rest, (map.entries address).isSome = true) :
    getEntryLoop functions map key keylen count (map.links node).next =
      search (holds functions map key keylen) count rest := by
  induction rest generalizing node count with
  | nil =>
    rw [next_of_last linked]
    cases count <;> rfl
  | cons address rest ih =>
    obtain ⟨next, linked⟩ := next_of_cons linked
    rw [next]
    cases count with
    | zero => rfl
    | succ count =>
      obtain ⟨entry, held⟩ := Option.isSome_iff_exists.mp (present address (List.mem_cons_self ..))
      have others : ∀ address ∈ rest, (map.entries address).isSome = true :=
        fun other member => present other (List.mem_cons_of_mem _ member)
      rw [search, getEntryLoop, held, ih linked others]
      simp [holds, held]

theorem Chains.getEntry (chains : Chains map chain) (inside : first < map.buckets) :
    getEntry functions map first key keylen =
      search (holds functions map key keylen) (turns (map.counts first)) (chain first) :=
  getEntryLoop_eq (chains.rings first inside).linked
    fun address member => (chains.held address).mpr ⟨first, inside, member⟩

theorem bucket_lt (found : bucket functions map key keylen = some first) : first < map.buckets := by
  unfold bucket at found
  split at found
  · obtain ⟨index, _, inside⟩ := Option.bind_eq_some_iff.mp found
    unfold getHashEntry at inside
    split at inside
    · cases inside
      assumption
    · cases inside
  · cases found

theorem Chains.bucket (chains : Chains map chain) (positive : 0 < map.buckets) (key : Key) (keylen : Nat) :
    bucket functions map key keylen = some (functions.hashfunc key keylen % map.buckets) := by
  have inside := Nat.mod_lt (functions.hashfunc key keylen) positive
  simp [HashMap.bucket, chains.initialized, hashIndex, getHashEntry, Nat.ne_of_gt positive, inside]

theorem insertEntry_supplied (free : 0 < address ∧ address < 2 ^ 64 ∧ map.entries address = none)
    (first : Nat) (key : Key) (keylen : Nat) (value : Value) :
    ∃ after, map.insertEntry first key keylen value address = some after := by
  obtain ⟨positive, bounded, none⟩ := free
  have free : ¬ (address = 0 ∨ 2 ^ 64 ≤ address ∨ (map.entries address).isSome) := by
    simp only [none, Option.isSome_none, Bool.false_eq_true, or_false]
    omega
  exact ⟨_, if_neg free⟩

/-! What the operations return and leave once `getEntry` has returned. -/

theorem find_of_getEntry {entry : Option Nat} (first_ : bucket functions map key keylen = some first)
    (found : getEntry functions map first key keylen = some entry) :
    perform functions map (.find key keylen) =
      some (.value (entry.bind fun address => (map.entries address).map Entry.value), map) :=
  Option.map_eq_some_iff.mpr ⟨_, Option.bind_eq_some_iff.mpr ⟨first, first_,
    Option.bind_eq_some_iff.mpr ⟨entry, found, rfl⟩⟩, rfl⟩

theorem insertIfAbsent_of_found {other : Nat} (value : Value) (address : Nat)
    (first_ : bucket functions map key keylen = some first)
    (found : getEntry functions map first key keylen = some (some other)) :
    perform functions map (.insertIfAbsent key keylen value address) = some (.isFound true, map) :=
  Option.map_eq_some_iff.mpr ⟨_, Option.bind_eq_some_iff.mpr ⟨first, first_,
    Option.bind_eq_some_iff.mpr ⟨_, found, rfl⟩⟩, rfl⟩

theorem insertIfAbsent_of_missing {value : Value} {after : HashMap Key Value}
    (first_ : bucket functions map key keylen = some first)
    (missing : getEntry functions map first key keylen = some none)
    (inserted : map.insertEntry first key keylen value address = some after) :
    perform functions map (.insertIfAbsent key keylen value address) = some (.isFound false, after) :=
  Option.map_eq_some_iff.mpr ⟨_, Option.bind_eq_some_iff.mpr ⟨first, first_,
    Option.bind_eq_some_iff.mpr ⟨_, missing, Option.bind_eq_some_iff.mpr ⟨_, inserted, rfl⟩⟩⟩, rfl⟩

theorem erase_of_found (first_ : bucket functions map key keylen = some first)
    (found : getEntry functions map first key keylen = some (some address)) :
    perform functions map (.erase key keylen) =
      some (.isFound true, (map.freeEntry address).decrement first) :=
  Option.map_eq_some_iff.mpr ⟨_, Option.bind_eq_some_iff.mpr ⟨first, first_,
    Option.bind_eq_some_iff.mpr ⟨_, found, rfl⟩⟩, rfl⟩

theorem erase_of_missing (first_ : bucket functions map key keylen = some first)
    (missing : getEntry functions map first key keylen = some none) :
    perform functions map (.erase key keylen) = some (.isFound false, map.decrement first) :=
  Option.map_eq_some_iff.mpr ⟨_, Option.bind_eq_some_iff.mpr ⟨first, first_,
    Option.bind_eq_some_iff.mpr ⟨_, missing, rfl⟩⟩, rfl⟩

end

/-- An operation, its result, and the map and the lists of the buckets it leaves. -/
inductive Performs (functions : KeyFunctions Key) (map : HashMap Key Value) (chain : Nat → List Nat) :
    Operation Key Value → Result Value → HashMap Key Value → (Nat → List Nat) → Prop where
  | insert (first_ : bucket functions map key keylen = some first)
      (inserted : map.insertEntry first key keylen value address = some after) :
      Performs functions map chain (.insert key keylen value address) .done after
        (Function.update chain first (chain first ++ [address]))
  | absent (first_ : bucket functions map key keylen = some first)
      (missing : getEntry functions map first key keylen = some none)
      (inserted : map.insertEntry first key keylen value address = some after) :
      Performs functions map chain (.insertIfAbsent key keylen value address) (.isFound false) after
        (Function.update chain first (chain first ++ [address]))
  | present (first_ : bucket functions map key keylen = some first)
      (found : getEntry functions map first key keylen = some (some other)) :
      Performs functions map chain (.insertIfAbsent key keylen value address) (.isFound true) map chain
  | find (first_ : bucket functions map key keylen = some first)
      (searched : getEntry functions map first key keylen = some found) :
      Performs functions map chain (.find key keylen)
        (.value (found.bind fun address => (map.entries address).map Entry.value)) map chain
  | erase (first_ : bucket functions map key keylen = some first)
      (split : chain first = xs ++ address :: ys)
      (found : holds functions map key keylen address = true)
      (oldest : ∀ other ∈ xs, holds functions map key keylen other = false)
      (early : xs.length < turns (map.counts first)) :
      Performs functions map chain (.erase key keylen) (.isFound true)
        ((map.freeEntry address).decrement first) (Function.update chain first (xs ++ ys))
  | miss (first_ : bucket functions map key keylen = some first)
      (inside : turns (map.counts first) ≤ (chain first).length)
      (missing : ∀ other ∈ (chain first).take (turns (map.counts first)),
        holds functions map key keylen other = false) :
      Performs functions map chain (.erase key keylen) (.isFound false) (map.decrement first) chain

variable {after : HashMap Key Value}

theorem perform_cases {operation : Operation Key Value} {result : Result Value}
    (chains : Chains map chain) (performed : perform functions map operation = some (result, after)) :
    ∃ chain', Performs functions map chain operation result after chain' := by
  cases operation with
  | insert key keylen value address =>
    obtain ⟨_, inserted, same⟩ := Option.map_eq_some_iff.mp performed
    cases same
    obtain ⟨first, first_, inserted⟩ := Option.bind_eq_some_iff.mp inserted
    exact ⟨_, .insert first_ inserted⟩
  | insertIfAbsent key keylen value address =>
    obtain ⟨⟨_, _⟩, inserted, same⟩ := Option.map_eq_some_iff.mp performed
    cases same
    obtain ⟨first, first_, remaining⟩ := Option.bind_eq_some_iff.mp inserted
    obtain ⟨entry, searched, ending⟩ := Option.bind_eq_some_iff.mp remaining
    cases entry with
    | some other =>
      cases ending
      exact ⟨_, .present first_ searched⟩
    | none =>
      obtain ⟨_, made, same⟩ := Option.bind_eq_some_iff.mp ending
      cases same
      exact ⟨_, .absent first_ searched made⟩
  | find key keylen =>
    obtain ⟨_, found, same⟩ := Option.map_eq_some_iff.mp performed
    cases same
    obtain ⟨first, first_, remaining⟩ := Option.bind_eq_some_iff.mp found
    obtain ⟨entry, searched, same⟩ := Option.bind_eq_some_iff.mp remaining
    cases same
    exact ⟨_, .find first_ searched⟩
  | erase key keylen =>
    obtain ⟨⟨_, _⟩, erased, same⟩ := Option.map_eq_some_iff.mp performed
    cases same
    obtain ⟨first, first_, remaining⟩ := Option.bind_eq_some_iff.mp erased
    obtain ⟨entry, searched, ending⟩ := Option.bind_eq_some_iff.mp remaining
    rw [chains.getEntry (bucket_lt first_)] at searched
    cases entry with
    | some address =>
      cases ending
      obtain ⟨xs, ys, split, found, oldest, early⟩ := search_found searched
      exact ⟨_, .erase first_ split found oldest early⟩
    | none =>
      cases ending
      obtain ⟨inside, missing⟩ := search_missing searched
      exact ⟨_, .miss first_ inside missing⟩

theorem Performs.chains {operation : Operation Key Value} {result : Result Value} {chain' : Nat → List Nat}
    (chains : Chains map chain) (performs : Performs functions map chain operation result after chain') :
    Chains after chain' := by
  cases performs with
  | insert first_ inserted | absent first_ _ inserted => exact chains.insertEntry (bucket_lt first_) inserted
  | present | find => exact chains
  | erase first_ split => exact (chains.freeEntry (bucket_lt first_) split).count _
  | miss => exact chains.count _

theorem Performs.buckets {operation : Operation Key Value} {result : Result Value} {chain' : Nat → List Nat}
    (performs : Performs functions map chain operation result after chain') : after.buckets = map.buckets := by
  cases performs with
  | insert _ inserted | absent _ _ inserted =>
    obtain ⟨_, _, _, same⟩ := insertEntry_cases inserted
    rw [same]
  | present | find | erase | miss => rfl

theorem step_cases {operation : Operation Key Value} (chains : Chains map chain)
    (taken : step functions map operation = some after) :
    ∃ result chain', Performs functions map chain operation result after chain' ∧ Chains after chain' := by
  obtain ⟨⟨result, _⟩, performed, same⟩ := Option.map_eq_some_iff.mp taken
  cases same
  obtain ⟨chain', performs⟩ := perform_cases chains performed
  exact ⟨result, chain', performs, performs.chains chains⟩

/-- In every reachable map the buckets have lists of their own. -/
theorem chains_of_reachable {size : Nat} {counts : Nat → Nat} {links : ListMemory Node}
    (reached : Reachable (step functions) (setup (new counts links) size) map) :
    ∃ chain, Chains map chain := by
  obtain ⟨history, run⟩ := reached
  induction run with
  | start => exact ⟨_, setup_chains size counts links⟩
  | next earlier taken ih =>
    obtain ⟨chain, chains⟩ := ih
    obtain ⟨_, chain', _, chains'⟩ := step_cases chains taken
    exact ⟨chain', chains'⟩

def numberKeys : KeyFunctions Nat where
  hashfunc _ _ := 0
  keycmp key other _ := key == other

def oneBucket : HashMap Nat Nat := setup (new (fun _ => 0) (fun _ => ⟨none, none⟩)) 1

end ProcessAsThread.HashMap
