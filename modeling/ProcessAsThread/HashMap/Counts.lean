import Mathlib.Order.Interval.Finset.Nat
import ProcessAsThread.HashMap.Operations

/-! The counters of the buckets. `erase` decrements one whether it has found an
entry or not, so they are right exactly as long as every erase finds one. -/

namespace ProcessAsThread.HashMap

open Library

variable {Key Value : Type} {functions : KeyFunctions Key} {map after : HashMap Key Value}
variable {chain : Nat → List Nat}

/-- The counter of every bucket is the number of entries that are linked in its list. -/
def Counted (map : HashMap Key Value) : Prop :=
  ∀ index < map.buckets, ∃ nodes, map.links.IsRing (some (.head index)) nodes ∧
    map.counts index = nodes.length

/-- The first entries of a list, from the one at `entry` on. -/
def linkedEntries (map : HashMap Key Value) : Nat → Option Node → List Nat
  | count + 1, some (.entry address) =>
    address :: map.linkedEntries count (map.links (some (.entry address))).next
  | _, _ => []

/-- The key is that of one of the first `(int) count` entries that are linked in its bucket. -/
def isStored (functions : KeyFunctions Key) (map : HashMap Key Value) (key : Key) (keylen : Nat) : Bool :=
  (bucket functions map key keylen).any fun first =>
    (map.linkedEntries (turns (map.counts first)) (map.links (some (.head first))).next).any
      (holds functions map key keylen)

/-- An erase names a stored key. -/
def ErasesStored (functions : KeyFunctions Key) (map : HashMap Key Value) : Operation Key Value → Prop
  | .erase key keylen => isStored functions map key keylen = true
  | .insert _ _ _ _ | .insertIfAbsent _ _ _ _ | .find _ _ => True

instance (functions : KeyFunctions Key) (map : HashMap Key Value) (operation : Operation Key Value) :
    Decidable (ErasesStored functions map operation) := by
  cases operation <;> unfold ErasesStored <;> infer_instance

/-- What `find` returns after an `insert` of the same key. -/
def findInserted (functions : KeyFunctions Key) (map : HashMap Key Value) (key : Key) (keylen : Nat)
    (value : Value) (address : Nat) : Option (Result Value) := do
  let map ← step functions map (.insert key keylen value address)
  let (result, _) ← perform functions map (.find key keylen)
  return result

theorem Chains.counted_iff (chains : Chains map chain) :
    Counted map ↔ ∀ index < map.buckets, map.counts index = (chain index).length := by
  constructor
  · intro counted index inside
    obtain ⟨linked, ring, length⟩ := counted index inside
    rw [length, ring.unique (chains.rings index inside), nodes, List.length_map]
  · intro counted index inside
    exact ⟨_, chains.rings index inside, by rw [counted index inside, nodes, List.length_map]⟩

private theorem Chains.length_lt (chains : Chains map chain) (inside : index < map.buckets) :
    (chain index).length < 2 ^ 64 := by
  have addresses : (chain index).toFinset ⊆ Finset.Ioo 0 (2 ^ 64) := by
    intro address member
    have held := (chains.held address).mpr ⟨index, inside, List.mem_toFinset.mp member⟩
    exact Finset.mem_Ioo.mpr (chains.inMemory address held)
  have bound := Finset.card_le_card addresses
  rw [List.toFinset_card_of_nodup (chains.nodup inside), Nat.card_Ioo] at bound
  omega

private theorem linkedEntries_eq {count index : Nat} {node : Option Node} {rest : List Nat}
    (linked : Linked map.links.nexts map.links.prevs (node :: nodes rest ++ [some (.head index)])) :
    map.linkedEntries count (map.links node).next = rest.take count := by
  induction rest generalizing node count with
  | nil =>
    rw [next_of_last linked]
    cases count <;> rfl
  | cons address rest ih =>
    obtain ⟨next, linked⟩ := next_of_cons linked
    rw [next]
    cases count with
    | zero => rfl
    | succ count => rw [linkedEntries, ih linked, List.take_succ_cons]

private theorem Chains.isStored_iff {key : Key} {keylen first : Nat} (chains : Chains map chain)
    (first_ : HashMap.bucket functions map key keylen = some first) :
    isStored functions map key keylen = true ↔
      ∃ address ∈ (chain first).take (turns (map.counts first)),
        holds functions map key keylen address = true := by
  rw [isStored, first_, Option.any_some, linkedEntries_eq (chains.rings first (bucket_lt first_)).linked,
    List.any_eq_true]

private theorem Chains.holds_of_unstored {key : Key} {keylen first : Nat} (chains : Chains map chain)
    (first_ : HashMap.bucket functions map key keylen = some first)
    (unstored : isStored functions map key keylen = false) :
    ∀ other ∈ (chain first).take (turns (map.counts first)), holds functions map key keylen other = false := by
  intro other member
  by_contra found
  have stored := (chains.isStored_iff first_).mpr ⟨other, member, by simpa using found⟩
  simp [unstored] at stored

private theorem Chains.getEntry_unstored {key : Key} {keylen first : Nat} (chains : Chains map chain)
    (first_ : HashMap.bucket functions map key keylen = some first)
    (unstored : isStored functions map key keylen = false)
    (counted : map.counts first = (chain first).length) :
    HashMap.getEntry functions map first key keylen = some none := by
  have ends : turns (map.counts first) ≤ (chain first).length := counted ▸ turns_le _
  have shown := chains.holds_of_unstored first_ unstored
  rw [chains.getEntry (bucket_lt first_), search_eq ends]
  exact congrArg some (List.find?_eq_none.mpr fun other member => by simp [shown other member])

private theorem counted_update {counts : Nat → Nat} {buckets first count : Nat} {list : List Nat}
    (counted : ∀ index < buckets, counts index = (chain index).length) (inside : first < buckets) :
    (∀ index < buckets, Function.update counts first count index =
      (Function.update chain first list index).length) ↔ count = list.length := by
  constructor
  · intro counted'
    simpa using counted' first inside
  · intro same index inside'
    by_cases here : index = first
    · subst here
      simpa using same
    · simpa [Function.update_of_ne here] using counted index inside'

theorem Chains.counted_insertEntry {first keylen address : Nat} {key : Key} {value : Value}
    (chains : Chains map chain) (counted : ∀ index < map.buckets, map.counts index = (chain index).length)
    (inside : first < map.buckets) (inserted : map.insertEntry first key keylen value address = some after) :
    ∀ index < map.buckets, after.counts index =
      (Function.update chain first (chain first ++ [address]) index).length := by
  have chains' := chains.insertEntry inside inserted
  obtain ⟨_, _, _, same⟩ := insertEntry_cases inserted
  subst same
  have bound := chains'.length_lt inside
  simp only [Function.update_self, List.length_append, List.length_singleton] at bound
  refine (counted_update counted inside).mpr ?_
  rw [List.length_append, List.length_singleton, counted first inside, Nat.mod_eq_of_lt bound]

theorem Chains.counted_erase {first address : Nat} {xs ys : List Nat} (chains : Chains map chain)
    (counted : ∀ index < map.buckets, map.counts index = (chain index).length)
    (inside : first < map.buckets) (split : chain first = xs ++ address :: ys) :
    ∀ index < map.buckets, ((map.freeEntry address).decrement first).counts index =
      (Function.update chain first (xs ++ ys) index).length := by
  have bound := chains.length_lt inside
  have count := counted first inside
  have freed : (map.freeEntry address).counts = map.counts := rfl
  refine (counted_update counted inside).mpr ?_
  rw [split, List.length_append, List.length_cons] at bound count
  rw [freed, count, List.length_append]
  omega

theorem setup_counted {size : Nat} {counts : Nat → Nat} {links : ListMemory Node} :
    Counted (setup (new counts links) size : HashMap Key Value) := by
  rw [(setup_chains size counts links).counted_iff, setup_buckets]
  exact setup_counts counts links

/-- A step keeps the counters right exactly if it is no erase of a key that is not stored. -/
theorem counted_step_iff {operation : Operation Key Value} (sound : ∃ chain, Chains map chain)
    (counted : Counted map) (taken : step functions map operation = some after) :
    Counted after ↔ ErasesStored functions map operation := by
  obtain ⟨chain, chains⟩ := sound
  obtain ⟨result, chain', performs, chains'⟩ := step_cases chains taken
  rw [chains.counted_iff] at counted
  rw [chains'.counted_iff]
  have buckets := performs.buckets
  cases performs with
  | insert first_ inserted | absent first_ _ inserted =>
    simp only [ErasesStored, iff_true, buckets]
    exact chains.counted_insertEntry counted (bucket_lt first_) inserted
  | present | find =>
    simp only [ErasesStored, iff_true]
    exact counted
  | erase first_ split found oldest early =>
    rename_i xs address ys
    have member : address ∈ (xs ++ address :: ys).take (turns (map.counts _)) :=
      List.mem_take_iff_getElem.mpr ⟨xs.length, lt_min early (by simp), by simp⟩
    have stored := (chains.isStored_iff first_).mpr ⟨address, split ▸ member, found⟩
    simp only [ErasesStored, stored, iff_true]
    exact chains.counted_erase counted (bucket_lt first_) split
  | miss first_ bounded missing =>
    have inside := bucket_lt first_
    have count := counted _ inside
    have unstored := (chains.isStored_iff first_).not.mpr fun ⟨other, member, found⟩ => by
      simp [missing other member] at found
    refine iff_of_false (fun counted' => ?_) unstored
    have changed := counted' _ inside
    simp only [decrement, Function.update_self] at changed
    omega

private theorem search_last {found : Nat → Bool} {count address : Nat} {older : List Nat}
    (here : found address = true) (others : ∀ other ∈ older, found other = false)
    (inside : count ≤ older.length + 1) :
    search found count (older ++ [address]) = some (if older.length < count then some address else none) := by
  rw [search_eq (by simpa using inside)]
  congr 1
  split
  · rename_i counted
    have whole : (older ++ [address]).length ≤ count := by simpa using Nat.succ_le_of_lt counted
    have missing : older.find? found = none :=
      List.find?_eq_none.mpr fun other member => by simp [others other member]
    rw [List.take_of_length_le whole, List.find?_append, missing]
    simp [here]
  · rename_i uncounted
    rw [List.take_append_of_le_length (by omega)]
    exact List.find?_eq_none.mpr fun other member => by simp [others other (List.mem_of_mem_take member)]

private theorem findInserted_eq {key : Key} {keylen first address : Nat} (value : Value)
    (chains : Chains map chain)
    (first_ : bucket functions map key keylen = some first)
    (free : 0 < address ∧ address < 2 ^ 64 ∧ map.entries address = none)
    (reflexive : functions.keycmp key key keylen = true) (fits : keylen < 2 ^ 31)
    (missing : ∀ other ∈ chain first, holds functions map key keylen other = false)
    (bounded : turns ((map.counts first + 1) % 2 ^ 64) ≤ (chain first).length + 1) :
    findInserted functions map key keylen value address = some (.value
      (if (chain first).length < turns ((map.counts first + 1) % 2 ^ 64) then some value else none)) := by
  obtain ⟨inserted, made⟩ := insertEntry_supplied free first key keylen value
  have taken : step functions map (.insert key keylen value address) = some inserted := by
    simp [step, perform, HashMap.insert, first_, made]
  have inside := bucket_lt first_
  have chains' := chains.insertEntry inside made
  have absent : address ∉ chain first := by
    intro member
    have held := (chains.held address).mpr ⟨first, inside, member⟩
    simp [free.2.2] at held
  obtain ⟨_, _, _, same⟩ := insertEntry_cases made
  have first' : bucket functions inserted key keylen = some first := by
    subst same
    exact first_
  have count : inserted.counts first = (map.counts first + 1) % 2 ^ 64 := by
    subst same
    simp
  have present : inserted.entries address = some ⟨key, keylen, value⟩ := by
    subst same
    simp [intParameter_eq fits]
  have here : holds functions inserted key keylen address = true := by
    simp [holds, present, Entry.matches, reflexive]
  have others : ∀ other ∈ chain first, holds functions inserted key keylen other = false := by
    intro other member
    have apart := ne_of_mem_of_not_mem member absent
    subst same
    simpa [holds, Function.update_of_ne apart] using missing other member
  have searched : getEntry functions inserted first key keylen = _ := chains'.getEntry (bucket_lt first')
  rw [Function.update_self, count, search_last here others bounded] at searched
  have performed := find_of_getEntry first' searched
  simp only [findInserted, taken, performed, Option.bind_eq_bind, Option.bind_some, Option.pure_def]
  split <;> simp [present]

/-- In every run the counters are right in all states exactly if every erase names a
stored key. Any other erase returns false, leaves a wrong counter, and from then on a
new entry of its key is not found. -/
theorem counted_iff_erasesStored {size : Nat} {counts : Nat → Nat} {links : ListMemory Node}
    {history : List (HashMap Key Value × Operation Key Value)}
    (run : Run (step functions) (setup (new counts links) size) history map) :
    ((∀ seen ∈ visited history map, Counted seen) ↔ Meets (ErasesStored functions) history) ∧
      ∀ key keylen, 0 < map.buckets → Counted map → isStored functions map key keylen = false →
        ∃ after, perform functions map (.erase key keylen) = some (.isFound false, after) ∧ ¬ Counted after ∧
          ∀ value address, 0 < address ∧ address < 2 ^ 64 ∧ map.entries address = none →
            functions.keycmp key key keylen = true → keylen < 2 ^ 31 →
            (∀ index < map.buckets, map.counts index + 1 < 2 ^ 31) →
              findInserted functions map key keylen value address = some (.value (some value)) ∧
              findInserted functions after key keylen value address = some (.value none) := by
  refine ⟨run.always_iff (fun reached => chains_of_reachable reached) setup_counted counted_step_iff, ?_⟩
  intro key keylen positive counted unstored
  obtain ⟨chain, chains⟩ := chains_of_reachable ⟨history, run⟩
  have lengths := chains.counted_iff.mp counted
  have first_ : bucket functions map key keylen = some _ := chains.bucket positive key keylen
  generalize functions.hashfunc key keylen % map.buckets = first at first_
  have inside := bucket_lt first_
  have length := lengths first inside
  have erased := erase_of_missing first_ (chains.getEntry_unstored first_ unstored length)
  refine ⟨map.decrement first, erased, ?_, ?_⟩
  · have taken : step functions map (.erase key keylen) = some (map.decrement first) := by
      rw [step, erased, Option.map_some]
    rw [counted_step_iff ⟨chain, chains⟩ counted taken]
    simp [ErasesStored, unstored]
  · intro value address free reflexive fits small
    have bound := small first inside
    have shown := chains.holds_of_unstored first_ unstored
    have missing : ∀ other ∈ chain first, holds functions map key keylen other = false := by
      rwa [turns_eq (by omega), length, List.take_length] at shown
    have one : turns ((map.counts first + 1) % 2 ^ 64) = (chain first).length + 1 := by
      rw [Nat.mod_eq_of_lt (by omega), turns_eq bound, length]
    have back : ((map.decrement first).counts first + 1) % 2 ^ 64 = (chain first).length := by
      simp only [decrement, Function.update_self]
      omega
    have same : turns ((chain first).length) = (chain first).length := turns_eq (by omega)
    constructor
    · rw [findInserted_eq value chains first_ free reflexive fits missing one.le, one]
      simp
    · have chains' : Chains (map.decrement first) chain := chains.count _
      have first' : bucket functions (map.decrement first) key keylen = some first := first_
      have bounded : turns (((map.decrement first).counts first + 1) % 2 ^ 64) ≤ (chain first).length + 1 := by
        rw [back, same]
        exact Nat.le_succ _
      rw [findInserted_eq value chains' first' free reflexive fits missing bounded, back, same]
      simp

/-- An entry is inserted and erased; then a key is erased that is not stored. -/
theorem counted_iff_erasesStored_inserted : ∃ (history : List _) (map after : HashMap Nat Nat),
    Run (step numberKeys) oneBucket history map ∧ (∀ seen ∈ visited history map, Counted seen) ∧
      perform numberKeys map (.erase 2 4) = some (.isFound false, after) ∧
      findInserted numberKeys after 2 4 20 32 = some (.value none) := by
  have executed : (execute (guarded (step numberKeys) (ErasesStored numberKeys)) oneBucket
      [.insert 1 4 10 16, .insert 3 4 30 48, .erase 1 4]).map (fun map =>
        decide (0 < map.buckets ∧ isStored numberKeys map 2 4 = false ∧ map.entries 32 = none ∧
          ∀ index < map.buckets, map.counts index + 1 < 2 ^ 31)) = some true := by
    decide +kernel
  obtain ⟨history, map, run, meets, positive, unstored, free, small⟩ := exists_guarded executed
  obtain ⟨exactly, unsuccessful⟩ := counted_iff_erasesStored run
  have counted := exactly.mpr meets
  obtain ⟨after, erased, _, hidden⟩ :=
    unsuccessful 2 4 positive (counted map (List.mem_cons_self ..)) unstored
  have found := hidden 20 32 ⟨by decide, by decide, free⟩ (by decide) (by decide) small
  exact ⟨history, map, after, run, counted, erased, found.2⟩

/-- In an empty map a key is erased, then inserted and looked for. -/
theorem erase_miscounts : ∃ map after : HashMap Nat Nat, Reachable (step numberKeys) oneBucket map ∧
    (∀ address, holds numberKeys map 2 4 address = false) ∧
    perform numberKeys map (.erase 2 4) = some (.isFound false, after) ∧ ¬ Counted after ∧
    findInserted numberKeys map 2 4 20 32 ≠ findInserted numberKeys after 2 4 20 32 := by
  have first_ : bucket numberKeys oneBucket 2 4 = some 0 := by decide +kernel
  have missing : getEntry numberKeys oneBucket 0 2 4 = some none := by decide +kernel
  refine ⟨oneBucket, oneBucket.decrement 0, .refl _ _, fun _ => ?_, erase_of_missing first_ missing, ?_, ?_⟩
  · rw [holds, oneBucket, setup_entries, Option.any_none]
  · have chains : Chains (oneBucket.decrement 0) (fun _ => []) := (setup_chains 1 _ _).count _
    rw [chains.counted_iff]
    have wrapped : (oneBucket.decrement 0).counts 0 = 2 ^ 64 - 1 := by decide +kernel
    intro counted
    have zero := counted 0 Nat.one_pos
    rw [wrapped] at zero
    cases zero
  · decide +kernel

end ProcessAsThread.HashMap
