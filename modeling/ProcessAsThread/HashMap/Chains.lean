import ProcessAsThread.HashMap.Table
import ProcessAsThread.IntrusiveRing

/-! The lists of the buckets: each is a ring of entries of its own, whatever the
counters say. -/

namespace ProcessAsThread.HashMap

open Library

variable {Key Value : Type} {functions : KeyFunctions Key} {map after : HashMap Key Value}
variable {chain : Nat → List Nat}

/-- The `list_t` of the entries at some addresses. -/
def nodes (chain : List Nat) : List (Option Node) := chain.map fun address => some (.entry address)

/-- The rings of the buckets share no entry and hold all entries that are allocated. -/
structure Chains (map : HashMap Key Value) (chain : Nat → List Nat) : Prop where
  initialized : map.initialized = true
  rings : ∀ index < map.buckets, map.links.IsRing (some (.head index)) (nodes (chain index))
  apart : ∀ index < map.buckets, ∀ other < map.buckets, index ≠ other →
    ∀ address ∈ chain index, address ∉ chain other
  held : ∀ address, (map.entries address).isSome = true ↔ ∃ index < map.buckets, address ∈ chain index
  inMemory : ∀ address, (map.entries address).isSome = true → 0 < address ∧ address < 2 ^ 64

@[simp] theorem entry_mem_nodes {address : Nat} {chain : List Nat} :
    some (.entry address) ∈ nodes chain ↔ address ∈ chain := by
  simp [nodes]

@[simp] theorem head_not_mem_nodes {index : Nat} {chain : List Nat} : some (.head index) ∉ nodes chain := by
  simp [nodes]

theorem Chains.nodup (chains : Chains map chain) (inside : index < map.buckets) : (chain index).Nodup :=
  (List.nodup_cons.mp (chains.rings index inside).distinct).2.of_map

theorem Chains.rings_apart (chains : Chains map chain) (inside : index < map.buckets)
    (inside' : other < map.buckets) (different : index ≠ other) :
    ∀ node ∈ some (.head index) :: nodes (chain index), node ∉ some (.head other) :: nodes (chain other) := by
  intro node member member'
  rcases List.mem_cons.mp member with same | listed
  · subst same
    simp [different] at member'
  · obtain ⟨address, inChain, same⟩ := List.mem_map.mp listed
    subst same
    have shared : address ∈ chain other := by simpa using member'
    exact chains.apart index inside other inside' different address inChain shared

theorem initializeEntry_range (map : HashMap Key Value) (size : Nat) :
    let filled := (List.range size).foldl initializeEntry map
    filled.buckets = map.buckets ∧ filled.entries = map.entries ∧
      ∀ index < size, filled.counts index = 0 ∧ filled.links.IsRing (some (.head index)) [] := by
  induction size with
  | zero => simp
  | succ size ih =>
    obtain ⟨buckets, entries, empty⟩ := ih
    simp only [List.range_succ, List.foldl_append, List.foldl_cons, List.foldl_nil]
    refine ⟨buckets, entries, fun index inside => ?_⟩
    by_cases last : index = size
    · subst last
      exact ⟨Function.update_self .., nodeInit_ring⟩
    · obtain ⟨zero, ring⟩ := empty index (by omega)
      refine ⟨(Function.update_of_ne last ..).trans zero, nodeInit_frame ring ?_⟩
      simpa using Ne.symm last

theorem setup_buckets (size : Nat) (counts : Nat → Nat) (links : ListMemory Node) :
    (setup (new counts links) size : HashMap Key Value).buckets = size :=
  (initializeEntry_range _ size).1

theorem setup_entries (size : Nat) (counts : Nat → Nat) (links : ListMemory Node) :
    (setup (new counts links) size : HashMap Key Value).entries = fun _ => none :=
  (initializeEntry_range _ size).2.1

theorem setup_counts {size : Nat} (counts : Nat → Nat) (links : ListMemory Node) :
    ∀ index < size, (setup (new counts links) size : HashMap Key Value).counts index = 0 :=
  fun index inside => ((initializeEntry_range _ size).2.2 index inside).1

theorem setup_chains (size : Nat) (counts : Nat → Nat) (links : ListMemory Node) :
    Chains (setup (new counts links) size : HashMap Key Value) (fun _ => []) := by
  constructor
  case initialized => rfl
  case rings =>
    rw [setup_buckets]
    exact fun index inside => ((initializeEntry_range _ size).2.2 index inside).2
  case apart => simp
  case held => simp [setup_entries]
  case inMemory => simp [setup_entries]

/-! The three changes an operation makes: a new entry at the end of a list, an
entry taken out, and another count. -/

theorem Chains.count (chains : Chains map chain) (counts : Nat → Nat) :
    Chains { map with counts := counts } chain :=
  ⟨chains.initialized, chains.rings, chains.apart, chains.held, chains.inMemory⟩

/-- What `insertEntry` does when it is given a free block. -/
theorem insertEntry_cases {first keylen address : Nat} {key : Key} {value : Value}
    (inserted : map.insertEntry first key keylen value address = some after) :
    map.entries address = none ∧ 0 < address ∧ address < 2 ^ 64 ∧
      after = { map with
        entries := Function.update map.entries address (some ⟨key, intParameter keylen, value⟩)
        links := listInsertTail (nodeInit map.links (some (.entry address))) (some (.entry address))
          (some (.head first))
        counts := Function.update map.counts first ((map.counts first + 1) % 2 ^ 64) } := by
  simp only [insertEntry] at inserted
  split at inserted
  · cases inserted
  · rename_i free
    cases inserted
    have none : map.entries address = none := by
      cases entry : map.entries address <;> simp_all
    exact ⟨none, by omega, by omega, rfl⟩

theorem Chains.update {first : Nat} {list : List Nat} {counts : Nat → Nat} {links : ListMemory Node}
    {entries : Nat → Option (Entry Key Value)} (chains : Chains map chain)
    (ring : links.IsRing (some (.head first)) (nodes list))
    (others : ∀ index < map.buckets, index ≠ first → links.IsRing (some (.head index)) (nodes (chain index)))
    (apart : ∀ address ∈ list, ∀ index < map.buckets, index ≠ first → address ∉ chain index)
    (held : ∀ address, (entries address).isSome = true ↔
      ∃ index < map.buckets, address ∈ Function.update chain first list index)
    (inMemory : ∀ address, (entries address).isSome = true → 0 < address ∧ address < 2 ^ 64) :
    Chains { map with counts := counts, links := links, entries := entries }
      (Function.update chain first list) := by
  refine ⟨chains.initialized, fun index inside => ?_, ?_, held, inMemory⟩
  · by_cases here : index = first
    · subst here
      rwa [Function.update_self]
    · rw [Function.update_of_ne here]
      exact others index inside here
  · intro index inside other inside' different address listed listed'
    by_cases here : index = first
    · subst here
      rw [Function.update_self] at listed
      rw [Function.update_of_ne (Ne.symm different)] at listed'
      exact apart address listed other inside' (Ne.symm different) listed'
    · rw [Function.update_of_ne here] at listed
      by_cases there : other = first
      · subst there
        rw [Function.update_self] at listed'
        exact apart address listed' index inside here listed
      · rw [Function.update_of_ne there] at listed'
        exact chains.apart index inside other inside' different address listed listed'

theorem Chains.insertEntry {first keylen address : Nat} {key : Key} {value : Value}
    (chains : Chains map chain) (inside : first < map.buckets)
    (inserted : map.insertEntry first key keylen value address = some after) :
    Chains after (Function.update chain first (chain first ++ [address])) := by
  obtain ⟨free, positive, bounded, same⟩ := insertEntry_cases inserted
  have absent : ∀ index < map.buckets, address ∉ chain index := by
    intro index inside member
    have held := (chains.held address).mpr ⟨index, inside, member⟩
    simp [free] at held
  have outside : ∀ index < map.buckets, some (.entry address) ∉ some (.head index) :: nodes (chain index) := by
    intro index inside
    simpa using absent index inside
  have rings : ∀ index < map.buckets, (nodeInit map.links (some (.entry address))).IsRing
      (some (.head index)) (nodes (chain index)) :=
    fun index inside => nodeInit_frame (chains.rings index inside) (outside index inside)
  subst same
  refine chains.update ?_ (fun index inside' there => ?_) (fun other listed index inside' there => ?_)
    (fun other => ?_) (fun other present => ?_)
  · have ring := listInsertTail_ring (rings first inside) (outside first inside)
    simpa [nodes] using ring
  · exact listInsertTail_frame (rings first inside) (rings index inside')
      (chains.rings_apart inside inside' (Ne.symm there)) (outside index inside')
  · rcases List.mem_append.mp listed with older | newest
    · exact chains.apart first inside index inside' (Ne.symm there) other older
    · rw [List.mem_singleton.mp newest]
      exact absent index inside'
  · by_cases here : other = address
    · subst here
      simp only [Function.update_self, Option.isSome_some, true_iff]
      exact ⟨first, inside, by simp⟩
    · have member : ∀ index, other ∈ Function.update chain first (chain first ++ [address]) index ↔
          other ∈ chain index := by
        intro index
        by_cases there : index = first
        · subst there
          simp [here]
        · rw [Function.update_of_ne there]
      simp only [Function.update_of_ne here, chains.held, member]
  · by_cases here : other = address
    · subst here
      exact ⟨positive, bounded⟩
    · exact chains.inMemory other (by simpa [Function.update_of_ne here] using present)

theorem Chains.freeEntry {first address : Nat} {xs ys : List Nat} (chains : Chains map chain)
    (inside : first < map.buckets) (split : chain first = xs ++ address :: ys) :
    Chains (map.freeEntry address) (Function.update chain first (xs ++ ys)) := by
  have ring := chains.rings first inside
  have distinct := chains.nodup inside
  rw [split, List.nodup_middle, List.nodup_cons] at distinct
  have remaining : ∀ other, other ∈ xs ++ ys ↔ other ∈ chain first ∧ other ≠ address := by
    intro other
    rw [split]
    constructor
    · intro listed
      exact ⟨(List.Sublist.append_left (List.sublist_cons_self address ys) xs).subset listed,
        ne_of_mem_of_not_mem listed distinct.1⟩
    · intro ⟨listed, other⟩
      simpa [other] using listed
  have elsewhere : ∀ index < map.buckets, index ≠ first → address ∉ chain index := by
    intro index inside' there
    exact chains.apart first inside index inside' (Ne.symm there) address (by simp [split])
  rw [split] at ring
  simp only [nodes, List.map_append, List.map_cons] at ring
  refine chains.update ?_ (fun index inside' there => ?_) (fun other listed index inside' there => ?_)
    (fun other => ?_) (fun other present => ?_)
  · rw [nodes, List.map_append]
    exact listRemoveNode_ring ring
  · refine listRemoveNode_frame ring (chains.rings index inside') ?_
    have apart := chains.rings_apart inside inside' (Ne.symm there)
    simpa only [split, nodes, List.map_append, List.map_cons] using apart
  · exact chains.apart first inside index inside' (Ne.symm there) other ((remaining other).mp listed).1
  · have member : ∀ index < map.buckets, other ∈ Function.update chain first (xs ++ ys) index ↔
        other ∈ chain index ∧ other ≠ address := by
      intro index inside'
      by_cases there : index = first
      · subst there
        rw [Function.update_self, remaining]
      · rw [Function.update_of_ne there]
        exact ⟨fun listed => ⟨listed, fun same => elsewhere index inside' there (same ▸ listed)⟩, And.left⟩
    by_cases here : other = address
    · subst here
      simp only [Function.update_self, Option.isSome_none, Bool.false_eq_true, false_iff]
      intro ⟨index, inside', listed⟩
      exact ((member index inside').mp listed).2 rfl
    · rw [Function.update_of_ne here, chains.held]
      exact exists_congr fun index => and_congr_right fun inside' => by simp [member index inside', here]
  · by_cases here : other = address
    · subst here
      simp at present
    · exact chains.inMemory other (by simpa [Function.update_of_ne here] using present)

end ProcessAsThread.HashMap
