import ProcessAsThread.HashMap.Counts
import ProcessAsThread.Library.Multimap

/-! The hash map as a multimap: while every erase names a stored key, the lists of
the buckets hold the values of each key in the order they were inserted. -/

namespace ProcessAsThread

open Library

/-- `_keycmp` is an equivalence for every length, and equal keys hash equally. -/
structure KeyFunctions.Lawful {Key : Type} (functions : KeyFunctions Key) : Prop where
  refl : ∀ key keylen, functions.keycmp key key keylen = true
  symm : ∀ {key other keylen}, functions.keycmp key other keylen = true →
    functions.keycmp other key keylen = true
  trans : ∀ {key other third keylen}, functions.keycmp key other keylen = true →
    functions.keycmp other third keylen = true → functions.keycmp key third keylen = true
  hash : ∀ {key other keylen}, functions.keycmp key other keylen = true →
    functions.hashfunc key keylen = functions.hashfunc other keylen

namespace HashMap

variable {Key Value : Type}

abbrev FullKey (Key : Type) := Key × Nat

def equalKeys (functions : KeyFunctions Key) (key other : FullKey Key) : Bool :=
  key.2 == other.2 && functions.keycmp key.1 other.1 key.2

/-- What the calls so far make of a multimap. -/
def replay (functions : KeyFunctions Key) :
    List (HashMap Key Value × Operation Key Value) → Multimap (FullKey Key) Value
  | [] => .empty
  | (_, .insert key keylen value _) :: earlier =>
    (replay functions earlier).insert (equalKeys functions) (key, keylen) value
  | (_, .insertIfAbsent key keylen value _) :: earlier =>
    let values := replay functions earlier
    if (values (key, keylen)).isEmpty then values.insert (equalKeys functions) (key, keylen) value else values
  | (_, .find _ _) :: earlier => replay functions earlier
  | (_, .erase key keylen) :: earlier =>
    (replay functions earlier).erase (equalKeys functions) (key, keylen)

def answer (values : Multimap (FullKey Key) Value) : Operation Key Value → Result Value
  | .insert _ _ _ _ => .done
  | .insertIfAbsent key keylen _ _ => .isFound !(values (key, keylen)).isEmpty
  | .find key keylen => .value (values (key, keylen)).head?
  | .erase key keylen => .isFound !(values (key, keylen)).isEmpty

/-- All entries that are not yet erased, in the order of their insertion. -/
def stored (functions : KeyFunctions Key) :
    List (HashMap Key Value × Operation Key Value) → List (Entry Key Value)
  | [] => []
  | (_, .insert key keylen value _) :: earlier => stored functions earlier ++ [⟨key, keylen, value⟩]
  | (_, .insertIfAbsent key keylen value _) :: earlier =>
    let entries := stored functions earlier
    if entries.any (Entry.matches functions key keylen) then entries else entries ++ [⟨key, keylen, value⟩]
  | (_, .find _ _) :: earlier => stored functions earlier
  | (_, .erase key keylen) :: earlier =>
    (stored functions earlier).eraseP (Entry.matches functions key keylen)

def inBucket (functions : KeyFunctions Key) (buckets index : Nat) (entry : Entry Key Value) : Bool :=
  functions.hashfunc entry.key entry.keylen % buckets == index

/-- A length fits the `int` of `Entry::initialize`, and an erase names a stored key. -/
def Allowed (values : Multimap (FullKey Key) Value) : Operation Key Value → Prop
  | .insert _ keylen _ _ | .insertIfAbsent _ keylen _ _ => keylen < 2 ^ 31
  | .find _ _ => True
  | .erase key keylen => values (key, keylen) ≠ []

/-- All calls were allowed, and no bucket has come to hold 2^31 entries. -/
def Permitted (functions : KeyFunctions Key) (buckets : Nat) :
    List (HashMap Key Value × Operation Key Value) → Prop
  | [] => True
  | (map, operation) :: earlier => Permitted functions buckets earlier ∧
      Allowed (replay functions earlier) operation ∧
      ∀ index < buckets, (stored functions ((map, operation) :: earlier)).countP
        (inBucket functions buckets index) < 2 ^ 31

instance decidableAllowed (values : Multimap (FullKey Key) Value) :
    (operation : Operation Key Value) → Decidable (Allowed values operation)
  | .insert _ keylen _ _ | .insertIfAbsent _ keylen _ _ => Nat.decLt keylen (2 ^ 31)
  | .find _ _ => .isTrue trivial
  | .erase key keylen => decidable_of_iff ((values (key, keylen)).isEmpty = false) List.isEmpty_eq_false_iff

instance decidablePermitted (functions : KeyFunctions Key) (buckets : Nat) :
    (history : List (HashMap Key Value × Operation Key Value)) →
      Decidable (Permitted functions buckets history)
  | [] => .isTrue trivial
  | (_, _) :: earlier =>
    have := decidablePermitted functions buckets earlier
    inferInstanceAs (Decidable (_ ∧ _ ∧ _))

/-- `SourceHeap::malloc` returns a block that is not in use. -/
def Supplied (map : HashMap Key Value) : Operation Key Value → Prop
  | .insert _ _ _ address | .insertIfAbsent _ _ _ address =>
    0 < address ∧ address < 2 ^ 64 ∧ map.entries address = none
  | .find _ _ | .erase _ _ => True

variable {functions : KeyFunctions Key} {map after : HashMap Key Value} {chain : Nat → List Nat}

theorem matches_iff {key : Key} {keylen : Nat} {entry : Entry Key Value} :
    entry.matches functions key keylen = true ↔
      entry.keylen = keylen ∧ functions.keycmp entry.key key keylen = true := by
  simp [Entry.matches]

theorem matches_keyed (lawful : functions.Lawful) : Multimap.Keyed (equalKeys functions)
    fun (key : FullKey Key) (entry : Entry Key Value) => entry.matches functions key.1 key.2 := by
  constructor
  case symm =>
    intro key other same
    simp only [equalKeys, Bool.and_eq_true, beq_iff_eq] at same ⊢
    exact ⟨same.1.symm, same.1 ▸ lawful.symm same.2⟩
  case keyed =>
    intro key other entry here
    obtain ⟨keylen, same⟩ := matches_iff.mp here
    rw [Bool.eq_iff_iff, matches_iff]
    simp only [equalKeys, Bool.and_eq_true, beq_iff_eq]
    constructor
    · intro ⟨keylen', same'⟩
      have lengths : key.2 = other.2 := keylen.symm.trans keylen'
      exact ⟨lengths, lawful.trans (lawful.symm same) (lengths ▸ same')⟩
    · intro ⟨lengths, same'⟩
      exact ⟨keylen.trans lengths, lengths ▸ lawful.trans same same'⟩

private theorem inBucket_of_matches (lawful : functions.Lawful) {key : Key} {keylen : Nat}
    {entry : Entry Key Value} (buckets : Nat) (here : entry.matches functions key keylen = true) :
    inBucket functions buckets (functions.hashfunc key keylen % buckets) entry = true := by
  obtain ⟨lengths, same⟩ := matches_iff.mp here
  rw [inBucket, lengths, lawful.hash same]
  exact beq_self_eq_true _

private theorem replay_eq (lawful : functions.Lawful)
    (history : List (HashMap Key Value × Operation Key Value)) :
    replay functions history = Multimap.ofEntries
      (fun key entry => entry.matches functions key.1 key.2) Entry.value (stored functions history) := by
  have appended : ∀ (entries : List (Entry Key Value)) key keylen value,
      Multimap.ofEntries (fun key entry => entry.matches functions key.1 key.2) Entry.value
          (entries ++ [⟨key, keylen, value⟩]) =
        (Multimap.ofEntries (fun (key : FullKey Key) entry => entry.matches functions key.1 key.2)
          Entry.value entries).insert (equalKeys functions) (key, keylen) value :=
    fun entries key keylen value => Multimap.ofEntries_append _ fun other => by
      cases same : keylen == other.2 with
      | true => simp [Entry.matches, equalKeys, eq_of_beq same]
      | false => simp [Entry.matches, equalKeys, same]
  induction history with
  | nil => rfl
  | cons entry earlier ih =>
    obtain ⟨map, operation⟩ := entry
    cases operation with
    | insert key keylen value address => rw [replay, stored, appended, ih]
    | insertIfAbsent key keylen value address =>
      simp only [replay, stored, ih, Multimap.isEmpty_ofEntries]
      cases present : (stored functions earlier).any (Entry.matches functions key keylen) with
      | true => simp
      | false => simp [appended]
    | find key keylen => rw [replay, stored, ih]
    | erase key keylen =>
      rw [replay, stored, ih]
      exact (Multimap.ofEntries_eraseP (matches_keyed lawful)).symm

theorem replay_isEmpty (lawful : functions.Lawful)
    (history : List (HashMap Key Value × Operation Key Value)) (key : Key) (keylen : Nat) :
    (replay functions history (key, keylen)).isEmpty =
      !(stored functions history).any (Entry.matches functions key keylen) := by
  rw [replay_eq lawful]
  exact Multimap.isEmpty_ofEntries

theorem replay_head? (lawful : functions.Lawful)
    (history : List (HashMap Key Value × Operation Key Value)) (key : Key) (keylen : Nat) :
    (replay functions history (key, keylen)).head? =
      ((stored functions history).find? (Entry.matches functions key keylen)).map Entry.value := by
  rw [replay_eq lawful]
  exact Multimap.head?_ofEntries

/-- The lists of the buckets are the stored entries, each bucket with its own, and
the counters say how many. -/
structure Represents (functions : KeyFunctions Key) (buckets : Nat) (map : HashMap Key Value)
    (chain : Nat → List Nat) (entries : List (Entry Key Value)) : Prop where
  chains : Chains map chain
  size : map.buckets = buckets
  contents : ∀ index < buckets,
    (chain index).map map.entries = (entries.filter (inBucket functions buckets index)).map some
  counts : ∀ index < buckets, map.counts index = (chain index).length

section

variable {lookup : Nat → Option (Entry Key Value)} {addresses : List Nat} {entries : List (Entry Key Value)}

private theorem find?_lookup (check : Entry Key Value → Bool) (same : addresses.map lookup = entries.map some) :
    (addresses.find? fun address => (lookup address).any check).bind lookup = entries.find? check := by
  induction addresses generalizing entries with
  | nil =>
    cases List.map_eq_nil_iff.mp same.symm
    rfl
  | cons address addresses ih =>
    obtain ⟨entry, rest, whole, here, others⟩ := List.map_eq_cons_iff.mp same.symm
    subst whole
    cases found : check entry with
    | true => simp [← here, found]
    | false => simpa [← here, found] using ih others.symm

private theorem eraseP_lookup {check : Entry Key Value → Bool} {xs ys : List Nat} {address : Nat}
    (same : (xs ++ address :: ys).map lookup = entries.map some)
    (found : (lookup address).any check = true) (first : ∀ other ∈ xs, (lookup other).any check = false) :
    (xs ++ ys).map lookup = (entries.eraseP check).map some := by
  rw [List.map_append] at same
  obtain ⟨before, behind, whole, left, right⟩ := List.map_eq_append_iff.mp same.symm
  obtain ⟨entry, rest, whole', here, others⟩ := List.map_eq_cons_iff.mp right
  subst whole whole'
  have missing : ∀ entry ∈ before, ¬ check entry = true := by
    intro entry member
    have looked : some entry ∈ xs.map lookup := left ▸ List.mem_map_of_mem member
    obtain ⟨other, listed, looked⟩ := List.mem_map.mp looked
    have none := first other listed
    simpa [looked] using none
  have found : check entry = true := by simpa [← here] using found
  rw [List.eraseP_append_right _ missing, List.eraseP_cons_of_pos found, List.map_append, List.map_append,
    left, others]

end

theorem Represents.countP {buckets index : Nat} {entries : List (Entry Key Value)}
    (good : Represents functions buckets map chain entries) (inside : index < buckets) :
    (chain index).length = entries.countP (inBucket functions buckets index) := by
  have length := congrArg List.length (good.contents index inside)
  rw [List.length_map, List.length_map] at length
  rw [length, List.countP_eq_length_filter]

/-- The search for a key in its bucket finds the oldest entry of the key, if there is one. -/
theorem Represents.search {buckets : Nat} {entries : List (Entry Key Value)} (lawful : functions.Lawful)
    (positive : 0 < buckets) (good : Represents functions buckets map chain entries)
    (small : ∀ index < buckets, entries.countP (inBucket functions buckets index) < 2 ^ 31)
    (key : Key) (keylen : Nat) :
    ∃ first < buckets, bucket functions map key keylen = some first ∧
      first = functions.hashfunc key keylen % buckets ∧
      ∃ found, getEntry functions map first key keylen = some found ∧
        found.bind map.entries = entries.find? (Entry.matches functions key keylen) ∧
        found.isSome = entries.any (Entry.matches functions key keylen) := by
  have inside := Nat.mod_lt (functions.hashfunc key keylen) positive
  have all : turns (map.counts (functions.hashfunc key keylen % buckets)) =
      (chain (functions.hashfunc key keylen % buckets)).length := by
    rw [good.counts _ inside]
    exact turns_eq (good.countP inside ▸ small _ inside)
  have looked : ((chain (functions.hashfunc key keylen % buckets)).find?
      (holds functions map key keylen)).bind map.entries =
        entries.find? (Entry.matches functions key keylen) :=
    (find?_lookup (Entry.matches functions key keylen) (good.contents _ inside)).trans
      (find?_filter_of_imp fun entry here => inBucket_of_matches lawful buckets here)
  refine ⟨_, inside, ?_, rfl, _, ?_, looked, ?_⟩
  · rw [good.chains.bucket (good.size ▸ positive), good.size]
  · rw [good.chains.getEntry (good.size ▸ inside), search_eq (Nat.le_of_eq all), all, List.take_length]
  · rw [← List.isSome_find?, ← looked]
    cases found : (chain (functions.hashfunc key keylen % buckets)).find? (holds functions map key keylen) with
    | none => rfl
    | some address =>
      have here := List.find?_some found
      cases entry : map.entries address with
      | none => simp [holds, entry] at here
      | some entry => simp [entry]

theorem Represents.insertEntry {buckets first keylen address : Nat} {key : Key} {value : Value}
    {entries : List (Entry Key Value)} (good : Represents functions buckets map chain entries)
    (inside : first < buckets) (hashed : first = functions.hashfunc key keylen % buckets)
    (small : keylen < 2 ^ 31) (inserted : map.insertEntry first key keylen value address = some after) :
    Represents functions buckets after (Function.update chain first (chain first ++ [address]))
      (entries ++ [⟨key, keylen, value⟩]) := by
  have inside' : first < map.buckets := good.size ▸ inside
  have chains := good.chains.insertEntry inside' inserted
  obtain ⟨free, _, _, same⟩ := insertEntry_cases inserted
  have here : ∀ index, inBucket functions buckets index (⟨key, keylen, value⟩ : Entry Key Value) =
      (first == index) := fun index => by rw [hashed]; rfl
  have kept : ∀ index < buckets, (chain index).map after.entries = (chain index).map map.entries := by
    intro index inside
    refine List.map_congr_left fun other member => ?_
    have different : other ≠ address := by
      intro same
      subst same
      have held := (good.chains.held other).mpr ⟨index, good.size ▸ inside, member⟩
      simp [free] at held
    simp [same, Function.update_of_ne different]
  constructor
  case chains => exact chains
  case size => rw [same, ← good.size]
  case contents =>
    intro index inside
    rw [List.filter_append, List.filter_cons, here, List.filter_nil, List.map_append,
      ← good.contents index inside, ← kept index inside]
    by_cases last : index = first
    · subst last
      simp [same, intParameter_eq small]
    · simp [Function.update_of_ne last, Ne.symm last]
  case counts =>
    rw [← good.size]
    exact good.chains.counted_insertEntry (good.size ▸ good.counts) inside' inserted

theorem Represents.erase {buckets first keylen address : Nat} {key : Key} {xs ys : List Nat}
    {entries : List (Entry Key Value)} (lawful : functions.Lawful)
    (good : Represents functions buckets map chain entries)
    (inside : first < buckets) (hashed : first = functions.hashfunc key keylen % buckets)
    (split : chain first = xs ++ address :: ys) (found : holds functions map key keylen address = true)
    (oldest : ∀ other ∈ xs, holds functions map key keylen other = false) :
    Represents functions buckets ((map.freeEntry address).decrement first)
      (Function.update chain first (xs ++ ys)) (entries.eraseP (Entry.matches functions key keylen)) := by
  have inside' : first < map.buckets := good.size ▸ inside
  have within : ∀ entry : Entry Key Value, entry.matches functions key keylen = true →
      inBucket functions buckets first entry = true :=
    fun entry here => hashed ▸ inBucket_of_matches lawful buckets here
  have distinct := good.chains.nodup inside'
  rw [split, List.nodup_middle, List.nodup_cons] at distinct
  have kept : ∀ addresses : List Nat, address ∉ addresses →
      addresses.map (map.freeEntry address).entries = addresses.map map.entries := by
    intro addresses absent
    refine List.map_congr_left fun other member => ?_
    exact Function.update_of_ne (ne_of_mem_of_not_mem member absent) ..
  constructor
  case chains => exact (good.chains.freeEntry inside' split).count _
  case size => exact good.size
  case contents =>
    intro index inside
    show List.map (map.freeEntry address).entries _ = _
    by_cases here : index = first
    · subst here
      have contents := good.contents index inside
      rw [split] at contents
      rw [Function.update_self, kept _ distinct.1, filter_eraseP_of_imp within,
        eraseP_lookup contents found oldest]
    · have absent : address ∉ chain index :=
        good.chains.apart first inside' index (good.size ▸ inside) (Ne.symm here) address (by simp [split])
      have apart : ∀ entry : Entry Key Value, entry.matches functions key keylen = true →
          inBucket functions buckets index entry = false := by
        intro entry match_
        have hash := within entry match_
        simp only [inBucket, beq_iff_eq] at hash
        simp [inBucket, hash, Ne.symm here]
      rw [Function.update_of_ne here, kept _ absent, good.contents index inside,
        filter_eraseP_of_disjoint apart]
  case counts =>
    rw [← good.size]
    exact good.chains.counted_erase (good.size ▸ good.counts) inside' split

theorem Permitted.small {buckets : Nat} {history : List (HashMap Key Value × Operation Key Value)}
    (permitted : Permitted functions buckets history) :
    ∀ index < buckets, (stored functions history).countP (inBucket functions buckets index) < 2 ^ 31 := by
  cases history with
  | nil => simp [stored]
  | cons entry earlier => exact permitted.2.2

/-- One permitted operation keeps the lists of the buckets in step with the entries. -/
theorem represents_step {buckets : Nat} {history : List (HashMap Key Value × Operation Key Value)}
    {operation : Operation Key Value} (lawful : functions.Lawful) (positive : 0 < buckets)
    (good : Represents functions buckets map chain (stored functions history))
    (permitted : Permitted functions buckets ((map, operation) :: history))
    (taken : step functions map operation = some after) :
    ∃ chain', Represents functions buckets after chain' (stored functions ((map, operation) :: history)) := by
  obtain ⟨earlier, allowed, _⟩ := permitted
  obtain ⟨result, chain', performs, _⟩ := step_cases good.chains taken
  cases operation with
  | insert key keylen value address =>
    obtain ⟨first, inside, same, hashed, _⟩ := good.search lawful positive earlier.small key keylen
    cases performs with
    | insert first_ inserted =>
      cases Option.some.inj (first_.symm.trans same)
      exact ⟨_, good.insertEntry inside hashed allowed inserted⟩
  | insertIfAbsent key keylen value address =>
    obtain ⟨first, inside, same, hashed, found, searched, _, present⟩ :=
      good.search lawful positive earlier.small key keylen
    simp only [stored, ← present]
    cases performs with
    | absent first_ missing inserted =>
      cases Option.some.inj (first_.symm.trans same)
      cases Option.some.inj (missing.symm.trans searched)
      exact ⟨_, good.insertEntry inside hashed allowed inserted⟩
    | present first_ found' =>
      cases Option.some.inj (first_.symm.trans same)
      cases Option.some.inj (found'.symm.trans searched)
      exact ⟨_, good⟩
  | find key keylen =>
    cases performs with
    | find first_ searched => exact ⟨_, good⟩
  | erase key keylen =>
    obtain ⟨first, inside, same, hashed, found, searched, _, present⟩ :=
      good.search lawful positive earlier.small key keylen
    cases performs with
    | erase first_ split here oldest early =>
      cases Option.some.inj (first_.symm.trans same)
      exact ⟨_, good.erase lawful inside hashed split here oldest⟩
    | miss first_ bounded missing =>
      cases Option.some.inj (first_.symm.trans same)
      have nothing : found = none := by
        rw [good.chains.getEntry (bucket_lt same), search_eq bounded] at searched
        rw [← Option.some.inj searched, List.find?_eq_none]
        exact fun other member => by simp [missing other member]
      rw [nothing] at present
      have empty := replay_isEmpty lawful history key keylen
      rw [← present] at empty
      exact (allowed (List.isEmpty_iff.mp empty)).elim

/-- In every permitted run the lists of the buckets hold the stored entries. -/
theorem represents_of_run {size : Nat} {counts : Nat → Nat} {links : ListMemory Node}
    {history : List (HashMap Key Value × Operation Key Value)} (lawful : functions.Lawful)
    (positive : 0 < size) (run : Run (step functions) (setup (new counts links) size) history map)
    (permitted : Permitted functions size history) :
    ∃ chain, Represents functions size map chain (stored functions history) := by
  induction run with
  | start =>
    refine ⟨fun _ => [], setup_chains size counts links, setup_buckets size counts links, ?_, ?_⟩
    · simp [stored]
    · exact setup_counts counts links
  | next earlier taken ih =>
    obtain ⟨chain, good⟩ := ih permitted.1
    exact represents_step lawful positive good permitted taken

/-- What the next permitted call returns is what the multimap answers, whatever
calls there have been. -/
theorem perform_refines {size : Nat} {counts : Nat → Nat} {links : ListMemory Node}
    {history : List (HashMap Key Value × Operation Key Value)} (lawful : functions.Lawful)
    (positive : 0 < size) (run : Run (step functions) (setup (new counts links) size) history map)
    (operation : Operation Key Value) (permitted : Permitted functions size ((map, operation) :: history))
    (supplied : Supplied map operation) :
    ∃ after, perform functions map operation = some (answer (replay functions history) operation, after) := by
  obtain ⟨chain, good⟩ := represents_of_run lawful positive run permitted.1
  have searching := good.search lawful positive permitted.1.small
  cases operation with
  | insert key keylen value address =>
    obtain ⟨first, _, same, _⟩ := searching key keylen
    obtain ⟨after, inserted⟩ := insertEntry_supplied supplied first key keylen value
    exact ⟨after, by simp [perform, HashMap.insert, same, inserted, answer]⟩
  | insertIfAbsent key keylen value address =>
    obtain ⟨first, _, same, _, found, searched, _, present⟩ := searching key keylen
    have absent := replay_isEmpty lawful history key keylen
    rw [← present] at absent
    rw [answer, absent]
    cases found with
    | none =>
      obtain ⟨after, inserted⟩ := insertEntry_supplied supplied first key keylen value
      exact ⟨after, insertIfAbsent_of_missing same searched inserted⟩
    | some other => exact ⟨map, insertIfAbsent_of_found value address same searched⟩
  | find key keylen =>
    obtain ⟨first, _, same, _, found, searched, oldest, _⟩ := searching key keylen
    rw [answer, replay_head? lawful, ← oldest, Option.map_bind]
    exact ⟨map, find_of_getEntry same searched⟩
  | erase key keylen =>
    obtain ⟨first, _, same, _, found, searched, _, present⟩ := searching key keylen
    have absent := replay_isEmpty lawful history key keylen
    rw [← present] at absent
    rw [answer, absent]
    cases found with
    | none => exact ⟨_, erase_of_missing same searched⟩
    | some address => exact ⟨_, erase_of_found same searched⟩

theorem numberKeys_lawful : numberKeys.Lawful where
  refl _ _ := beq_self_eq_true _
  symm same := beq_iff_eq.mpr (beq_iff_eq.mp same).symm
  trans same same' := beq_iff_eq.mpr ((beq_iff_eq.mp same).trans (beq_iff_eq.mp same'))
  hash _ := rfl

/-- Two values of a key with one of another key in between; the older one is erased. -/
theorem perform_refines_find : ∃ map after,
    perform numberKeys map (.find 1 4) = some (.value (some 30), after) := by
  have executed : ((record (step numberKeys) [] oneBucket
      [.insert 1 4 10 16, .insert 2 4 20 32, .insert 1 4 30 48, .erase 1 4]).map fun recorded =>
        decide (Permitted numberKeys 1 ((recorded.2, .find 1 4) :: recorded.1) ∧
          answer (replay numberKeys recorded.1) (.find 1 4) = .value (some 30))) = some true := by
    decide +kernel
  obtain ⟨history, map, run, permitted, answered⟩ := exists_run executed
  obtain ⟨after, performed⟩ := perform_refines numberKeys_lawful Nat.one_pos run (.find 1 4) permitted trivial
  rw [answered] at performed
  exact ⟨map, after, performed⟩

end HashMap

end ProcessAsThread
