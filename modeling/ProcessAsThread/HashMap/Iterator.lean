import ProcessAsThread.HashMap.Counts

/-! The iterator of the hash map: it goes along the list of a bucket, then on to
the next bucket whose counter is not zero. -/

namespace ProcessAsThread.HashMap

open Library

variable {Key Value : Type} {functions : KeyFunctions Key} {map after : HashMap Key Value}
variable {chain : Nat → List Nat}

/-- The pointers are to the `list_t` an `Entry` begins with. -/
structure Iterator where
  entry : Option Node
  pos : Nat
  deriving DecidableEq, Repr

/-- The constructor takes the position in an `int`. -/
def iterator (ientry : Option Node) (ipos : Nat) : Iterator := ⟨ientry, intParameter ipos⟩

/-- `operator==` compares the entries only. -/
def Iterator.equals (iterator that : Iterator) : Bool := iterator.entry == that.entry

def getFirstEntry (map : HashMap Key Value) (hashentry : Nat) : Option Node :=
  (map.links (some (.head hashentry))).next

theorem getHashEntry_eq_some {index hashentry : Nat} :
    map.getHashEntry index = some hashentry ↔ index < map.buckets ∧ index = hashentry := by
  unfold getHashEntry
  split <;> simp_all

/-- `while((hashentry = _hashmap->getHashEntry(_pos)) != NULL)` of `operator++`. -/
def nextBucket (map : HashMap Key Value) (pos : Nat) : Iterator :=
  match present : map.getHashEntry pos with
  | none => ⟨none, pos⟩
  | some hashentry =>
    if map.counts hashentry ≠ 0 then ⟨map.getFirstEntry hashentry, pos⟩ else nextBucket map (pos + 1)
termination_by map.buckets - pos
decreasing_by
  have inside := (getHashEntry_eq_some.mp present).1
  omega

/-- `operator++`. Outside of the array the list compared with is that of a NULL pointer. -/
def advance (map : HashMap Key Value) (iterator : Iterator) : Iterator :=
  let hashentry := map.getHashEntry iterator.pos
  if isListTail map.links iterator.entry (hashentry.map .head) then
    nextBucket map ((iterator.pos + 1) % 2 ^ 64)
  else { iterator with entry := (map.links iterator.entry).next }

def end_ : Iterator := iterator none 0

/-- `while(pos < _buckets)` of `begin`. -/
def beginLoop (map : HashMap Key Value) (pos : Nat) : Iterator :=
  if pos < map.buckets then
    if map.counts pos ≠ 0 then iterator (map.getFirstEntry pos) pos else beginLoop map (pos + 1)
  else end_
termination_by map.buckets - pos

def begin_ (map : HashMap Key Value) : Iterator := beginLoop map 0

/-- The entries seen from an iterator on until it equals `end()`, if it does so
within some number of turns. -/
def visits (map : HashMap Key Value) : Nat → Iterator → Option (List (Option Node))
  | turns, iterator =>
    if iterator.equals end_ then some []
    else match turns with
      | 0 => none
      | turns + 1 => (visits map turns (advance map iterator)).map (iterator.entry :: ·)

/-- The entries that are stored, with their buckets, after one more operation: in
the order of their insertion. -/
def place (functions : KeyFunctions Key) (map : HashMap Key Value) (operation : Operation Key Value)
    (placed : List (Nat × Nat)) : List (Nat × Nat) :=
  match operation, perform functions map operation with
  | .insert key keylen _ address, some _ => placed ++ [(functions.hashfunc key keylen % map.buckets, address)]
  | .insertIfAbsent key keylen _ address, some (.isFound false, _) =>
    placed ++ [(functions.hashfunc key keylen % map.buckets, address)]
  | .erase _ _, some (_, after) => placed.filter fun entry => (after.entries entry.2).isSome
  | _, _ => placed

def placed (functions : KeyFunctions Key) (history : List (HashMap Key Value × Operation Key Value)) :
    List (Nat × Nat) := history.foldr (fun (map, operation) => place functions map operation) []

/-- The entries of a bucket in the order of their insertion. -/
def inOrder (placed : List (Nat × Nat)) (index : Nat) : List Nat :=
  (placed.filter fun entry => entry.1 == index).map Prod.snd

/-- What iterating over a map should come to. -/
structure Iterates (functions : KeyFunctions Key) (history : List (HashMap Key Value × Operation Key Value))
    (map : HashMap Key Value) : Prop where
  visited : ∃ turns, visits map turns (begin_ map) =
    some (nodes ((List.range map.buckets).flatMap (inOrder (placed functions history))))
  once : ((List.range map.buckets).flatMap (inOrder (placed functions history))).Nodup
  every : ∀ address, address ∈ (List.range map.buckets).flatMap (inOrder (placed functions history)) ↔
    (map.entries address).isSome = true
  empty : (∀ address, map.entries address = none) → (begin_ map).equals end_ = true

/-- The first bucket that is not empty has an index that survives in an `int`. -/
def FirstFits (map : HashMap Key Value) : Prop :=
  ∀ index < map.buckets, map.counts index ≠ 0 → (∀ earlier < index, map.counts earlier = 0) →
    intParameter index = index

section

variable {turns pos index : Nat} {it : Iterator} {list : List (Option Node)}

private theorem visits_none (turns : Nat) (ended : it.entry = none) : visits map turns it = some [] := by
  have same : it.equals end_ = true := by simp [Iterator.equals, end_, iterator, ended]
  cases turns <;> simp [visits, same]

private theorem visits_advance {node : Node} (goes : it.entry = some node)
    (rest : visits map turns (advance map it) = some list) :
    visits map (turns + 1) it = some (some node :: list) := by
  have different : it.equals end_ = false := by simp [Iterator.equals, end_, iterator, goes]
  rw [visits, different, goes]
  simp [rest]

private theorem nextBucket_used (inside : pos < map.buckets) (used : map.counts pos ≠ 0) :
    nextBucket map pos = ⟨map.getFirstEntry pos, pos⟩ := by
  rw [nextBucket]
  have present : map.getHashEntry pos = some pos := getHashEntry_eq_some.mpr ⟨inside, rfl⟩
  split <;> simp_all

private theorem nextBucket_empty (inside : pos < map.buckets) (unused : map.counts pos = 0) :
    nextBucket map pos = nextBucket map (pos + 1) := by
  rw [nextBucket]
  have present : map.getHashEntry pos = some pos := getHashEntry_eq_some.mpr ⟨inside, rfl⟩
  split <;> simp_all

private theorem nextBucket_end (outside : map.buckets ≤ pos) : nextBucket map pos = ⟨none, pos⟩ := by
  have absent : map.getHashEntry pos = none := if_neg (by omega)
  rw [nextBucket]
  split <;> simp_all

/-- The entries of the buckets from `pos` on. -/
def onward (chain : Nat → List Nat) (buckets pos : Nat) : List Nat :=
  (List.range' pos (buckets - pos)).flatMap chain

private theorem onward_cons (inside : pos < map.buckets) :
    onward chain map.buckets pos = chain pos ++ onward chain map.buckets (pos + 1) := by
  have length : map.buckets - pos = (map.buckets - (pos + 1)) + 1 := by omega
  rw [onward, length, List.range'_succ, List.flatMap_cons]
  rfl

theorem Chains.next (chains : Chains map chain) (inside : index < map.buckets) {us vs : List Nat} {address : Nat}
    {behind : Option Node} {ws : List (Option Node)} (split : chain index = us ++ address :: vs)
    (right : nodes vs ++ [some (.head index)] = behind :: ws) :
    (map.links (some (.entry address))).next = behind := by
  have ring := chains.rings index inside
  rw [split] at ring
  simp only [nodes, List.map_append, List.map_cons] at ring
  obtain ⟨_, _, left⟩ := exists_before (some (.head index)) (nodes us)
  exact (ring.neighbours left right).2.forth

theorem Chains.getFirstEntry (chains : Chains map chain) (inside : index < map.buckets) {rest : List Nat}
    {address : Nat} (first : chain index = address :: rest) :
    map.getFirstEntry index = some (.entry address) := by
  have ring := chains.rings index inside
  rw [first] at ring
  exact (ring.cut (List.nil_append [_]).symm List.cons_append).2.1.forth

private theorem Chains.visits_list (chains : Chains map chain) (bounded : map.buckets < 2 ^ 64)
    (inside : index < map.buckets) {us vs : List Nat} {address : Nat} (split : chain index = us ++ address :: vs)
    (later : visits map turns (nextBucket map (index + 1)) = some list) :
    ∃ turns, visits map turns ⟨some (.entry address), index⟩ = some (nodes (address :: vs) ++ list) := by
  have here : map.getHashEntry index = some index := getHashEntry_eq_some.mpr ⟨inside, rfl⟩
  induction vs generalizing us address with
  | nil =>
    have next := chains.next inside split (List.nil_append _)
    have advanced : advance map ⟨some (.entry address), index⟩ = nextBucket map (index + 1) := by
      rw [advance, here]
      simp only [isListTail, next, Option.map_some, BEq.rfl, if_true]
      rw [Nat.mod_eq_of_lt (by omega)]
    exact ⟨turns + 1, visits_advance rfl (advanced ▸ later)⟩
  | cons other vs ih =>
    have next := chains.next inside split List.cons_append
    have advanced : advance map ⟨some (.entry address), index⟩ = ⟨some (.entry other), index⟩ := by
      rw [advance, here]
      simp [isListTail, next]
    obtain ⟨turns, rest⟩ := ih (show chain index = (us ++ [address]) ++ other :: vs by simp [split])
    exact ⟨turns + 1, visits_advance rfl (advanced ▸ rest)⟩

variable (chains : Chains map chain) (bounded : map.buckets < 2 ^ 64)
  (counted : ∀ index < map.buckets, map.counts index = (chain index).length)

include chains bounded counted

private theorem Chains.visits_onward (pos : Nat) :
    ∃ turns, visits map turns (nextBucket map pos) = some (nodes (onward chain map.buckets pos)) := by
  induction remaining : map.buckets - pos generalizing pos with
  | zero =>
    rw [nextBucket_end (Nat.sub_eq_zero_iff_le.mp remaining), onward, remaining]
    exact ⟨0, visits_none 0 rfl⟩
  | succ fewer ih =>
    have inside : pos < map.buckets := by omega
    obtain ⟨turns, later⟩ := ih (pos + 1) (by omega)
    have count := counted pos inside
    rw [onward_cons inside]
    cases first : chain pos with
    | nil =>
      rw [first, List.length_nil] at count
      exact ⟨turns, by rw [nextBucket_empty inside count, later, List.nil_append]⟩
    | cons address rest =>
      have used : map.counts pos ≠ 0 := by simp [count, first]
      rw [nextBucket_used inside used, chains.getFirstEntry inside first]
      obtain ⟨turns, visited⟩ := chains.visits_list bounded inside (first.trans (List.nil_append _).symm) later
      exact ⟨turns, by rw [visited, nodes, nodes, nodes, List.map_append]⟩

end

/-- `begin` stops where the search from the first bucket on does, but hands the
index on in an `int`. -/
theorem beginLoop_cases (map : HashMap Key Value) (pos : Nat) :
    (∃ index < map.buckets, pos ≤ index ∧ map.counts index ≠ 0 ∧
      (∀ earlier < index, pos ≤ earlier → map.counts earlier = 0) ∧
      beginLoop map pos = iterator (map.getFirstEntry index) index ∧
      nextBucket map pos = ⟨map.getFirstEntry index, index⟩) ∨
    ((∀ index < map.buckets, pos ≤ index → map.counts index = 0) ∧ beginLoop map pos = end_ ∧
      (nextBucket map pos).entry = none) := by
  induction remaining : map.buckets - pos generalizing pos with
  | zero =>
    rw [beginLoop, if_neg (by omega)]
    rw [nextBucket_end (by omega)]
    exact .inr ⟨fun index inside later => by omega, rfl, rfl⟩
  | succ fewer ih =>
    have inside : pos < map.buckets := by omega
    by_cases used : map.counts pos = 0
    · have same : beginLoop map pos = beginLoop map (pos + 1) := by
        rw [beginLoop]
        simp [inside, used]
      rw [same, nextBucket_empty inside used]
      rcases ih (pos + 1) (by omega) with ⟨index, bound, later, found, before, rest⟩ | ⟨before, rest⟩
      · refine .inl ⟨index, bound, by omega, found, fun earlier early from_ => ?_, rest⟩
        rcases Nat.eq_or_lt_of_le from_ with same | later
        · exact same ▸ used
        · exact before earlier early later
      · refine .inr ⟨fun index bound from_ => ?_, rest⟩
        rcases Nat.eq_or_lt_of_le from_ with same | later
        · exact same ▸ used
        · exact before index bound later
    · have found : beginLoop map pos = iterator (map.getFirstEntry pos) pos := by
        rw [beginLoop]
        simp [inside, used]
      exact .inl ⟨pos, inside, Nat.le_refl pos, used, fun earlier early from_ => by omega, found,
        nextBucket_used inside used⟩

private theorem exists_of_mem_ring {index : Nat} {list : List Nat} {node : Option Node}
    (member : node ∈ some (.head index) :: nodes list) : ∃ this, node = some this := by
  rcases List.mem_cons.mp member with same | listed
  · exact ⟨_, same⟩
  · obtain ⟨address, _, same⟩ := List.mem_map.mp listed
    exact ⟨_, same.symm⟩

/-- With a wrong position the end of the list is not recognized: the iterator goes
round the list for ever. -/
theorem Chains.visits_wrong {index pos turns : Nat} {node : Option Node} (chains : Chains map chain)
    (inside : index < map.buckets) (wrong : pos ≠ index)
    (member : node ∈ some (.head index) :: nodes (chain index)) : visits map turns ⟨node, pos⟩ = none := by
  have elsewhere : (map.getHashEntry pos).map Node.head ∉ some (.head index) :: nodes (chain index) := by
    intro compared
    obtain ⟨this, same⟩ := exists_of_mem_ring compared
    obtain ⟨hashentry, found, _⟩ := Option.map_eq_some_iff.mp same
    rw [found] at compared
    have here := (getHashEntry_eq_some.mp found).2
    simp only [Option.map_some, List.mem_cons, Option.some.injEq, Node.head.injEq, head_not_mem_nodes,
      or_false] at compared
    exact wrong (here.trans compared)
  induction turns generalizing node with
  | zero =>
    obtain ⟨this, same⟩ := exists_of_mem_ring member
    simp [visits, Iterator.equals, end_, iterator, same]
  | succ turns ih =>
    have next : (map.links node).next ∈ _ := ((chains.rings index inside).step member).1
    have advanced : advance map ⟨node, pos⟩ = ⟨(map.links node).next, pos⟩ := by
      have goes : isListTail map.links node ((map.getHashEntry pos).map .head) = false :=
        beq_false_of_ne (ne_of_mem_of_not_mem next elsewhere)
      simp [advance, goes]
    obtain ⟨this, same⟩ := exists_of_mem_ring member
    rw [visits, advanced, ih next]
    simp [Iterator.equals, end_, iterator, same]

/-! The lists of the buckets are in the order of insertion. -/

private theorem inOrder_append (earlier : List (Nat × Nat)) (bucket address index : Nat) :
    inOrder (earlier ++ [(bucket, address)]) index =
      Function.update (inOrder earlier) bucket (inOrder earlier bucket ++ [address]) index := by
  by_cases here : index = bucket
  · subst here
    simp [inOrder]
  · rw [Function.update_of_ne here]
    simp [inOrder, Ne.symm here]

private theorem inOrder_filter (earlier : List (Nat × Nat)) (kept : Nat → Bool) (index : Nat) :
    inOrder (earlier.filter fun entry => kept entry.2) index = (inOrder earlier index).filter kept := by
  simp only [inOrder, List.filter_map, List.filter_filter]
  congr 1
  exact List.filter_congr fun entry _ => by simp [Bool.and_comm]

/-- A freed entry is taken out of its list and is in no other. -/
theorem Chains.freed_kept {first address : Nat} {xs ys : List Nat} (chains : Chains map chain)
    (inside : first < map.buckets) (split : chain first = xs ++ address :: ys) :
    ∀ index < map.buckets, Function.update chain first (xs ++ ys) index =
      (chain index).filter fun other => (Function.update map.entries address none other).isSome := by
  have others : ∀ list : List Nat, (∀ other ∈ list, other ≠ address ∧ (map.entries other).isSome = true) →
      list.filter (fun other => (Function.update map.entries address none other).isSome) = list := by
    intro list kept
    refine List.filter_eq_self.mpr fun other member => ?_
    rw [Function.update_of_ne (kept other member).1]
    exact (kept other member).2
  have allocated : ∀ index < map.buckets, ∀ other ∈ chain index, (map.entries other).isSome = true :=
    fun index inside other member => (chains.held other).mpr ⟨index, inside, member⟩
  have distinct := chains.nodup inside
  rw [split, List.nodup_middle, List.nodup_cons, List.mem_append, not_or] at distinct
  intro index inside'
  by_cases here : index = first
  · subst here
    have present := allocated index inside
    rw [split] at present
    have before := others xs fun other member =>
      ⟨ne_of_mem_of_not_mem member distinct.1.1, present other (by simp [member])⟩
    have behind := others ys fun other member =>
      ⟨ne_of_mem_of_not_mem member distinct.1.2, present other (by simp [member])⟩
    rw [Function.update_self, split, List.filter_append, List.filter_cons_of_neg (by simp), before, behind]
  · rw [Function.update_of_ne here]
    refine (others _ fun other member => ⟨?_, allocated index inside' other member⟩).symm
    have away := chains.apart first inside index inside' (Ne.symm here) address (by simp [split])
    exact ne_of_mem_of_not_mem member away

private theorem ordered_insert {key : Key} {keylen first address index : Nat} {earlier : List (Nat × Nat)}
    (chains : Chains map chain) (ordered : ∀ index < map.buckets, chain index = inOrder earlier index)
    (first_ : bucket functions map key keylen = some first) (inside : index < map.buckets) :
    Function.update chain first (chain first ++ [address]) index =
      inOrder (earlier ++ [(functions.hashfunc key keylen % map.buckets, address)]) index := by
  have positive : 0 < map.buckets := Nat.zero_lt_of_lt inside
  have hashed : first = functions.hashfunc key keylen % map.buckets :=
    Option.some.inj (first_.symm.trans (chains.bucket positive key keylen))
  rw [inOrder_append, ← hashed, ordered first (bucket_lt first_)]
  by_cases here : index = first
  · rw [here, Function.update_self, Function.update_self]
  · rw [Function.update_of_ne here, Function.update_of_ne here, ordered index inside]

theorem ordered_step {operation : Operation Key Value} {earlier : List (Nat × Nat)} (chains : Chains map chain)
    (ordered : ∀ index < map.buckets, chain index = inOrder earlier index)
    (taken : step functions map operation = some after) : ∃ chain', Chains after chain' ∧
      after.buckets = map.buckets ∧
      ∀ index < map.buckets, chain' index = inOrder (place functions map operation earlier) index := by
  obtain ⟨⟨result, _⟩, performed, same⟩ := Option.map_eq_some_iff.mp taken
  cases same
  obtain ⟨chain', performs⟩ := perform_cases chains performed
  refine ⟨chain', performs.chains chains, performs.buckets, fun index inside => ?_⟩
  unfold place
  rw [performed]
  cases performs with
  | insert first_ | absent first_ => exact ordered_insert chains ordered first_ inside
  | present | find => exact ordered index inside
  | miss =>
    show chain index = inOrder (earlier.filter fun entry => (map.entries entry.2).isSome) index
    rw [inOrder_filter earlier fun address => (map.entries address).isSome, ← ordered index inside]
    exact (List.filter_eq_self.mpr fun address member => (chains.held address).mpr ⟨index, inside, member⟩).symm
  | erase first_ split found oldest early =>
    rename_i address ys
    show _ = inOrder (earlier.filter fun entry => (Function.update map.entries address none entry.2).isSome) index
    rw [inOrder_filter earlier fun other => (Function.update map.entries address none other).isSome,
      ← ordered index inside]
    exact chains.freed_kept (bucket_lt first_) split index inside

theorem ordered_of_run {size : Nat} {counts : Nat → Nat} {links : ListMemory Node}
    {history : List (HashMap Key Value × Operation Key Value)}
    (run : Run (step functions) (setup (new counts links) size) history map) :
    ∃ chain, Chains map chain ∧ map.buckets = size ∧
      ∀ index < size, chain index = inOrder (placed functions history) index := by
  induction run with
  | start => exact ⟨_, setup_chains size counts links, setup_buckets size counts links, fun _ _ => rfl⟩
  | next earlier taken ih =>
    obtain ⟨chain, chains, buckets, ordered⟩ := ih
    subst buckets
    obtain ⟨chain', chains', same, ordered'⟩ := ordered_step chains ordered taken
    exact ⟨chain', chains', same, ordered'⟩

/-! The property for a map whose counters are right. -/

section

variable {history : List (HashMap Key Value × Operation Key Value)} (chains : Chains map chain)
  (counted : ∀ index < map.buckets, map.counts index = (chain index).length)
  (ordered : ∀ index < map.buckets, chain index = inOrder (placed functions history) index)

include ordered in
private theorem flatMap_inOrder :
    (List.range map.buckets).flatMap (inOrder (placed functions history)) = onward chain map.buckets 0 := by
  rw [onward, Nat.sub_zero, ← List.range_eq_range']
  exact (List.flatMap_congr fun index member => ordered index (List.mem_range.mp member)).symm

include chains in
private theorem Chains.onward_nodup : (onward chain map.buckets 0).Nodup := by
  rw [onward, Nat.sub_zero, ← List.range_eq_range', List.nodup_flatMap]
  refine ⟨fun index member => chains.nodup (List.mem_range.mp member), ?_⟩
  refine List.nodup_range.imp_of_mem fun inside inside' different address member member' => ?_
  exact chains.apart _ (List.mem_range.mp inside) _ (List.mem_range.mp inside') different address member member'

include chains in
private theorem Chains.mem_onward {address : Nat} :
    address ∈ onward chain map.buckets 0 ↔ (map.entries address).isSome = true := by
  rw [onward, Nat.sub_zero, ← List.range_eq_range', List.mem_flatMap, chains.held]
  simp only [List.mem_range]

include chains counted ordered in
theorem Chains.iterates (bounded : map.buckets < 2 ^ 64) (fits : FirstFits map) :
    Iterates functions history map := by
  have places := flatMap_inOrder ordered
  have cases := beginLoop_cases map 0
  constructor
  case once => exact places ▸ chains.onward_nodup
  case every => exact fun address => places ▸ chains.mem_onward
  case visited =>
    obtain ⟨turns, visited⟩ := chains.visits_onward bounded counted 0
    refine ⟨turns, ?_⟩
    rw [places, ← visited]
    rcases cases with ⟨index, inside, _, used, before, found, next⟩ | ⟨_, ended, ended'⟩
    · have position := fits index inside used fun earlier early => before earlier early (Nat.zero_le _)
      rw [begin_, found, iterator, position, next]
    · rw [begin_, ended, visits_none turns rfl, visits_none turns ended']
  case empty =>
    intro none
    rcases cases with ⟨index, inside, _, used, _⟩ | ⟨_, ended, _⟩
    · have items : 0 < (chain index).length := Nat.pos_of_ne_zero (counted index inside ▸ used)
      obtain ⟨address, member⟩ := List.exists_mem_of_length_pos items
      have held := (chains.held address).mpr ⟨index, inside, member⟩
      simp [none] at held
    · rw [begin_, ended]
      rfl

include chains counted in
/-- Where the index does not survive, the iteration does not end. -/
theorem Chains.not_visits {index turns : Nat} (inside : index < map.buckets) (used : map.counts index ≠ 0)
    (before : ∀ earlier < index, map.counts earlier = 0) (wrong : intParameter index ≠ index) :
    visits map turns (begin_ map) = none := by
  rcases beginLoop_cases map 0 with ⟨first, inside', _, used', before', found, _⟩ | ⟨unused, _⟩
  · have same : first = index := by
      by_contra different
      rcases Nat.lt_or_gt_of_ne different with early | late
      · exact used' (before first early)
      · exact used (before' index late (Nat.zero_le _))
    subst same
    rw [begin_, found, iterator]
    obtain ⟨address, rest, split⟩ := List.exists_cons_of_length_pos
      (Nat.pos_of_ne_zero (counted first inside ▸ used))
    rw [chains.getFirstEntry inside split]
    exact chains.visits_wrong inside wrong (by simp [split])
  · exact (used (unused index inside (Nat.zero_le _))).elim

end

/-- Up to 2^31 buckets every index survives. -/
theorem firstFits_of_small (small : map.buckets ≤ 2 ^ 31) : FirstFits map :=
  fun _ inside _ _ => intParameter_eq (Nat.lt_of_lt_of_le inside small)

/-- In every run whose erases all find an entry, iterating visits the entries bucket by
bucket in the order they were inserted exactly if the index of the first bucket with
entries survives in an `int`. -/
theorem iterates_iff_firstFits {size : Nat} {counts : Nat → Nat} {links : ListMemory Node}
    {history : List (HashMap Key Value × Operation Key Value)} (bounded : size < 2 ^ 64)
    (run : Run (step functions) (setup (new counts links) size) history map)
    (stored : Meets (ErasesStored functions) history) : Iterates functions history map ↔ FirstFits map := by
  obtain ⟨chain, chains, buckets, ordered⟩ := ordered_of_run run
  subst buckets
  have right := (run.always_iff (fun reached => chains_of_reachable reached) setup_counted counted_step_iff).mpr
    stored map (List.mem_cons_self ..)
  have counted := chains.counted_iff.mp right
  constructor
  · intro iterates index inside used before
    by_contra wrong
    obtain ⟨turns, visited⟩ := iterates.visited
    rw [chains.not_visits counted inside used before wrong] at visited
    cases visited
  · exact chains.iterates counted ordered bounded

def plainKeys : KeyFunctions Nat where
  hashfunc key _ := key
  keycmp key other _ := key == other

/-- Two entries of one bucket and one of another. -/
theorem iterates_iff_firstFits_three : ∃ (history : List _) (map : HashMap Nat Nat),
    Run (step plainKeys) (setup (new (fun _ => 0) (fun _ => ⟨none, none⟩)) 3) history map ∧
      Meets (ErasesStored plainKeys) history ∧ Iterates plainKeys history map ∧
      (map.entries 16).isSome = true ∧ (map.entries 48).isSome = true := by
  have executed : (execute (guarded (step plainKeys) (ErasesStored plainKeys))
      (setup (new (fun _ => 0) (fun _ => ⟨none, none⟩)) 3 : HashMap Nat Nat)
      [.insert 4 4 10 16, .insert 2 4 20 32, .insertIfAbsent 1 4 30 48, .insert 5 4 40 64, .erase 2 4]).map
        (fun map => decide (map.buckets ≤ 2 ^ 31 ∧ (map.entries 16).isSome = true ∧
          (map.entries 48).isSome = true)) = some true := by
    decide +kernel
  obtain ⟨history, map, run, meets, small, present⟩ := exists_guarded executed
  exact ⟨history, map, run, meets,
    (iterates_iff_firstFits (by decide) run meets).mpr (firstFits_of_small small), present⟩

private theorem Chains.exists_not_iterates {empty : HashMap Nat Nat} {index : Nat}
    (chains : Chains empty (fun _ => []))
    (unused : ∀ index < empty.buckets, empty.counts index = 0) (free : empty.entries 16 = none)
    (inside : index < empty.buckets) (wrong : intParameter index ≠ index) :
    ∃ map, step plainKeys empty (.insert index 4 0 16) = some map ∧
      ∀ history, ¬ Iterates plainKeys history map := by
  obtain ⟨map, inserted⟩ := insertEntry_supplied ⟨by decide, by decide, free⟩ index index 4 0
  have first_ : HashMap.bucket plainKeys empty index 4 = some index := by
    rw [chains.bucket (Nat.zero_lt_of_lt inside) index 4]
    exact congrArg some (Nat.mod_eq_of_lt inside)
  have taken : step plainKeys empty (.insert index 4 0 16) = some map := by
    simp [step, perform, HashMap.insert, first_, inserted]
  refine ⟨map, taken, fun history iterates => ?_⟩
  have chains' := chains.insertEntry inside inserted
  have counted' := chains.counted_insertEntry unused inside inserted
  obtain ⟨_, _, _, same⟩ := insertEntry_cases inserted
  subst same
  have used : Function.update empty.counts index ((empty.counts index + 1) % 2 ^ 64) index ≠ 0 := by
    simp [unused index inside]
  have before : ∀ earlier < index,
      Function.update empty.counts index ((empty.counts index + 1) % 2 ^ 64) earlier = 0 := by
    intro earlier early
    rw [Function.update_of_ne (Nat.ne_of_lt early)]
    exact unused earlier (Nat.lt_trans early inside)
  obtain ⟨turns, visited⟩ := iterates.visited
  rw [chains'.not_visits counted' inside used before wrong] at visited
  cases visited

/-- A table of 2^31 + 1 buckets, with one entry in the last of them. -/
theorem iterates_far : ¬ ∀ (size : Nat) (counts : Nat → Nat) (links : ListMemory Node) (history : List _)
    (map : HashMap Nat Nat), size < 2 ^ 64 → Run (step plainKeys) (setup (new counts links) size) history map →
      Meets (ErasesStored plainKeys) history → Iterates plainKeys history map := by
  intro claim
  have last : ∀ size, 2 ^ 31 < size → size < 2 ^ 64 → False := by
    intro size inside bounded
    have chains : Chains (setup (new (fun _ => 0) (fun _ => ⟨none, none⟩)) size : HashMap Nat Nat)
        (fun _ => []) := setup_chains size _ _
    obtain ⟨map, taken, fails⟩ := chains.exists_not_iterates
      (by rw [setup_buckets]; exact setup_counts _ _) (by rw [setup_entries]) (by rwa [setup_buckets])
      (show intParameter (2 ^ 31) ≠ 2 ^ 31 by decide)
    exact fails _ (claim size _ _ _ map bounded (Run.start.next taken) (by simp [Meets, ErasesStored]))
  exact last (2 ^ 31 + 1) (by decide) (by decide)

end ProcessAsThread.HashMap
