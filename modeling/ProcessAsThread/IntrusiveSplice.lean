import ProcessAsThread.IntrusiveRing

/-! The functions of list.h that move a whole list at once. -/

namespace ProcessAsThread

open Library

variable {Node : Type} [DecidableEq Node] {memory : ListMemory Node}
variable {list where_ dest src head : Option Node} {xs ys : List (Option Node)}

/-! `listInsertList`: by the time of its second link, `list->prev` is `where` and
`where->next` is `list`, so that it only repeats the first. -/

theorem links_listInsertList (memory : ListMemory Node) (list where_ : Option Node) :
    (listInsertList memory list where_).nexts = Function.update memory.nexts where_ list ∧
    (listInsertList memory list where_).prevs = Function.update memory.prevs list where_ := by
  have back : (listLink memory where_ list).prevs list = where_ := by simp [listLink]
  have forth : (listLink memory where_ list).nexts where_ = list := by simp [listLink]
  simp only [ListMemory.prevs, ListMemory.nexts] at back forth
  simp only [listInsertList, back, forth]
  simp [listLink]

/-- The last node of the list still leads to the first one, which now comes after
`where`: no ring is left at the head. -/
theorem listInsertList_broken {us zs : List (Option Node)} (target : memory.IsRing head (xs ++ ys))
    (place : head :: xs = us ++ [where_]) (source : memory.IsRing list zs)
    (apart : ∀ node ∈ list :: zs, node ∉ head :: (xs ++ ys)) (joined : List (Option Node)) :
    ¬ (listInsertList memory list where_).IsRing head joined := by
  intro ring
  obtain ⟨nexts, prevs⟩ := links_listInsertList memory list where_
  have where_in : where_ ∈ head :: (xs ++ ys) := before_mem place
  have other : ∀ node ∈ list :: zs, node ≠ where_ := fun node member =>
    ne_of_mem_of_not_mem where_in (apart node member) |>.symm
  -- Everything up to `where`, then the whole list, can be reached from the head.
  have upTo : ∀ node ∈ head :: xs, node ∈ head :: joined := by
    obtain ⟨behind, ws, right⟩ := exists_behind head ys
    have linked := (target.cut place right).1
    have distinct : (us ++ [where_]).Nodup := place ▸ target.distinct.sublist (by simp)
    rw [← place] at linked
    refine ring.reaches linked (List.mem_cons_self ..) fun node member => ?_
    rw [place, List.dropLast_concat] at member
    have before : node ≠ where_ := (List.nodup_append.mp distinct).2.2 node member where_ (by simp)
    rw [nexts, Function.update_of_ne before]
  have reached : where_ ∈ head :: joined := upTo where_ (place ▸ by simp)
  have entered : list ∈ head :: joined := by
    have following := (ring.step reached).1
    rwa [nexts, Function.update_self] at following
  obtain ⟨vs, last, ends⟩ := exists_before list zs
  have last_in : last ∈ list :: zs := ends ▸ by simp
  have whole : memory.IsRing list (zs ++ []) := by rwa [List.append_nil]
  obtain ⟨linked, edge, _⟩ := whole.cut ends (List.nil_append [list])
  rw [← ends] at linked
  have all : ∀ node ∈ list :: zs, node ∈ head :: joined := by
    refine ring.reaches linked entered fun node member => ?_
    rw [nexts, Function.update_of_ne (other node (List.dropLast_subset _ member))]
  have closing := (ring.step (all last last_in)).2
  rw [nexts, Function.update_of_ne (other last last_in), edge.forth, prevs, Function.update_self] at closing
  exact other last last_in closing.symm

/-- The nodes of the list, from `list` on, between `where` and what came after it. -/
def Spliced (memory : ListMemory Node) (list where_ head : Option Node)
    (before inner behind : List (Option Node)) : Prop :=
  (listInsertList memory list where_).IsRing head (before ++ list :: inner ++ behind)

theorem listInsertList_never_splices {us inner : List (Option Node)} (target : memory.IsRing head (xs ++ ys))
    (place : head :: xs = us ++ [where_]) (source : memory.IsRing list inner)
    (apart : ∀ node ∈ list :: inner, node ∉ head :: (xs ++ ys)) :
    ¬ Spliced memory list where_ head xs inner ys := listInsertList_broken target place source apart _

def threeRings : ListMemory Nat
  | some 0 => ⟨some 1, some 1⟩
  | some 1 => ⟨some 0, some 0⟩
  | some 2 => ⟨some 3, some 3⟩
  | some 3 => ⟨some 2, some 2⟩
  | some 4 => ⟨some 4, some 4⟩
  | _ => ⟨none, none⟩

theorem threeRings_rings : threeRings.IsRing (some 0) [some 1] ∧ threeRings.IsRing (some 2) [some 3] ∧
    threeRings.IsRing (some 4) [] :=
  ⟨ring_single ⟨rfl, rfl⟩ ⟨rfl, rfl⟩ (by decide), ring_single ⟨rfl, rfl⟩ ⟨rfl, rfl⟩ (by decide),
    ring_nil rfl rfl⟩

theorem listInsertList_never_splices_three :
    threeRings.IsRing (some 0) [some 1] ∧ threeRings.IsRing (some 2) [some 3] ∧
      ¬ Spliced threeRings (some 2) (some 0) (some 0) [] [some 3] [some 1] :=
  ⟨threeRings_rings.1, threeRings_rings.2.1,
    listInsertList_never_splices threeRings_rings.1 (List.nil_append [some 0]).symm threeRings_rings.2.1
      (by decide)⟩

/-- After the call the list 0 leads to 2, 3 and 2 again. -/
theorem listInsertList_three :
    ¬ ∀ (memory : ListMemory Nat) (list where_ head : Option Nat) (xs ys us inner : List (Option Nat)),
      memory.IsRing head (xs ++ ys) → head :: xs = us ++ [where_] → memory.IsRing list inner →
      (∀ node ∈ list :: inner, node ∉ head :: (xs ++ ys)) → Spliced memory list where_ head xs inner ys := by
  intro claim
  have spliced := claim threeRings (some 2) (some 0) (some 0) [] [some 1] [] [some 3] threeRings_rings.1 rfl
    threeRings_rings.2.1 (by decide)
  have following := (spliced.step (by simp : some 3 ∈ _)).2
  exact absurd following (by decide)

/-! `listRetrieveAllItems`: with no items, the first and the last node it relinks are
`src` itself. -/

/-- What the call should do: the items go to `dest` in their order, and `src` is left empty. -/
structure Retrieved (memory : ListMemory Node) (dest src : Option Node) (items : List (Option Node)) : Prop where
  dest_ring : memory.IsRing dest items
  apart : src ∉ dest :: items
  src_ring : memory.IsRing src []

theorem links_listRetrieveAllItems {first last : Option Node} (memory : ListMemory Node) (dest : Option Node)
    (following : memory.nexts src = first) (preceding : memory.prevs src = last) :
    (listRetrieveAllItems memory dest src).nexts =
      Function.update (Function.update (Function.update memory.nexts last dest) dest first) src src ∧
    (listRetrieveAllItems memory dest src).prevs =
      Function.update (Function.update (Function.update memory.prevs first dest) dest last) src src := by
  simp only [ListMemory.nexts, ListMemory.prevs] at following preceding
  simp [listRetrieveAllItems, nodeInit, following, preceding]

/-- The head of an empty list is its own first node: `dest` is linked to it. -/
theorem not_retrieved_of_empty (source : memory.IsRing src []) (different : dest ≠ src) :
    ¬ (listRetrieveAllItems memory dest src).IsRing dest [] := by
  intro ring
  obtain ⟨following, preceding⟩ := source.links_nil
  have linked := ring.links_nil.1
  rw [(links_listRetrieveAllItems memory dest following preceding).1, Function.update_of_ne different,
    Function.update_self] at linked
  exact different linked.symm

theorem retrieved_of_items (source : memory.IsRing src xs) (different : dest ≠ src) (items : xs ≠ [])
    (outside : dest ∉ xs) : Retrieved (listRetrieveAllItems memory dest src) dest src xs := by
  obtain ⟨first, vs, starts⟩ := List.exists_cons_of_ne_nil items
  obtain ⟨us, last, ends⟩ : ∃ us last, xs = us ++ [last] :=
    ⟨_, _, (List.dropLast_append_getLast items).symm⟩
  obtain ⟨entering, linked, leaving, distinct⟩ := (ring_iff starts ends).mp source
  obtain ⟨nexts, prevs⟩ := links_listRetrieveAllItems memory dest entering.forth leaving.back
  obtain ⟨src_out, distinct⟩ := List.nodup_cons.mp distinct
  have other : ∀ node ∈ xs, node ≠ src ∧ node ≠ dest := fun node member =>
    ⟨ne_of_mem_of_not_mem member src_out, ne_of_mem_of_not_mem member outside⟩
  have first_in : first ∈ xs := starts ▸ List.mem_cons_self ..
  have last_in : last ∈ xs := ends ▸ List.mem_append_right _ (List.mem_singleton_self _)
  refine ⟨(ring_iff starts ends).mpr ⟨⟨?_, ?_⟩, ?_, ⟨?_, ?_⟩, List.nodup_cons.mpr ⟨outside, distinct⟩⟩, ?_,
    nodeInit_ring⟩
  · simp [nexts, different]
  · simp [prevs, other first first_in]
  · refine linked.frame_inside starts ends distinct (fun a member before => ?_) (fun b member after => ?_)
    · simp [nexts, before, other a member]
    · simp [prevs, after, other b member]
  · simp [nexts, other last last_in]
  · simp [prevs, different]
  · exact List.not_mem_cons_of_ne_of_not_mem (Ne.symm different) src_out

theorem listRetrieveAllItems_iff (source : memory.IsRing src xs) (different : dest ≠ src) :
    Retrieved (listRetrieveAllItems memory dest src) dest src xs ↔ xs ≠ [] ∧ dest ∉ xs := by
  constructor
  · intro retrieved
    refine ⟨fun empty => ?_, (List.nodup_cons.mp retrieved.dest_ring.distinct).1⟩
    subst empty
    exact not_retrieved_of_empty source different retrieved.dest_ring
  · intro ⟨items, outside⟩
    exact retrieved_of_items source different items outside

theorem listRetrieveAllItems_three :
    Retrieved (listRetrieveAllItems threeRings (some 4) (some 2)) (some 4) (some 2) [some 3] ∧
      ¬ Retrieved (listRetrieveAllItems threeRings (some 0) (some 4)) (some 0) (some 4) [] := by
  constructor
  · exact (listRetrieveAllItems_iff threeRings_rings.2.1 (by decide)).mpr (by decide)
  · exact fun retrieved => ((listRetrieveAllItems_iff threeRings_rings.2.2 (by decide)).mp retrieved).1 rfl

/-- The list of 4 is empty: 0 is left linked to 4. -/
theorem listRetrieveAllItems_empty :
    ¬ ∀ (memory : ListMemory Nat) (dest src : Option Nat) (ys xs : List (Option Nat)),
      memory.IsRing dest ys → memory.IsRing src xs → (∀ node ∈ dest :: ys, node ∉ src :: xs) →
      Retrieved (listRetrieveAllItems memory dest src) dest src xs := by
  intro claim
  have retrieved := claim threeRings (some 0) (some 4) [some 1] [] threeRings_rings.1 threeRings_rings.2.2
    (by decide)
  exact not_retrieved_of_empty threeRings_rings.2.2 (by decide) retrieved.dest_ring

/-! `listInsertListTail`: with no items to move, the second link repairs what the
first has done. -/

theorem links_listInsertListTail {tail first last : Option Node} (memory : ListMemory Node)
    (preceding : memory.prevs where_ = tail) (following : memory.nexts list = first)
    (ending : Function.update memory.prevs first tail list = last) :
    (listInsertListTail memory list where_).nexts =
      Function.update (Function.update memory.nexts tail first) last where_ ∧
    (listInsertListTail memory list where_).prevs =
      Function.update (Function.update memory.prevs first tail) where_ last := by
  have back : (listLink memory tail first).prevs list = last := by simpa [listLink] using ending
  simp only [ListMemory.nexts, ListMemory.prevs] at following preceding back
  simp only [listInsertListTail, following, preceding, back]
  simp [listLink]

private theorem listInsertListTail_empty (source : memory.IsRing list []) (target : memory.IsRing where_ ys)
    (outside : list ∉ where_ :: ys) : (listInsertListTail memory list where_).IsRing where_ ys := by
  obtain ⟨us, tail, left⟩ := exists_before where_ ys
  have whole : memory.IsRing where_ (ys ++ []) := by rwa [List.append_nil]
  obtain ⟨_, edge, _⟩ := whole.cut left (List.nil_append [where_])
  obtain ⟨nexts, prevs⟩ := links_listInsertListTail memory edge.back source.links_nil.1 (Function.update_self ..)
  refine target.frame (fun a member => ?_) (fun b member => ?_)
  · by_cases last : a = tail
    · simp [nexts, last, edge.forth]
    · simp [nexts, last]
  · by_cases first : b = where_
    · simp [prevs, first, edge.back]
    · simp [prevs, first, ne_of_mem_of_not_mem member outside]

private theorem listInsertListTail_items (source : memory.IsRing list xs) (target : memory.IsRing where_ ys)
    (apart : ∀ node ∈ list :: xs, node ∉ where_ :: ys) (items : xs ≠ []) :
    (listInsertListTail memory list where_).IsRing where_ (ys ++ xs) := by
  obtain ⟨first, vs, starts⟩ := List.exists_cons_of_ne_nil items
  obtain ⟨inner, last, ends⟩ : ∃ inner last, xs = inner ++ [last] :=
    ⟨_, _, (List.dropLast_append_getLast items).symm⟩
  obtain ⟨entering, linked, leaving, distinct⟩ := (ring_iff starts ends).mp source
  obtain ⟨us, tail, left⟩ := exists_before where_ ys
  have whole : memory.IsRing where_ (ys ++ []) := by rwa [List.append_nil]
  obtain ⟨upTo, edge, _⟩ := whole.cut left (List.nil_append [where_])
  obtain ⟨list_out, distinct⟩ := List.nodup_cons.mp distinct
  have first_in : first ∈ xs := starts ▸ List.mem_cons_self ..
  have last_in : last ∈ xs := ends ▸ List.mem_append_right _ (List.mem_singleton_self _)
  have tail_in : tail ∈ where_ :: ys := left ▸ List.mem_append_right _ (List.mem_singleton_self _)
  have other : ∀ node ∈ xs, ∀ node' ∈ where_ :: ys, node ≠ node' := fun node member node' member' =>
    (ne_of_mem_of_not_mem member' (apart node (List.mem_cons_of_mem _ member))).symm
  have ending : Function.update memory.prevs first tail list = last := by
    rw [Function.update_of_ne (ne_of_mem_of_not_mem first_in list_out).symm]
    exact leaving.back
  obtain ⟨nexts, prevs⟩ := links_listInsertListTail memory edge.back entering.forth ending
  have whole : (where_ :: (ys ++ xs)).Nodup :=
    List.nodup_append.mpr ⟨target.distinct, distinct, fun a member b member' => (other b member' a member).symm⟩
  have right : xs ++ [where_] = first :: (vs ++ [where_]) := by rw [starts, List.cons_append]
  refine ring_of_cut left right whole ?_ ⟨?_, ?_⟩ ?_
  · rw [← left] at upTo ⊢
    refine upTo.frame_inside rfl left target.distinct (fun a member before => ?_) (fun b member after => ?_)
    · simp [nexts, before, (other last last_in a member).symm]
    · simp [prevs, after, (other first first_in b member).symm]
  · simp [nexts, (other last last_in tail tail_in).symm]
  · simp [prevs, other first first_in where_ (List.mem_cons_self ..)]
  · rw [← right, ends, List.append_assoc, List.singleton_append]
    refine linked_split.mpr ⟨?_, List.isChain_pair.mpr ⟨?_, ?_⟩⟩
    · rw [← ends]
      refine linked.frame_inside starts ends distinct (fun a member before => ?_) (fun b member after => ?_)
      · simp [nexts, before, other a member tail tail_in]
      · simp [prevs, after, other b member where_ (List.mem_cons_self ..)]
    · simp [nexts]
    · simp [prevs]

theorem listInsertListTail_concatenates (source : memory.IsRing list xs) (target : memory.IsRing where_ ys)
    (apart : ∀ node ∈ list :: xs, node ∉ where_ :: ys) :
    (listInsertListTail memory list where_).IsRing where_ (ys ++ xs) ∧ list ∉ where_ :: (ys ++ xs) := by
  have list_out := apart list (List.mem_cons_self ..)
  constructor
  · by_cases empty : xs = []
    · subst empty
      rw [List.append_nil]
      exact listInsertListTail_empty source target list_out
    · exact listInsertListTail_items source target apart empty
  · have outside := (List.nodup_cons.mp source.distinct).1
    simp only [List.mem_cons, List.mem_append, not_or] at list_out ⊢
    exact ⟨list_out.1, list_out.2, outside⟩

theorem listInsertListTail_three :
    (listInsertListTail threeRings (some 2) (some 0)).IsRing (some 0) [some 1, some 3] ∧
      (listInsertListTail threeRings (some 4) (some 0)).IsRing (some 0) [some 1] :=
  ⟨(listInsertListTail_concatenates threeRings_rings.2.1 threeRings_rings.1 (by decide)).1,
    (listInsertListTail_concatenates threeRings_rings.2.2 threeRings_rings.1 (by decide)).1⟩

end ProcessAsThread
