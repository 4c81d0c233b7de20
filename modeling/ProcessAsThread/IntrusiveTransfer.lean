import ProcessAsThread.IntrusiveSequence
import ProcessAsThread.IntrusiveSplice

/-! Whole lists moved from head to head, among the calls that move single nodes. The
memory still holds what the calls make of the lists. -/

namespace ProcessAsThread

open Library

variable {Node : Type} [DecidableEq Node]

/-- The last entry, or NULL. -/
def tailList (memory : ListMemory Node) (head : Option Node) : Option Node :=
  if isListEmpty memory head then none else (memory head).prev

/-- The calls of list.h on well-formed lists. -/
inductive ListCall (Node : Type) where
  | single (operation : ListOperation Node)
  | listInit (node : Node)
  | listInsertListTail (list where_ : Node)
  | listRetrieveAllItems (dest src : Node)
  | tailList (head : Node)

/-- The memory after the call, and the entry it returns. -/
def ListCall.perform (memory : ListMemory Node) : ListCall Node → Option Node × ListMemory Node
  | single operation => operation.perform memory
  | listInit node => (none, nodeInit memory node)
  | listInsertListTail list where_ => (none, ProcessAsThread.listInsertListTail memory list where_)
  | listRetrieveAllItems dest src => (none, ProcessAsThread.listRetrieveAllItems memory dest src)
  | tailList head => (ProcessAsThread.tailList memory head, memory)

namespace Lists

/-- A node becomes a head, the head `list` hands over its items and is a head no more, or
the items of `src` become those of `dest`. -/
def call (lists : Lists Node) : ListCall Node → Lists Node
  | .single operation => lists.apply operation
  | .listInit node =>
    { items := Function.update lists.items node (some [])
      removed := fun other => lists.removed other ∧ other ≠ node }
  | .listInsertListTail list where_ =>
    { lists with
      items := Function.update (Function.update lists.items where_
        (some ((lists.items where_).getD [] ++ (lists.items list).getD []))) list none }
  | .listRetrieveAllItems dest src =>
    { items := Function.update (Function.update lists.items dest (lists.items src)) src (some [])
      removed := fun other => lists.removed other ∧ other ≠ dest }
  | .tailList _ => lists

def returned (lists : Lists Node) : ListCall Node → Option Node
  | .single operation => lists.result operation
  | .tailList head => (lists.items head).bind List.getLast?
  | _ => none

/-- Items go to a node that has none, from a list that has some. -/
def Allows (lists : Lists Node) : ListCall Node → Prop
  | .single operation => lists.Permits operation
  | .listInit node => lists.Free node
  | .listInsertListTail list where_ => list ≠ where_ ∧
    (∃ items, lists.items list = some items) ∧ ∃ items, lists.items where_ = some items
  | .listRetrieveAllItems dest src => dest ≠ src ∧ (lists.Free dest ∨ lists.items dest = some []) ∧
    ∃ items, lists.items src = some items ∧ items ≠ []
  | .tailList head => ∃ items, lists.items head = some items

/-- The nodes that are `mine` are linked anew, and what other lists are made of stays as it is. -/
structure Regroups (lists after : Lists Node) (memory later : ListMemory Node) (mine : Node → Prop) : Prop where
  rings : ∀ head items, after.items head = some items → mine head →
    later.IsRing (some head) (items.map some) ∧ ∀ node ∈ items, mine node
  apart : ∀ head items other others, after.items head = some items → after.items other = some others →
    mine head → mine other → head ≠ other → ∀ node ∈ head :: items, node ∉ other :: others
  elsewhere : ∀ head items, after.items head = some items → ¬ mine head → lists.items head = some items
  outside : ∀ head items, lists.items head = some items → ¬ mine head → ∀ node ∈ items, ¬ mine node
  removed : ∀ node, after.removed node → lists.removed node ∧ ¬ mine node
  frame : ∀ node, ¬ mine node → later (some node) = memory (some node)

variable {lists after : Lists Node} {memory later : ListMemory Node} {mine : Node → Prop}

omit [DecidableEq Node] in
theorem Regroups.divides (regroups : Regroups lists after memory later mine) {head : Node} {items : List Node}
    (found : after.items head = some items) :
    (mine head ∧ ∀ node ∈ head :: items, mine node) ∨
      lists.items head = some items ∧ ∀ node ∈ head :: items, ¬ mine node := by
  by_cases own : mine head
  · exact .inl ⟨own, List.forall_mem_cons.mpr ⟨own, (regroups.rings head items found own).2⟩⟩
  · have old := regroups.elsewhere head items found own
    exact .inr ⟨old, List.forall_mem_cons.mpr ⟨own, regroups.outside head items old own⟩⟩

omit [DecidableEq Node] in
private theorem Holds.regroup (holds : lists.Holds memory) (mine : Node → Prop)
    (regroups : Regroups lists after memory later mine) :
    after.Holds later := by
  constructor
  case rings =>
    intro head items found
    rcases regroups.divides found with ⟨own, _⟩ | ⟨old, others⟩
    · exact (regroups.rings head items found own).1
    · have same : ∀ pointer ∈ some head :: items.map some, later pointer = memory pointer := by
        intro pointer member
        rw [← List.map_cons] at member
        obtain ⟨node, listed, rfl⟩ := List.mem_map.mp member
        exact regroups.frame node (others node listed)
      refine (holds.rings head items old).frame (fun a member => ?_) (fun b member => ?_)
      · rw [ListMemory.nexts, same a member, ListMemory.nexts]
      · rw [ListMemory.prevs, same b member, ListMemory.prevs]
  case apart =>
    intro head items other others found found' different node member member'
    rcases regroups.divides found with ⟨own, all⟩ | ⟨old, none⟩
    · rcases regroups.divides found' with ⟨own', _⟩ | ⟨_, none'⟩
      · exact regroups.apart head items other others found found' own own' different node member member'
      · exact none' node member' (all node member)
    · rcases regroups.divides found' with ⟨_, all'⟩ | ⟨old', _⟩
      · exact none node member (all' node member')
      · exact holds.apart head items other others old old' different node member member'
  case free =>
    intro node removed head items found member
    obtain ⟨older, away⟩ := regroups.removed node removed
    rcases regroups.divides found with ⟨_, all⟩ | ⟨old, _⟩
    · exact away (all node member)
    · exact holds.free node older head items old member
  case selfLinked =>
    intro node removed
    obtain ⟨older, away⟩ := regroups.removed node removed
    rw [regroups.frame node away]
    exact holds.selfLinked node older

end Lists

omit [DecidableEq Node] in
private theorem memory_congr {memory later : ListMemory Node} {node : Option Node}
    (forth : later.nexts node = memory.nexts node) (back : later.prevs node = memory.prevs node) :
    later node = memory node := congrArg₂ ListNode.mk back forth

namespace Lists

variable {lists : Lists Node} {memory : ListMemory Node}

theorem Holds.listInit (holds : lists.Holds memory) {node : Node} (free : lists.Free node) :
    (lists.call (.listInit node)).Holds (nodeInit memory node) := by
  refine holds.regroup (· = node) ⟨?_, ?_, ?_, ?_, fun other removed => removed, ?_⟩
  · intro head items found same
    subst same
    cases (Function.update_self ..).symm.trans found
    exact ⟨nodeInit_ring, by simp⟩
  · exact fun _ _ _ _ _ _ same same' different => absurd (same.trans same'.symm) different
  · exact fun head items found away => (Function.update_of_ne away ..).symm.trans found
  · intro head items old _ other member same
    exact free head items old (List.mem_cons_of_mem _ (same ▸ member))
  · intro other away
    have different : some other ≠ some node := by simpa using away
    exact memory_congr (by simp [nodeInit, different]) (by simp [nodeInit, different])

section

variable {list where_ dest src : Node} {xs ys : List Node}

theorem items_listInsertListTail {head : Node} {items : List Node} (source : lists.items list = some xs)
    (target : lists.items where_ = some ys)
    (found : (lists.call (.listInsertListTail list where_)).items head = some items) :
    head = where_ ∧ items = ys ++ xs ∨ head ≠ list ∧ head ≠ where_ ∧ lists.items head = some items := by
  simp only [call, source, target, Option.getD_some] at found
  by_cases emptied : head = list
  · subst emptied
    rw [Function.update_self] at found
    cases found
  · rw [Function.update_of_ne emptied] at found
    by_cases filled : head = where_
    · subst filled
      rw [Function.update_self] at found
      exact .inl ⟨rfl, (Option.some.inj found).symm⟩
    · rw [Function.update_of_ne filled] at found
      exact .inr ⟨emptied, filled, found⟩

theorem items_listRetrieveAllItems {head : Node} {items : List Node} (source : lists.items src = some xs)
    (found : (lists.call (.listRetrieveAllItems dest src)).items head = some items) :
    head = src ∧ items = [] ∨ head = dest ∧ items = xs ∨
      head ≠ src ∧ head ≠ dest ∧ lists.items head = some items := by
  simp only [call, source] at found
  by_cases emptied : head = src
  · subst emptied
    rw [Function.update_self] at found
    exact .inl ⟨rfl, (Option.some.inj found).symm⟩
  · rw [Function.update_of_ne emptied] at found
    by_cases filled : head = dest
    · subst filled
      rw [Function.update_self] at found
      exact .inr (.inl ⟨rfl, (Option.some.inj found).symm⟩)
    · rw [Function.update_of_ne filled] at found
      exact .inr (.inr ⟨emptied, filled, found⟩)

end

end Lists

section

variable {memory : ListMemory Node} {list where_ dest src node : Option Node} {xs ys : List (Option Node)}

omit [DecidableEq Node] in
private theorem prev_mem (ring : memory.IsRing list xs) : memory.prevs list ∈ list :: xs := by
  obtain ⟨us, before, left⟩ := exists_before list xs
  rw [ring.prev_head left, left]
  exact List.mem_append_right _ (List.mem_singleton_self _)

/-- The nodes of other lists keep their links. -/
theorem listInsertListTail_frame (source : memory.IsRing list xs) (target : memory.IsRing where_ ys)
    (outside : node ∉ list :: xs) (outside' : node ∉ where_ :: ys) :
    listInsertListTail memory list where_ node = memory node := by
  have tail := prev_mem target
  have first := (source.step (List.mem_cons_self ..)).1
  have last : (Function.update memory.prevs (memory.nexts list) (memory.prevs where_)) list ∈ list :: xs ∨
      (Function.update memory.prevs (memory.nexts list) (memory.prevs where_)) list ∈ where_ :: ys := by
    by_cases empty : list = memory.nexts list
    · exact .inr (by rwa [← empty, Function.update_self])
    · exact .inl (by rw [Function.update_of_ne empty]; exact prev_mem source)
  obtain ⟨nexts, prevs⟩ := @links_listInsertListTail Node _ list where_ _ _ _ memory rfl rfl rfl
  have last_ne : node ≠ (Function.update memory.prevs (memory.nexts list) (memory.prevs where_)) list := by
    intro same
    rw [← same] at last
    exact last.elim outside outside'
  refine memory_congr ?_ ?_
  · rw [nexts, Function.update_of_ne last_ne, Function.update_of_ne (ne_of_mem_of_not_mem tail outside').symm]
  · rw [prevs, Function.update_of_ne (ne_of_mem_of_not_mem (List.mem_cons_self ..) outside').symm,
      Function.update_of_ne (ne_of_mem_of_not_mem first outside).symm]

theorem listRetrieveAllItems_frame (source : memory.IsRing src xs) (outside : node ∉ src :: xs)
    (different : node ≠ dest) : listRetrieveAllItems memory dest src node = memory node := by
  have first := (source.step (List.mem_cons_self ..)).1
  have last := prev_mem source
  have first_ne := (ne_of_mem_of_not_mem first outside).symm
  have last_ne := (ne_of_mem_of_not_mem last outside).symm
  have src_ne : node ≠ src := List.ne_of_not_mem_cons outside
  obtain ⟨nexts, prevs⟩ := @links_listRetrieveAllItems Node _ src _ _ memory dest rfl rfl
  refine memory_congr ?_ ?_
  · rw [nexts, Function.update_of_ne src_ne, Function.update_of_ne different, Function.update_of_ne last_ne]
  · rw [prevs, Function.update_of_ne src_ne, Function.update_of_ne different, Function.update_of_ne first_ne]

end

namespace Lists

variable {lists : Lists Node} {memory : ListMemory Node} {list where_ dest src : Node} {xs ys : List Node}

theorem Holds.listInsertListTail (holds : lists.Holds memory) (different : list ≠ where_)
    (source : lists.items list = some xs) (target : lists.items where_ = some ys) :
    (lists.call (.listInsertListTail list where_)).Holds (listInsertListTail memory list where_) := by
  have listed := holds.rings list xs source
  have wanted := holds.rings where_ ys target
  have split : ∀ head items, lists.items head = some items → head ≠ list → head ≠ where_ →
      ∀ node ∈ head :: items, ¬ (node ∈ list :: xs ∨ node ∈ where_ :: ys) := by
    intro head items found away away' node member mine
    rcases mine with own | own
    · exact holds.apart head items list xs found source away node member own
    · exact holds.apart head items where_ ys found target away' node member own
  refine holds.regroup (fun node => node ∈ list :: xs ∨ node ∈ where_ :: ys) ⟨?_, ?_, ?_, ?_, ?_, ?_⟩
  · intro head items found own
    rcases items_listInsertListTail source target found with ⟨same, joined⟩ | ⟨away, away', old⟩
    · subst same joined
      have apart := pointers_apart (holds.apart list xs head ys source target different)
      refine ⟨?_, fun node member => ?_⟩
      · rw [List.map_append]
        exact (listInsertListTail_concatenates listed wanted apart).1
      · rcases List.mem_append.mp member with before | after
        · exact .inr (List.mem_cons_of_mem _ before)
        · exact .inl (List.mem_cons_of_mem _ after)
    · exact (split head items old away away' head (List.mem_cons_self ..) own).elim
  · intro head items other others found found' own own' apart
    rcases items_listInsertListTail source target found with ⟨same, _⟩ | ⟨away, away', old⟩
    · rcases items_listInsertListTail source target found' with ⟨same', _⟩ | ⟨away, away', old⟩
      · exact absurd (same.trans same'.symm) apart
      · exact (split other others old away away' other (List.mem_cons_self ..) own').elim
    · exact (split head items old away away' head (List.mem_cons_self ..) own).elim
  · intro head items found other
    rcases items_listInsertListTail source target found with ⟨same, _⟩ | ⟨_, _, old⟩
    · exact absurd (.inr (same ▸ List.mem_cons_self ..)) other
    · exact old
  · intro head items old other node member
    refine split head items old ?_ ?_ node (List.mem_cons_of_mem _ member)
    · exact fun same => other (.inl (same ▸ List.mem_cons_self ..))
    · exact fun same => other (.inr (same ▸ List.mem_cons_self ..))
  · intro node removed
    have free := holds.free node removed
    exact ⟨removed, not_or.mpr ⟨free list xs source, free where_ ys target⟩⟩
  · intro node other
    obtain ⟨away, away'⟩ := not_or.mp other
    exact listInsertListTail_frame listed wanted (by simpa using away) (by simpa using away')

theorem Holds.listRetrieveAllItems (holds : lists.Holds memory) (different : dest ≠ src)
    (bare : lists.Free dest ∨ lists.items dest = some []) (source : lists.items src = some xs) (some_ : xs ≠ []) :
    (lists.call (.listRetrieveAllItems dest src)).Holds (listRetrieveAllItems memory dest src) := by
  have listed := holds.rings src xs source
  have dest_out : dest ∉ src :: xs := by
    rcases bare with free | empty
    · exact free src xs source
    · exact holds.apart dest [] src xs empty source different dest (List.mem_cons_self ..)
  have retrieved : Retrieved (ProcessAsThread.listRetrieveAllItems memory dest src) dest src (xs.map some) :=
    retrieved_of_items listed (by simpa using different) (by simpa using some_)
      (by simpa using List.not_mem_of_not_mem_cons dest_out)
  have split : ∀ head items, lists.items head = some items → head ≠ src → head ≠ dest →
      ∀ node ∈ head :: items, ¬ (node = dest ∨ node ∈ src :: xs) := by
    intro head items found away away' node member mine
    rcases mine with same | own
    · rcases bare with free | empty
      · exact free head items found (same ▸ member)
      · exact holds.apart head items dest [] found empty away' node member (same ▸ List.mem_cons_self ..)
    · exact holds.apart head items src xs found source away node member own
  refine holds.regroup (fun node => node = dest ∨ node ∈ src :: xs) ⟨?_, ?_, ?_, ?_, ?_, ?_⟩
  · intro head items found own
    rcases items_listRetrieveAllItems source found with ⟨same, none⟩ | ⟨same, moved⟩ | ⟨away, away', old⟩
    · subst same none
      exact ⟨retrieved.src_ring, by simp⟩
    · subst same moved
      exact ⟨retrieved.dest_ring, fun node member => .inr (List.mem_cons_of_mem _ member)⟩
    · exact (split head items old away away' head (List.mem_cons_self ..) own).elim
  · intro head items other others found found' own own' apart
    have source_out : src ∉ dest :: xs := by
      have distinct := listed.distinct
      rw [← List.map_cons] at distinct
      exact List.not_mem_cons_of_ne_of_not_mem (Ne.symm different) (List.nodup_cons.mp distinct.of_map).1
    rcases items_listRetrieveAllItems source found with ⟨same, none⟩ | ⟨same, moved⟩ | ⟨away, away', old⟩
    · rcases items_listRetrieveAllItems source found' with ⟨same', _⟩ | ⟨same', moved'⟩ | ⟨away, away', old⟩
      · exact absurd (same.trans same'.symm) apart
      · subst same none same' moved'
        simpa using source_out
      · exact (split other others old away away' other (List.mem_cons_self ..) own').elim
    · rcases items_listRetrieveAllItems source found' with ⟨same', none'⟩ | ⟨same', _⟩ | ⟨away, away', old⟩
      · subst same moved same' none'
        intro node member member'
        rw [List.mem_singleton.mp member'] at member
        exact source_out member
      · exact absurd (same.trans same'.symm) apart
      · exact (split other others old away away' other (List.mem_cons_self ..) own').elim
    · exact (split head items old away away' head (List.mem_cons_self ..) own).elim
  · intro head items found other
    rcases items_listRetrieveAllItems source found with ⟨same, _⟩ | ⟨same, _⟩ | ⟨_, _, old⟩
    · exact absurd (.inr (same ▸ List.mem_cons_self ..)) other
    · exact absurd (.inl same) other
    · exact old
  · intro head items old other node member
    refine split head items old ?_ (fun same => other (.inl same)) node (List.mem_cons_of_mem _ member)
    exact fun same => other (.inr (same ▸ List.mem_cons_self ..))
  · intro node removed
    exact ⟨removed.1, not_or.mpr ⟨removed.2, holds.free node removed.1 src xs source⟩⟩
  · intro node other
    obtain ⟨away, away'⟩ := not_or.mp other
    exact listRetrieveAllItems_frame listed (by simpa using away') (by simpa using away)

private theorem tailList_eq {head : Node} {items : List Node}
    (ring : memory.IsRing (some head) (items.map some)) :
    tailList memory head = items.getLast? := by
  rcases List.eq_nil_or_concat items with none | ⟨rest, last, split⟩
  · subst none
    have linked : (memory (some head)).next = some head := ring.links_nil.1
    simp [tailList, isListEmpty, linked]
  · rw [List.concat_eq_append] at split
    subst split
    have left : some head :: (rest ++ [last]).map some = (some head :: rest.map some) ++ [some last] := by simp
    have back : (memory (some head)).prev = some last := ring.prev_head left
    have forth : (memory (some head)).next ≠ some head := by
      intro linked
      have around : (memory (memory (some head)).next).prev = some head := (ring.step (List.mem_cons_self ..)).2
      rw [linked, back] at around
      have distinct := ring.distinct
      simp [← Option.some.inj around] at distinct
    simp [tailList, isListEmpty, forth, back]

theorem Holds.call (holds : lists.Holds memory) {call : ListCall Node} (allowed : lists.Allows call) :
    (lists.call call).Holds (call.perform memory).2 ∧ (call.perform memory).1 = lists.returned call := by
  cases call with
  | single operation => exact holds.perform allowed
  | listInit node => exact ⟨holds.listInit allowed, rfl⟩
  | listInsertListTail list where_ =>
    obtain ⟨different, ⟨xs, source⟩, ys, target⟩ := allowed
    exact ⟨holds.listInsertListTail different source target, rfl⟩
  | listRetrieveAllItems dest src =>
    obtain ⟨different, bare, xs, source, some_⟩ := allowed
    exact ⟨holds.listRetrieveAllItems different bare source some_, rfl⟩
  | tailList head =>
    obtain ⟨items, found⟩ := allowed
    refine ⟨holds, ?_⟩
    simp only [ListCall.perform, returned, found, Option.bind_some]
    exact tailList_eq (holds.rings head items found)

def callAll (memory : ListMemory Node) : List (ListCall Node) → List (Option Node) × ListMemory Node
  | [] => ([], memory)
  | call :: rest =>
    let (returned, memory) := call.perform memory
    let (others, memory) := callAll memory rest
    (returned :: others, memory)

/-- What the calls make of the lists, and what they should return. -/
def meaning (lists : Lists Node) : List (ListCall Node) → List (Option Node) × Lists Node
  | [] => ([], lists)
  | call :: rest =>
    let (others, after) := meaning (lists.call call) rest
    (lists.returned call :: others, after)

def AllowsAll (lists : Lists Node) : List (ListCall Node) → Prop
  | [] => True
  | call :: rest => lists.Allows call ∧ AllowsAll (lists.call call) rest

/-- The memory holds what the calls make of the lists, single nodes and whole lists alike. -/
theorem calls_implement_lists {calls : List (ListCall Node)} (holds : lists.Holds memory)
    (allowed : lists.AllowsAll calls) :
    (lists.meaning calls).2.Holds (callAll memory calls).2 ∧
      (callAll memory calls).1 = (lists.meaning calls).1 := by
  induction calls generalizing lists memory with
  | nil => exact ⟨holds, rfl⟩
  | cons call rest ih =>
    obtain ⟨first, others⟩ := allowed
    obtain ⟨holds, returned⟩ := holds.call first
    obtain ⟨holds, later⟩ := ih holds others
    exact ⟨holds, congrArg₂ List.cons returned later⟩

/-- The items of one list go to the other, which hands them on to a new one. -/
theorem calls_implement_lists_twoLists :
    twoLists.Holds twoRings ∧
      twoLists.AllowsAll [.single (.insertHead 4 1), .listInsertListTail 0 1, .tailList 1, .listInit 0,
        .listRetrieveAllItems 0 1, .single (.retrieveItem 0), .tailList 1] ∧
      (callAll twoRings [.single (.insertHead 4 1), .listInsertListTail 0 1, .tailList 1, .listInit 0,
        .listRetrieveAllItems 0 1, .single (.retrieveItem 0), .tailList 1]).1 =
        [none, none, some 3, none, none, some 4, none] := by
  have allowed : twoLists.AllowsAll [.single (.insertHead 4 1), .listInsertListTail 0 1, .tailList 1, .listInit 0,
      .listRetrieveAllItems 0 1, .single (.retrieveItem 0), .tailList 1] := by
    refine ⟨⟨⟨[], rfl, trivial⟩, fun node same head items found => ?_⟩, ⟨by decide, ⟨[2, 3], rfl⟩, [4], rfl⟩,
      ⟨[4, 2, 3], rfl⟩, fun head items found => ?_, ⟨by decide, .inr rfl, [4, 2, 3], rfl, by simp⟩,
      ⟨⟨[4, 2, 3], rfl, trivial⟩, by simp [ListOperation.inserted]⟩, ⟨[], rfl⟩, trivial⟩
    · cases same
      rcases twoLists_items found with ⟨same, same'⟩ | ⟨same, same'⟩ <;> subst same same' <;> decide
    · simp [Lists.call, apply, twoLists, ListOperation.head, ListOperation.edit, Function.update] at found
      grind
  refine ⟨twoLists_hold, allowed, ?_⟩
  rw [(calls_implement_lists twoLists_hold allowed).2]
  rfl

end Lists

end ProcessAsThread
