import ProcessAsThread.IntrusiveRing

/-! The intrusive lists as sequences: whatever single nodes are put into lists and
taken out of them, every list holds the sequence it should. -/

namespace ProcessAsThread

open Library

/-- A call that puts one node into a list or takes one out. The code is not told
the head of the list a `prev` or a removed node is in. -/
inductive ListOperation (Node : Type) where
  | insertHead (node head : Node)
  | insertTail (node head : Node)
  | insertNode (node prev head : Node)
  | removeNode (node head : Node)
  | retrieveItem (head : Node)

variable {Node : Type} [DecidableEq Node]

namespace ListOperation

def head : ListOperation Node → Node
  | insertHead _ head | insertTail _ head | insertNode _ _ head | removeNode _ head | retrieveItem head => head

/-- The code's call: the memory after it, and the item it returns. -/
def perform (memory : ListMemory Node) : ListOperation Node → Option Node × ListMemory Node
  | insertHead node head => (none, listInsertHead memory node head)
  | insertTail node head => (none, listInsertTail memory node head)
  | insertNode node prev _ => (none, listInsertNode memory node prev)
  | removeNode node _ => (none, listRemoveNode memory node)
  | retrieveItem head => listRetrieveItem memory head

end ListOperation

def insertAfter (prev node : Node) : List Node → List Node
  | [] => []
  | first :: rest => if first = prev then first :: node :: rest else first :: insertAfter prev node rest

namespace ListOperation

/-- What the call should make of the items of its list. -/
def edit (items : List Node) : ListOperation Node → List Node
  | insertHead node _ => node :: items
  | insertTail node _ => items ++ [node]
  | insertNode node prev head => (insertAfter prev node (head :: items)).tail
  | removeNode node _ => items.erase node
  | retrieveItem _ => items.tail

def result (items : List Node) : ListOperation Node → Option Node
  | retrieveItem _ => items.head?
  | _ => none

def inserted : ListOperation Node → Option Node
  | insertHead node _ | insertTail node _ | insertNode node _ _ => some node
  | removeNode .. | retrieveItem _ => none

def removed (items : List Node) : ListOperation Node → Option Node
  | removeNode node _ => some node
  | retrieveItem _ => items.head?
  | _ => none

/-- A node is inserted after one of the list, and removed only from it. -/
def Fits (items : List Node) : ListOperation Node → Prop
  | insertNode _ prev head => prev ∈ head :: items
  | removeNode node _ => node ∈ items
  | _ => True

end ListOperation

/-- The lists of a program: the items of every head, and the nodes last taken out of a list. -/
structure Lists (Node : Type) where
  items : Node → Option (List Node)
  removed : Node → Prop

namespace Lists

def Free (lists : Lists Node) (node : Node) : Prop :=
  ∀ head items, lists.items head = some items → node ∉ head :: items

def Permits (lists : Lists Node) (operation : ListOperation Node) : Prop :=
  (∃ items, lists.items operation.head = some items ∧ operation.Fits items) ∧
    ∀ node, operation.inserted = some node → lists.Free node

def apply (lists : Lists Node) (operation : ListOperation Node) : Lists Node :=
  match lists.items operation.head with
  | none => lists
  | some items =>
    { items := Function.update lists.items operation.head (some (operation.edit items))
      removed := fun node => operation.removed items = some node ∨
        lists.removed node ∧ operation.inserted ≠ some node }

def result (lists : Lists Node) (operation : ListOperation Node) : Option Node :=
  (lists.items operation.head).bind fun items => operation.result items

/-- The lists in a memory: a ring for every head, rings apart, and removed nodes
in no list and linked to themselves. -/
structure Holds (lists : Lists Node) (memory : ListMemory Node) : Prop where
  rings : ∀ head items, lists.items head = some items → memory.IsRing (some head) (items.map some)
  apart : ∀ head items other others, lists.items head = some items → lists.items other = some others →
    head ≠ other → ∀ node ∈ head :: items, node ∉ other :: others
  free : ∀ node, lists.removed node → lists.Free node
  selfLinked : ∀ node, lists.removed node → memory (some node) = ⟨some node, some node⟩

end Lists

private theorem insertAfter_split {prev : Node} {nodes : List Node} (node : Node) (member : prev ∈ nodes) :
    ∃ us ys, nodes = us ++ prev :: ys ∧ insertAfter prev node nodes = us ++ prev :: node :: ys := by
  induction nodes with
  | nil => simp at member
  | cons first rest ih =>
    by_cases here : first = prev
    · exact ⟨[], rest, by simp [here], by simp [insertAfter, here]⟩
    · obtain ⟨us, ys, split, inserted⟩ := ih (List.mem_of_ne_of_mem (Ne.symm here) member)
      exact ⟨first :: us, ys, by simp [split], by simp [insertAfter, here, inserted]⟩

private theorem insertAfter_place {prev head : Node} {items : List Node} (node : Node)
    (member : prev ∈ head :: items) :
    ∃ us xs ys, some head :: xs.map some = us ++ [some prev] ∧ items = xs ++ ys ∧
      (insertAfter prev node (head :: items)).tail = xs ++ node :: ys := by
  obtain ⟨us, ys, split, inserted⟩ := insertAfter_split node member
  rw [inserted]
  cases us with
  | nil =>
    obtain ⟨same, rest⟩ := List.cons.inj split
    exact ⟨[], [], ys, by simp [same], rest, rfl⟩
  | cons first us =>
    obtain ⟨same, rest⟩ := List.cons.inj split
    refine ⟨(first :: us).map some, us ++ [prev], ys, ?_, ?_, ?_⟩
    · simp [same]
    · simp [rest]
    · simp

omit [DecidableEq Node] in
theorem pointers_apart {head other : Node} {items others : List Node}
    (apart : ∀ node ∈ head :: items, node ∉ other :: others) :
    ∀ pointer ∈ some head :: items.map some, pointer ∉ some other :: others.map some := by
  intro pointer member
  rw [← List.map_cons] at member
  obtain ⟨node, listed, same⟩ := List.mem_map.mp member
  subst same
  simpa using apart node listed

namespace ListOperation

variable {operation : ListOperation Node} {memory : ListMemory Node} {items : List Node}

/-- What a call should do: to its own list, to the node it takes out, and to any
ring that it neither works on nor takes a node from. -/
structure Correct (operation : ListOperation Node) (items : List Node) (memory : ListMemory Node)
    (outcome : Option Node × ListMemory Node) : Prop where
  returned : outcome.1 = operation.result items
  ring : outcome.2.IsRing (some operation.head) ((operation.edit items).map some)
  selfLinked : ∀ node, operation.removed items = some node → outcome.2 (some node) = ⟨some node, some node⟩
  frame : ∀ other nodes, memory.IsRing other nodes →
    (∀ pointer ∈ some operation.head :: items.map some, pointer ∉ other :: nodes) →
    (∀ node, operation.inserted = some node → some node ∉ other :: nodes) → outcome.2.IsRing other nodes

theorem insertNode_correct {node prev head : Node} (ring : memory.IsRing (some head) (items.map some))
    (fits : prev ∈ head :: items) (fresh : node ∉ head :: items) :
    Correct (insertNode node prev head) items memory (none, listInsertNode memory node prev) := by
  obtain ⟨us, xs, ys, left, split, edited⟩ := insertAfter_place node fits
  rw [split, List.map_append] at ring
  have outside : some node ∉ some head :: (xs.map some ++ ys.map some) := by
    rw [split] at fresh
    simpa using fresh
  constructor
  case returned => rfl
  case ring =>
    show (listInsertNode memory node prev).IsRing head ((insertAfter prev node (head :: items)).tail.map some)
    rw [edited, List.map_append]
    exact listInsertNode_ring ring left outside
  case selfLinked => simp [removed]
  case frame =>
    intro other nodes framed apart unused
    rw [split, List.map_append] at apart
    exact listInsertNode_frame ring left framed apart (unused node rfl)

/-- The head of a list is followed by its first item. -/
theorem insertHead_correct {node head : Node} (ring : memory.IsRing (some head) (items.map some))
    (fresh : node ∉ head :: items) :
    Correct (insertHead node head) items memory (none, listInsertHead memory node head) := by
  obtain ⟨_, ring, selfLinked, frame⟩ := insertNode_correct ring (List.mem_cons_self ..) fresh
  refine ⟨rfl, ?_, selfLinked, frame⟩
  have edited : (insertAfter head node (head :: items)).tail = node :: items := by simp [insertAfter]
  rwa [edit, edited] at ring

theorem insertTail_correct {node head : Node} (ring : memory.IsRing (some head) (items.map some))
    (fresh : node ∉ head :: items) :
    Correct (insertTail node head) items memory (none, listInsertTail memory node head) := by
  have outside : some node ∉ some head :: items.map some := by simpa using fresh
  constructor
  case returned => rfl
  case ring =>
    show (listInsertTail memory node head).IsRing head ((items ++ [node]).map some)
    rw [List.map_append]
    exact listInsertTail_ring ring outside
  case selfLinked => simp [removed]
  case frame =>
    intro other nodes framed apart unused
    exact listInsertTail_frame ring framed apart (unused node rfl)

/-- What `listRemoveNode` does to the ring of the node and to others. -/
theorem removal {node head : Node} (ring : memory.IsRing (some head) (items.map some)) (member : node ∈ items) :
    (listRemoveNode memory node).IsRing (some head) ((items.erase node).map some) ∧
    listRemoveNode memory node (some node) = ⟨some node, some node⟩ ∧
    ∀ other nodes, memory.IsRing other nodes →
      (∀ pointer ∈ some head :: items.map some, pointer ∉ other :: nodes) →
      (listRemoveNode memory node).IsRing other nodes := by
  obtain ⟨xs, ys, _, split, erased⟩ := List.exists_erase_eq member
  rw [split, List.map_append, List.map_cons] at ring
  refine ⟨?_, selfLinked_iff.mpr nodeInit_ring, fun other nodes framed apart => ?_⟩
  · rw [erased, List.map_append]
    exact listRemoveNode_ring ring
  · rw [split, List.map_append, List.map_cons] at apart
    exact listRemoveNode_frame ring framed apart

theorem retrieveItem_correct {head : Node} (ring : memory.IsRing (some head) (items.map some)) :
    Correct (retrieveItem head) items memory (listRetrieveItem memory head) := by
  cases items with
  | nil =>
    have linked := selfLinked_iff.mpr ring
    have empty : listRetrieveItem memory head = (none, memory) := by
      simp [listRetrieveItem, isListEmpty, linked]
    rw [empty]
    exact ⟨rfl, ring, by simp [removed], fun other nodes framed _ _ => framed⟩
  | cons first rest =>
    obtain ⟨_, edge, _⟩ := ring.cut (List.nil_append [some head]).symm List.cons_append
    have following : (memory (some head)).next = some first := edge.forth
    have different : first ≠ head := by
      intro same
      have distinct := ring.distinct
      simp [same] at distinct
    have taken : listRetrieveItem memory head = (some first, listRemoveNode memory first) := by
      simp [listRetrieveItem, isListEmpty, following, different]
    obtain ⟨ring, linked, frame⟩ := removal ring (List.mem_cons_self ..)
    rw [List.erase_cons_head] at ring
    rw [taken]
    refine ⟨rfl, ring, fun node same => ?_, fun other nodes framed apart _ => frame other nodes framed apart⟩
    cases same
    exact linked

theorem perform_correct (ring : memory.IsRing (some operation.head) (items.map some))
    (fits : operation.Fits items)
    (fresh : ∀ node, operation.inserted = some node → node ∉ operation.head :: items) :
    Correct operation items memory (operation.perform memory) := by
  cases operation with
  | insertHead node head => exact insertHead_correct ring (fresh node rfl)
  | insertTail node head => exact insertTail_correct ring (fresh node rfl)
  | insertNode node prev head => exact insertNode_correct ring fits (fresh node rfl)
  | removeNode node head =>
    obtain ⟨ring, linked, frame⟩ := removal ring fits
    refine ⟨rfl, ring, fun other same => ?_, fun other nodes framed apart _ => frame other nodes framed apart⟩
    cases same
    exact linked
  | retrieveItem head => exact retrieveItem_correct ring

private theorem mem_edit {node : Node} (fits : operation.Fits items) (member : node ∈ operation.edit items) :
    node ∈ items ∨ operation.inserted = some node := by
  cases operation with
  | insertHead added head => simpa [edit, inserted, or_comm, eq_comm] using member
  | insertTail added head => simpa [edit, inserted, eq_comm] using member
  | insertNode added prev head =>
    obtain ⟨_, xs, ys, _, split, edited⟩ := insertAfter_place added fits
    simp only [edit, edited, List.mem_append, List.mem_cons] at member
    simp only [split, inserted, List.mem_append, Option.some.injEq]
    grind
  | removeNode taken head => exact .inl (List.mem_of_mem_erase member)
  | retrieveItem head => exact .inl (List.mem_of_mem_tail member)

private theorem removed_out {node : Node} (fits : operation.Fits items) (distinct : items.Nodup)
    (taken : operation.removed items = some node) : node ∈ items ∧ node ∉ operation.edit items := by
  cases operation with
  | insertHead | insertTail | insertNode => simp [removed] at taken
  | removeNode other head =>
    cases taken
    exact ⟨fits, distinct.not_mem_erase⟩
  | retrieveItem head =>
    cases items with
    | nil => simp [removed] at taken
    | cons first rest =>
      cases taken
      exact ⟨List.mem_cons_self .., (List.nodup_cons.mp distinct).1⟩

end ListOperation

namespace Lists

variable {lists : Lists Node} {memory : ListMemory Node} {operation : ListOperation Node}

theorem items_apply {items list : List Node} {head : Node} (here : lists.items operation.head = some items)
    (found : (lists.apply operation).items head = some list) :
    head = operation.head ∧ list = operation.edit items ∨
      head ≠ operation.head ∧ lists.items head = some list := by
  simp only [apply, here] at found
  by_cases same : head = operation.head
  · subst same
    rw [Function.update_self] at found
    exact .inl ⟨rfl, (Option.some.inj found).symm⟩
  · rw [Function.update_of_ne same] at found
    exact .inr ⟨same, found⟩

private theorem removed_apply {items : List Node} {node : Node}
    (here : lists.items operation.head = some items) :
    (lists.apply operation).removed node ↔ operation.removed items = some node ∨
      lists.removed node ∧ operation.inserted ≠ some node := by
  simp [apply, here]

section

variable {items : List Node} (holds : lists.Holds memory) (here : lists.items operation.head = some items)
  (fits : operation.Fits items) (fresh : ∀ node, operation.inserted = some node → lists.Free node)

include holds here

omit [DecidableEq Node] in
theorem Holds.distinct : operation.head ∉ items ∧ items.Nodup := by
  have distinct := (holds.rings operation.head items here).distinct
  rw [← List.map_cons] at distinct
  exact List.nodup_cons.mp distinct.of_map

include fits

private theorem Holds.apply_free {node : Node} (removed : (lists.apply operation).removed node) :
    (lists.apply operation).Free node := by
  intro head list found
  have distinct := holds.distinct here
  rcases (removed_apply here).mp removed with taken | ⟨older, kept⟩
  · obtain ⟨member, out⟩ := operation.removed_out fits distinct.2 taken
    rcases items_apply here found with ⟨same, edited⟩ | ⟨away, old⟩
    · subst same edited
      exact List.not_mem_cons_of_ne_of_not_mem (ne_of_mem_of_not_mem member distinct.1) out
    · exact holds.apart operation.head items head list here old (Ne.symm away) node
        (List.mem_cons_of_mem _ member)
  · rcases items_apply here found with ⟨same, edited⟩ | ⟨_, old⟩
    · subst same edited
      have outside := holds.free node older operation.head items here
      refine List.not_mem_cons_of_ne_of_not_mem (List.ne_of_not_mem_cons outside) fun member => ?_
      exact (operation.mem_edit fits member).elim (List.not_mem_of_not_mem_cons outside) kept
    · exact holds.free node older head list old

include fresh

theorem Holds.elsewhere {other : Node} {others : List Node} (there : lists.items other = some others)
    (different : other ≠ operation.head) :
    ∀ node ∈ operation.head :: operation.edit items, node ∉ other :: others := by
  have apart := holds.apart operation.head items other others here there (Ne.symm different)
  intro node member
  rcases List.mem_cons.mp member with same | edited
  · exact apart node (same ▸ List.mem_cons_self ..)
  · rcases operation.mem_edit fits edited with listed | inserted
    · exact apart node (List.mem_cons_of_mem _ listed)
    · exact fresh node inserted other others there

private theorem Holds.apply_apart {head other : Node} {list others : List Node}
    (found : (lists.apply operation).items head = some list)
    (found' : (lists.apply operation).items other = some others) (different : head ≠ other) :
    ∀ node ∈ head :: list, node ∉ other :: others := by
  rcases items_apply here found with ⟨same, edited⟩ | ⟨away, old⟩
  · rcases items_apply here found' with ⟨same', _⟩ | ⟨away', old'⟩
    · exact (different (same.trans same'.symm)).elim
    · subst same edited
      exact holds.elsewhere here fits fresh old' away'
  · rcases items_apply here found' with ⟨same', edited⟩ | ⟨_, old'⟩
    · subst same' edited
      exact fun node member member' => holds.elsewhere here fits fresh old away node member' member
    · exact holds.apart head list other others old old' different

end

/-- One call keeps the lists, and returns what it should. -/
theorem Holds.perform (holds : lists.Holds memory) (permitted : lists.Permits operation) :
    (lists.apply operation).Holds (operation.perform memory).2 ∧
      (operation.perform memory).1 = lists.result operation := by
  obtain ⟨⟨items, here, fits⟩, fresh⟩ := permitted
  have correct := operation.perform_correct (holds.rings operation.head items here) fits
    fun node inserted => fresh node inserted operation.head items here
  constructor
  · constructor
    case apart => exact fun _ _ _ _ found found' => holds.apply_apart here fits fresh found found'
    case free => exact fun node => holds.apply_free here fits
    case rings =>
      intro head list found
      rcases items_apply here found with ⟨same, edited⟩ | ⟨away, old⟩
      · subst same edited
        exact correct.ring
      · refine correct.frame head _ (holds.rings head list old) ?_ fun node inserted => ?_
        · exact pointers_apart (holds.apart operation.head items head list here old (Ne.symm away))
        · simpa using fresh node inserted head list old
    case selfLinked =>
      intro node removed
      rcases (removed_apply here).mp removed with taken | ⟨older, kept⟩
      · exact correct.selfLinked node taken
      · have linked := selfLinked_iff.mp (holds.selfLinked node older)
        refine selfLinked_iff.mpr (correct.frame node [] linked ?_ fun other inserted => ?_)
        · have outside := holds.free node older operation.head items here
          intro pointer member same
          rw [List.mem_singleton.mp same] at member
          exact outside (by simpa using member)
        · intro same
          cases Option.some.inj (List.mem_singleton.mp same)
          exact kept inserted
  · simpa [result, here] using correct.returned

def performAll (memory : ListMemory Node) : List (ListOperation Node) → List (Option Node) × ListMemory Node
  | [] => ([], memory)
  | operation :: rest =>
    let (returned, memory) := operation.perform memory
    let (others, memory) := performAll memory rest
    (returned :: others, memory)

def applyAll (lists : Lists Node) : List (ListOperation Node) → List (Option Node) × Lists Node
  | [] => ([], lists)
  | operation :: rest =>
    let (others, after) := applyAll (lists.apply operation) rest
    (lists.result operation :: others, after)

def PermitsAll (lists : Lists Node) : List (ListOperation Node) → Prop
  | [] => True
  | operation :: rest => lists.Permits operation ∧ PermitsAll (lists.apply operation) rest

/-- The lists in the memory stay the sequences that the calls make of them. -/
theorem lists_implement_sequences {operations : List (ListOperation Node)} (holds : lists.Holds memory)
    (permitted : lists.PermitsAll operations) :
    (lists.applyAll operations).2.Holds (performAll memory operations).2 ∧
      (performAll memory operations).1 = (lists.applyAll operations).1 := by
  induction operations generalizing lists memory with
  | nil => exact ⟨holds, rfl⟩
  | cons operation rest ih =>
    obtain ⟨first, others⟩ := permitted
    obtain ⟨holds, returned⟩ := holds.perform first
    obtain ⟨holds, later⟩ := ih holds others
    exact ⟨holds, congrArg₂ List.cons returned later⟩

def twoLists : Lists Nat where
  items head := if head = 0 then some [2, 3] else if head = 1 then some [] else none
  removed _ := False

def twoRings : ListMemory Nat
  | some 0 => ⟨some 3, some 2⟩
  | some 1 => ⟨some 1, some 1⟩
  | some 2 => ⟨some 0, some 3⟩
  | some 3 => ⟨some 2, some 0⟩
  | _ => ⟨none, none⟩

theorem twoLists_items {head : Nat} {items : List Nat} (found : twoLists.items head = some items) :
    head = 0 ∧ items = [2, 3] ∨ head = 1 ∧ items = [] := by
  simp only [twoLists] at found
  grind

theorem twoLists_hold : twoLists.Holds twoRings := by
  constructor
  case rings =>
    intro head items found
    rcases twoLists_items found with ⟨same, same'⟩ | ⟨same, same'⟩
    · subst same same'
      refine ⟨?_, by decide⟩
      exact linked_cons.mpr ⟨⟨rfl, rfl⟩, linked_cons.mpr ⟨⟨rfl, rfl⟩, List.isChain_pair.mpr ⟨rfl, rfl⟩⟩⟩
    · subst same same'
      exact ring_nil rfl rfl
  case apart =>
    intro head items other others found found' different
    rcases twoLists_items found with ⟨same, same'⟩ | ⟨same, same'⟩ <;>
      rcases twoLists_items found' with ⟨other, other'⟩ | ⟨other, other'⟩ <;> subst same same' other other' <;>
      simp at different ⊢
  case free => exact fun _ removed => removed.elim
  case selfLinked => exact fun _ removed => removed.elim

/-- A node goes from the first list to the second, after another was put there. -/
theorem lists_implement_sequences_twoLists :
    twoLists.Holds twoRings ∧
      twoLists.PermitsAll [.insertHead 4 1, .removeNode 2 0, .insertNode 2 4 1, .insertTail 5 0, .retrieveItem 0] ∧
      (performAll twoRings
        [.insertHead 4 1, .removeNode 2 0, .insertNode 2 4 1, .insertTail 5 0, .retrieveItem 0]).1 =
        [none, none, none, none, some 3] := by
  have permitted : twoLists.PermitsAll
      [.insertHead 4 1, .removeNode 2 0, .insertNode 2 4 1, .insertTail 5 0, .retrieveItem 0] := by
    refine ⟨⟨⟨[], rfl, trivial⟩, fun node same head items found => ?_⟩,
      ⟨⟨[2, 3], rfl, List.mem_cons_self ..⟩, by simp [ListOperation.inserted]⟩,
      ⟨⟨[4], rfl, by simp [ListOperation.Fits]⟩, fun node same head items found => ?_⟩,
      ⟨⟨[3], rfl, trivial⟩, fun node same head items found => ?_⟩,
      ⟨⟨[3, 5], rfl, trivial⟩, by simp [ListOperation.inserted]⟩, trivial⟩
    all_goals
      simp only [ListOperation.inserted, Option.some.injEq] at same
      simp [apply, twoLists, ListOperation.head, ListOperation.edit, Function.update] at found
      grind [insertAfter]
  refine ⟨twoLists_hold, permitted, ?_⟩
  rw [(lists_implement_sequences twoLists_hold permitted).2]
  rfl

end Lists

end ProcessAsThread
