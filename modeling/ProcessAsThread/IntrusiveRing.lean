import ProcessAsThread.IntrusiveList
import ProcessAsThread.Library.Ring

/-! The functions of list.h as operations on rings: each changes the ring it is
meant for and leaves the links of all other nodes alone. -/

namespace ProcessAsThread

open Library

variable {Node : Type} [DecidableEq Node]

def ListMemory.nexts (memory : ListMemory Node) (node : Option Node) : Option Node := (memory node).next

def ListMemory.prevs (memory : ListMemory Node) (node : Option Node) : Option Node := (memory node).prev

abbrev ListMemory.IsRing (memory : ListMemory Node) : Option Node → List (Option Node) → Prop :=
  Ring memory.nexts memory.prevs

section

variable (memory : ListMemory Node) (node value : Option Node)

@[simp] theorem nexts_setNext : (memory.setNext node value).nexts = Function.update memory.nexts node value := by
  funext other
  by_cases same : other = node <;> simp [ListMemory.nexts, ListMemory.setNext, Function.update, same]

@[simp] theorem prevs_setNext : (memory.setNext node value).prevs = memory.prevs := by
  funext other
  by_cases same : other = node <;> simp [ListMemory.prevs, ListMemory.setNext, Function.update, same]

@[simp] theorem prevs_setPrev : (memory.setPrev node value).prevs = Function.update memory.prevs node value := by
  funext other
  by_cases same : other = node <;> simp [ListMemory.prevs, ListMemory.setPrev, Function.update, same]

@[simp] theorem nexts_setPrev : (memory.setPrev node value).nexts = memory.nexts := by
  funext other
  by_cases same : other = node <;> simp [ListMemory.nexts, ListMemory.setPrev, Function.update, same]

end

variable {memory : ListMemory Node} {head node : Option Node} {nodes : List (Option Node)}

theorem nodeInit_ring : (nodeInit memory node).IsRing node [] :=
  ring_nil (by simp [nodeInit]) (by simp [nodeInit])

omit [DecidableEq Node] in
theorem selfLinked_iff : memory node = ⟨node, node⟩ ↔ memory.IsRing node [] := by
  constructor
  · intro linked
    exact ring_nil (by simp [ListMemory.nexts, linked]) (by simp [ListMemory.prevs, linked])
  · intro ring
    obtain ⟨forth, back⟩ := ring.links_nil
    exact congrArg₂ ListNode.mk back forth

/-- A node that is in neither ring may be linked or unlinked without effect on it. -/
theorem nodeInit_frame (ring : memory.IsRing head nodes) (outside : node ∉ head :: nodes) :
    (nodeInit memory node).IsRing head nodes := by
  refine ring.frame (fun a member => ?_) (fun b member => ?_)
  · simp [nodeInit, Function.update_of_ne (ne_of_mem_of_not_mem member outside)]
  · simp [nodeInit, Function.update_of_ne (ne_of_mem_of_not_mem member outside)]

/- A place in a ring, as in the library. -/
variable {before behind : Option Node} {xs ys us ws : List (Option Node)}

private theorem insertBetween_ring (ring : memory.IsRing head (xs ++ ys)) (left : head :: xs = us ++ [before])
    (right : ys ++ [head] = behind :: ws) (fresh : node ∉ head :: (xs ++ ys)) :
    (insertBetween memory node before behind).IsRing head (xs ++ node :: ys) := by
  have before_ne : node ≠ before := (ne_of_mem_of_not_mem (before_mem left) fresh).symm
  have behind_ne : node ≠ behind := (ne_of_mem_of_not_mem (behind_mem right) fresh).symm
  have entering : Edge (insertBetween memory node before behind).nexts
      (insertBetween memory node before behind).prevs before node :=
    ⟨by simp [insertBetween], by simp [insertBetween, behind_ne]⟩
  have leaving : Edge (insertBetween memory node before behind).nexts
      (insertBetween memory node before behind).prevs node behind :=
    ⟨by simp [insertBetween, before_ne], by simp [insertBetween]⟩
  refine ring.insert left right fresh entering leaving (fun a member other => ?_) (fun b member other => ?_)
  · simp [insertBetween, other, ne_of_mem_of_not_mem member fresh]
  · simp [insertBetween, other, ne_of_mem_of_not_mem member fresh]

private theorem insertBetween_frame (ring : memory.IsRing head nodes) (outside : node ∉ head :: nodes)
    (before_out : before ∉ head :: nodes) (behind_out : behind ∉ head :: nodes) :
    (insertBetween memory node before behind).IsRing head nodes := by
  refine ring.frame (fun a member => ?_) (fun b member => ?_)
  · simp [insertBetween, ne_of_mem_of_not_mem member outside, ne_of_mem_of_not_mem member before_out]
  · simp [insertBetween, ne_of_mem_of_not_mem member outside, ne_of_mem_of_not_mem member behind_out]

/-- The new node comes right after `prev`. -/
theorem listInsertNode_ring {prev : Option Node} (ring : memory.IsRing head (xs ++ ys))
    (left : head :: xs = us ++ [prev]) (fresh : node ∉ head :: (xs ++ ys)) :
    (listInsertNode memory node prev).IsRing head (xs ++ node :: ys) := by
  obtain ⟨behind, ws, right⟩ := exists_behind head ys
  have following : (memory prev).next = behind := (ring.cut left right).2.1.forth
  rw [listInsertNode, following]
  exact insertBetween_ring ring left right fresh

theorem listInsertNode_frame {first prev : Option Node} (inserted : memory.IsRing first (xs ++ ys))
    (left : first :: xs = us ++ [prev]) (ring : memory.IsRing head nodes)
    (apart : ∀ a ∈ first :: (xs ++ ys), a ∉ head :: nodes) (outside : node ∉ head :: nodes) :
    (listInsertNode memory node prev).IsRing head nodes := by
  obtain ⟨behind, ws, right⟩ := exists_behind first ys
  have following : (memory prev).next = behind := (inserted.cut left right).2.1.forth
  rw [listInsertNode, following]
  exact insertBetween_frame ring outside (apart prev (before_mem left)) (apart behind (behind_mem right))

theorem listInsertTail_ring {first : Node} (ring : memory.IsRing (some first) nodes)
    (fresh : node ∉ some first :: nodes) :
    (listInsertTail memory node (some first)).IsRing (some first) (nodes ++ [node]) := by
  obtain ⟨us, before, left⟩ := exists_before (some first) nodes
  have last : (memory (some first)).prev = before := ring.prev_head left
  have whole : memory.IsRing (some first) (nodes ++ []) := by rwa [List.append_nil]
  rw [listInsertTail, last]
  exact insertBetween_ring whole left rfl (by rwa [List.append_nil])

theorem listInsertTail_frame {first : Node} {inner : List (Option Node)}
    (inserted : memory.IsRing (some first) inner) (ring : memory.IsRing head nodes)
    (apart : ∀ a ∈ some first :: inner, a ∉ head :: nodes) (outside : node ∉ head :: nodes) :
    (listInsertTail memory node (some first)).IsRing head nodes := by
  obtain ⟨us, before, left⟩ := exists_before (some first) inner
  have last : (memory (some first)).prev = before := inserted.prev_head left
  have before_out : before ∉ head :: nodes :=
    apart before (left ▸ List.mem_append_right _ (List.mem_singleton_self _))
  rw [listInsertTail, last]
  exact insertBetween_frame ring outside before_out (apart _ (List.mem_cons_self ..))

private theorem nexts_listRemoveNode (before_ : (memory node).prev = before)
    (behind_ : (memory node).next = behind) :
    (listRemoveNode memory node).nexts = Function.update (Function.update memory.nexts before behind) node node ∧
    (listRemoveNode memory node).prevs =
      Function.update (Function.update memory.prevs behind before) node node := by
  simp [listRemoveNode, listLink, nodeInit, before_, behind_]

theorem listRemoveNode_ring (ring : memory.IsRing head (xs ++ node :: ys)) :
    (listRemoveNode memory node).IsRing head (xs ++ ys) := by
  obtain ⟨us, before, left⟩ := exists_before head xs
  obtain ⟨behind, ws, right⟩ := exists_behind head ys
  obtain ⟨entering, leaving⟩ := ring.neighbours left right
  obtain ⟨nexts, prevs⟩ := nexts_listRemoveNode entering.back leaving.forth
  have fresh : node ∉ head :: (xs ++ ys) := by
    have distinct := ring.distinct
    rw [← List.cons_append, List.nodup_middle] at distinct
    exact (List.nodup_cons.mp distinct).1
  have before_ne := ne_of_mem_of_not_mem (before_mem left) fresh
  have behind_ne := ne_of_mem_of_not_mem (behind_mem right) fresh
  refine ring.remove left right ⟨?_, ?_⟩ (fun a member other => ?_) (fun b member other => ?_)
  · simp [nexts, before_ne]
  · simp [prevs, behind_ne]
  · simp [nexts, other, ne_of_mem_of_not_mem member fresh]
  · simp [prevs, other, ne_of_mem_of_not_mem member fresh]

theorem listRemoveNode_frame {first : Option Node} (removed : memory.IsRing first (xs ++ node :: ys))
    (ring : memory.IsRing head nodes) (apart : ∀ a ∈ first :: (xs ++ node :: ys), a ∉ head :: nodes) :
    (listRemoveNode memory node).IsRing head nodes := by
  obtain ⟨us, before, left⟩ := exists_before first xs
  obtain ⟨behind, ws, right⟩ := exists_behind first ys
  obtain ⟨entering, leaving⟩ := removed.neighbours left right
  obtain ⟨nexts, prevs⟩ := nexts_listRemoveNode entering.back leaving.forth
  have before_out : before ∉ head :: nodes := apart before (before_mem left)
  have behind_out : behind ∉ head :: nodes := by
    refine apart behind ?_
    have member : behind ∈ first :: (xs ++ ys) := behind_mem right
    exact List.mem_cons.mpr ((List.mem_cons.mp member).imp_right fun inside =>
      (List.Sublist.append_left (List.sublist_cons_self node ys) xs).subset inside)
  have node_out : node ∉ head :: nodes := apart node (by simp)
  refine ring.frame (fun a member => ?_) (fun b member => ?_)
  · simp [nexts, ne_of_mem_of_not_mem member node_out, ne_of_mem_of_not_mem member before_out]
  · simp [prevs, ne_of_mem_of_not_mem member node_out, ne_of_mem_of_not_mem member behind_out]

end ProcessAsThread
