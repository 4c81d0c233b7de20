import Mathlib.Data.List.Chain
import Mathlib.Data.List.Nodup
import Mathlib.Logic.Function.Basic

/-! Circular doubly-linked lists, given by a successor and a predecessor for every
node. A ring is its head, its other nodes in order, and the head again. -/

namespace ProcessAsThread.Library

universe u

variable {Node : Type u} {next prev next' prev' : Node → Node}

/-- Two neighbours, by the links of both. -/
structure Edge (next prev : Node → Node) (a b : Node) : Prop where
  forth : next a = b
  back : prev b = a

/-- The nodes of the list follow each other. -/
abbrev Linked (next prev : Node → Node) (nodes : List Node) : Prop := nodes.IsChain (Edge next prev)

structure Ring (next prev : Node → Node) (head : Node) (nodes : List Node) : Prop where
  linked : Linked next prev (head :: nodes ++ [head])
  distinct : (head :: nodes).Nodup

theorem linked_cons {a b : Node} {nodes : List Node} : Linked next prev (a :: b :: nodes) ↔
    Edge next prev a b ∧ Linked next prev (b :: nodes) := List.isChain_cons_cons

/-- Only the links that leave and enter the nodes of a list matter to it. -/
theorem Linked.frame {nodes : List Node} (linked : Linked next prev nodes)
    (forth : ∀ a ∈ nodes.dropLast, next' a = next a) (back : ∀ b ∈ nodes.tail, prev' b = prev b) :
    Linked next' prev' nodes := by
  induction nodes with
  | nil => exact .nil
  | cons a nodes ih =>
    cases nodes with
    | nil => exact .singleton a
    | cons b nodes =>
      obtain ⟨edge, rest⟩ := linked_cons.mp linked
      have here : Edge next' prev' a b := by
        constructor
        · rw [forth a (List.mem_cons_self ..), edge.forth]
        · rw [back b (List.mem_cons_self ..), edge.back]
      refine linked_cons.mpr ⟨here, ih rest ?_ ?_⟩
      · exact fun c member => forth c (List.mem_cons_of_mem _ member)
      · exact fun c member => back c (List.mem_of_mem_tail member)

/-- The link of its last node forth and that of its first one back do not matter to a chain. -/
theorem Linked.frame_inside {first last : Node} {nodes us vs : List Node} (linked : Linked next prev nodes)
    (starts : nodes = first :: vs) (ends : nodes = us ++ [last]) (distinct : nodes.Nodup)
    (forth : ∀ a ∈ nodes, a ≠ last → next' a = next a) (back : ∀ b ∈ nodes, b ≠ first → prev' b = prev b) :
    Linked next' prev' nodes := by
  refine linked.frame (fun a member => ?_) (fun b member => ?_)
  · rw [ends, List.dropLast_concat] at member
    rw [ends] at distinct
    refine forth a (ends ▸ List.mem_append_left _ member) ?_
    exact (List.nodup_append.mp distinct).2.2 a member last (List.mem_singleton_self _)
  · rw [starts, List.tail_cons] at member
    rw [starts] at distinct
    refine back b (starts ▸ List.mem_cons_of_mem _ member) ?_
    exact ne_of_mem_of_not_mem member (List.nodup_cons.mp distinct).1

theorem linked_split {a : Node} {us vs : List Node} : Linked next prev (us ++ a :: vs) ↔
    Linked next prev (us ++ [a]) ∧ Linked next prev (a :: vs) := List.isChain_split

theorem Ring.frame {head : Node} {nodes : List Node} (ring : Ring next prev head nodes)
    (forth : ∀ a ∈ head :: nodes, next' a = next a) (back : ∀ b ∈ head :: nodes, prev' b = prev b) :
    Ring next' prev' head nodes := by
  refine ⟨ring.linked.frame ?_ ?_, ring.distinct⟩
  · rw [List.dropLast_concat]
    exact forth
  · intro b member
    refine back b ?_
    simp only [List.cons_append, List.tail_cons, List.mem_append, List.mem_singleton] at member
    rcases member with inside | same
    · exact List.mem_cons_of_mem _ inside
    · exact same ▸ List.mem_cons_self ..

theorem ring_nil {head : Node} (forth : next head = head) (back : prev head = head) :
    Ring next prev head [] := ⟨List.isChain_pair.mpr ⟨forth, back⟩, List.nodup_singleton head⟩

theorem Linked.unique {a last : Node} {nodes others : List Node}
    (linked : Linked next prev (a :: nodes ++ [last])) (ends : last ∉ nodes)
    (linked' : Linked next prev' (a :: others ++ [last])) (ends' : last ∉ others) : nodes = others := by
  induction nodes generalizing a others with
  | nil =>
    cases others with
    | nil => rfl
    | cons b others =>
      have first := (linked_cons.mp linked).1.forth
      have second := (linked_cons.mp linked').1.forth
      rw [first] at second
      exact (ends' (second ▸ List.mem_cons_self ..)).elim
  | cons b nodes ih =>
    obtain ⟨edge, rest⟩ := linked_cons.mp linked
    cases others with
    | nil =>
      have second := (linked_cons.mp linked').1.forth
      rw [edge.forth] at second
      exact (ends (second ▸ List.mem_cons_self ..)).elim
    | cons c others =>
      obtain ⟨edge', rest'⟩ := linked_cons.mp linked'
      have same : b = c := edge.forth.symm.trans edge'.forth
      subst same
      rw [ih rest (fun member => ends (List.mem_cons_of_mem _ member)) rest'
        (fun member => ends' (List.mem_cons_of_mem _ member))]

theorem Ring.unique {head : Node} {nodes others : List Node} (ring : Ring next prev head nodes)
    (ring' : Ring next prev head others) : nodes = others :=
  ring.linked.unique (List.nodup_cons.mp ring.distinct).1 ring'.linked (List.nodup_cons.mp ring'.distinct).1

/-- What holds of the first node of a chain and is passed on along the links holds of all. -/
theorem Linked.carries {a : Node} {nodes : List Node} {Holds : Node → Prop}
    (linked : Linked next prev (a :: nodes)) (start : Holds a)
    (passed : ∀ b ∈ (a :: nodes).dropLast, Holds b → Holds (next b)) : ∀ b ∈ a :: nodes, Holds b := by
  induction nodes generalizing a with
  | nil => simpa using start
  | cons b nodes ih =>
    obtain ⟨edge, rest⟩ := linked_cons.mp linked
    have second : Holds b := edge.forth ▸ passed a (List.mem_cons_self ..) start
    have others := ih rest second fun c member => passed c (List.mem_cons_of_mem _ member)
    exact List.forall_mem_cons.mpr ⟨start, others⟩

/-- A ring is closed under its links, and going back undoes going forth. -/
theorem Ring.step {head x : Node} {nodes : List Node} (ring : Ring next prev head nodes)
    (member : x ∈ head :: nodes) : next x ∈ head :: nodes ∧ prev (next x) = x := by
  obtain ⟨us, vs, split⟩ := List.append_of_mem member
  obtain ⟨behind, ws, onward⟩ : ∃ behind ws, vs ++ [head] = behind :: ws :=
    List.exists_cons_of_ne_nil (by simp)
  have linked := ring.linked
  rw [split, List.append_assoc, List.cons_append, onward] at linked
  have edge := (linked_cons.mp (linked_split.mp linked).2).1
  have inside : behind ∈ vs ++ [head] := onward ▸ List.mem_cons_self ..
  rw [edge.forth]
  refine ⟨?_, edge.back⟩
  rcases List.mem_append.mp inside with later | last
  · exact split ▸ List.mem_append_right _ (List.mem_cons_of_mem _ later)
  · exact List.mem_singleton.mp last ▸ List.mem_cons_self ..

/-- A chain that begins in a ring stays in it while the ring has its links. -/
theorem Ring.reaches {head a : Node} {nodes others : List Node} (ring : Ring next' prev' head nodes)
    (linked : Linked next prev (a :: others)) (start : a ∈ head :: nodes)
    (kept : ∀ b ∈ (a :: others).dropLast, next' b = next b) : ∀ b ∈ a :: others, b ∈ head :: nodes := by
  refine linked.carries start fun b member reached => ?_
  rw [← kept b member]
  exact (ring.step reached).1

/-- A ring that is not empty: its head linked to the two ends of the chain of the others. -/
theorem ring_iff {head first last : Node} {nodes us vs : List Node} (starts : nodes = first :: vs)
    (ends : nodes = us ++ [last]) : Ring next prev head nodes ↔ Edge next prev head first ∧
      Linked next prev nodes ∧ Edge next prev last head ∧ (head :: nodes).Nodup := by
  have entered : Linked next prev (head :: nodes ++ [head]) ↔
      Edge next prev head first ∧ Linked next prev (nodes ++ [head]) := by
    rw [starts]
    exact linked_cons
  have left : Linked next prev (nodes ++ [head]) ↔ Linked next prev nodes ∧ Edge next prev last head := by
    rw [ends, List.append_assoc, List.singleton_append, linked_split]
    exact and_congr_right fun _ => List.isChain_pair
  constructor
  · intro ring
    obtain ⟨edge, rest⟩ := entered.mp ring.linked
    exact ⟨edge, (left.mp rest).1, (left.mp rest).2, ring.distinct⟩
  · intro ⟨edge, linked, edge', distinct⟩
    exact ⟨entered.mpr ⟨edge, left.mpr ⟨linked, edge'⟩⟩, distinct⟩

theorem ring_single {head x : Node} (forth : Edge next prev head x) (back : Edge next prev x head)
    (different : head ≠ x) : Ring next prev head [x] :=
  (ring_iff rfl (List.nil_append [x]).symm).mpr ⟨forth, .singleton x, back, by simpa using different⟩

section

/- A place in a ring: `before` is the last node up to it, `behind` the first one after it. -/
variable {head x before behind : Node} {xs ys us ws : List Node}

theorem exists_before (head : Node) (xs : List Node) : ∃ us before, head :: xs = us ++ [before] :=
  ⟨_, _, (List.dropLast_append_getLast (List.cons_ne_nil head xs)).symm⟩

theorem exists_behind (head : Node) (ys : List Node) : ∃ behind ws, ys ++ [head] = behind :: ws :=
  List.exists_cons_of_ne_nil (by simp)

theorem before_mem (left : head :: xs = us ++ [before]) : before ∈ head :: (xs ++ ys) := by
  have inside : before ∈ head :: xs := left ▸ List.mem_append_right _ (List.mem_singleton_self _)
  rw [← List.cons_append]
  exact List.mem_append_left _ inside

theorem behind_mem (right : ys ++ [head] = behind :: ws) : behind ∈ head :: (xs ++ ys) := by
  rcases List.mem_append.mp (right ▸ List.mem_cons_self .. : behind ∈ ys ++ [head]) with inside | last
  · exact List.mem_cons_of_mem _ (List.mem_append_right _ inside)
  · exact List.mem_singleton.mp last ▸ List.mem_cons_self ..

theorem Ring.cut (ring : Ring next prev head (xs ++ ys)) (left : head :: xs = us ++ [before])
    (right : ys ++ [head] = behind :: ws) :
    Linked next prev (us ++ [before]) ∧ Edge next prev before behind ∧ Linked next prev (behind :: ws) := by
  have whole : head :: (xs ++ ys) ++ [head] = us ++ before :: (behind :: ws) := by
    rw [← List.cons_append, left]
    simp [right]
  have linked := ring.linked
  rw [whole] at linked
  obtain ⟨first, second⟩ := linked_split.mp linked
  obtain ⟨edge, second⟩ := linked_cons.mp second
  exact ⟨first, edge, second⟩

theorem Ring.prev_head (ring : Ring next prev head xs) (left : head :: xs = us ++ [before]) :
    prev head = before := by
  have whole : Ring next prev head (xs ++ []) := by rwa [List.append_nil]
  exact (whole.cut left rfl).2.1.back

theorem Ring.links_nil (ring : Ring next prev head []) : next head = head ∧ prev head = head := by
  obtain ⟨_, edge, _⟩ := ring.cut (List.nil_append [head]).symm (List.nil_append [head])
  exact ⟨edge.forth, edge.back⟩

theorem ring_of_cut (left : head :: xs = us ++ [before]) (right : ys ++ [head] = behind :: ws)
    (distinct : (head :: (xs ++ ys)).Nodup) (first : Linked next prev (us ++ [before]))
    (edge : Edge next prev before behind) (second : Linked next prev (behind :: ws)) :
    Ring next prev head (xs ++ ys) := by
  have whole : head :: (xs ++ ys) ++ [head] = us ++ before :: (behind :: ws) := by
    rw [← List.cons_append, left]
    simp [right]
  refine ⟨?_, distinct⟩
  rw [whole]
  exact linked_split.mpr ⟨first, linked_cons.mpr ⟨edge, second⟩⟩

/-- New links of `before` forth and of `behind` back leave both sides of the place. -/
theorem linked_around (left : head :: xs = us ++ [before]) (right : ys ++ [head] = behind :: ws)
    (distinct : (head :: (xs ++ ys)).Nodup)
    (forth : ∀ a ∈ head :: (xs ++ ys), a ≠ before → next' a = next a)
    (back : ∀ b ∈ head :: (xs ++ ys), b ≠ behind → prev' b = prev b)
    (first : Linked next prev (us ++ [before])) (second : Linked next prev (behind :: ws)) :
    Linked next' prev' (us ++ [before]) ∧ Linked next' prev' (behind :: ws) := by
  have upTo : (us ++ [before]).Nodup := left ▸ distinct.sublist (by simp)
  have onward : (behind :: ws).Nodup := by
    rw [← right]
    exact (List.perm_append_singleton head ys).nodup_iff.mpr (distinct.sublist (by simp))
  have apart : ∀ a ∈ head :: xs, ∀ b ∈ ys, a ≠ b :=
    (List.nodup_append.mp (show (head :: xs ++ ys).Nodup from distinct)).2.2
  constructor
  · refine first.frame_inside left.symm rfl upTo (fun a member other => ?_) (fun b member other => ?_)
    · have inside : a ∈ head :: xs := left ▸ member
      exact forth a (by simpa using List.mem_append_left ys inside) other
    · have inside : b ∈ xs := List.mem_of_ne_of_mem other (left ▸ member)
      refine back b (List.mem_cons_of_mem _ (List.mem_append_left _ inside)) ?_
      intro same
      rcases List.mem_append.mp (right ▸ same ▸ List.mem_cons_self .. : b ∈ ys ++ [head]) with later | last
      · exact apart b (List.mem_cons_of_mem _ inside) b later rfl
      · exact other (List.mem_singleton.mp last)
  · refine second.frame_inside rfl right.symm onward (fun a member other => ?_) (fun b member other => ?_)
    · have inside : a ∈ ys := by
        rw [← right] at member
        exact (List.mem_append.mp member).resolve_right fun last => other (List.mem_singleton.mp last)
      refine forth a (List.mem_cons_of_mem _ (List.mem_append_right _ inside)) ?_
      intro same
      have last : before ∈ head :: xs := left ▸ List.mem_append_right _ (List.mem_singleton_self _)
      exact apart before last a inside same.symm
    · rw [← right] at member
      refine back b ?_ other
      rcases List.mem_append.mp member with inside | last
      · exact List.mem_cons_of_mem _ (List.mem_append_right _ inside)
      · exact List.mem_singleton.mp last ▸ List.mem_cons_self ..

theorem Ring.neighbours (ring : Ring next prev head (xs ++ x :: ys)) (left : head :: xs = us ++ [before])
    (right : ys ++ [head] = behind :: ws) : Edge next prev before x ∧ Edge next prev x behind := by
  have onward : x :: ys ++ [head] = x :: behind :: ws := by rw [List.cons_append, right]
  obtain ⟨_, edge, rest⟩ := ring.cut left onward
  exact ⟨edge, (linked_cons.mp rest).1⟩

theorem Ring.insert (ring : Ring next prev head (xs ++ ys)) (left : head :: xs = us ++ [before])
    (right : ys ++ [head] = behind :: ws) (fresh : x ∉ head :: (xs ++ ys))
    (entering : Edge next' prev' before x) (leaving : Edge next' prev' x behind)
    (forth : ∀ a ∈ head :: (xs ++ ys), a ≠ before → next' a = next a)
    (back : ∀ b ∈ head :: (xs ++ ys), b ≠ behind → prev' b = prev b) :
    Ring next' prev' head (xs ++ x :: ys) := by
  obtain ⟨first, _, second⟩ := ring.cut left right
  obtain ⟨first, second⟩ := linked_around left right ring.distinct forth back first second
  have distinct : (head :: (xs ++ x :: ys)).Nodup := by
    rw [← List.cons_append, List.nodup_middle]
    exact List.nodup_cons.mpr ⟨fresh, ring.distinct⟩
  have onward : x :: ys ++ [head] = x :: behind :: ws := by rw [List.cons_append, right]
  exact ring_of_cut left onward distinct first entering (linked_cons.mpr ⟨leaving, second⟩)

theorem Ring.remove (ring : Ring next prev head (xs ++ x :: ys)) (left : head :: xs = us ++ [before])
    (right : ys ++ [head] = behind :: ws) (edge : Edge next' prev' before behind)
    (forth : ∀ a ∈ head :: (xs ++ ys), a ≠ before → next' a = next a)
    (back : ∀ b ∈ head :: (xs ++ ys), b ≠ behind → prev' b = prev b) :
    Ring next' prev' head (xs ++ ys) := by
  have onward : x :: ys ++ [head] = x :: behind :: ws := by rw [List.cons_append, right]
  obtain ⟨first, _, second⟩ := ring.cut left onward
  have distinct : (head :: (xs ++ ys)).Nodup := ring.distinct.sublist (by simp)
  obtain ⟨first, second⟩ := linked_around left right distinct forth back first (linked_cons.mp second).2
  exact ring_of_cut left right distinct first edge second

end

end ProcessAsThread.Library
