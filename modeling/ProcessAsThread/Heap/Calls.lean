import ProcessAsThread.Heap.Carving

/-! What the calls of xmemory keep: a block that is handed out fits into the
layout, and a block that is freed goes onto the free list of its class. -/

namespace ProcessAsThread.Heap

open Library

namespace StrictSegHeap

theorem maxObjectSize_class {c : Nat} (small : c ≤ 28) : 2 ^ (c + 3) ≤ maxObjectSize := by
  rw [Kingsley.maxObjectSize_eq]
  exact Nat.pow_le_pow_right (by omega) (by omega)

/-- A request that has a class gets the first free object of the class, or a new one. -/
theorem malloc_class {space : Space} {heap : KingsleyHeap} (bound : sz ≤ maxObjectSize) :
    ∃ c : Nat, c ≤ 28 ∧ Kingsley.size2Class sz = .ok c ∧ sz ≤ 2 ^ (c + 3) ∧ malloc space heap sz =
      if heap.bins c = 0 then bigMalloc space heap (2 ^ (c + 3))
      else .ok (heap.bins c, space,
        { heap with bins := Function.update heap.bins c (space.memory.load (heap.bins c) 8) }) := by
  obtain ⟨c, small, found, fits, _⟩ := Kingsley.size2Class_fits bound
  refine ⟨c, small, found, fits, ?_⟩
  have indexed : (0 : Int) ≤ c ∧ (c : Int) < Kingsley.numBins := by
    simp only [Kingsley.numBins]
    omega
  have sized := Kingsley.class2Size_nat small
  have again : Kingsley.size2Class (2 ^ (c + 3)) = .ok (c : Int) := Kingsley.size2Class_class small
  simp only [malloc, if_pos bound, found, ok_bind, sized, check_true fits, again, check_true trivial,
    check_true indexed, SLList.get]
  by_cases empty : heap.bins c = 0
  · simp only [if_pos empty, if_true]
  · simp only [if_neg empty]
    rfl

/-- An object of any size that is not too large goes to the head of a free list,
an object of the size of a class to the list of its class. -/
theorem free_small {space : Space} {heap : KingsleyHeap}
    (sized : AdaptAppHeap.getSize space.memory ptr = .ok size) (positive : 0 < size)
    (bound : size ≤ maxObjectSize) :
    ∃ sizeClass memoryHeld, free space heap ptr = .ok
      ({ space with memory := space.memory.store ptr (heap.bins sizeClass) 8 },
        ⟨heap.bigheap, Function.update heap.bins sizeClass ptr, memoryHeld⟩) ∧
      ∀ c : Nat, c ≤ 28 → size = 2 ^ (c + 3) → sizeClass = c := by
  obtain ⟨c, small, found, upper, lower⟩ := Kingsley.size2Class_fits bound
  have indexed : (0 : Int) ≤ c ∧ (c : Int) < Kingsley.numBins := by
    simp only [Kingsley.numBins]
    omega
  have kept : ¬ (size = 0 ∨ maxObjectSize < size) := by omega
  obtain ⟨fits, next, same⟩ := Kingsley.lowerClass_fits small positive upper lower
  refine ⟨lowerClass size 32 c, sizeT (heap.memoryHeld + size), ?_, ?_⟩
  · simp only [free, sized, ok_bind, if_neg kept, found, check_true indexed,
      Kingsley.class2Size_nat small, check_true upper, check_true fits, check_true next]
    rfl
  · intro c' small' full
    rw [full, Kingsley.size2Class_class small'] at found
    have equal : c = c' := by
      injection found with equal
      omega
    rw [← equal]
    exact same (by rw [full, equal])

/-- An object without a class is not kept for another use. -/
theorem free_large {space : Space} {heap : KingsleyHeap}
    (sized : AdaptAppHeap.getSize space.memory ptr = .ok size)
    (classless : size = 0 ∨ maxObjectSize < size) : free space heap ptr = .ok (space, heap) := by
  simp only [free, sized, ok_bind, if_pos classless]
  rfl

/-- Whatever size the header shows, only the first word of the object is written. -/
theorem free_writes {space : Space} {heap : KingsleyHeap}
    (sized : AdaptAppHeap.getSize space.memory ptr = .ok size) :
    ∃ space' heap', free space heap ptr = .ok (space', heap') ∧
      ∀ place, place < ptr ∨ ptr + 8 ≤ place → space'.memory place = space.memory place := by
  by_cases classless : size = 0 ∨ maxObjectSize < size
  · exact ⟨_, _, free_large sized classless, fun _ _ => rfl⟩
  · obtain ⟨sizeClass, memoryHeld, freed, _⟩ := @free_small _ _ _ heap sized (by omega) (by omega)
    exact ⟨_, _, freed, fun _ away => Memory.store_outside away⟩

end StrictSegHeap

/-- What a call of `malloc` keeps besides the layout: the bytes of all objects and of
the other heaps' arenas. -/
structure Serves (layout layout' : Layout) (space space' : Space) (heapid ptr : Nat) : Prop where
  heapStart : space'.xheap.heapStart = space.xheap.heapStart
  heapEnd : space'.xheap.heapEnd = space.xheap.heapEnd
  sizes : ∀ other, other ≠ ptr → layout'.size other = layout.size other
  kept : ∀ place, layout.own place ≠ .nobody → layout.own place ≠ .arena heapid →
    layout.own place ≠ .tail heapid → space'.memory place = space.memory place

/-- What a call of `free` keeps: it writes the link in the block's first word. -/
structure Releases (layout layout' : Layout) (xmemory xmemory' : Xmemory) (heapid ptr : Nat) : Prop where
  xheap : xmemory'.space.xheap = xmemory.space.xheap
  sizes : layout'.size = layout.size
  zones : ∀ other, (xmemory'.heaps other).bigheap = (xmemory.heaps other).bigheap
  kept : ∀ place, place < ptr ∨ ptr + 8 ≤ place → xmemory'.space.memory place = xmemory.space.memory place
  head : ∀ c : Nat, c ≤ 28 → layout.size ptr = some (2 ^ (c + 3)) → (xmemory'.heaps heapid).bins c = ptr

section

variable {layout : Layout} {xmemory : Xmemory} {blocks : List Block}

theorem Laid.object (laid : Laid layout xmemory blocks) (member : block ∈ blocks) :
    ∃ size, layout.size block.ptr = some size ∧ block.size ≤ size ∧
      ObjectLaid layout.own xmemory.space.memory block.ptr size := by
  obtain ⟨_, size, sized, fits⟩ := laid.live block member
  exact ⟨size, sized, fits, laid.objects _ _ sized⟩

theorem Laid.apart (laid : Laid layout xmemory blocks) (sized : layout.size ptr = some size)
    (sized' : layout.size ptr' = some size') (different : ptr' ≠ ptr) :
    ptr + size ≤ ptr' - 16 ∨ ptr' + size' ≤ ptr - 16 := by
  have object := laid.objects ptr size sized
  have object' := laid.objects ptr' size' sized'
  have low := object.low
  have low' := object'.low
  have owners : Owner.object ptr ≠ .object ptr' := by simpa using different.symm
  by_contra overlap
  rcases Nat.le_total ptr ptr' with before | after
  · have := @Owns.apart _ _ _ _ _ _ _ _ (ptr' - 16) object.owns object'.owns owners (by omega) (by omega)
    omega
  · have := @Owns.apart _ _ _ _ _ _ _ _ (ptr - 16) object.owns object'.owns owners (by omega) (by omega)
    omega

theorem Laid.range (laid : Laid layout xmemory blocks) (sized : layout.size ptr = some size) :
    xmemory.space.xheap.heapStart + 16 ≤ ptr ∧ ptr + size ≤ xmemory.space.xheap.heapEnd := by
  have object := laid.objects ptr size sized
  have low := object.low
  have bounds := laid.xheap.range object.owns nofun (by omega)
  have rest := laid.xheap.rest
  omega

theorem Laid.head_bound (laid : Laid layout xmemory blocks) (heapid : Nat) (sizeClass : Int) :
    (xmemory.heaps heapid).bins sizeClass < 2 ^ 64 := by
  have list := laid.lists heapid sizeClass
  have chain := list.chain
  have members := list.members
  cases listed : layout.listed heapid sizeClass with
  | nil =>
    rw [list.chain.head_zero.mpr listed]
    exact Nat.two_pow_pos 64
  | cons ptr rest =>
    rw [listed] at chain members
    obtain ⟨_, c, _, _, sized⟩ := members ptr (List.mem_cons_self ..)
    have high := (laid.objects ptr _ sized).high
    rw [chain.1]
    exact Nat.lt_of_le_of_lt (Nat.le_add_right ..) high

theorem Laid.forget (laid : Laid layout xmemory blocks) (fewer : blocks'.Sublist blocks) :
    Laid layout xmemory blocks' :=
  { laid with
    distinct := laid.distinct.sublist (fewer.map Block.ptr)
    live := fun block member => laid.live block (fewer.subset member) }

theorem Laid.elsewhere (laid : Laid layout xmemory blocks) {memory : Memory}
    (kept : ∀ place, xmemory.space.xheap.heapStart ≤ place → place < xmemory.space.xheap.heapEnd →
      memory place = xmemory.space.memory place) :
    Laid layout { xmemory with space := { xmemory.space with memory := memory } } blocks := by
  have owned : ∀ place, layout.own place ≠ .nobody → memory place = xmemory.space.memory place := by
    intro place some
    have inside := laid.xheap.inside place some
    have rest := laid.xheap.rest
    exact kept place inside.1 (by omega)
  refine { laid with zones := ?_, objects := ?_, lists := ?_ }
  · intro heapid
    refine (laid.zones heapid).kept (fun _ _ => rfl) ?_
    exact fun place same => owned place (by rw [same]; exact nofun)
  · intro ptr size sized
    refine (laid.objects ptr size sized).kept (fun _ _ => rfl) ?_
    exact fun place same _ => owned place (by rw [same]; exact nofun)
  · intro heapid sizeClass
    refine (laid.lists heapid sizeClass).kept laid.objects ?_
    exact fun ptr _ place same => owned place (by rw [same]; exact nofun)

theorem Laid.drop (laid : Laid layout xmemory blocks) (member : block ∈ blocks) (heapid : Nat) :
    Laid (layout.relist heapid 0 (layout.listed heapid 0) block.ptr .dropped)
      { xmemory with heaps := Function.update xmemory.heaps heapid (xmemory.heaps heapid) }
      (blocks.filter (·.ptr ≠ block.ptr)) := by
  have unlisted := laid.unlisted (laid.live block member).1
  have old := laid.lists heapid 0
  refine laid.relist rfl (Function.update_eq_self 0 _).symm ⟨?_, ?_, ?_⟩
    (fun heapid' sizeClass _ => unlisted heapid' sizeClass)
    (laid.distinct.sublist ((List.filter_sublist).map Block.ptr)) ?_
  · rw [Layout.relist_self]
    exact old.chain
  · rw [Layout.relist_self]
    exact old.nodup
  · rw [Layout.relist_self]
    intro ptr listed
    have different : ptr ≠ block.ptr := fun same => unlisted heapid 0 (same ▸ listed)
    simp only [Layout.relist, Function.update_of_ne different]
    exact old.members ptr listed
  · exact fun other present => laid.live_others present

/-- A new object for a block, through the lowest layers. -/
theorem StrictSegHeap.bigMalloc_laid (laid : Laid layout xmemory blocks) (heapid : Nat)
    (bound : sz + 4136 ≤ 2 ^ 64) (aligned : sz % 8 = 0)
    (sized : (∃ c : Nat, c ≤ 28 ∧ sz = 2 ^ (c + 3)) ∨ maxObjectSize < sz) (fits : size ≤ sz) :
    bigMalloc xmemory.space (xmemory.heaps heapid) sz = .error .exit ∨
      ∃ ptr space' heap' layout',
        bigMalloc xmemory.space (xmemory.heaps heapid) sz = .ok (ptr, space', heap') ∧
        Serves layout layout' xmemory.space space' heapid ptr ∧
        Laid layout' ⟨space', Function.update xmemory.heaps heapid heap'⟩ (⟨ptr, size⟩ :: blocks) := by
  rcases AdaptAppHeap.malloc_laid laid.xheap (laid.zones heapid) bound aligned sized with
    exits | ⟨ptr, space', zone', own', succeeds, made⟩
  · left
    rw [bigMalloc, exits]
    rfl
  · refine .inr ⟨ptr, space', { xmemory.heaps heapid with bigheap := zone' }, layout.add own' ptr sz, ?_,
      ⟨made.heapStart, made.heapEnd, ?_, fun place none arena tail => (made.others place none arena tail).2⟩,
      laid.carve made rfl fits⟩
    · rw [bigMalloc, succeeds]
      rfl
    · exact fun other different => Function.update_of_ne different ..

theorem StrictSegHeap.malloc_laid (laid : Laid layout xmemory blocks) (heapid : Nat)
    (bound : sz + 4136 ≤ 2 ^ 64) (aligned : sz % 8 = 0) (fits : size ≤ sz) :
    malloc xmemory.space (xmemory.heaps heapid) sz = .error .exit ∨
      ∃ ptr space' heap' layout',
        malloc xmemory.space (xmemory.heaps heapid) sz = .ok (ptr, space', heap') ∧
        Serves layout layout' xmemory.space space' heapid ptr ∧
        Laid layout' ⟨space', Function.update xmemory.heaps heapid heap'⟩ (⟨ptr, size⟩ :: blocks) := by
  by_cases small : sz ≤ maxObjectSize
  · obtain ⟨c, indexed, _, upper, called⟩ := @malloc_class _ xmemory.space (xmemory.heaps heapid) small
    rw [called]
    split
    · have room := maxObjectSize_class indexed
      rw [Kingsley.maxObjectSize_eq] at room
      refine bigMalloc_laid laid heapid (by omega) ?_ (.inl ⟨c, indexed, rfl⟩) (by omega)
      rw [Nat.pow_add]
      omega
    · rename_i nonempty
      obtain ⟨rest, popped⟩ := @Laid.pop _ _ _ _
        { xmemory.heaps heapid with
          bins := Function.update (xmemory.heaps heapid).bins c
            (xmemory.space.memory.load ((xmemory.heaps heapid).bins c) 8) }
        _ size laid nonempty (by omega) rfl rfl
      refine .inr ⟨_, _, _, _, rfl, ?_, popped⟩
      exact ⟨rfl, rfl, fun _ _ => rfl, fun _ _ _ _ => rfl⟩
  · rw [malloc, if_neg small]
    exact bigMalloc_laid laid heapid bound aligned (.inr (by omega)) fits

/-- A call of `malloc` exits, or hands out a block that fits into the layout. -/
theorem Xmemory.malloc_laid (laid : Laid layout xmemory blocks) (heapid : Nat)
    (bound : sz + 4136 ≤ 2 ^ 64) (enough : size ≤ sz) :
    xmemory.malloc heapid sz = .error .exit ∨ ∃ ptr xmemory' layout',
      xmemory.malloc heapid sz = .ok (ptr, xmemory') ∧
      Serves layout layout' xmemory.space xmemory'.space heapid ptr ∧
      Laid layout' xmemory' (⟨ptr, size⟩ :: blocks) := by
  obtain ⟨fits, _, bound', aligned⟩ := align_request bound
  rcases StrictSegHeap.malloc_laid laid heapid bound' aligned (Nat.le_trans enough fits) with
    exits | ⟨ptr, space', heap', layout', succeeds, serves, laid'⟩
  · left
    rw [malloc, KingsleyHeap.malloc, exits]
    rfl
  · refine .inr ⟨ptr, _, layout', ?_, serves, laid'⟩
    rw [malloc, KingsleyHeap.malloc, succeeds]
    rfl

/-- A call of `free` on a live block, under whatever heap, writes nothing but
the link in the block's first word. -/
theorem Xmemory.free_laid (laid : Laid layout xmemory blocks) (member : block ∈ blocks) (heapid : Nat) :
    ∃ xmemory' layout', xmemory.free heapid block.ptr = .ok xmemory' ∧
      Releases layout layout' xmemory xmemory' heapid block.ptr ∧
      Laid layout' xmemory' (blocks.filter (·.ptr ≠ block.ptr)) := by
  obtain ⟨size, sized, _, object⟩ := laid.object member
  have read := AdaptAppHeap.getSize_laid object
  have nonzero : block.ptr ≠ 0 := by
    have := object.low
    omega
  rcases object.sized with ⟨c, small, rfl⟩ | large
  · have positive := object.positive
    obtain ⟨sizeClass, memoryHeld, freed, classed⟩ := @StrictSegHeap.free_small _ _ _
      (xmemory.heaps heapid) read (by omega) (StrictSegHeap.maxObjectSize_class small)
    obtain rfl := classed c small rfl
    have link : (xmemory.heaps heapid).bins c < 2 ^ 64 := laid.head_bound heapid c
    have kept : ∀ place, place < block.ptr ∨ block.ptr + 8 ≤ place →
        xmemory.space.memory.store block.ptr ((xmemory.heaps heapid).bins c) 8 place =
          xmemory.space.memory place := fun place away => Memory.store_outside away
    have written := laid.write sized (laid.live block member).1 (fun place away => kept place (by omega))
    have linked : (xmemory.space.memory.store block.ptr ((xmemory.heaps heapid).bins c) 8).load
        block.ptr 8 = (xmemory.heaps heapid).bins c := by
      rw [Memory.load_store]
      omega
    have pushed := @Laid.push _ heapid _ _
      ⟨(xmemory.heaps heapid).bigheap, Function.update (xmemory.heaps heapid).bins c block.ptr, memoryHeld⟩
      _ _ written member small sized linked rfl rfl
    refine ⟨_, _, ?_, ?_, pushed⟩
    · rw [free, if_neg nonzero, KingsleyHeap.free, if_neg nonzero, freed]
      rfl
    refine ⟨rfl, rfl, ?_, kept, ?_⟩
    · intro other
      by_cases same : other = heapid
      · subst same
        simp
      · simp [Function.update_of_ne same]
    · intro c' small' sized'
      rw [sized] at sized'
      have same : c = c' := by
        have := Nat.pow_right_injective (Nat.le_refl 2) (Option.some.inj sized')
        omega
      subst same
      simp
  · have freed := @StrictSegHeap.free_large _ _ xmemory.space (xmemory.heaps heapid) read (.inr large)
    refine ⟨{ xmemory with heaps := Function.update xmemory.heaps heapid (xmemory.heaps heapid) }, _, ?_,
      ?_, laid.drop member heapid⟩
    · rw [free, if_neg nonzero, KingsleyHeap.free, if_neg nonzero, freed]
      rfl
    refine ⟨rfl, rfl, ?_, fun _ _ => rfl, ?_⟩
    · intro other
      rw [Function.update_eq_self]
    · intro c small sized'
      have := StrictSegHeap.maxObjectSize_class small
      rw [sized] at sized'
      have := Option.some.inj sized'
      omega

end

end ProcessAsThread.Heap
