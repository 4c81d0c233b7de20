import ProcessAsThread.Heap.Safety

/-! Where the next object will be, as the state says before the call: at the head
of its free list, behind the objects of the current arena, or in a new arena at
the bump pointer. Below every object there are its header of 16 bytes and that
of an arena, 24 bytes, from a page boundary on. -/

namespace ProcessAsThread.Heap

open Library

/-- The next byte a zone heap hands out for a request. -/
def ZoneHeap.nextByte (space : Space) (zone : ZoneHeap) (sz : Nat) : Nat :=
  if zone.currentArena ≠ 0 ∧ align sz ≤ Arena.sizeRemaining space.memory zone.currentArena then
    space.memory.load (zone.currentArena + 16) 8
  else space.xheap.position + Arena.size

/-- The object a heap carves next for a request. -/
def ZoneHeap.nextCarved (space : Space) (zone : ZoneHeap) (sz : Nat) : Nat :=
  sizeT (zone.nextByte space (sizeT (sz + ObjectHeader.size)) + ObjectHeader.size)

/-- The object a heap has for a request: the first free one of its class, or a new one. -/
def KingsleyHeap.nextObject (space : Space) (heap : KingsleyHeap) (sz : Nat) : Nat :=
  let sz := align (if sz < 16 then 16 else sz)
  if sz ≤ StrictSegHeap.maxObjectSize then
    match Kingsley.size2Class sz with
    | .ok sizeClass =>
      if heap.bins sizeClass = 0 then heap.bigheap.nextCarved space (Kingsley.class2Size sizeClass)
      else heap.bins sizeClass
    | .error _ => 0
  else heap.bigheap.nextCarved space sz

/-- The bump pointer is at a page boundary below the end of the region. -/
structure XHeap.Paged (xheap : XHeap) : Prop where
  page : xheap.position % pageSize = 0
  positive : 0 < xheap.position
  rest : xheap.position + xheap.remaining = userHeapBase + userHeapSize

theorem XHeap.Paged.malloc {xheap xheap' : XHeap} (paged : xheap.Paged)
    (called : xheap.malloc sz = .ok (buf, xheap')) : buf = xheap.position ∧ xheap'.Paged := by
  have page := paged.page
  have rest := paged.rest
  have positive := paged.positive
  simp only [XHeap.malloc] at called
  split at called
  · cases called
  · cases called
    refine ⟨rfl, ?_, ?_, ?_⟩
    · simp only [pageSize] at page ⊢
      omega
    · simp only
      omega
    · simp only
      omega

namespace Arena

theorem malloc_loads {memory : Memory} {arena sz : Nat} (room : sz ≤ sizeRemaining memory arena) :
    (malloc memory arena sz).1 = memory.load (arena + 16) 8 ∧
      (malloc memory arena sz).2.load arena 8 = (memory.load arena 8 - sz) % 2 ^ 64 ∧
      (malloc memory arena sz).2.load (arena + 16) 8 = (memory.load (arena + 16) 8 + sz) % 2 ^ 64 := by
  have reload : (memory.store arena (sizeRemaining memory arena - sz) 8).load (arena + 16) 8 =
      memory.load (arena + 16) 8 := Memory.load_store_apart (by omega)
  simp only [malloc, if_neg (Nat.not_lt.mpr room), reload]
  refine ⟨trivial, ?_, ?_⟩
  · rw [Memory.load_store_apart (by omega), Memory.load_store]
    rfl
  · rw [Memory.load_store, sizeT]
    omega

theorem create_loads (memory : Memory) (arena sz : Nat) :
    (create memory arena sz).load arena 8 = sz % 2 ^ 64 ∧
      (create memory arena sz).load (arena + 16) 8 = (arena + size) % 2 ^ 64 := by
  refine ⟨?_, ?_⟩
  · rw [create, Memory.load_store_apart (by omega), Memory.load_store_apart (by omega), Memory.load_store]
    rfl
  · rw [create, Memory.load_store]
    rfl

end Arena

namespace ZoneHeap

variable {space space' : Space} {zone zone' : ZoneHeap}

/-- A new arena starts at the bump pointer, with room for the request. -/
theorem slowMalloc_cases (paged : space.xheap.Paged)
    (succeeds : slowMalloc space zone sz = .ok (ptr, space', zone')) :
    ∃ memory allocSize, sz ≤ allocSize ∧ (allocSize = sz ∨ allocSize = chunkSize) ∧ space'.xheap.Paged ∧
      zone'.currentArena = space.xheap.position ∧ (ptr, space'.memory) =
        Arena.malloc (Arena.create memory space.xheap.position allocSize) space.xheap.position sz := by
  simp only [slowMalloc] at succeeds
  generalize (if zone.currentArena = 0 then space.memory
    else Arena.setNextArena space.memory zone.currentArena zone.pastArenas) = memory at succeeds
  generalize allocated : (if chunkSize < sz then sz else chunkSize) = allocSize at succeeds
  obtain ⟨_, _, rest⟩ := bind_eq_ok.mp succeeds
  obtain ⟨⟨buf, xheap⟩, called, rest⟩ := bind_eq_ok.mp rest
  obtain ⟨rfl, paged'⟩ := paged.malloc called
  have nonzero : space.xheap.position ≠ 0 := Nat.ne_of_gt paged.positive
  simp only [nonzero, if_false] at rest
  cases rest
  refine ⟨memory, allocSize, ?_, ?_, paged', rfl, rfl⟩
  · subst allocated
    split <;> omega
  · subst allocated
    split <;> simp

theorem create_room {sz allocSize : Nat} (memory : Memory) (position : Nat) (covers : align sz ≤ allocSize)
    (kind : allocSize = align sz ∨ allocSize = chunkSize) :
    align sz ≤ Arena.sizeRemaining (Arena.create memory position allocSize) position := by
  have small : align sz < 2 ^ 64 := by
    rw [align, sizeT]
    omega
  rw [Arena.sizeRemaining, (Arena.create_loads memory position allocSize).1]
  simp only [chunkSize] at kind
  omega

theorem malloc_ptr (paged : space.xheap.Paged)
    (succeeds : malloc space zone sz = .ok (ptr, space', zone')) :
    ptr = zone.nextByte space sz ∧ space'.xheap.Paged := by
  simp only [malloc] at succeeds
  rw [nextByte]
  split at succeeds
  · rename_i fits
    rw [if_pos fits]
    cases succeeds
    exact ⟨(Arena.malloc_loads fits.2).1, paged⟩
  · rename_i full
    rw [if_neg full]
    obtain ⟨memory, allocSize, covers, kind, paged', _, carved⟩ := slowMalloc_cases paged succeeds
    have rest := paged.rest
    simp only [userHeapBase, userHeapSize] at rest
    have loads := Arena.create_loads memory space.xheap.position allocSize
    have room := create_room memory space.xheap.position covers kind
    refine ⟨?_, paged'⟩
    have first : ptr = (Arena.malloc _ _ _).1 := congrArg Prod.fst carved
    rw [first, (Arena.malloc_loads room).1, loads.2]
    simp only [Arena.size]
    omega

end ZoneHeap

theorem AdaptAppHeap.malloc_ptr {space space' : Space} {zone zone' : ZoneHeap} (paged : space.xheap.Paged)
    (succeeds : malloc space zone sz = .ok (ptr, space', zone')) :
    (ptr ≠ 0 → ptr = zone.nextCarved space sz) ∧ space'.xheap.Paged := by
  simp only [malloc] at succeeds
  obtain ⟨⟨raw, space₁, zone₁⟩, called, rest⟩ := bind_eq_ok.mp succeeds
  obtain ⟨same, paged'⟩ := ZoneHeap.malloc_ptr paged called
  split at rest
  · cases rest
    exact ⟨fun nonzero => (nonzero rfl).elim, paged'⟩
  · obtain ⟨_, _, rest⟩ := bind_eq_ok.mp rest
    obtain ⟨_, _, rest⟩ := bind_eq_ok.mp rest
    cases rest
    refine ⟨fun _ => ?_, paged'⟩
    rw [ZoneHeap.nextCarved, ← same]
    rfl

theorem StrictSegHeap.bigMalloc_ptr {space space' : Space} {heap heap' : KingsleyHeap}
    (paged : space.xheap.Paged) (succeeds : bigMalloc space heap sz = .ok (ptr, space', heap')) :
    (ptr ≠ 0 → ptr = heap.bigheap.nextCarved space sz) ∧ space'.xheap.Paged := by
  obtain ⟨⟨_, _, _⟩, called, same⟩ := bind_eq_ok.mp succeeds
  cases same
  exact AdaptAppHeap.malloc_ptr paged called

/-- A call of `malloc` hands out the object that was next. -/
theorem KingsleyHeap.malloc_ptr {space space' : Space} {heap heap' : KingsleyHeap}
    (paged : space.xheap.Paged) (succeeds : heap.malloc space sz = .ok (ptr, space', heap')) :
    (ptr ≠ 0 → ptr = heap.nextObject space sz) ∧ space'.xheap.Paged := by
  simp only [KingsleyHeap.malloc] at succeeds
  simp only [nextObject]
  generalize align (if sz < 16 then 16 else sz) = rounded at succeeds ⊢
  by_cases small : rounded ≤ StrictSegHeap.maxObjectSize
  · obtain ⟨c, indexed, found, _, called⟩ := @StrictSegHeap.malloc_class _ space heap small
    rw [called] at succeeds
    simp only [if_pos small, found, Kingsley.class2Size_nat indexed]
    split at succeeds
    · rename_i empty
      rw [if_pos empty]
      exact StrictSegHeap.bigMalloc_ptr paged succeeds
    · rename_i nonempty
      rw [if_neg nonempty]
      cases succeeds
      exact ⟨fun _ => rfl, paged⟩
  · rw [StrictSegHeap.malloc, if_neg small] at succeeds
    rw [if_neg small]
    exact StrictSegHeap.bigMalloc_ptr paged succeeds

theorem Xmemory.malloc_ptr {xmemory xmemory' : Xmemory} (paged : xmemory.space.xheap.Paged)
    (succeeds : xmemory.malloc heapid sz = .ok (ptr, xmemory')) :
    (ptr ≠ 0 → ptr = (xmemory.heaps heapid).nextObject xmemory.space sz) ∧ xmemory'.space.xheap.Paged := by
  obtain ⟨⟨_, _, _⟩, called, same⟩ := bind_eq_ok.mp succeeds
  cases same
  exact KingsleyHeap.malloc_ptr paged called

/-! Without a wrapped sum, all objects are eight past a multiple of sixteen: the
sizes they are carved with are multiples of sixteen, or use up an arena of their own. -/

/-- What remains of a zone heap's arena starts at such an address. -/
def ZoneHeap.Eight (memory : Memory) (zone : ZoneHeap) : Prop :=
  zone.currentArena ≠ 0 → memory.load zone.currentArena 8 ≤ chunkSize ∧
    (memory.load zone.currentArena 8 = 0 ∨ memory.load (zone.currentArena + 16) 8 % 16 = 8)

structure Eight (layout : Layout) (xmemory : Xmemory) : Prop where
  paged : xmemory.space.xheap.Paged
  zones : ∀ heapid, (xmemory.heaps heapid).bigheap.Eight xmemory.space.memory
  objects : ∀ ptr size, layout.size ptr = some size → ptr % 16 = 8

theorem ZoneHeap.Eight.kept {memory memory' : Memory} {zone : ZoneHeap} (eight : zone.Eight memory)
    (laid : zone.Laid own memory heapid) (kept : ∀ place, own place = .arena heapid → memory' place = memory place) :
    zone.Eight memory' := by
  intro present
  rcases laid with none | ⟨header, _⟩
  · exact (present none).elim
  · rw [header.load kept (by omega) (by simp [Arena.size]), header.load kept (by omega) (by simp [Arena.size])]
    exact eight present

namespace ZoneHeap

variable {space space' : Space} {zone zone' : ZoneHeap}

private theorem nextByte_eight (paged : space.xheap.Paged) (eight : zone.Eight space.memory)
    (positive : 0 < align sz) :
    zone.nextByte space sz % 16 = 8 := by
  have page := paged.page
  rw [nextByte]
  split
  · rename_i fits
    have room := fits.2
    rw [Arena.sizeRemaining] at room
    rcases (eight fits.1).2 with empty | residue
    · omega
    · exact residue
  · simp only [pageSize] at page
    simp only [Arena.size]
    omega

private theorem nextByte_lt (paged : space.xheap.Paged) (zone : ZoneHeap) (sz : Nat) :
    zone.nextByte space sz < 2 ^ 64 := by
  have rest := paged.rest
  simp only [userHeapBase, userHeapSize] at rest
  rw [nextByte]
  split
  · exact Memory.load_lt ..
  · simp only [Arena.size]
    omega

/-- A carved range of a multiple of sixteen bytes leaves the next one at such an
address, and a larger one leaves nothing. -/
theorem malloc_eight (paged : space.xheap.Paged) (eight : zone.Eight space.memory)
    (whole : align sz % 16 = 0 ∨ chunkSize < align sz)
    (succeeds : malloc space zone sz = .ok (ptr, space', zone')) : zone'.Eight space'.memory := by
  have page := paged.page
  simp only [pageSize] at page
  simp only [malloc] at succeeds
  split at succeeds
  · rename_i fits
    cases succeeds
    intro present
    obtain ⟨_, remaining, start⟩ := Arena.malloc_loads fits.2
    obtain ⟨small, residue⟩ := eight present
    have room := fits.2
    rw [Arena.sizeRemaining] at room
    rw [remaining, start]
    simp only [chunkSize] at small whole ⊢
    omega
  · obtain ⟨memory, allocSize, covers, kind, _, current, carved⟩ := slowMalloc_cases paged succeeds
    intro _
    have loads := Arena.create_loads memory space.xheap.position allocSize
    have room := create_room memory space.xheap.position covers kind
    have last : space'.memory = (Arena.malloc _ _ _).2 := congrArg Prod.snd carved
    obtain ⟨_, remaining, start⟩ := Arena.malloc_loads room
    rw [current, last, remaining, start, loads.1, loads.2]
    simp only [chunkSize] at kind whole ⊢
    simp only [Arena.size]
    omega

end ZoneHeap

theorem AdaptAppHeap.malloc_eight {space space' : Space} {zone zone' : ZoneHeap}
    (paged : space.xheap.Paged) (eight : zone.Eight space.memory) (bound : sz + 4136 ≤ 2 ^ 64)
    (aligned : sz % 8 = 0) (whole : sz % 16 = 0 ∨ chunkSize < sz)
    (succeeds : malloc space zone sz = .ok (ptr, space', zone')) (low : 16 ≤ ptr)
    (apart : zone'.currentArena ≠ 0 →
      zone'.currentArena + Arena.size ≤ ptr - 16 ∨ ptr ≤ zone'.currentArena) :
    ptr % 16 = 8 ∧ zone'.Eight space'.memory := by
  have request : sizeT (sz + ObjectHeader.size) = sz + 16 := sizeT_small (by
    simp only [ObjectHeader.size]
    omega)
  have length : align (sz + 16) = sz + 16 := by
    rw [align, sizeT_small (by omega)]
    omega
  simp only [malloc, request] at succeeds
  obtain ⟨⟨raw, space₁, zone₁⟩, called, rest⟩ := bind_eq_ok.mp succeeds
  have next := (ZoneHeap.malloc_ptr paged called).1
  have residue := ZoneHeap.nextByte_eight paged eight (show 0 < align (sz + 16) by omega)
  have small := ZoneHeap.nextByte_lt paged zone (sz + 16)
  have eight₁ := ZoneHeap.malloc_eight paged eight (by rw [length]; omega) called
  split at rest
  · cases rest
    omega
  · obtain ⟨_, _, rest⟩ := bind_eq_ok.mp rest
    obtain ⟨_, _, rest⟩ := bind_eq_ok.mp rest
    cases rest
    rw [getPointer, sizeT] at low apart ⊢
    simp only [ObjectHeader.size] at low apart ⊢
    refine ⟨by omega, fun present => ?_⟩
    have away := apart present
    simp only [Arena.size] at away
    simp only [ObjectHeader.create]
    rw [Memory.load_store_apart (by omega), Memory.load_store_apart (by omega),
      Memory.load_store_apart (by omega), Memory.load_store_apart (by omega)]
    exact eight₁ present

/-- A call of `malloc` hands out the first free object of a class, or carves an
object of a size with the properties above. -/
theorem Xmemory.malloc_source {xmemory xmemory' : Xmemory} (bound : sz + 4136 ≤ 2 ^ 64)
    (succeeds : xmemory.malloc heapid sz = .ok (ptr, xmemory')) :
    (∃ c : Nat, (xmemory.heaps heapid).bins c = ptr ∧ ptr ≠ 0 ∧ xmemory'.space = xmemory.space ∧
      ∀ other, (xmemory'.heaps other).bigheap = (xmemory.heaps other).bigheap) ∨
    ∃ carved, carved + 4136 ≤ 2 ^ 64 ∧ carved % 8 = 0 ∧ (carved % 16 = 0 ∨ chunkSize < carved) ∧
      AdaptAppHeap.malloc xmemory.space (xmemory.heaps heapid).bigheap carved =
        .ok (ptr, xmemory'.space, (xmemory'.heaps heapid).bigheap) ∧
      ∀ other, other ≠ heapid → xmemory'.heaps other = xmemory.heaps other := by
  obtain ⟨⟨_, _, heap'⟩, called, same⟩ := bind_eq_ok.mp succeeds
  cases same
  have others : ∀ other, other ≠ heapid →
      Function.update xmemory.heaps heapid heap' other = xmemory.heaps other :=
    fun other different => Function.update_of_ne different ..
  have bounds := (align_request bound).2
  simp only [KingsleyHeap.malloc] at called
  generalize align (if sz < 16 then 16 else sz) = rounded at called bounds
  by_cases small : rounded ≤ StrictSegHeap.maxObjectSize
  · obtain ⟨c, indexed, _, fits, chosen⟩ :=
      @StrictSegHeap.malloc_class _ xmemory.space (xmemory.heaps heapid) small
    rw [chosen] at called
    split at called
    · obtain ⟨⟨_, _, zone'⟩, carves, same⟩ := bind_eq_ok.mp called
      cases same
      obtain ⟨d, rfl⟩ : ∃ d, c = d + 1 := by
        refine ⟨c - 1, ?_⟩
        by_contra none
        have zero : c = 0 := by omega
        subst zero
        omega
      have room := StrictSegHeap.maxObjectSize_class indexed
      rw [Kingsley.maxObjectSize_eq] at room
      have multiple : 2 ^ (d + 1 + 3) % 16 = 0 := by
        rw [show d + 1 + 3 = d + 4 by omega, Nat.pow_add]
        omega
      refine .inr ⟨_, by omega, by omega, .inl multiple, ?_, others⟩
      simpa only [Function.update_self] using carves
    · rename_i nonempty
      cases called
      refine .inl ⟨c, rfl, nonempty, rfl, fun other => ?_⟩
      by_cases same : other = heapid
      · subst same
        simp
      · simp [Function.update_of_ne same]
  · rw [StrictSegHeap.malloc, if_neg small] at called
    obtain ⟨⟨_, _, zone'⟩, carves, same⟩ := bind_eq_ok.mp called
    cases same
    rw [Kingsley.maxObjectSize_eq] at small
    refine .inr ⟨rounded, bounds.2.1, bounds.2.2, .inr ?_, ?_, others⟩
    · simp only [chunkSize]
      omega
    · simpa only [Function.update_self] using carves

section

variable {layout layout' : Layout} {xmemory xmemory' : Xmemory} {blocks : List Block}

theorem Xmemory.malloc_eight (laid : Laid layout xmemory blocks) (eight : Eight layout xmemory)
    (bound : sz + 4136 ≤ 2 ^ 64) (succeeds : xmemory.malloc heapid sz = .ok (ptr, xmemory'))
    (serves : Serves layout layout' xmemory.space xmemory'.space heapid ptr)
    (laid' : Laid layout' xmemory' (⟨ptr, size⟩ :: blocks)) : ptr % 16 = 8 ∧ Eight layout' xmemory' := by
  have paged' := (malloc_ptr eight.paged succeeds).2
  have objects : ptr % 16 = 8 → ∀ other size, layout'.size other = some size → other % 16 = 8 := by
    intro residue other size sized
    by_cases same : other = ptr
    · rw [same]
      exact residue
    · rw [serves.sizes other same] at sized
      exact eight.objects other size sized
  rcases malloc_source bound succeeds with
    ⟨c, head, nonzero, space, zones⟩ | ⟨carved, small, aligned, whole, carves, others⟩
  · have residue : ptr % 16 = 8 := by
      have list := laid.lists heapid c
      have chain := list.chain
      have members := list.members
      cases listed : layout.listed heapid c with
      | nil => exact (nonzero (head.symm.trans (list.chain.head_zero.mpr listed))).elim
      | cons first rest =>
        rw [listed] at chain members
        obtain ⟨_, _, _, _, sized⟩ := members first (List.mem_cons_self ..)
        rw [← head, chain.1]
        exact eight.objects first _ sized
    refine ⟨residue, paged', fun other => ?_, objects residue⟩
    rw [zones other, space]
    exact eight.zones other
  · obtain ⟨full, _, _, object⟩ := laid'.object (List.mem_cons_self ..)
    have object : ObjectLaid layout'.own xmemory'.space.memory ptr full := object
    have low := object.low
    obtain ⟨residue, zone⟩ := AdaptAppHeap.malloc_eight eight.paged (eight.zones heapid) small aligned whole
      carves low (by
        intro present
        rcases laid'.zones heapid with none | ⟨header, _⟩
        · exact (present none).elim
        · by_contra overlap
          have := @Owns.apart _ _ _ _ _ _ _ _ (ptr - 16) object.owns header (by simp) (by simp) (by simp)
          have := @Owns.apart _ _ _ _ _ _ _ _ (xmemory'.heaps heapid).bigheap.currentArena header
            object.owns (by simp) (Nat.le_refl _) (by simp [Arena.size])
          omega)
    refine ⟨residue, paged', fun other => ?_, objects residue⟩
    by_cases same : other = heapid
    · subst same
      exact zone
    · rw [others other same]
      refine (eight.zones other).kept (laid.zones other) fun place owner => ?_
      refine serves.kept place ?_ ?_ ?_
      · simp [owner]
      · simpa [owner] using same
      · simp [owner]

theorem Eight.memory (eight : Eight layout xmemory) (laid : Laid layout xmemory blocks) {memory : Memory}
    (kept : ∀ place heapid, layout.own place = .arena heapid → memory place = xmemory.space.memory place) :
    Eight layout { xmemory with space := { xmemory.space with memory := memory } } :=
  ⟨eight.paged, fun heapid => (eight.zones heapid).kept (laid.zones heapid) fun place => kept place heapid,
    eight.objects⟩

theorem Xmemory.free_eight (eight : Eight layout xmemory) (laid : Laid layout xmemory blocks)
    (member : block ∈ blocks) (releases : Releases layout layout' xmemory xmemory' heapid block.ptr) :
    Eight layout' xmemory' := by
  obtain ⟨size, sized, _, object⟩ := laid.object member
  have positive := object.positive
  refine ⟨by rw [releases.xheap]; exact eight.paged, fun other => ?_, ?_⟩
  · rw [releases.zones other]
    refine (eight.zones other).kept (laid.zones other) fun place owner => releases.kept place ?_
    by_contra inside
    rw [object.owns place (by omega) (by omega)] at owner
    cases owner
  · rw [releases.sizes]
    exact eight.objects

/-- Whatever it is given, `free` leaves the bump allocator alone. -/
theorem Xmemory.free_xheap (succeeds : xmemory.free heapid ptr = .ok xmemory') :
    xmemory'.space.xheap = xmemory.space.xheap := by
  rw [free] at succeeds
  split at succeeds
  · cases succeeds
    rfl
  · obtain ⟨⟨space', heap'⟩, called, same⟩ := bind_eq_ok.mp succeeds
    cases same
    rw [KingsleyHeap.free] at called
    split at called
    · cases called
      rfl
    · obtain ⟨size, _, rest⟩ := bind_eq_ok.mp called
      split at rest
      · cases rest
        rfl
      · obtain ⟨_, _, rest⟩ := bind_eq_ok.mp rest
        obtain ⟨_, _, rest⟩ := bind_eq_ok.mp rest
        obtain ⟨_, _, rest⟩ := bind_eq_ok.mp rest
        obtain ⟨_, _, rest⟩ := bind_eq_ok.mp rest
        obtain ⟨_, _, rest⟩ := bind_eq_ok.mp rest
        cases rest
        rfl

theorem Xmemory.create_paged (memory : Memory) : (create memory).space.xheap.Paged := by
  have region := Client.start_region memory
  simp only [Client.start] at region
  rw [region]
  exact ⟨by decide, by decide, rfl⟩

theorem Xmemory.create_eight (memory : Memory) : Eight .empty (create memory) :=
  ⟨create_paged memory, fun _ present => (present rfl).elim, by simp [Layout.empty]⟩

end

end ProcessAsThread.Heap
