import ProcessAsThread.Heap.Calls

/-! Whether memory remains for a request, as the state says before the call: a
free object of its class, room in the heap's current arena, or pages for a new
arena. The `exit(-1)` of xheap is the end of the calls that find none of these. -/

namespace ProcessAsThread.Heap

open Library

namespace StrictSegHeap

/-- The object at the head of the free list for a size, or NULL. -/
def freeObject (heap : KingsleyHeap) (sz : Nat) : Nat :=
  if sz ≤ maxObjectSize then
    match Kingsley.size2Class sz with
    | .ok sizeClass => heap.bins sizeClass
    | .error _ => 0
  else 0

def objectSize (sz : Nat) : Nat :=
  if sz ≤ maxObjectSize then
    match Kingsley.size2Class sz with
    | .ok sizeClass => Kingsley.class2Size sizeClass + ObjectHeader.size
    | .error _ => sz + ObjectHeader.size
  else sz + ObjectHeader.size

end StrictSegHeap

def ZoneHeap.HasRoom (memory : Memory) (zone : ZoneHeap) (sz : Nat) : Prop :=
  zone.currentArena ≠ 0 ∧ sz ≤ Arena.sizeRemaining memory zone.currentArena

instance (memory : Memory) (zone : ZoneHeap) (sz : Nat) : Decidable (zone.HasRoom memory sz) :=
  inferInstanceAs (Decidable (_ ∧ _))

/-- The bytes of a new arena for a request, with its header, in whole pages. -/
def ZoneHeap.newArena (sz : Nat) : Nat :=
  pageSize * ((Arena.size + max chunkSize sz + (pageSize - 1)) / pageSize)

namespace KingsleyHeap

/-- A free object, or memory to carve a new one from. -/
def Remains (space : Space) (heap : KingsleyHeap) (sz : Nat) : Prop :=
  StrictSegHeap.freeObject heap sz ≠ 0 ∨
    heap.bigheap.HasRoom space.memory (StrictSegHeap.objectSize sz) ∨
    ZoneHeap.newArena (StrictSegHeap.objectSize sz) ≤ space.xheap.remaining

instance (space : Space) (heap : KingsleyHeap) (sz : Nat) : Decidable (heap.Remains space sz) :=
  inferInstanceAs (Decidable (_ ∨ _ ∨ _))

end KingsleyHeap

/-- Memory remains for a request under a heap, which the wrapper rounds up first. -/
def Xmemory.Remains (xmemory : Xmemory) (heapid sz : Nat) : Prop :=
  (xmemory.heaps heapid).Remains xmemory.space (align (if sz < 16 then 16 else sz))

instance (xmemory : Xmemory) (heapid sz : Nat) : Decidable (xmemory.Remains heapid sz) :=
  inferInstanceAs (Decidable (KingsleyHeap.Remains ..))

/-- What comes behind a call that succeeds does not exit, so the call itself does. -/
theorem bind_eq_exit {call : Outcome α} {next : α → Outcome β}
    (onward : ∀ value, call = .ok value → next value ≠ .error .exit) :
    call >>= next = .error .exit ↔ call = .error .exit := by
  cases call with
  | ok value => simp [ok_bind, onward value rfl]
  | error halt => simp [bind, Except.bind]

private theorem check_ne_exit (condition : Prop) [Decidable condition] : check condition ≠ .error .exit := by
  unfold check
  split <;> simp

private theorem AdaptAppHeap.getSize_ne_exit (memory : Memory) (ptr : Nat) :
    getSize memory ptr ≠ .error .exit := by
  rw [getSize, ObjectHeader.getSize, Ne, bind_eq_exit fun _ _ => by simp [pure, Except.pure]]
  exact check_ne_exit _

theorem XHeap.malloc_exit_iff {xheap : XHeap} {sz : Nat} (bound : sz + 4095 < 2 ^ 64) :
    xheap.malloc sz = .error .exit ↔ xheap.remaining < pageSize * ((sz + (pageSize - 1)) / pageSize) := by
  have round : sizeT (sz + (pageSize - 1)) = sz + (pageSize - 1) := sizeT_small bound
  simp only [malloc, round]
  split <;> simp [*]

theorem ZoneHeap.malloc_exit_iff {space : Space} {zone : ZoneHeap} {sz : Nat}
    (bound : align sz + 4119 < 2 ^ 64) : zone.malloc space sz = .error .exit ↔
      ¬ zone.HasRoom space.memory (align sz) ∧ space.xheap.remaining < newArena (align sz) := by
  have same : zone.malloc space sz = if zone.HasRoom space.memory (align sz) then
      .ok ((Arena.malloc space.memory zone.currentArena (align sz)).1,
        { space with memory := (Arena.malloc space.memory zone.currentArena (align sz)).2 }, zone)
      else slowMalloc space zone (align sz) := rfl
  rw [same]
  split
  · rename_i room
    simp [room]
  · rename_i full
    have checked : zone.currentArena = 0 ∨ Arena.sizeRemaining space.memory zone.currentArena < align sz := by
      simp only [HasRoom, not_and] at full
      omega
    have larger : (if chunkSize < align sz then align sz else chunkSize) = max chunkSize (align sz) := by
      split <;> omega
    have chunk : chunkSize = 1048576 := rfl
    have header : Arena.size = 24 := rfl
    have whole : sizeT (Arena.size + max chunkSize (align sz)) = Arena.size + max chunkSize (align sz) :=
      sizeT_small (by omega)
    rw [slowMalloc, check_true checked, ok_bind]
    simp only [larger, whole]
    rw [bind_eq_exit ?onward, XHeap.malloc_exit_iff (by omega)]
    · simp [full, newArena]
    · rintro ⟨buf, xheap⟩ _
      simp only
      split <;> simp [pure, Except.pure]

theorem AdaptAppHeap.malloc_exit_iff {space : Space} {zone : ZoneHeap} {sz : Nat}
    (bound : sz + 4136 ≤ 2 ^ 64) (aligned : sz % 8 = 0) : malloc space zone sz = .error .exit ↔
      ¬ zone.HasRoom space.memory (sz + ObjectHeader.size) ∧
        space.xheap.remaining < ZoneHeap.newArena (sz + ObjectHeader.size) := by
  have header : ObjectHeader.size = 16 := rfl
  have length : align (sz + ObjectHeader.size) = sz + ObjectHeader.size := by
    rw [align, sizeT_small (by omega)]
    omega
  rw [malloc, sizeT_small (by omega), bind_eq_exit ?onward, ZoneHeap.malloc_exit_iff (by omega), length]
  rintro ⟨ptr, space', zone'⟩ _
  simp only
  split
  · simp [pure, Except.pure]
  · rw [Ne, bind_eq_exit ?sized]
    · exact getSize_ne_exit _ _
    · intro size _
      rw [Ne, bind_eq_exit fun _ _ => by simp [pure, Except.pure]]
      exact check_ne_exit _

theorem StrictSegHeap.bigMalloc_exit_iff {space : Space} {heap : KingsleyHeap} {sz : Nat} :
    bigMalloc space heap sz = .error .exit ↔ AdaptAppHeap.malloc space heap.bigheap sz = .error .exit := by
  rw [bigMalloc, bind_eq_exit]
  simp [pure, Except.pure]

/-- With a free object there is nothing to exit for; without one it is up to the zone heap. -/
theorem StrictSegHeap.malloc_exit_iff {space : Space} {heap : KingsleyHeap} {sz : Nat}
    (bound : sz + 4136 ≤ 2 ^ 64) (aligned : sz % 8 = 0) :
    malloc space heap sz = .error .exit ↔ ¬ heap.Remains space sz := by
  rw [KingsleyHeap.Remains, freeObject, objectSize]
  by_cases small : sz ≤ maxObjectSize
  · obtain ⟨c, indexed, found, _, called⟩ := @malloc_class _ space heap small
    have room := maxObjectSize_class indexed
    rw [Kingsley.maxObjectSize_eq] at room
    have multiple : 2 ^ (c + 3) % 8 = 0 := by
      rw [Nat.pow_add]
      omega
    simp only [called, if_pos small, found, Kingsley.class2Size_nat indexed]
    by_cases empty : heap.bins c = 0
    · rw [if_pos empty, bigMalloc_exit_iff, AdaptAppHeap.malloc_exit_iff (by omega) multiple]
      simp [empty]
    · simp [empty]
  · rw [malloc, if_neg small, bigMalloc_exit_iff, AdaptAppHeap.malloc_exit_iff bound aligned]
    simp [small]

/-- A call of `malloc` exits exactly when no memory remains for it. -/
theorem Xmemory.malloc_exit_iff {xmemory : Xmemory} {heapid sz : Nat} (bound : sz + 4136 ≤ 2 ^ 64) :
    xmemory.malloc heapid sz = .error .exit ↔ ¬ xmemory.Remains heapid sz := by
  obtain ⟨_, _, bound', aligned⟩ := align_request bound
  rw [malloc, bind_eq_exit fun _ _ => by simp [pure, Except.pure]]
  exact StrictSegHeap.malloc_exit_iff bound' aligned

end ProcessAsThread.Heap
