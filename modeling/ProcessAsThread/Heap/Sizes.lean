import ProcessAsThread.Heap.Release

/-! The size arithmetic of an allocation once the library is initialized. Each
layer rounds a request or adds to it in 64 bits, and none of them checks; the sum
that wraps first is the rounding to pages at the bottom. -/

namespace ProcessAsThread.Heap

open Library

/-- The sums that `xheap::malloc` forms, before they are cut to 64 bits. The
lists of the other layers go on with those of the layer below. -/
def XHeap.sums (sz : Nat) : List Nat := [sz + (pageSize - 1)]

namespace ZoneHeap

def slowSums (sz : Nat) : List Nat :=
  let allocSize := if chunkSize < sz then sz else chunkSize
  (Arena.size + allocSize) :: XHeap.sums (sizeT (Arena.size + allocSize))

def sums (space : Space) (zone : ZoneHeap) (sz : Nat) : List Nat :=
  (sz + 7) ::
    if zone.currentArena ≠ 0 ∧ align sz ≤ Arena.sizeRemaining space.memory zone.currentArena then []
    else slowSums (align sz)

end ZoneHeap

def AdaptAppHeap.sums (space : Space) (zone : ZoneHeap) (sz : Nat) : List Nat :=
  (sz + ObjectHeader.size) :: zone.sums space (sizeT (sz + ObjectHeader.size))

def StrictSegHeap.sums (space : Space) (heap : KingsleyHeap) (sz : Nat) : List Nat :=
  if sz ≤ maxObjectSize then
    match Kingsley.size2Class sz with
    | .error _ => []
    | .ok sizeClass => 2 ^ (sizeClass + 3).toNat ::
        if heap.bins sizeClass = 0 then
          AdaptAppHeap.sums space heap.bigheap (Kingsley.class2Size sizeClass)
        else []
  else AdaptAppHeap.sums space heap.bigheap sz

def KingsleyHeap.sums (space : Space) (heap : KingsleyHeap) (sz : Nat) : List Nat :=
  ((if sz < 16 then 16 else sz) + 7) ::
    StrictSegHeap.sums space heap (align (if sz < 16 then 16 else sz))

def Libmythread.sums (library : Libmythread) (heapid sz : Nat) : List Nat :=
  (library.xmemory.heaps heapid).sums library.xmemory.space (if sz = 0 then 1 else sz)

def Request.size : Request → Option Nat
  | .malloc _ sz => some sz
  | .calloc _ nmemb sz => some (nmemb * sz)
  | _ => none

namespace Program

def sums (program : Program) : Request → List Nat
  | .malloc heapid sz => program.library.sums heapid sz
  | .calloc heapid nmemb sz => (nmemb * sz) :: program.library.sums heapid (sizeT (nmemb * sz))
  | _ => []

/-- No size computation on the way of the request wraps around. -/
def NoWrap (program : Program) (request : Request) : Prop := ∀ sum ∈ program.sums request, sum < 2 ^ 64

/-- What is reserved for a block: the size in its header, or the length in `tempmalloc`. -/
def Reserves (buffer : TempBuffer) (program : Program) (block : Block) (size : Nat) : Prop :=
  if buffer.Holds block.ptr then size = tempSize block.size
  else program.library.mallocUsableSize block.ptr = .ok size

/-- A block has a payload as large as was asked for, in memory that the bump
allocator has handed out, and no byte of it is reserved for one of the others. -/
def Roomy (buffer : TempBuffer) (program : Program) (block : Block) (others : List Block) : Prop :=
  ∃ size, program.library.mallocUsableSize block.ptr = .ok size ∧ block.size ≤ size ∧
    userHeapBase ≤ block.ptr ∧ block.ptr + size ≤ program.library.xmemory.space.xheap.position ∧
    ∀ other ∈ others, ∀ reserved, Reserves buffer program other reserved →
      other.ptr + reserved ≤ block.ptr ∨ block.ptr + size ≤ other.ptr

/-- The request ends the process for lack of memory or gets a block of the size. -/
def Provides (buffer : TempBuffer) (program : Program) (request : Request) (size : Nat) : Prop :=
  program.perform buffer request = .error .exit ∨
    ∃ after ptr, program.perform buffer request = .ok after ∧
      after.live = ⟨ptr, size⟩ :: program.live ∧ Roomy buffer after ⟨ptr, size⟩ program.live

/-- The request is provided for, and nothing wraps around on the way. -/
structure Allocates (buffer : TempBuffer) (program : Program) (request : Request) (size : Nat) : Prop where
  noWrap : program.NoWrap request
  provided : program.Provides buffer request size

end Program

/-- What remains of a heap's current arena is far from the end of the address space. -/
def ZoneHeap.Bounded (memory : Memory) (zone : ZoneHeap) : Prop :=
  zone.currentArena ≠ 0 → Arena.sizeRemaining memory zone.currentArena + 4119 < 2 ^ 64

theorem ZoneHeap.slowSums_iff {sz : Nat} :
    (∀ sum ∈ slowSums sz, sum < 2 ^ 64) ↔ sz + 4119 < 2 ^ 64 := by
  have chunk : chunkSize = 1048576 := rfl
  simp only [slowSums, XHeap.sums, List.forall_mem_cons, List.not_mem_nil, false_imp_iff,
    implies_true, and_true]
  generalize allocated : (if chunkSize < sz then sz else chunkSize) = allocSize
  have covers : sz ≤ allocSize ∧ (allocSize = sz ∨ allocSize = 1048576) := by
    subst allocated
    split <;> omega
  simp only [Arena.size, pageSize]
  constructor
  · rintro ⟨header, page⟩
    rw [sizeT_small header] at page
    omega
  · intro bound
    rw [sizeT_small (show 24 + allocSize < 2 ^ 64 by omega)]
    omega

theorem ZoneHeap.sums_iff {space : Space} {zone : ZoneHeap} {sz : Nat}
    (bounded : zone.Bounded space.memory) :
    (∀ sum ∈ zone.sums space sz, sum < 2 ^ 64) ↔ sz + 7 < 2 ^ 64 ∧ align sz + 4119 < 2 ^ 64 := by
  rw [sums, List.forall_mem_cons]
  split
  · rename_i fits
    have room := bounded fits.1
    simp only [List.not_mem_nil, false_imp_iff, implies_true, and_true]
    exact ⟨fun first => ⟨first, by omega⟩, And.left⟩
  · rw [slowSums_iff]

theorem AdaptAppHeap.sums_iff {space : Space} {zone : ZoneHeap} {sz : Nat}
    (bounded : zone.Bounded space.memory) (aligned : sz % 8 = 0) :
    (∀ sum ∈ sums space zone sz, sum < 2 ^ 64) ↔ sz + 4136 ≤ 2 ^ 64 := by
  rw [sums, List.forall_mem_cons, ZoneHeap.sums_iff bounded]
  simp only [ObjectHeader.size]
  constructor
  · rintro ⟨header, rounding, rest⟩
    rw [sizeT_small header] at rounding rest
    have := (align_bounds rounding).1
    omega
  · intro bound
    have header : sz + 16 < 2 ^ 64 := by omega
    have length : align (sz + 16) = sz + 16 := by
      rw [align, sizeT_small (by omega)]
      omega
    rw [sizeT_small header, length]
    omega

/-- A request with a class is far from wrapping, and so is the size of its class. -/
theorem StrictSegHeap.sums_iff {space : Space} {heap : KingsleyHeap} {sz : Nat}
    (bounded : heap.bigheap.Bounded space.memory) (aligned : sz % 8 = 0) :
    (∀ sum ∈ sums space heap sz, sum < 2 ^ 64) ↔ sz + 4136 ≤ 2 ^ 64 := by
  by_cases small : sz ≤ maxObjectSize
  · obtain ⟨c, indexed, found, _, _⟩ := Kingsley.size2Class_fits small
    have class_ := maxObjectSize_class indexed
    have exponent : ((c : Int) + 3).toNat = c + 3 := by omega
    have multiple : 2 ^ (c + 3) % 8 = 0 := by
      rw [Nat.pow_add]
      omega
    rw [Kingsley.maxObjectSize_eq] at class_ small
    have whole : sz + 4136 ≤ 2 ^ 64 := by omega
    simp only [sums, if_pos (Kingsley.maxObjectSize_eq ▸ small), found, exponent,
      Kingsley.class2Size_nat indexed, iff_true_right whole, List.forall_mem_cons]
    refine ⟨by omega, ?_⟩
    split
    · exact (AdaptAppHeap.sums_iff bounded multiple).mpr (by omega)
    · simp
  · rw [sums, if_neg small]
    exact AdaptAppHeap.sums_iff bounded aligned

theorem KingsleyHeap.sums_iff {space : Space} {heap : KingsleyHeap} {sz : Nat}
    (bounded : heap.bigheap.Bounded space.memory) :
    (∀ sum ∈ heap.sums space sz, sum < 2 ^ 64) ↔ sz + 4136 ≤ 2 ^ 64 := by
  have aligned : align (if sz < 16 then 16 else sz) % 8 = 0 := by
    rw [align]
    omega
  rw [sums, List.forall_mem_cons, StrictSegHeap.sums_iff bounded aligned]
  constructor
  · rintro ⟨rounding, rest⟩
    have larger : sz ≤ if sz < 16 then 16 else sz := by split <;> omega
    have := Nat.le_trans larger (align_bounds rounding).1
    omega
  · intro bound
    have rounding : (if sz < 16 then 16 else sz) + 7 < 2 ^ 64 := by split <;> omega
    refine ⟨rounding, ?_⟩
    rw [align, sizeT_small rounding]
    split <;> omega

/-- Nothing more than what has been handed out remains of an arena. -/
theorem Laid.bounded {layout : Layout} {xmemory : Xmemory} {blocks : List Block}
    (laid : Laid layout xmemory blocks) (region : xmemory.space.xheap.heapEnd = userHeapBase + userHeapSize)
    (heapid : Nat) : (xmemory.heaps heapid).bigheap.Bounded xmemory.space.memory := by
  intro present
  rcases laid.zones heapid with none | ⟨_, tail⟩
  · exact (present none).elim
  · rcases Nat.eq_zero_or_pos
      (Arena.sizeRemaining xmemory.space.memory (xmemory.heaps heapid).bigheap.currentArena) with
      empty | some
    · rw [empty]
      omega
    · have inside := laid.xheap.range tail (by simp) some
      have rest := laid.xheap.rest
      rw [region] at rest
      simp only [userHeapBase, userHeapSize] at rest
      simp only [Arena.sizeRemaining]
      omega

namespace Program

variable {buffer : TempBuffer} {program after : Program}

private theorem noWrap_malloc (sound : Sound buffer program) (heapid sz : Nat) :
    program.NoWrap (.malloc heapid sz) ↔ sz + 4136 ≤ 2 ^ 64 := by
  obtain ⟨layout, laid⟩ := sound.heap
  have bounded := laid.bounded sound.region.2 heapid
  simp only [NoWrap, sums, Libmythread.sums, KingsleyHeap.sums_iff bounded]
  split <;> omega

private theorem noWrap_calloc (sound : Sound buffer program) (heapid nmemb sz : Nat) :
    program.NoWrap (.calloc heapid nmemb sz) ↔ nmemb * sz + 4136 ≤ 2 ^ 64 := by
  have asked := noWrap_malloc sound heapid (sizeT (nmemb * sz))
  simp only [NoWrap, sums] at asked ⊢
  rw [List.forall_mem_cons, asked]
  constructor
  · rintro ⟨product, rest⟩
    rwa [sizeT_small product] at rest
  · intro bound
    have product : nmemb * sz < 2 ^ 64 := by omega
    exact ⟨product, by rwa [sizeT_small product]⟩

theorem Sound.roomy (sound : Sound buffer after) (initialized : after.library.initialized = true)
    (lives : after.live = block :: others) (outside : ¬ buffer.Holds block.ptr) :
    Roomy buffer after block others := by
  obtain ⟨layout, laid⟩ := sound.heap
  have usable : ∀ {other : Block} {size : Nat}, ObjectLaid layout.own after.library.memory other.ptr size →
      after.library.mallocUsableSize other.ptr = .ok size := by
    intro other size object
    rw [Libmythread.mallocUsableSize, if_pos initialized]
    exact AdaptAppHeap.getSize_kingsley _ object
  have newest : block ∈ after.live := by
    rw [lives]
    exact List.mem_cons_self ..
  obtain ⟨size, sized, fits, object⟩ := laid.object (buffer.mem_fromHeap newest outside)
  have handed := laid.xheap.range object.owns (by simp) (by omega)
  have region := sound.region
  refine ⟨size, usable object, fits, by omega, by omega, ?_⟩
  intro other member reserved reserves
  have member' : other ∈ after.live := by
    rw [lives]
    exact List.mem_cons_of_mem _ member
  rw [Reserves] at reserves
  split at reserves
  · rename_i temp
    have bound := sound.bound other member' temp
    have room := sound.room
    have apart := buffer.apart
    have range := laid.range sized
    simp only [TempBuffer.Holds] at temp
    omega
  · rename_i temp
    obtain ⟨size', sized', _, object'⟩ := laid.object (buffer.mem_fromHeap member' temp)
    have same : reserved = size' := by
      rw [usable object'] at reserves
      exact (Except.ok.inj reserves).symm
    have distinct := sound.distinct
    rw [lives, List.map_cons] at distinct
    have different : other.ptr ≠ block.ptr := by
      intro same
      exact (List.nodup_cons.mp distinct).1 (List.mem_map.mpr ⟨other, member, same⟩)
    have := laid.apart sized sized' different
    omega

theorem fits_iff (initialized : program.library.initialized = true) :
    program.Fits sz ↔ sz + 4136 ≤ 2 ^ 64 := by
  rw [Fits, if_pos initialized]

theorem Sound.malloc_provides (sound : Sound buffer program)
    (initialized : program.library.initialized = true) (bound : sz + 4136 ≤ 2 ^ 64) (heapid : Nat) :
    program.Provides buffer (.malloc heapid sz) sz := by
  have fits := (fits_iff initialized).mpr bound
  rcases sound.served initialized bound heapid with exits | ⟨ptr, xmemory, _, called, outside, _⟩
  · left
    rw [Program.perform, exits]
    rfl
  · refine .inr ⟨_, ptr, ?_, rfl, (sound.malloc fits called).roomy initialized rfl outside⟩
    rw [Program.perform, called]
    rfl

theorem Sound.calloc_provides (sound : Sound buffer program)
    (initialized : program.library.initialized = true) {nmemb sz : Nat}
    (bound : nmemb * sz + 4136 ≤ 2 ^ 64) (heapid : Nat) :
    program.Provides buffer (.calloc heapid nmemb sz) (nmemb * sz) := by
  have fits := (fits_iff initialized).mpr bound
  have product : sizeT (nmemb * sz) = nmemb * sz := sizeT_small (by omega)
  rcases sound.served initialized bound heapid with exits | ⟨ptr, xmemory, _, called, outside, _⟩
  · left
    rw [Program.perform, Libmythread.calloc, product, exits]
    rfl
  · obtain ⟨library, cleared, flag⟩ : ∃ library,
        program.library.calloc buffer heapid nmemb sz = .ok (ptr, library) ∧
          library.initialized = program.library.initialized := by
      rw [Libmythread.calloc, product, called]
      exact ⟨_, rfl, rfl⟩
    have sound' := sound.calloc fits cleared
    refine .inr ⟨_, ptr, ?_, rfl, sound'.roomy (flag.trans initialized) rfl outside⟩
    rw [Program.perform, cleared]
    rfl

/-- In every run in order, a request to the initialized library ends for lack of
memory or gets its block, with nothing wrapping around on the way, exactly when
4136 bytes more than it asks for are still below the end of the address space. -/
theorem allocates_iff {memory : Memory} {request : Request}
    (run : Run (guarded (step buffer) permits) (start memory) history program)
    (meets : Meets (InOrder buffer) history) (initialized : program.library.initialized = true)
    (asked : request.size = some size) :
    program.Allocates buffer request size ↔ size + 4136 ≤ 2 ^ 64 := by
  have sound := (kept_of_run run meets).sound initialized
  cases request with
  | malloc heapid sz =>
    have same : sz = size := Option.some.inj asked
    subst same
    have exact_ := noWrap_malloc sound heapid sz
    exact ⟨fun allocates => exact_.mp allocates.noWrap,
      fun bound => ⟨exact_.mpr bound, sound.malloc_provides initialized bound heapid⟩⟩
  | calloc heapid nmemb sz =>
    have same : nmemb * sz = size := Option.some.inj asked
    subst same
    have exact_ := noWrap_calloc sound heapid nmemb sz
    exact ⟨fun allocates => exact_.mp allocates.noWrap,
      fun bound => ⟨exact_.mpr bound, sound.calloc_provides initialized bound heapid⟩⟩
  | _ => cases asked

/-- After a run with a block of each kind, the longest request that keeps to the bound,
which exits, and the shortest that does not. -/
theorem allocates_iff_last : ∃ history program,
    Run (guarded (step highBuffer) permits) (start fun _ => 0) history program ∧
      Meets (InOrder highBuffer) history ∧ program.library.initialized = true ∧
      program.live = [⟨userHeapBase + 88, 100⟩, ⟨2 ^ 40, 24⟩] ∧
      program.Allocates highBuffer (.malloc 1 (2 ^ 64 - 4136)) (2 ^ 64 - 4136) ∧
      ¬ program.Allocates highBuffer (.calloc 1 (2 ^ 32) (2 ^ 32)) (2 ^ 64) := by
  have executed : ((execute (guarded (guarded (step highBuffer) permits) (InOrder highBuffer))
      (start fun _ => 0) [.malloc 0 24, .initializeLibrary 1, .malloc 1 100]).map
      fun program => decide (program.library.initialized = true ∧
        program.live = [⟨userHeapBase + 88, 100⟩, ⟨2 ^ 40, 24⟩])) = some true := by
    decide +kernel
  obtain ⟨history, program, run, meets, checked⟩ := exists_guarded executed
  obtain ⟨initialized, live⟩ := checked
  refine ⟨history, program, run, meets, initialized, live, ?_, ?_⟩
  · exact (allocates_iff run meets initialized rfl).mpr (by omega)
  · exact fun allocates => absurd ((allocates_iff run meets initialized rfl).mp allocates) (by omega)

/-- Asked for all bytes but one of the address space, the initialized library hands out eight. -/
theorem size_wraps : ¬ ∀ memory buffer program,
    Reachable (guarded (step buffer) permits) (start memory) program →
      program.library.initialized = true → ∀ request size, program.permits request →
        request.size = some size → program.Allocates buffer request size := by
  have executed : ((execute (guarded (step highBuffer) permits) (start fun _ => 0)
      [.initializeLibrary 0]).map fun program => decide (program.library.initialized = true ∧
        ((program.perform highBuffer (.malloc 0 (2 ^ 64 - 1))).toOption.bind fun after =>
          after.live.head?.bind fun block => (after.library.mallocUsableSize block.ptr).toOption) =
            some 8)) = some true := by
    decide +kernel
  obtain ⟨program, reached, checked⟩ := exists_reachable executed
  obtain ⟨initialized, small⟩ := checked
  intro claimed
  have provided := (claimed _ highBuffer program reached initialized (.malloc 0 (2 ^ 64 - 1)) _
    ⟨by decide, by decide⟩ rfl).provided
  rcases provided with exits | ⟨after, ptr, succeeds, live, size, usable, fits, _⟩
  · rw [exits] at small
    cases small
  · rw [succeeds] at small
    simp only [Except.toOption, Option.bind_some, live, List.head?_cons, usable] at small
    simp only at fits
    cases small
    omega

end Program

end ProcessAsThread.Heap
