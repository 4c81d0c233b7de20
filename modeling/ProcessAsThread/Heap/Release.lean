import Mathlib.Data.List.Nodup
import ProcessAsThread.Heap.Libmythread
import ProcessAsThread.Heap.Safety

/-! Which blocks a program can free, at every moment of a run: those from the
heap, and any while the library is not initialized. A block of `tempmalloc` has
no header, and passes for a block of the heap only if the bytes before it happen
to be one. -/

namespace ProcessAsThread.Heap

open Library

/-- The length `tempmalloc` gives a block. -/
def tempSize (sz : Nat) : Nat := (max sz 16 + 15) / 16 * 16

namespace TempBuffer

/-- The blocks that `tempmalloc` did not hand out. -/
def fromHeap (buffer : TempBuffer) (live : List Block) : List Block :=
  live.filter fun block => ¬ buffer.Holds block.ptr

theorem mem_fromHeap (buffer : TempBuffer) (member : block ∈ live) (outside : ¬ buffer.Holds block.ptr) :
    block ∈ buffer.fromHeap live :=
  List.mem_filter.mpr ⟨member, by simpa using outside⟩

theorem fromHeap_filter (buffer : TempBuffer) (live : List Block) (keep : Block → Bool) :
    buffer.fromHeap (live.filter keep) = (buffer.fromHeap live).filter keep := by
  simp only [fromHeap, List.filter_filter, Bool.and_comm]

end TempBuffer

namespace Program

/-- What a request for a size needs: the heap's size arithmetic does not wrap, or
that of `tempmalloc` before the constructor. -/
def Fits (program : Program) (sz : Nat) : Prop :=
  if program.library.initialized then sz + 4136 ≤ 2 ^ 64
  else program.constructed = true ∨ program.library.allocated + tempSize sz < 2 ^ 31

/-- Requests fit, and no block of `tempmalloc` is freed while the library is initialized. -/
def InOrder (buffer : TempBuffer) (program : Program) : Request → Prop
  | .malloc _ sz => program.Fits sz
  | .calloc _ nmemb sz => program.Fits (nmemb * sz)
  | .free _ ptr => program.library.initialized = true → ¬ buffer.Holds ptr
  | _ => True

instance (program : Program) (sz : Nat) : Decidable (program.Fits sz) :=
  inferInstanceAs (Decidable (if program.library.initialized then sz + 4136 ≤ 2 ^ 64
    else program.constructed = true ∨ program.library.allocated + tempSize sz < 2 ^ 31))

instance (buffer : TempBuffer) : (program : Program) → (request : Request) →
    Decidable (program.InOrder buffer request)
  | program, .malloc _ sz => inferInstanceAs (Decidable (program.Fits sz))
  | program, .calloc _ nmemb sz => inferInstanceAs (Decidable (program.Fits (nmemb * sz)))
  | program, .free _ ptr =>
    inferInstanceAs (Decidable (program.library.initialized = true → ¬ buffer.Holds ptr))
  | _, .initializeLibrary _ | _, .finalize | _, .write _ _ => inferInstanceAs (Decidable True)

def Finalized (program : Program) : Prop :=
  program.constructed = true ∧ program.library.initialized = false

structure Releasable (program : Program) (block : Block) : Prop where
  freed : ∀ heapid, ∃ after, program.library.free heapid block.ptr = .ok after ∧
    ∀ other ∈ program.live, other ≠ block → ∀ place, other.Holds place →
      after.memory place = program.library.memory place
  usable : program.library.initialized = true → ∃ size,
    program.library.mallocUsableSize block.ptr = .ok size ∧ block.size ≤ size

/-- The bytes before a block read as a header with enough room. -/
def Headed (program : Program) (block : Block) : Prop :=
  program.library.memory.load (block.ptr - 16) 8 = ObjectHeader.magic ∧
    block.size ≤ program.library.memory.load (block.ptr - 8) 8

/-- The heap is laid out for the blocks that `tempmalloc` did not hand out, and
those it did are apart. -/
structure Sound (buffer : TempBuffer) (program : Program) : Prop where
  low : 0 ≤ program.library.allocated
  region : program.library.xmemory.space.xheap.heapStart = userHeapBase ∧
    program.library.xmemory.space.xheap.heapEnd = userHeapBase + userHeapSize
  heap : ∃ layout, Laid layout program.library.xmemory
    (buffer.fromHeap program.live)
  bound : ∀ block ∈ program.live, buffer.Holds block.ptr →
    (block.ptr + tempSize block.size : Int) ≤ buffer.base + program.library.allocated
  room : program.library.allocated ≤ initialMallocSize
  apart : ∀ block ∈ program.live, ∀ other ∈ program.live, buffer.Holds block.ptr →
    buffer.Holds other.ptr → other.ptr ≠ block.ptr →
    other.ptr + tempSize other.size ≤ block.ptr ∨ block.ptr + tempSize block.size ≤ other.ptr
  distinct : (program.live.map Block.ptr).Nodup
  era : program.library.initialized = program.constructed
  early : program.constructed = false → ∀ block ∈ program.live, buffer.Holds block.ptr

variable {buffer : TempBuffer} {program after : Program}

theorem tempSize_fits (sz : Nat) : sz ≤ tempSize sz ∧ 16 ≤ tempSize sz := by
  simp only [tempSize]
  omega

theorem Sound.object (sound : Sound buffer program) (member : block ∈ program.live)
    (outside : ¬ buffer.Holds block.ptr) :
    ∃ size, block.size ≤ size ∧
      userHeapBase + 16 ≤ block.ptr ∧ block.ptr + size ≤ userHeapBase + userHeapSize ∧
      ∃ own, ObjectLaid own program.library.memory block.ptr size := by
  obtain ⟨layout, laid⟩ := sound.heap
  obtain ⟨size, sized, fits, object⟩ := laid.object (buffer.mem_fromHeap member outside)
  have range := laid.range sized
  rw [sound.region.1, sound.region.2] at range
  exact ⟨size, fits, range.1, range.2, _, object⟩

theorem Sound.firstWord (sound : Sound buffer program) (member : block ∈ program.live)
    (member' : other ∈ program.live) (different : other ≠ block) (holds : other.Holds place) :
    place < block.ptr ∨ block.ptr + 8 ≤ place := by
  have ptrs : other.ptr ≠ block.ptr := fun same =>
    different (List.inj_on_of_nodup_map sound.distinct member' member same)
  have long := tempSize_fits block.size
  have long' := tempSize_fits other.size
  have buffered := buffer.apart
  have room := sound.room
  simp only [Block.Holds] at holds
  by_cases temp : buffer.Holds block.ptr
  · have bound := sound.bound block member temp
    by_cases temp' : buffer.Holds other.ptr
    · have := sound.apart block member other member' temp temp' ptrs
      omega
    · obtain ⟨size, fits, low, high, _⟩ := sound.object member' temp'
      simp only [TempBuffer.Holds] at temp
      omega
  · by_cases temp' : buffer.Holds other.ptr
    · obtain ⟨size, fits, low, high, _, object⟩ := sound.object member temp
      have bound := sound.bound other member' temp'
      have positive := object.positive
      simp only [TempBuffer.Holds] at temp'
      omega
    · obtain ⟨layout, laid⟩ := sound.heap
      obtain ⟨size, sized, fits, object⟩ := laid.object (buffer.mem_fromHeap member temp)
      obtain ⟨size', sized', fits', _⟩ := laid.object (buffer.mem_fromHeap member' temp')
      have := laid.apart sized sized' ptrs
      have positive := object.positive
      omega

theorem Sound.headed (sound : Sound buffer program) (member : block ∈ program.live)
    (outside : ¬ buffer.Holds block.ptr) : Headed program block := by
  obtain ⟨size, fits, _, _, _, object⟩ := sound.object member outside
  refine ⟨object.magic, ?_⟩
  rw [object.header]
  exact fits

theorem Sound.address (sound : Sound buffer program) (member : block ∈ program.live) :
    16 ≤ block.ptr ∧ block.ptr < 2 ^ 64 := by
  by_cases temp : buffer.Holds block.ptr
  · have low := buffer.low
    have high := buffer.high
    simp only [TempBuffer.Holds] at temp
    omega
  · obtain ⟨size, _, low, high, _⟩ := sound.object member temp
    simp only [userHeapBase, userHeapSize] at low high
    omega

/-- While the library is initialized, a block can be freed exactly when the
bytes before it are a header. -/
theorem Sound.releasable_iff (sound : Sound buffer program) (member : block ∈ program.live)
    (initialized : program.library.initialized = true) :
    Releasable program block ↔ Headed program block := by
  obtain ⟨low, high⟩ := sound.address member
  have nonzero : block.ptr ≠ 0 := by omega
  have asked : program.library.mallocUsableSize block.ptr =
      AdaptAppHeap.getSize program.library.memory block.ptr := by
    rw [Libmythread.mallocUsableSize, if_pos initialized, Xmemory.getSize, KingsleyHeap.getSize,
      if_neg nonzero]
    rfl
  constructor
  · intro releasable
    obtain ⟨size, usable, fits⟩ := releasable.usable initialized
    rw [asked, AdaptAppHeap.getSize_iff low high] at usable
    exact ⟨usable.1, by rw [usable.2]; exact fits⟩
  · rintro ⟨magic, fits⟩
    have read := (AdaptAppHeap.getSize_iff low high).mpr ⟨magic, rfl⟩
    refine ⟨fun heapid => ?_, fun _ => ⟨_, asked.trans read, fits⟩⟩
    obtain ⟨space', heap', freed, kept⟩ :=
      @StrictSegHeap.free_writes _ _ _ (program.library.xmemory.heaps heapid) read
    refine ⟨{ program.library with
      xmemory := ⟨space', Function.update program.library.xmemory.heaps heapid heap'⟩ }, ?_, ?_⟩
    · rw [Libmythread.free, if_pos initialized, Xmemory.free, if_neg nonzero, KingsleyHeap.free,
        if_neg nonzero, freed]
      rfl
    · intro other member' different place holds
      exact kept place (sound.firstWord member member' different holds)

theorem Sound.change (sound : Sound buffer program) {xmemory : Xmemory} {live : List Block}
    (fewer : live.Sublist program.live)
    (region : xmemory.space.xheap.heapStart = userHeapBase ∧
      xmemory.space.xheap.heapEnd = userHeapBase + userHeapSize)
    (heap : ∃ layout, Laid layout xmemory (buffer.fromHeap live)) :
    Sound buffer { program with
      library := { program.library with xmemory := xmemory }
      live := live } where
  low := sound.low
  region := region
  heap := heap
  bound := fun block member => sound.bound block (fewer.subset member)
  room := sound.room
  apart := fun block member other member' =>
    sound.apart block (fewer.subset member) other (fewer.subset member')
  distinct := sound.distinct.sublist (fewer.map Block.ptr)
  era := sound.era
  early := fun before block member => sound.early before block (fewer.subset member)

/-- Writes into a live block, of either kind, do not disturb a layout of the heap. -/
theorem Sound.written (sound : Sound buffer program)
    (laid : Laid layout program.library.xmemory (buffer.fromHeap program.live))
    (member : block ∈ program.live) {memory : Memory}
    (kept : ∀ place, place < block.ptr ∨ block.ptr + block.size ≤ place →
      memory place = program.library.memory place) :
    Laid layout (program.library.setMemory memory).xmemory (buffer.fromHeap program.live) ∧
      ∀ place heapid, layout.own place = .arena heapid → memory place = program.library.memory place := by
  by_cases temp : buffer.Holds block.ptr
  · have bound := sound.bound block member temp
    have room := sound.room
    have apart := buffer.apart
    have long := tempSize_fits block.size
    have region := sound.region
    have rest := laid.xheap.rest
    simp only [TempBuffer.Holds] at temp
    refine ⟨laid.elsewhere fun place low high => kept place (by omega), fun place heapid owner => ?_⟩
    have inside := laid.xheap.inside place (by rw [owner]; exact nofun)
    exact kept place (by omega)
  · have member := buffer.mem_fromHeap member temp
    obtain ⟨size, sized, fits, object⟩ := laid.object member
    have low := object.low
    refine ⟨laid.write sized (laid.live block member).1 fun place away => kept place (by omega),
      fun place heapid owner => kept place ?_⟩
    by_contra inside
    rw [object.owns place (by omega) (by omega)] at owner
    cases owner

theorem Sound.write (sound : Sound buffer program) (member : block ∈ program.live) {memory : Memory}
    (kept : ∀ place, place < block.ptr ∨ block.ptr + block.size ≤ place →
      memory place = program.library.memory place) :
    Sound buffer { program with library := program.library.setMemory memory } := by
  obtain ⟨layout, laid⟩ := sound.heap
  exact sound.change (List.Sublist.refl _) sound.region ⟨layout, (sound.written laid member kept).1⟩

theorem Sound.free (sound : Sound buffer program) {library : Libmythread} (member : block ∈ program.live)
    (outside : program.library.initialized = true → ¬ buffer.Holds block.ptr)
    (succeeds : program.library.free heapid block.ptr = .ok library) :
    Sound buffer { program with
      library := library
      live := program.live.filter (·.ptr ≠ block.ptr) } := by
  obtain ⟨layout, laid⟩ := sound.heap
  rw [Libmythread.free] at succeeds
  by_cases initialized : program.library.initialized = true
  · rw [if_pos initialized] at succeeds
    obtain ⟨xmemory, freed, same⟩ := bind_eq_ok.mp succeeds
    cases same
    have member' := buffer.mem_fromHeap member (outside initialized)
    obtain ⟨xmemory', layout', freed', releases, laid'⟩ := Xmemory.free_laid laid member' heapid
    rw [freed'] at freed
    cases freed
    refine sound.change List.filter_sublist (by rw [releases.xheap]; exact sound.region) ⟨layout', ?_⟩
    rw [buffer.fromHeap_filter]
    exact laid'
  · rw [if_neg initialized] at succeeds
    cases succeeds
    exact sound.change List.filter_sublist sound.region ⟨layout, laid.forget (List.filter_sublist.filter _)⟩

theorem Sound.add (sound : Sound buffer program) {library : Libmythread} {block : Block}
    (era : library.initialized = program.library.initialized)
    (more : program.library.allocated ≤ library.allocated) (room : library.allocated ≤ initialMallocSize)
    (region : library.xmemory.space.xheap.heapStart = userHeapBase ∧
      library.xmemory.space.xheap.heapEnd = userHeapBase + userHeapSize)
    (heap : ∃ layout, Laid layout library.xmemory (buffer.fromHeap (block :: program.live)))
    (fresh : ∀ other ∈ program.live, other.ptr ≠ block.ptr)
    (last : buffer.Holds block.ptr →
      (block.ptr + tempSize block.size : Int) ≤ buffer.base + library.allocated ∧
      ∀ other ∈ program.live, buffer.Holds other.ptr → other.ptr + tempSize other.size ≤ block.ptr)
    (early : program.constructed = false → buffer.Holds block.ptr) :
    Sound buffer { program with library := library, live := block :: program.live } where
  low := Int.le_trans sound.low more
  region := region
  heap := heap
  bound := by
    intro other member temp
    rcases List.mem_cons.mp member with same | older
    · subst same
      exact (last temp).1
    · have := sound.bound other older temp
      simp only
      omega
  room := room
  apart := by
    intro first member second member' temp temp' different
    rcases List.mem_cons.mp member with same | older
    · rcases List.mem_cons.mp member' with same' | older'
      · exact (different (by rw [same, same'])).elim
      · subst same
        exact .inl ((last temp).2 second older' temp')
    · rcases List.mem_cons.mp member' with same' | older'
      · subst same'
        exact .inr ((last temp').2 first older temp)
      · exact sound.apart first older second older' temp temp' different
  distinct := List.nodup_cons.mpr ⟨by simpa using fresh, sound.distinct⟩
  era := era.trans sound.era
  early := by
    intro before other member
    rcases List.mem_cons.mp member with same | older
    · subst same
      exact early before
    · exact sound.early before other older

/-- Without the heap, a request is served at the end of what is allocated, its size
rounded as a `size_t` and cut down to an `int`. -/
theorem malloc_temp {library library' : Libmythread} (uninitialized : library.initialized = false)
    (succeeds : library.malloc buffer heapid sz = .ok (ptr, library')) :
    library' = { library with
      allocated := intT (library.allocated + intT (sizeT (max sz 16 + 15) / 16 * 16 : Nat)) } ∧
      library'.allocated ≤ initialMallocSize ∧
      ptr = ((buffer.base + library.allocated) % 2 ^ 64).toNat := by
  have least : (if (if sz = 0 then 1 else sz) < 16 then 16 else if sz = 0 then 1 else sz) = max sz 16 := by
    split <;> split <;> omega
  simp only [Libmythread.malloc, uninitialized, Bool.false_eq_true, if_false, least,
    TempBuffer.tempmalloc] at succeeds
  obtain ⟨⟨_, allocated⟩, called, rest⟩ := bind_eq_ok.mp succeeds
  obtain ⟨_, _, same⟩ := bind_eq_ok.mp rest
  cases same
  split at called
  · cases called
  · simp only [Except.ok.injEq, Prod.mk.injEq] at called
    obtain ⟨address, same⟩ := called
    refine ⟨by rw [← same, ← uninitialized], by simp only; omega, address.symm⟩

/-- Before the constructor, a request that fits is served at the end of what is allocated. -/
theorem malloc_uninitialized {library library' : Libmythread} (uninitialized : library.initialized = false)
    (low : 0 ≤ library.allocated) (fits : library.allocated + tempSize sz < 2 ^ 31)
    (succeeds : library.malloc buffer heapid sz = .ok (ptr, library')) :
    library' = { library with allocated := library.allocated + tempSize sz } ∧
      library.allocated + tempSize sz ≤ initialMallocSize ∧
      (ptr : Int) = buffer.base + library.allocated := by
  have high := buffer.high
  have rounded : sizeT (max sz 16 + 15) / 16 * 16 = tempSize sz := by
    rw [tempSize, sizeT_small]
    have := tempSize_fits sz
    omega
  have whole : intT (tempSize sz : Nat) = tempSize sz := by
    rw [intT, Int.bmod_eq_of_le] <;> omega
  have total : intT (library.allocated + tempSize sz) = library.allocated + tempSize sz := by
    rw [intT, Int.bmod_eq_of_le] <;> omega
  obtain ⟨same, room, address⟩ := malloc_temp uninitialized succeeds
  rw [rounded, whole, total] at same
  subst same
  refine ⟨rfl, room, ?_⟩
  simp only at room
  rw [address]
  omega

/-- A call of the initialized library exits, or hands out a block of the heap. -/
theorem Sound.served (sound : Sound buffer program) (initialized : program.library.initialized = true)
    (bound : sz + 4136 ≤ 2 ^ 64) (heapid : Nat) :
    program.library.malloc buffer heapid sz = .error .exit ∨ ∃ ptr xmemory layout,
      program.library.malloc buffer heapid sz = .ok (ptr, { program.library with xmemory := xmemory }) ∧
      ¬ buffer.Holds ptr ∧
      (xmemory.space.xheap.heapStart = userHeapBase ∧
        xmemory.space.xheap.heapEnd = userHeapBase + userHeapSize) ∧
      Laid layout xmemory (⟨ptr, sz⟩ :: buffer.fromHeap program.live) := by
  obtain ⟨layout, laid⟩ := sound.heap
  have region := sound.region
  have apart := buffer.apart
  rcases Xmemory.malloc_laid laid heapid
    (show (if sz = 0 then 1 else sz) + 4136 ≤ 2 ^ 64 by split <;> omega)
    (show sz ≤ if sz = 0 then 1 else sz by split <;> omega) with
    exits | ⟨ptr, xmemory, layout', called, serves, laid'⟩
  · left
    simp only [Libmythread.malloc, initialized, if_true, exits]
    rfl
  · obtain ⟨size, sized, _, object⟩ := laid'.object (List.mem_cons_self ..)
    have range := laid'.range sized
    simp only [serves.heapStart, serves.heapEnd] at range
    have nonzero : ptr ≠ 0 := by omega
    refine .inr ⟨ptr, xmemory, layout', ?_, ?_,
      ⟨serves.heapStart.trans region.1, serves.heapEnd.trans region.2⟩, laid'⟩
    · simp only [Libmythread.malloc, initialized, if_true, called, ok_bind, check_true nonzero]
      rfl
    · have positive := object.positive
      simp only [TempBuffer.Holds]
      omega

theorem Sound.malloc (sound : Sound buffer program) {library : Libmythread} (fits : program.Fits sz)
    (succeeds : program.library.malloc buffer heapid sz = .ok (ptr, library)) :
    Sound buffer { program with library := library, live := ⟨ptr, sz⟩ :: program.live } := by
  obtain ⟨layout, laid⟩ := sound.heap
  have region := sound.region
  rw [Fits] at fits
  split at fits
  · rename_i initialized
    rcases sound.served initialized fits heapid with
      exits | ⟨ptr', xmemory, layout', called, outside, region', laid'⟩
    · rw [exits] at succeeds
      cases succeeds
    · cases called.symm.trans succeeds
      refine sound.add rfl (Int.le_refl _) sound.room region' ⟨layout', ?_⟩ ?_
        (fun temp => (outside temp).elim) ?_
      · rw [TempBuffer.fromHeap, List.filter_cons_of_pos (by simpa using outside)]
        exact laid'
      · intro block member same
        by_cases temp : buffer.Holds block.ptr
        · rw [same] at temp
          exact outside temp
        · have distinct := (List.nodup_cons.mp laid'.distinct).1
          exact distinct (List.mem_map.mpr ⟨block, buffer.mem_fromHeap member temp, same⟩)
      · intro before
        rw [← sound.era, initialized] at before
        cases before
  · rename_i uninitialized
    have uninitialized : program.library.initialized = false := by simpa using uninitialized
    have before : program.constructed = false := by rw [← sound.era, uninitialized]
    have low := sound.low
    have long := tempSize_fits sz
    have fits : program.library.allocated + tempSize sz < 2 ^ 31 := by
      rcases fits with after | fits
      · rw [before] at after
        cases after
      · exact fits
    obtain ⟨same, room, address⟩ := malloc_uninitialized uninitialized low fits succeeds
    subst same
    have inside : buffer.Holds ptr := by
      simp only [TempBuffer.Holds]
      omega
    have below : ∀ block ∈ program.live, block.ptr + tempSize block.size ≤ ptr := by
      intro block member
      have := sound.bound block member (sound.early before block member)
      omega
    refine sound.add rfl (by simp only; omega) room region ⟨layout, ?_⟩ ?_ (fun _ => ⟨?_, ?_⟩)
      (fun _ => inside)
    · rw [TempBuffer.fromHeap, List.filter_cons_of_neg (by simpa using inside)]
      exact laid
    · intro block member same
      have := below block member
      have := tempSize_fits block.size
      simp only at same
      omega
    · simp only
      omega
    · exact fun block member _ => below block member

theorem Fits.small (sound : Sound buffer program) (fits : program.Fits sz) (before : ¬ program.Finalized) :
    sz < 2 ^ 64 := by
  have low := sound.low
  have long := tempSize_fits sz
  rw [Fits] at fits
  split at fits
  · omega
  · rename_i uninitialized
    rcases fits with after | fits
    · exact (before ⟨after, by simpa using uninitialized⟩).elim
    · omega

theorem Sound.calloc (sound : Sound buffer program) {library : Libmythread} {nmemb sz : Nat}
    (fits : program.Fits (nmemb * sz))
    (succeeds : program.library.calloc buffer heapid nmemb sz = .ok (ptr, library)) :
    Sound buffer { program with library := library, live := ⟨ptr, nmemb * sz⟩ :: program.live } := by
  have before : ¬ program.Finalized := by
    rintro ⟨constructed, uninitialized⟩
    rw [sound.era, constructed] at uninitialized
    cases uninitialized
  have small : sizeT (nmemb * sz) = nmemb * sz := sizeT_small (fits.small sound before)
  rw [Libmythread.calloc, small, Nat.mul_comm sz nmemb, small] at succeeds
  obtain ⟨⟨_, library'⟩, called, same⟩ := bind_eq_ok.mp succeeds
  cases same
  exact (sound.malloc fits called).write (List.mem_cons_self ..) fun place away => Memory.fill_outside away

theorem Sound.construct (sound : Sound buffer program) {library : Libmythread}
    (before : program.constructed = false)
    (succeeds : program.library.initializeLibrary heapid = .ok library) :
    Sound buffer { program with library := library, constructed := true } := by
  obtain ⟨⟨_, xmemory⟩, called, same⟩ := bind_eq_ok.mp succeeds
  cases same
  obtain ⟨start, finish, layout, laid⟩ := Client.start_sound program.library.memory
  have empty : buffer.fromHeap program.live = [] := by
    rw [TempBuffer.fromHeap, List.filter_eq_nil_iff]
    intro block member
    simpa using sound.early before block member
  rcases Xmemory.malloc_laid laid heapid (show 32 + 4136 ≤ 2 ^ 64 by omega) (Nat.le_refl 32) with
    exits | ⟨ptr, xmemory', layout', called', serves, laid'⟩
  · exact absurd (exits.symm.trans called) nofun
  · cases called'.symm.trans called
    exact {
      sound with
      region := ⟨serves.heapStart.trans start, serves.heapEnd.trans finish⟩
      heap := ⟨layout', by rw [empty]; exact laid'.forget (List.nil_sublist _)⟩
      era := rfl
      early := nofun }

theorem malloc_flag {library library' : Libmythread}
    (succeeds : library.malloc buffer heapid sz = .ok (ptr, library')) :
    library'.initialized = library.initialized := by
  simp only [Libmythread.malloc] at succeeds
  split at succeeds
  all_goals
    obtain ⟨_, _, rest⟩ := bind_eq_ok.mp succeeds
    obtain ⟨_, _, same⟩ := bind_eq_ok.mp rest
    cases same
    rfl

/-- After the destructor nothing is initialized again. -/
theorem Finalized.perform {request : Request} (finalized : program.Finalized)
    (permitted : program.permits request) (succeeds : program.perform buffer request = .ok after) :
    after.Finalized := by
  obtain ⟨constructed, uninitialized⟩ := finalized
  cases request with
  | initializeLibrary heapid =>
    have before := permitted.2
    rw [constructed] at before
    cases before
  | finalize =>
    cases succeeds
    exact ⟨constructed, rfl⟩
  | malloc heapid sz =>
    obtain ⟨⟨_, library⟩, called, same⟩ := bind_eq_ok.mp succeeds
    cases same
    exact ⟨constructed, (malloc_flag called).trans uninitialized⟩
  | calloc heapid nmemb sz =>
    obtain ⟨⟨_, library⟩, called, same⟩ := bind_eq_ok.mp succeeds
    cases same
    obtain ⟨⟨_, library'⟩, called', same⟩ := bind_eq_ok.mp called
    cases same
    exact ⟨constructed, (malloc_flag called').trans uninitialized⟩
  | free heapid ptr =>
    simp only [Program.perform, Libmythread.free, uninitialized] at succeeds
    cases succeeds
    exact ⟨constructed, uninitialized⟩
  | write address value =>
    cases succeeds
    exact ⟨constructed, uninitialized⟩

theorem Sound.perform {request : Request} (sound : Sound buffer program)
    (permitted : program.permits request) (inOrder : program.InOrder buffer request)
    (succeeds : program.perform buffer request = .ok after) : after.Finalized ∨ Sound buffer after := by
  cases request with
  | initializeLibrary heapid =>
    obtain ⟨library, called, same⟩ := bind_eq_ok.mp succeeds
    cases same
    exact .inr (sound.construct permitted.2 called)
  | finalize =>
    cases succeeds
    exact .inl ⟨permitted, rfl⟩
  | malloc heapid sz =>
    obtain ⟨⟨_, library⟩, called, same⟩ := bind_eq_ok.mp succeeds
    cases same
    exact .inr (sound.malloc inOrder called)
  | calloc heapid nmemb sz =>
    obtain ⟨⟨_, library⟩, called, same⟩ := bind_eq_ok.mp succeeds
    cases same
    exact .inr (sound.calloc inOrder called)
  | free heapid ptr =>
    obtain ⟨block, member, rfl⟩ := permitted.2
    obtain ⟨library, called, same⟩ := bind_eq_ok.mp succeeds
    cases same
    exact .inr (sound.free member inOrder called)
  | write address value =>
    obtain ⟨block, member, low, high⟩ := permitted
    cases succeeds
    exact .inr (sound.write member fun place away => Function.update_of_ne (by omega) ..)

theorem start_sound (buffer : TempBuffer) (memory : Memory) : Sound buffer (start memory) := by
  obtain ⟨begins, ends, heap⟩ := Client.start_sound memory
  exact ⟨Int.le_refl 0, ⟨begins, ends⟩, heap, nofun, Int.natCast_nonneg _, nofun, List.nodup_nil, rfl, nofun⟩

/-- What a run in order keeps. -/
def Kept (buffer : TempBuffer) (program : Program) : Prop := program.Finalized ∨ Sound buffer program

theorem kept_step {request : Request} (kept : Kept buffer program)
    (inOrder : program.InOrder buffer request)
    (taken : guarded (step buffer) permits program request = some after) : Kept buffer after := by
  obtain ⟨permitted, taken⟩ := guarded_eq_some.mp taken
  have succeeds := toOption_eq_some.mp taken
  rcases kept with finalized | sound
  · exact .inl (finalized.perform permitted succeeds)
  · exact sound.perform permitted inOrder succeeds

theorem kept_of_run {memory : Memory}
    (run : Run (guarded (step buffer) permits) (start memory) history program)
    (meets : Meets (InOrder buffer) history) : Kept buffer program :=
  run.invariant (.inr (start_sound buffer memory)) kept_step meets

theorem Kept.sound (kept : Kept buffer program) (initialized : program.library.initialized = true) :
    Sound buffer program := by
  rcases kept with ⟨_, uninitialized⟩ | sound
  · rw [uninitialized] at initialized
    cases initialized
  · exact sound

/-- In every run in order, a live block can be freed, with room for its request,
exactly while the library is not initialized, or the block comes from the heap,
or the bytes before it happen to read as a header with that room. -/
theorem releasable_exactly {memory : Memory}
    (run : Run (guarded (step buffer) permits) (start memory) history program)
    (meets : Meets (InOrder buffer) history) (member : block ∈ program.live) :
    Releasable program block ↔ (program.library.initialized = true → buffer.Holds block.ptr →
      Headed program block) := by
  by_cases initialized : program.library.initialized = true
  · have sound := (kept_of_run run meets).sound initialized
    rw [sound.releasable_iff member initialized]
    constructor
    · exact fun headed _ _ => headed
    · intro condition
      by_cases temp : buffer.Holds block.ptr
      · exact condition initialized temp
      · exact sound.headed member temp
  · refine ⟨fun _ after => (initialized after).elim, fun _ => ⟨fun heapid => ?_, ?_⟩⟩
    · refine ⟨program.library, ?_, fun _ _ _ _ _ => rfl⟩
      rw [Libmythread.free, if_neg initialized]
    · exact fun after => (initialized after).elim

def highBuffer : TempBuffer := ⟨2 ^ 40, by decide, by decide, by decide⟩

/-- One block from each allocator: only that of the heap can be freed. -/
theorem releasable_exactly_both : ∃ history program,
    Run (guarded (step highBuffer) permits) (start fun _ => 0) history program ∧
      Meets (InOrder highBuffer) history ∧ program.library.initialized = true ∧
      program.live = [⟨userHeapBase + 88, 100⟩, ⟨2 ^ 40, 24⟩] ∧
      Releasable program ⟨userHeapBase + 88, 100⟩ ∧ ¬ Releasable program ⟨2 ^ 40, 24⟩ := by
  have executed : ((execute (guarded (guarded (step highBuffer) permits) (InOrder highBuffer))
      (start fun _ => 0) [.malloc 0 24, .initializeLibrary 1, .malloc 1 100]).map
      fun program => decide (program.library.initialized = true ∧
        program.live = [⟨userHeapBase + 88, 100⟩, ⟨2 ^ 40, 24⟩] ∧
        program.library.memory.load (2 ^ 40 - 16) 8 = 0)) = some true := by
    decide +kernel
  obtain ⟨history, program, run, meets, checked⟩ := exists_guarded executed
  obtain ⟨initialized, live, bare⟩ := checked
  refine ⟨history, program, run, meets, initialized, live, ?_, ?_⟩
  · refine (releasable_exactly run meets (by simp [live])).mpr fun _ temp => ?_
    exact absurd temp (by decide)
  · rw [releasable_exactly run meets (by simp [live])]
    intro condition
    have headed := (condition initialized (by decide)).1
    rw [bare] at headed
    cases headed

/-- A block from before the constructor aborts the program when it is freed afterwards. -/
theorem block_unreleasable : ¬ ∀ memory buffer program,
    Reachable (guarded (step buffer) permits) (start memory) program →
      ∀ block ∈ program.live, Releasable program block := by
  have executed : ((execute (guarded (step highBuffer) permits) (start fun _ => 0)
      [.malloc 0 24, .initializeLibrary 0]).map
      fun program => decide (program.live = [⟨2 ^ 40, 24⟩] ∧
        (program.library.free 0 (2 ^ 40)).isOk = false)) = some true := by
    decide +kernel
  obtain ⟨program, reached, checked⟩ := exists_reachable executed
  obtain ⟨live, fails⟩ := checked
  intro claimed
  obtain ⟨after, succeeds, _⟩ := (claimed _ highBuffer program reached ⟨2 ^ 40, 24⟩ (by simp [live])).freed 0
  rw [succeeds] at fails
  cases fails

end Program

end ProcessAsThread.Heap
