import ProcessAsThread.Heap.Contents
import ProcessAsThread.Heap.Release

/-! What a program reads back from its blocks, those of `tempmalloc` too: the heap
writes nothing outside its region, and the constructor nothing that the program has. -/

namespace ProcessAsThread.Heap

open Library

/-- Nothing outside a region is written. -/
def WritesWithin (start finish : Nat) (memory memory' : Memory) : Prop :=
  ∀ place, place < start ∨ finish ≤ place → memory' place = memory place

theorem WritesWithin.trans {memory memory₁ memory' : Memory} (first : WritesWithin start finish memory memory₁)
    (second : WritesWithin start finish memory₁ memory') : WritesWithin start finish memory memory' :=
  fun place outside => (second place outside).trans (first place outside)

theorem WritesWithin.store {memory : Memory} {address value : Nat} (low : start ≤ address)
    (high : address + 8 ≤ finish) : WritesWithin start finish memory (memory.store address value 8) :=
  fun place outside => Memory.store_outside (by omega)

namespace Arena

/-- An arena writes its own header. -/
theorem malloc_within {memory : Memory} {arena : Nat} (sz : Nat) (low : start ≤ arena)
    (high : arena + size ≤ finish) : WritesWithin start finish memory (malloc memory arena sz).2 := by
  simp only [size] at high
  simp only [malloc]
  split
  · exact fun _ _ => rfl
  · exact (WritesWithin.store low (by omega)).trans (WritesWithin.store (by omega) (by omega))

theorem create_within {memory : Memory} {arena : Nat} (sz : Nat) (low : start ≤ arena)
    (high : arena + size ≤ finish) : WritesWithin start finish memory (create memory arena sz) := by
  simp only [size] at high
  exact ((WritesWithin.store low (by omega)).trans (WritesWithin.store (by omega) (by omega))).trans
    (WritesWithin.store (by omega) (by omega))

end Arena

section

variable {space space' : Space} {zone zone' : ZoneHeap}

theorem ZoneHeap.slowMalloc_within (xheap : space.xheap.Laid own) (laid : zone.Laid own space.memory heapid)
    (bound : sz + 4119 < 2 ^ 64) (succeeds : slowMalloc space zone sz = .ok (ptr, space', zone')) :
    WritesWithin space.xheap.heapStart space.xheap.heapEnd space.memory space'.memory := by
  have started := xheap.started
  have rest := xheap.rest
  have sized : Arena.size = 24 := rfl
  simp only [slowMalloc] at succeeds
  generalize linked : (if zone.currentArena = 0 then space.memory
    else Arena.setNextArena space.memory zone.currentArena zone.pastArenas) = memory at succeeds
  generalize allocated : (if chunkSize < sz then sz else chunkSize) = allocSize at succeeds
  have small : allocSize = sz ∨ allocSize = 1048576 := by
    have chunk : chunkSize = 1048576 := rfl
    subst allocated
    split <;> omega
  have first : WritesWithin space.xheap.heapStart space.xheap.heapEnd space.memory memory := by
    subst linked
    rcases laid with none | ⟨header, _⟩
    · rw [if_pos none]
      exact fun _ _ => rfl
    · split
      · exact fun _ _ => rfl
      · have range := xheap.range header (fun same => by cases same) (by omega)
        exact WritesWithin.store (by omega) (by omega)
  obtain ⟨_, _, served⟩ := bind_eq_ok.mp succeeds
  obtain ⟨⟨buf, xheap'⟩, called, served⟩ := bind_eq_ok.mp served
  have request : sizeT (Arena.size + allocSize) = Arena.size + allocSize := sizeT_small (by omega)
  rw [request] at called
  rcases space.xheap.malloc_cases (show Arena.size + allocSize + 4095 < 2 ^ 64 by omega) with
    exits | ⟨rounded, enough, fits, bumped⟩
  · cases exits.symm.trans called
  · cases bumped.symm.trans called
    split at served
    · cases served
      exact first
    · cases served
      have low : space.xheap.heapStart ≤ space.xheap.position := started
      have high : space.xheap.position + Arena.size ≤ space.xheap.heapEnd := by omega
      exact (first.trans (Arena.create_within allocSize low high)).trans (Arena.malloc_within sz low high)

theorem ZoneHeap.malloc_within (xheap : space.xheap.Laid own) (laid : zone.Laid own space.memory heapid)
    (bound : align sz + 4119 < 2 ^ 64) (succeeds : malloc space zone sz = .ok (ptr, space', zone')) :
    WritesWithin space.xheap.heapStart space.xheap.heapEnd space.memory space'.memory := by
  simp only [malloc] at succeeds
  split at succeeds
  · rename_i fits
    cases succeeds
    rcases laid with none | ⟨header, _⟩
    · exact (fits.1 none).elim
    · have range := xheap.range header (fun same => by cases same) (by simp only [Arena.size]; omega)
      have rest := xheap.rest
      exact Arena.malloc_within _ range.1 (by omega)
  · exact slowMalloc_within xheap laid bound succeeds

theorem AdaptAppHeap.malloc_within (xheap : space.xheap.Laid own) (laid : zone.Laid own space.memory heapid)
    (bound : sz + 4136 ≤ 2 ^ 64) (aligned : sz % 8 = 0)
    (succeeds : malloc space zone sz = .ok (ptr, space', zone')) :
    WritesWithin space.xheap.heapStart space.xheap.heapEnd space.memory space'.memory := by
  have request : sizeT (sz + ObjectHeader.size) = sz + 16 := sizeT_small (by
    simp only [ObjectHeader.size]
    omega)
  have length : align (sz + 16) = sz + 16 := by
    simp only [align, sizeT_small (show sz + 16 + 7 < 2 ^ 64 by omega)]
    omega
  simp only [malloc, request] at succeeds
  obtain ⟨⟨raw, space₁, zone₁⟩, called, rest⟩ := bind_eq_ok.mp succeeds
  have first := ZoneHeap.malloc_within xheap laid (by omega) called
  rcases zone.malloc_laid (fun raw => .object (raw + 16)) xheap laid (show 0 < sz + 16 by omega)
    (by omega) (by omega) with exits | ⟨_, _, _, own', called', _, xheap', start, finish, _, carved⟩
  · cases exits.symm.trans called
  cases called'.symm.trans called
  have range := xheap'.range carved.owns (by simp) (by omega)
  have ends := xheap'.rest
  split at rest
  · cases rest
    exact first
  · obtain ⟨_, _, rest⟩ := bind_eq_ok.mp rest
    obtain ⟨_, _, rest⟩ := bind_eq_ok.mp rest
    cases rest
    have header : WritesWithin space.xheap.heapStart space.xheap.heapEnd space₁.memory
        (ObjectHeader.create space₁.memory raw sz) :=
      (WritesWithin.store (by omega) (by omega)).trans (WritesWithin.store (by omega) (by omega))
    exact first.trans header

end

theorem Xmemory.malloc_within {xmemory xmemory' : Xmemory} (laid : Laid layout xmemory blocks)
    (bound : sz + 4136 ≤ 2 ^ 64) (succeeds : xmemory.malloc heapid sz = .ok (ptr, xmemory')) :
    WritesWithin xmemory.space.xheap.heapStart xmemory.space.xheap.heapEnd xmemory.space.memory
      xmemory'.space.memory := by
  rcases Xmemory.malloc_source bound succeeds with
    ⟨_, _, _, same, _⟩ | ⟨carved, bound', aligned, _, called, _⟩
  · rw [same]
    exact fun _ _ => rfl
  · exact AdaptAppHeap.malloc_within laid.xheap (laid.zones heapid) bound' aligned called

namespace Program

def newest (program : Program) : Nat := (program.live.map Block.ptr).headD 0

/-- What a request does to the blocks and their bytes. -/
def changes (before : Program) (request : Request) (after : Program) : List Change :=
  match request with
  | .initializeLibrary _ => []
  | .finalize => []
  | .malloc _ sz => [.create after.newest sz none]
  | .calloc _ nmemb sz => [.create after.newest (nmemb * sz) (some 0)]
  | .free _ ptr => [.release ptr]
  | .write address value => putAt before.live address value

def journal : List (Program × Request) → Program → List Change
  | [], _ => []
  | (before, request) :: earlier, after => journal earlier before ++ changes before request after

variable {buffer : TempBuffer} {program after : Program} {contents : Contents} {request : Request}

theorem Sound.disjoint (sound : Sound buffer program) (member : block ∈ program.live)
    (member' : other ∈ program.live) (different : other.ptr ≠ block.ptr) :
    other.ptr + other.size ≤ block.ptr ∨ block.ptr + block.size ≤ other.ptr := by
  have long := tempSize_fits block.size
  have long' := tempSize_fits other.size
  have buffered := buffer.apart
  have room := sound.room
  by_cases temp : buffer.Holds block.ptr
  · have bound := sound.bound block member temp
    by_cases temp' : buffer.Holds other.ptr
    · have := sound.apart block member other member' temp temp' different
      omega
    · obtain ⟨size, fits, low, high, _⟩ := sound.object member' temp'
      simp only [TempBuffer.Holds] at temp
      omega
  · by_cases temp' : buffer.Holds other.ptr
    · obtain ⟨size, fits, low, high, _⟩ := sound.object member temp
      have bound := sound.bound other member' temp'
      simp only [TempBuffer.Holds] at temp'
      omega
    · obtain ⟨layout, laid⟩ := sound.heap
      obtain ⟨size, sized, fits, object⟩ := laid.object (buffer.mem_fromHeap member temp)
      obtain ⟨size', sized', fits', _⟩ := laid.object (buffer.mem_fromHeap member' temp')
      have := laid.apart sized sized' different
      omega

/-- The blocks of `tempmalloc` are outside the region of the heap. -/
theorem Sound.outside (sound : Sound buffer program) (member : block ∈ program.live)
    (temp : buffer.Holds block.ptr) {offset : Nat} (less : offset < block.size) :
    block.ptr + offset < userHeapBase ∨ userHeapBase + userHeapSize ≤ block.ptr + offset := by
  have bound := sound.bound block member temp
  have room := sound.room
  have apart := buffer.apart
  have long := tempSize_fits block.size
  simp only [TempBuffer.Holds] at temp
  omega

/-- `malloc` writes into no block that there is. -/
theorem Sound.mallocKept (sound : Sound buffer program) {library : Libmythread} (fits : program.Fits sz)
    (succeeds : program.library.malloc buffer heapid sz = .ok (ptr, library)) :
    ∀ block ∈ program.live, ∀ offset < block.size,
      library.memory (block.ptr + offset) = program.library.memory (block.ptr + offset) := by
  intro block member offset less
  obtain ⟨layout, laid⟩ := sound.heap
  have region := sound.region
  rw [Fits] at fits
  split at fits
  · rename_i initialized
    have bound : (if sz = 0 then 1 else sz) + 4136 ≤ 2 ^ 64 := by split <;> omega
    simp only [Libmythread.malloc, initialized, if_true] at succeeds
    obtain ⟨⟨_, xmemory⟩, called, rest⟩ := bind_eq_ok.mp succeeds
    obtain ⟨_, _, same⟩ := bind_eq_ok.mp rest
    cases same
    by_cases temp : buffer.Holds block.ptr
    · have within_ := Xmemory.malloc_within laid bound called
      rw [region.1, region.2] at within_
      exact within_ _ (sound.outside member temp less)
    · rcases Xmemory.malloc_laid laid heapid bound (Nat.le_refl _) with
        exits | ⟨_, _, _, called', serves, _⟩
      · cases exits.symm.trans called
      · cases called'.symm.trans called
        exact (serves.undisturbed laid).bytes laid (List.Sublist.refl _) block
          (buffer.mem_fromHeap member temp) offset less
  · rename_i uninitialized
    obtain ⟨same, _⟩ := malloc_temp (by simpa using uninitialized) succeeds
    rw [same]
    rfl

theorem Sound.fresh {library : Libmythread} {live : List Block}
    (sound : Sound buffer { program with library := library, live := ⟨ptr, size⟩ :: live }) :
    ∀ block ∈ live, block.ptr ≠ ptr := fun block member same =>
  (List.nodup_cons.mp sound.distinct).1 (List.mem_map.mpr ⟨block, member, same⟩)

/-- What `calloc` hands out is zero. -/
theorem Sound.callocHolding (sound : Sound buffer program)
    (holding : Holding program.library.memory program.live contents) {library : Libmythread} {nmemb sz : Nat}
    (fits : program.Fits (nmemb * sz))
    (succeeds : program.library.calloc buffer heapid nmemb sz = .ok (ptr, library)) :
    ∃ contents', contents.step (.create ptr (nmemb * sz) (some 0)) = some contents' ∧
      Holding library.memory (⟨ptr, nmemb * sz⟩ :: program.live) contents' := by
  have before : ¬ program.Finalized := by
    rintro ⟨constructed, uninitialized⟩
    rw [sound.era, constructed] at uninitialized
    cases uninitialized
  have fresh := (sound.calloc fits succeeds).fresh
  have small : sizeT (nmemb * sz) = nmemb * sz := sizeT_small (fits.small sound before)
  rw [Libmythread.calloc, small, Nat.mul_comm sz nmemb, small] at succeeds
  obtain ⟨⟨_, library'⟩, called, same⟩ := bind_eq_ok.mp succeeds
  cases same
  have kept := sound.mallocKept fits called
  have sound' := sound.malloc fits called
  refine holding.create fresh (fun value zero offset less => ?_) fun block member offset less => ?_
  · cases zero
    simp only [Libmythread.setMemory, Libmythread.memory, Memory.fill]
    rw [if_pos (by omega)]
  · have apart := sound'.disjoint (List.mem_cons_self ..) (List.mem_cons_of_mem _ member) (fresh block member)
    rw [← kept block member offset less]
    exact Memory.fill_outside (by simp only at apart; omega)

theorem Sound.freeHolding (sound : Sound buffer program)
    (holding : Holding program.library.memory program.live contents) {library : Libmythread}
    (member : block ∈ program.live) (outside : program.library.initialized = true → ¬ buffer.Holds block.ptr)
    (succeeds : program.library.free heapid block.ptr = .ok library) :
    ∃ contents', contents.step (.release block.ptr) = some contents' ∧
      Holding library.memory (program.live.filter (·.ptr ≠ block.ptr)) contents' := by
  refine holding.release member fun other present different offset less => ?_
  rw [Libmythread.free] at succeeds
  split at succeeds
  · rename_i initialized
    obtain ⟨xmemory, freed, same⟩ := bind_eq_ok.mp succeeds
    cases same
    obtain ⟨layout, laid⟩ := sound.heap
    have member' := buffer.mem_fromHeap member (outside initialized)
    obtain ⟨_, _, freed', releases, _⟩ := Xmemory.free_laid laid member' heapid
    cases freed'.symm.trans freed
    have holds : other.Holds (other.ptr + offset) := by
      simp only [Block.Holds]
      omega
    exact releases.kept _ (sound.firstWord member present (fun same => different (by rw [same])) holds)
  · cases succeeds
    rfl

/-- The constructor writes into no block that there is. -/
theorem Sound.constructHolding (sound : Sound buffer program)
    (holding : Holding program.library.memory program.live contents) {library : Libmythread}
    (before : program.constructed = false)
    (succeeds : program.library.initializeLibrary heapid = .ok library) :
    Holding library.memory program.live contents := by
  obtain ⟨⟨_, xmemory⟩, called, same⟩ := bind_eq_ok.mp succeeds
  cases same
  obtain ⟨start, finish, layout, laid⟩ := Client.start_sound program.library.memory
  have within_ := Xmemory.malloc_within laid (show 32 + 4136 ≤ 2 ^ 64 by omega) called
  rw [start, finish] at within_
  refine ⟨holding.tracks, holding.known, fun ptr offset value same => ?_⟩
  rw [← holding.shows_ _ _ _ same]
  obtain ⟨block, member, rfl, less⟩ := holding.tracks.inside (holding.known _ _ _ same)
  exact within_ _ (sound.outside member (sound.early before block member) less)

theorem Sound.holding (sound : Sound buffer program)
    (holding : Holding program.library.memory program.live contents) (permitted : program.permits request)
    (inOrder : program.InOrder buffer request) (succeeds : program.perform buffer request = .ok after) :
    ∃ contents', execute BlockStore.step contents (changes program request after) = some contents' ∧
      Holding after.library.memory after.live contents' := by
  cases request with
  | initializeLibrary heapid =>
    obtain ⟨library, called, same⟩ := bind_eq_ok.mp succeeds
    cases same
    exact ⟨contents, rfl, sound.constructHolding holding permitted.2 called⟩
  | finalize =>
    cases succeeds
    exact ⟨contents, rfl, holding⟩
  | malloc heapid sz =>
    obtain ⟨⟨ptr, library⟩, called, same⟩ := bind_eq_ok.mp succeeds
    cases same
    obtain ⟨contents', taken, holding'⟩ := @Holding.create _ _ _ library.memory ptr sz holding
      (sound.malloc inOrder called).fresh none (fun value none => by cases none)
      (sound.mallocKept inOrder called)
    exact ⟨contents', execute_one taken, holding'⟩
  | calloc heapid nmemb sz =>
    obtain ⟨⟨ptr, library⟩, called, same⟩ := bind_eq_ok.mp succeeds
    cases same
    obtain ⟨contents', taken, holding'⟩ := sound.callocHolding holding inOrder called
    exact ⟨contents', execute_one taken, holding'⟩
  | free heapid ptr =>
    obtain ⟨block, member, rfl⟩ := permitted.2
    obtain ⟨library, called, same⟩ := bind_eq_ok.mp succeeds
    cases same
    obtain ⟨contents', taken, holding'⟩ := sound.freeHolding holding member inOrder called
    exact ⟨contents', execute_one taken, holding'⟩
  | write address value =>
    obtain ⟨block, member, low, high⟩ := permitted
    cases succeeds
    refine holding.put member low high (fun other present different within_ => ?_) sound.distinct value
    have := sound.disjoint member present different
    omega

/-- In every run in order, up to the destructor, each live block has the bytes that the
program put there last: those from before the constructor, and the zeroes of `calloc`. -/
theorem journal_retained {memory : Memory}
    (run : Run (guarded (step buffer) permits) (start memory) history program)
    (meets : Meets (InOrder buffer) history) (unfinalized : ¬ program.Finalized) :
    ∃ contents, execute BlockStore.step .empty (journal history program) = some contents ∧
      Tracks program.live contents ∧ contents.Shows (byteOf program.library.memory) := by
  have held : program.Finalized ∨ ∃ contents,
      execute BlockStore.step .empty (journal history program) = some contents ∧
      Holding program.library.memory program.live contents := by
    clear unfinalized
    induction run with
    | start =>
      refine .inr ⟨.empty, rfl, fun ptr size => ?_, BlockStore.known_empty, BlockStore.shows_empty _⟩
      simp [BlockStore.empty, start]
    | @next history program request after earlier taken ih =>
      obtain ⟨permitted, moved⟩ := guarded_eq_some.mp taken
      have succeeds := toOption_eq_some.mp moved
      rcases kept_of_run earlier meets.tail with finalized | sound
      · exact .inl (finalized.perform permitted succeeds)
      · rcases ih meets.tail with finalized | ⟨contents, executed, holding⟩
        · exact .inl (finalized.perform permitted succeeds)
        · obtain ⟨contents', executed', holding'⟩ := sound.holding holding permitted meets.head succeeds
          refine .inr ⟨contents', ?_, holding'⟩
          rw [journal, execute_append, executed]
          exact executed'
  rcases held with finalized | ⟨contents, executed, holding⟩
  · exact (unfinalized finalized).elim
  · exact ⟨contents, executed, holding.tracks, holding.shows_⟩

/-- A byte from before the constructor and a cleared one, after calls of every kind. -/
theorem journal_retained_both : ∃ history program,
    Run (guarded (step highBuffer) permits) (start fun _ => 1) history program ∧
      program.library.memory (2 ^ 40 + 3) = 7 ∧ program.library.memory (userHeapBase + 145) = 0 := by
  have executed : ((record (guarded (guarded (step highBuffer) permits) (InOrder highBuffer)) []
      (start fun _ => 1) [.malloc 0 24, .write (2 ^ 40 + 3) 7, .initializeLibrary 1, .malloc 1 20,
        .calloc 1 5 4, .free 1 (userHeapBase + 88), .malloc 2 100]).map fun recorded =>
          decide (journal recorded.1 recorded.2 = [.create (2 ^ 40) 24 none, .put (2 ^ 40) 3 7,
              .create (userHeapBase + 88) 20 none, .create (userHeapBase + 136) 20 (some 0),
              .release (userHeapBase + 88), .create (userHeapBase + 1052712) 100 none] ∧
            recorded.2.library.initialized = true)) = some true := by
    decide +kernel
  obtain ⟨history, program, run, written, initialized⟩ := exists_run executed
  simp only at written initialized
  obtain ⟨run, meets⟩ := run.of_guarded
  obtain ⟨contents, executed', _, shows_⟩ := journal_retained run meets fun finalized => by
    rw [finalized.2] at initialized
    cases initialized
  rw [written] at executed'
  have checked : (execute BlockStore.step (.empty : Contents)
      [.create (2 ^ 40) 24 none, .put (2 ^ 40) 3 7, .create (userHeapBase + 88) 20 none,
        .create (userHeapBase + 136) 20 (some 0), .release (userHeapBase + 88),
        .create (userHeapBase + 1052712) 100 none]).map
      (fun contents => (contents.byte (2 ^ 40) 3, contents.byte (userHeapBase + 136) 9)) =
        some (some 7, some 0) := by
    decide +kernel
  rw [executed'] at checked
  simp only [Option.map_some, Option.some.injEq, Prod.mk.injEq] at checked
  exact ⟨history, program, run, shows_ (2 ^ 40) 3 7 checked.1, shows_ (userHeapBase + 136) 9 0 checked.2⟩

end Program

end ProcessAsThread.Heap
