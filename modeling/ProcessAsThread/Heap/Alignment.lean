import ProcessAsThread.Heap.Placement
import ProcessAsThread.Heap.Sizes

/-! The alignment of what the library's `malloc` returns. `tempmalloc` keeps to
multiples of sixteen; the heap does so only where it finds such a place. -/

namespace ProcessAsThread.Heap

open Library

/-- The object the heap of a thread has for a request, which is for one byte at least. -/
def Libmythread.nextObject (library : Libmythread) (heapid sz : Nat) : Nat :=
  (library.xmemory.heaps heapid).nextObject library.xmemory.space (if sz = 0 then 1 else sz)

theorem Libmythread.malloc_initialized {library library' : Libmythread} (initialized : library.initialized = true)
    (succeeds : library.malloc buffer heapid sz = .ok (ptr, library')) :
    ∃ xmemory, library.xmemory.malloc heapid (if sz = 0 then 1 else sz) = .ok (ptr, xmemory) ∧
      library' = { library with xmemory := xmemory } ∧ ptr ≠ 0 := by
  simp only [malloc, initialized, if_true] at succeeds
  obtain ⟨⟨_, xmemory⟩, called, rest⟩ := bind_eq_ok.mp succeeds
  obtain ⟨_, checked, same⟩ := bind_eq_ok.mp rest
  cases same
  refine ⟨xmemory, called, by rw [← initialized], ?_⟩
  simp only [check] at checked
  split at checked
  · rename_i nonzero
    exact nonzero
  · cases checked

private theorem intT_sixteen {value : Int} (multiple : value % 16 = 0) : intT value % 16 = 0 := by
  rw [intT, Int.bmod_def]
  split <;> omega

namespace Program

variable {buffer : TempBuffer} {program after : Program} {request : Request}

/-- What is known in every state: the bump pointer is at a page boundary, and
`_allocated` is a multiple of sixteen. -/
structure Even (program : Program) : Prop where
  paged : program.library.xmemory.space.xheap.Paged
  allocated : program.library.allocated % 16 = 0

private theorem malloc_even {library library' : Libmythread} (paged : library.xmemory.space.xheap.Paged)
    (allocated : library.allocated % 16 = 0)
    (succeeds : library.malloc buffer heapid sz = .ok (ptr, library')) :
    library'.xmemory.space.xheap.Paged ∧ library'.allocated % 16 = 0 := by
  by_cases initialized : library.initialized = true
  · obtain ⟨xmemory, called, rfl, _⟩ := Libmythread.malloc_initialized initialized succeeds
    exact ⟨(Xmemory.malloc_ptr paged called).2, allocated⟩
  · obtain ⟨rfl, _, _⟩ := malloc_temp (by simpa using initialized) succeeds
    refine ⟨paged, intT_sixteen ?_⟩
    have rounded := @intT_sixteen (sizeT (max sz 16 + 15) / 16 * 16 : Nat) (by omega)
    omega

theorem Even.perform (even : Even program) (succeeds : program.perform buffer request = .ok after) :
    Even after := by
  cases request with
  | initializeLibrary heapid =>
    obtain ⟨library, called, same⟩ := bind_eq_ok.mp succeeds
    cases same
    obtain ⟨⟨_, xmemory⟩, made, same⟩ := bind_eq_ok.mp called
    cases same
    exact ⟨(Xmemory.malloc_ptr (Xmemory.create_paged _) made).2, even.allocated⟩
  | finalize =>
    cases succeeds
    exact ⟨even.paged, even.allocated⟩
  | malloc heapid sz =>
    obtain ⟨⟨_, library⟩, called, same⟩ := bind_eq_ok.mp succeeds
    cases same
    have kept := malloc_even even.paged even.allocated called
    exact ⟨kept.1, kept.2⟩
  | calloc heapid nmemb sz =>
    obtain ⟨⟨_, library⟩, called, same⟩ := bind_eq_ok.mp succeeds
    cases same
    obtain ⟨⟨_, library'⟩, called', same⟩ := bind_eq_ok.mp called
    cases same
    have kept := malloc_even even.paged even.allocated called'
    exact ⟨kept.1, kept.2⟩
  | free heapid ptr =>
    obtain ⟨library, called, same⟩ := bind_eq_ok.mp succeeds
    cases same
    rw [Libmythread.free] at called
    split at called
    · obtain ⟨xmemory, freed, same⟩ := bind_eq_ok.mp called
      cases same
      exact ⟨by rw [Xmemory.free_xheap freed]; exact even.paged, even.allocated⟩
    · cases called
      exact ⟨even.paged, even.allocated⟩
  | write address value =>
    cases succeeds
    exact ⟨even.paged, even.allocated⟩

theorem even_of_run {memory : Memory}
    (run : Run (guarded (step buffer) permits) (start memory) history program) : Even program := by
  refine Reachable.invariant ⟨Xmemory.create_paged memory, rfl⟩ ?_ ⟨_, run⟩
  intro program request after even taken
  exact even.perform (toOption_eq_some.mp (guarded_eq_some.mp taken).2)

/-- While the library is initialized, the heap's objects are eight past a multiple of sixteen. -/
def Placed (buffer : TempBuffer) (program : Program) : Prop :=
  program.library.initialized = true → ∃ layout,
    Laid layout program.library.xmemory (buffer.fromHeap program.live) ∧
      Eight layout program.library.xmemory

private theorem fromHeap_cons (buffer : TempBuffer) (block : Block) (live : List Block) :
    (buffer.fromHeap (block :: live)).Sublist (block :: buffer.fromHeap live) := by
  rw [TempBuffer.fromHeap, List.filter_cons]
  split
  · exact List.Sublist.refl _
  · exact List.sublist_cons_self ..

theorem Placed.malloc (placed : Placed buffer program) {library : Libmythread}
    (initialized : program.library.initialized = true) (fits : program.Fits sz)
    (succeeds : program.library.malloc buffer heapid sz = .ok (ptr, library)) :
    ptr % 16 = 8 ∧ Placed buffer { program with library := library, live := ⟨ptr, sz⟩ :: program.live } := by
  obtain ⟨layout, laid, eight⟩ := placed initialized
  obtain ⟨xmemory, called, rfl, _⟩ := Libmythread.malloc_initialized initialized succeeds
  rw [Fits, if_pos initialized] at fits
  have bound : (if sz = 0 then 1 else sz) + 4136 ≤ 2 ^ 64 := by split <;> omega
  rcases Xmemory.malloc_laid laid heapid bound (show sz ≤ if sz = 0 then 1 else sz by split <;> omega) with
    exits | ⟨_, _, layout', called', serves, laid'⟩
  · cases exits.symm.trans called
  · cases called'.symm.trans called
    obtain ⟨residue, eight'⟩ := Xmemory.malloc_eight laid eight bound called serves laid'
    exact ⟨residue, fun _ => ⟨layout', laid'.forget (fromHeap_cons buffer _ _), eight'⟩⟩

theorem Placed.write (placed : Placed buffer program) (sound : Sound buffer program)
    (member : block ∈ program.live) {memory : Memory}
    (kept : ∀ place, place < block.ptr ∨ block.ptr + block.size ≤ place →
      memory place = program.library.memory place) :
    Placed buffer { program with library := program.library.setMemory memory } := by
  intro initialized
  obtain ⟨layout, laid, eight⟩ := placed initialized
  obtain ⟨laid', arenas⟩ := sound.written laid member kept
  exact ⟨layout, laid', eight.memory laid arenas⟩

theorem Placed.construct {before library : Libmythread} {live : List Block}
    (none : buffer.fromHeap live = []) (called : before.initializeLibrary heapid = .ok library) :
    ∃ layout, Laid layout library.xmemory (buffer.fromHeap live) ∧ Eight layout library.xmemory := by
  obtain ⟨⟨_, xmemory⟩, made, same⟩ := bind_eq_ok.mp called
  cases same
  have laid := Client.start_laid before.memory
  have bound : 32 + 4136 ≤ 2 ^ 64 := by omega
  rcases Xmemory.malloc_laid laid heapid bound (Nat.le_refl 32) with
    exits | ⟨_, _, layout', made', serves, laid'⟩
  · cases exits.symm.trans made
  · cases made'.symm.trans made
    obtain ⟨_, eight⟩ := Xmemory.malloc_eight laid (Xmemory.create_eight _) bound made' serves laid'
    exact ⟨layout', by rw [none]; exact laid'.forget (List.nil_sublist _), eight⟩

theorem Placed.calloc (placed : Placed buffer program) (sound : Sound buffer program) {library : Libmythread}
    (initialized : program.library.initialized = true) (fits : program.Fits (nmemb * sz))
    (succeeds : program.library.calloc buffer heapid nmemb sz = .ok (ptr, library)) :
    Placed buffer { program with library := library, live := ⟨ptr, nmemb * sz⟩ :: program.live } := by
  obtain ⟨⟨_, library'⟩, called, same⟩ := bind_eq_ok.mp succeeds
  cases same
  have small : sizeT (nmemb * sz) = nmemb * sz := by
    refine sizeT_small (Fits.small sound fits ?_)
    rintro ⟨_, uninitialized⟩
    rw [initialized] at uninitialized
    cases uninitialized
  rw [small] at called
  refine (placed.malloc initialized fits called).2.write (sound.malloc fits called) (List.mem_cons_self ..) ?_
  intro place away
  rw [Nat.mul_comm sz nmemb, small]
  exact Memory.fill_outside away

theorem Placed.free (placed : Placed buffer program) {library : Libmythread}
    (initialized : program.library.initialized = true) (member : block ∈ program.live)
    (fromHeap : ¬ buffer.Holds block.ptr)
    (succeeds : program.library.free heapid block.ptr = .ok library) :
    Placed buffer { program with library := library, live := program.live.filter (·.ptr ≠ block.ptr) } := by
  intro _
  obtain ⟨layout, laid, eight⟩ := placed initialized
  rw [Libmythread.free, if_pos initialized] at succeeds
  obtain ⟨xmemory, freed, same⟩ := bind_eq_ok.mp succeeds
  cases same
  have member' := buffer.mem_fromHeap member fromHeap
  obtain ⟨xmemory', layout', freed', releases, laid'⟩ := Xmemory.free_laid laid member' heapid
  cases freed'.symm.trans freed
  refine ⟨layout', ?_, Xmemory.free_eight eight laid member' releases⟩
  rw [buffer.fromHeap_filter]
  exact laid'

theorem Placed.perform (placed : Placed buffer program) (kept : Kept buffer program)
    (permitted : program.permits request) (inOrder : program.InOrder buffer request)
    (succeeds : program.perform buffer request = .ok after) : Placed buffer after := by
  intro initialized
  cases request with
  | initializeLibrary heapid =>
    obtain ⟨library, called, same⟩ := bind_eq_ok.mp succeeds
    cases same
    have none : buffer.fromHeap program.live = [] := by
      rcases kept with finalized | sound
      · have before := permitted.2
        rw [finalized.1] at before
        cases before
      · rw [TempBuffer.fromHeap, List.filter_eq_nil_iff]
        intro block member
        simpa using sound.early permitted.2 block member
    exact Placed.construct none called
  | finalize =>
    cases succeeds
    cases initialized
  | malloc heapid sz =>
    obtain ⟨⟨_, library⟩, called, same⟩ := bind_eq_ok.mp succeeds
    cases same
    have before := (malloc_flag called).symm.trans initialized
    exact (placed.malloc before inOrder called).2 initialized
  | calloc heapid nmemb sz =>
    obtain ⟨⟨_, library⟩, called, same⟩ := bind_eq_ok.mp succeeds
    cases same
    have before : program.library.initialized = true := by
      obtain ⟨⟨_, library'⟩, called', same⟩ := bind_eq_ok.mp called
      cases same
      exact (malloc_flag called').symm.trans initialized
    exact placed.calloc (kept.sound before) before inOrder called initialized
  | free heapid ptr =>
    obtain ⟨block, member, rfl⟩ := permitted.2
    obtain ⟨library, called, same⟩ := bind_eq_ok.mp succeeds
    cases same
    by_cases before : program.library.initialized = true
    · exact placed.free before member (inOrder before) called initialized
    · rw [Libmythread.free, if_neg before] at called
      cases called
      exact (before initialized).elim
  | write address value =>
    obtain ⟨block, member, low, high⟩ := permitted
    cases succeeds
    exact placed.write (kept.sound initialized) member
      (fun place away => Function.update_of_ne (by omega) ..) initialized

/-- What a run in order keeps, with the places of the objects. -/
structure KeptPlaced (buffer : TempBuffer) (program : Program) : Prop where
  kept : Kept buffer program
  placed : Placed buffer program

theorem placed_of_run {memory : Memory}
    (run : Run (guarded (step buffer) permits) (start memory) history program)
    (meets : Meets (InOrder buffer) history) : Placed buffer program := by
  have initially : KeptPlaced buffer (start memory) :=
    ⟨.inr (start_sound buffer memory), fun before => by cases before⟩
  refine (run.invariant initially ?_ meets).placed
  intro program request after known inOrder taken
  obtain ⟨permitted, moved⟩ := guarded_eq_some.mp taken
  exact ⟨kept_step known.kept inOrder taken,
    known.placed.perform known.kept permitted inOrder (toOption_eq_some.mp moved)⟩

/-- In every run, `malloc` returns a multiple of sixteen exactly when the library is
not initialized or the heap's next object for the request is at one. With requests
and frees in order there is no such object, so exactly when it is not initialized. -/
theorem malloc_aligned_iff {memory : Memory} (aligned : buffer.base % 16 = 0)
    (run : Run (guarded (step buffer) permits) (start memory) history program) {library : Libmythread}
    (called : program.library.malloc buffer heapid sz = .ok (ptr, library)) :
    (ptr % 16 = 0 ↔
      (program.library.initialized = true → program.library.nextObject heapid sz % 16 = 0)) ∧
    (Meets (InOrder buffer) history → program.Fits sz →
      (ptr % 16 = 0 ↔ program.library.initialized = false)) := by
  have even := even_of_run run
  by_cases initialized : program.library.initialized = true
  · obtain ⟨xmemory, served, _, nonzero⟩ := Libmythread.malloc_initialized initialized called
    have same : ptr = program.library.nextObject heapid sz := (Xmemory.malloc_ptr even.paged served).1 nonzero
    refine ⟨by rw [← same]; exact ⟨fun multiple _ => multiple, fun multiple => multiple initialized⟩, ?_⟩
    intro meets fits
    have residue := ((placed_of_run run meets).malloc initialized fits called).1
    rw [initialized]
    refine ⟨fun multiple => ?_, nofun⟩
    omega
  · have uninitialized : program.library.initialized = false := by simpa using initialized
    have multiple : ptr % 16 = 0 := by
      have := even.allocated
      rw [(malloc_temp uninitialized called).2.2]
      omega
    exact ⟨iff_of_true multiple fun after => (initialized after).elim, fun _ _ => iff_of_true multiple uninitialized⟩

/-- The first block of the initialized library is not aligned. -/
theorem malloc_aligned_iff_first : ∃ history program ptr library,
    Run (guarded (step highBuffer) permits) (start fun _ => 0) history program ∧
      Meets (InOrder highBuffer) history ∧ program.library.initialized = true ∧
      program.library.malloc highBuffer 1 100 = .ok (ptr, library) ∧ ¬ ptr % 16 = 0 := by
  have executed : ((execute (guarded (guarded (step highBuffer) permits) (InOrder highBuffer))
      (start fun _ => 0) [.malloc 0 24, .initializeLibrary 1]).map fun program =>
      decide (program.library.initialized = true ∧
        (program.library.malloc highBuffer 1 100).isOk = true)) = some true := by
    decide +kernel
  obtain ⟨history, program, run, meets, initialized, served⟩ := exists_guarded executed
  cases called : program.library.malloc highBuffer 1 100 with
  | error halt =>
    rw [called] at served
    cases served
  | ok result =>
    refine ⟨history, program, result.1, result.2, run, meets, initialized, called, ?_⟩
    have fits : program.Fits 100 := by
      rw [fits_iff initialized]
      omega
    rw [(malloc_aligned_iff (by decide) run called).2 meets fits, initialized]
    simp

/-- The heap's first block is eight past a multiple of sixteen. -/
theorem malloc_misaligned : ¬ ∀ memory buffer program, buffer.base % 16 = 0 →
    Reachable (guarded (step buffer) permits) (start memory) program →
      ∀ heapid < numHeaps, ∀ sz < 2 ^ 64, ∀ ptr library,
        program.library.malloc buffer heapid sz = .ok (ptr, library) → ptr % 16 = 0 := by
  have executed : ((execute (guarded (step highBuffer) permits) (start fun _ => 0)
      [.initializeLibrary 0]).map fun program => decide
        ((program.library.malloc highBuffer 0 1).toOption.map Prod.fst = some (userHeapBase + 88))) =
          some true := by
    decide +kernel
  obtain ⟨program, reached, checked⟩ := exists_reachable executed
  obtain ⟨⟨ptr, library⟩, called, same⟩ := Option.map_eq_some_iff.mp checked
  intro claimed
  have multiple := claimed _ highBuffer program (by decide) reached 0 (by decide) 1 (by decide) ptr library
    (toOption_eq_some.mp called)
  simp only at same
  rw [same] at multiple
  exact absurd multiple (by decide)

end Program

end ProcessAsThread.Heap
