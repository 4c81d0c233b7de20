import ProcessAsThread.Heap.Safety

/-! The heap a freed block goes to. Which heap carved a block is not kept with it;
`free` puts it on a list of the heap of the thread that calls it. -/

namespace ProcessAsThread.Heap

open Library

/-- The clients, and history the code does not keep: the heap whose `malloc` was the
first to hand out an address. -/
structure Origins where
  client : Client
  origin : Nat → Option Nat

/-- The block at an address is on a free list of a heap, in the class of the size in its header. -/
def Xmemory.Listed (xmemory : Xmemory) (heapid ptr : Nat) : Prop :=
  ∃ size sizeClass nodes, xmemory.getSize ptr = .ok size ∧ Kingsley.size2Class size = .ok sizeClass ∧
    Chain (xmemory.space.memory.load · 8) ((xmemory.heaps heapid).bins sizeClass) nodes ∧ ptr ∈ nodes

/-- After a call of `free` on a block with a class, the block is on a list of the
heap under which it was called and of no other. -/
theorem Xmemory.listed_free {xmemory : Xmemory} {blocks : List Block} (laid : Laid layout xmemory blocks)
    (member : block ∈ blocks) (read : xmemory.getSize block.ptr = .ok size)
    (small : size ≤ StrictSegHeap.maxObjectSize) (heapid : Nat) :
    ∃ xmemory', xmemory.free heapid block.ptr = .ok xmemory' ∧
      ∀ other, xmemory'.Listed other block.ptr ↔ heapid = other := by
  obtain ⟨full, sized, _, object⟩ := laid.object member
  have same : full = size := by
    rw [getSize, AdaptAppHeap.getSize_kingsley _ object] at read
    exact Except.ok.inj read
  subst same
  obtain ⟨c, class_, rfl⟩ : ∃ c : Nat, c ≤ 28 ∧ full = 2 ^ (c + 3) := by
    rcases object.sized with classed | large
    · exact classed
    · omega
  obtain ⟨xmemory', layout', called, releases, laid'⟩ := Xmemory.free_laid laid member heapid
  have read' : xmemory'.getSize block.ptr = .ok (2 ^ (c + 3)) :=
    AdaptAppHeap.getSize_kingsley _ (laid'.objects block.ptr _ (by rw [releases.sizes, sized]))
  have found := Kingsley.size2Class_class class_
  have here := releases.head c class_ sized
  have first : block.ptr ∈ layout'.listed heapid c := by
    have chain := (laid'.lists heapid c).chain
    rw [here] at chain
    cases listed : layout'.listed heapid c with
    | nil =>
      rw [listed] at chain
      have low := object.low
      have none : block.ptr = 0 := chain
      omega
    | cons ptr rest =>
      rw [listed] at chain
      rw [chain.1]
      exact List.mem_cons_self ..
  refine ⟨xmemory', called, fun other => ⟨?_, ?_⟩⟩
  · rintro ⟨size', sizeClass, nodes, read'', found', chain, listed⟩
    cases read'.symm.trans read''
    cases found.symm.trans found'
    have list := laid'.lists other c
    rw [chain.unique list.chain] at listed
    have place := ((laid'.lists heapid c).members _ first).1
    have place' := (list.members _ listed).1
    rw [place] at place'
    cases place'
    rfl
  · rintro rfl
    exact ⟨_, c, _, read', found, (laid'.lists heapid c).chain, first⟩

namespace Origins

def start (memory : Memory) : Origins := ⟨.start memory, fun _ => none⟩

/-- A new address is credited to the heap that has just handed it out. -/
def credit (origin : Nat → Option Nat) (call : Call) (live : List Block) : Nat → Option Nat :=
  match call, live with
  | .malloc heapid _, block :: _ =>
    if (origin block.ptr).isSome then origin else Function.update origin block.ptr (some heapid)
  | _, _ => origin

def step (origins : Origins) (call : Call) : Option Origins :=
  (origins.client.step call).map fun after => ⟨after, credit origins.origin call after.live⟩

def admits (origins : Origins) (call : Call) : Prop := origins.client.admits call

instance (origins : Origins) (call : Call) : Decidable (origins.admits call) :=
  inferInstanceAs (Decidable (origins.client.admits call))

/-- The addresses with an origin are those of the objects that have been carved. -/
def Traced (origins : Origins) : Prop :=
  ∃ layout, Laid layout origins.client.xmemory origins.client.live ∧
    ∀ ptr, (origins.origin ptr).isSome = (layout.size ptr).isSome

variable {origins after : Origins} {call : Call}

private theorem credit_isSome (origin : Nat → Option Nat) (heapid sz ptr : Nat) (block : Block)
    (live : List Block) :
    (credit origin (.malloc heapid sz) (block :: live) ptr).isSome =
      (decide (ptr = block.ptr) || (origin ptr).isSome) := by
  by_cases same : ptr = block.ptr
  · subst same
    simp only [credit]
    split
    · simpa
    · simp
  · simp only [credit]
    split
    · simp [same]
    · simp [same]

private theorem start_traced (memory : Memory) : Traced (start memory) :=
  ⟨.empty, Client.start_laid memory, fun _ => rfl⟩

private theorem step_traced (traced : Traced origins) (admitted : origins.admits call)
    (taken : step origins call = some after) : Traced after := by
  obtain ⟨layout, laid, sizes⟩ := traced
  obtain ⟨client, moved, rfl⟩ := Option.map_eq_some_iff.mp taken
  rcases Client.perform_cases laid admitted with exits | ⟨layout', other, succeeds, laid', performs⟩
  · cases exits.symm.trans (toOption_eq_some.mp moved)
  · cases succeeds.symm.trans (toOption_eq_some.mp moved)
    refine ⟨layout', laid', fun ptr => ?_⟩
    cases performs with
    | malloc called serves =>
      rename_i heapid sz new xmemory'
      rw [credit_isSome]
      by_cases same : ptr = new
      · subst same
        obtain ⟨_, size, sized, _⟩ := laid'.live _ (List.mem_cons_self ..)
        simp [sized]
      · rw [serves.sizes ptr same, sizes ptr]
        simp [same]
    | free member called releases =>
      rw [releases.sizes]
      exact sizes ptr
    | write member low high => exact sizes ptr

/-- In every run, a block with a class that a thread frees goes back to the heap
that carved it exactly when that is the heap of the thread. -/
theorem listed_iff {memory : Memory} (run : Run (guarded step admits) (start memory) history origins)
    (member : block ∈ origins.client.live) (read : origins.client.xmemory.getSize block.ptr = .ok size)
    (small : size ≤ StrictSegHeap.maxObjectSize) (heapid : Nat) :
    ∃ after carver, step origins (.free heapid block.ptr) = some after ∧
      origins.origin block.ptr = some carver ∧
      (after.client.xmemory.Listed carver block.ptr ↔ heapid = carver) := by
  have traced : Traced origins := by
    refine Reachable.invariant (start_traced memory) ?_ ⟨_, run⟩
    intro origins call after traced taken
    obtain ⟨admitted, taken⟩ := guarded_eq_some.mp taken
    exact step_traced traced admitted taken
  obtain ⟨layout, laid, sizes⟩ := traced
  obtain ⟨full, sized, _, _⟩ := laid.object member
  obtain ⟨carver, origin⟩ : ∃ carver, origins.origin block.ptr = some carver := by
    refine Option.isSome_iff_exists.mp ?_
    rw [sizes, sized]
    rfl
  obtain ⟨xmemory', called, listed⟩ := Xmemory.listed_free laid member read small heapid
  refine ⟨⟨⟨xmemory', origins.client.live.filter (·.ptr ≠ block.ptr)⟩, origins.origin⟩, carver, ?_, origin,
    listed carver⟩
  rw [step, Client.step, Client.perform, called]
  rfl

/-- One block, freed by a thread of the heap that carved it and by one of another heap. -/
theorem listed_iff_two : ∃ history origins,
    Run (guarded step admits) (start fun _ => 0) history origins ∧
      (∃ after, step origins (.free 1 (userHeapBase + 40)) = some after ∧
        after.client.xmemory.Listed 1 (userHeapBase + 40)) ∧
      ∃ after, step origins (.free 2 (userHeapBase + 40)) = some after ∧
        ¬ after.client.xmemory.Listed 1 (userHeapBase + 40) := by
  have executed : ((record (guarded step admits) [] (start fun _ => 0) [.malloc 1 20]).map
      fun recorded => decide (recorded.2.client.live = [⟨userHeapBase + 40, 20⟩] ∧
        recorded.2.origin (userHeapBase + 40) = some 1 ∧
        (recorded.2.client.xmemory.getSize (userHeapBase + 40)).toOption = some 32)) = some true := by
    decide +kernel
  obtain ⟨history, origins, run, live, origin, read⟩ := exists_run executed
  have freed : ∀ heapid, ∃ after, step origins (.free heapid (userHeapBase + 40)) = some after ∧
      (after.client.xmemory.Listed 1 (userHeapBase + 40) ↔ heapid = 1) := by
    intro heapid
    obtain ⟨after, carver, taken, origin', listed⟩ := listed_iff run
      (show ⟨userHeapBase + 40, 20⟩ ∈ origins.client.live by
        rw [show origins.client.live = _ from live]
        exact List.mem_cons_self ..)
      (toOption_eq_some.mp read) (by rw [Kingsley.maxObjectSize_eq]; omega) heapid
    cases origin.symm.trans origin'
    exact ⟨after, taken, listed⟩
  refine ⟨history, origins, run, ?_, ?_⟩
  · obtain ⟨after, taken, listed⟩ := freed 1
    exact ⟨after, taken, listed.mpr rfl⟩
  · obtain ⟨after, taken, listed⟩ := freed 2
    exact ⟨after, taken, fun home => absurd (listed.mp home) (by omega)⟩

/-- A block from heap 1 that a thread of heap 2 frees is not on a list of heap 1. -/
theorem block_astray : ¬ ∀ memory origins, Reachable (guarded step admits) (start memory) origins →
    ∀ block ∈ origins.client.live, ∀ heapid < numHeaps, ∀ size after carver,
      origins.client.xmemory.getSize block.ptr = .ok size → size ≤ StrictSegHeap.maxObjectSize →
        step origins (.free heapid block.ptr) = some after → origins.origin block.ptr = some carver →
          after.client.xmemory.Listed carver block.ptr := by
  have executed : ((execute (guarded step admits) (start fun _ => 0) [.malloc 1 20]).map
      fun origins => decide (origins.client.live = [⟨userHeapBase + 40, 20⟩] ∧
        origins.origin (userHeapBase + 40) = some 1 ∧
        (origins.client.xmemory.getSize (userHeapBase + 40)).toOption = some 32 ∧
        (step origins (.free 2 (userHeapBase + 40))).map (fun after =>
          decide ((after.client.xmemory.getSize (userHeapBase + 40)).toOption = some 32 ∧
            (after.client.xmemory.heaps 1).bins 2 = 0)) = some true)) = some true := by
    decide +kernel
  obtain ⟨origins, reached, live, origin, read, freed⟩ := exists_reachable executed
  obtain ⟨after, taken, checked⟩ := Option.map_eq_some_iff.mp freed
  obtain ⟨read', empty⟩ := of_decide_eq_true checked
  intro claimed
  obtain ⟨size, sizeClass, nodes, read'', found, chain, listed⟩ :=
    claimed _ origins reached ⟨userHeapBase + 40, 20⟩ (by rw [live]; exact List.mem_cons_self ..) 2 (by decide)
      32 after 1 (toOption_eq_some.mp read) (by rw [Kingsley.maxObjectSize_eq]; omega) taken origin
  cases (toOption_eq_some.mp read').symm.trans read''
  cases (Kingsley.size2Class_class (show 2 ≤ 28 by omega)).symm.trans found
  rw [chain.head_zero.mp empty] at listed
  cases listed

end Origins

end ProcessAsThread.Heap
