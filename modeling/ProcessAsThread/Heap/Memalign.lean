import ProcessAsThread.Heap.Realloc

/-! `memalign` asks for as many bytes more as the boundary has and returns what
`malloc` returns, so that its pointer is where the next object happens to be. -/

namespace ProcessAsThread.Heap

open Library

namespace Client

/-- In every state that follows and in which the block is live, `free` releases it
under any heap and disturbs no other block. -/
def Releasable (client : Client) (block : Block) : Prop :=
  ∀ later, Reachable (guarded run allows) client later → block ∈ later.live → ∀ heapid, ∃ freed,
    later.xmemory.free heapid block.ptr = .ok freed ∧
      Undisturbed (later.live.filter (·.ptr ≠ block.ptr)) later.xmemory freed ∧
      ∀ size, later.xmemory.getSize block.ptr = .ok size → size ≤ StrictSegHeap.maxObjectSize →
        freed.Listed heapid block.ptr

/-- What `memalign` is to return. -/
structure Memaligned (client : Client) (boundary size ptr : Nat) (xmemory' : Xmemory) : Prop where
  multiple : ptr % boundary = 0
  inside : userHeapBase ≤ ptr ∧ ptr + size ≤ userHeapBase + userHeapSize
  usable : ∃ full, xmemory'.getSize ptr = .ok full ∧ size ≤ full
  apart : ∀ block ∈ client.live, ∀ place, ptr ≤ place → place < ptr + size → ¬ block.Holds place
  releasable : Releasable ⟨xmemory', ⟨ptr, size⟩ :: client.live⟩ ⟨ptr, size⟩

variable {client : Client}

theorem Settled.releasable (settled : client.Settled) (block : Block) : client.Releasable block := by
  intro later reached member heapid
  have settled' : later.Settled := by
    refine reached.invariant settled ?_
    intro client operation after settled taken
    obtain ⟨allowed, taken⟩ := guarded_eq_some.mp taken
    exact settled.operate allowed (toOption_eq_some.mp taken)
  obtain ⟨layout, laid, _⟩ := settled'.laid
  obtain ⟨size, sized, _, object⟩ := laid.object member
  obtain ⟨freed, layout', called, releases, _⟩ := Xmemory.free_laid laid member heapid
  refine ⟨freed, called, ?_, fun full read small => ?_⟩
  · have positive := object.positive
    refine (laid.forget List.filter_sublist).undisturbed sized (fun other present => ?_)
      fun place away => releases.kept place (by omega)
    simpa using (List.mem_filter.mp present).2
  · obtain ⟨_, called', listed⟩ := Xmemory.listed_free laid member read small heapid
    cases called'.symm.trans called
    exact (listed heapid).mpr rfl

/-- Whatever `malloc` hands out for the sum is a block as it is to be, but for the boundary. -/
theorem Settled.memaligned_iff (settled : client.Settled) {boundary : Nat}
    (bound : boundary + size + 4136 ≤ 2 ^ 64)
    (called : client.xmemory.malloc heapid (boundary + size) = .ok (ptr, xmemory')) :
    client.Memaligned boundary size ptr xmemory' ↔ ptr % boundary = 0 := by
  have settled' := (settled.malloc bound (Nat.le_add_left size boundary) called).2
  have safe := settled'.sound.safe
  have newest : (⟨ptr, size⟩ : Block) ∈ (⟨ptr, size⟩ : Block) :: client.live := List.mem_cons_self ..
  refine ⟨fun aligned => aligned.multiple, fun multiple => ⟨multiple, ?_, ?_, ?_, settled'.releasable _⟩⟩
  · have inside := safe.inside _ newest
    rw [safe.region.1, safe.region.2] at inside
    exact inside
  · exact safe.sized _ newest 0
  · intro block member place low high
    exact ((List.pairwise_cons.mp safe.disjoint).1 block member).2 place ⟨low, high⟩

/-- In every run, a pointer of `memalign` is as it is to be exactly when no sum wraps
around and the heap's next object for the sum is at a multiple of the boundary:
always for the boundary 8, never for a multiple of 16. -/
theorem memalign_iff {memory : Memory} (reached : Reachable (guarded run allows) (start memory) client)
    (called : client.xmemory.memalign heapid boundary size = .ok (ptr, xmemory')) :
    (client.Memaligned boundary size ptr xmemory' ↔ boundary + size + 4136 ≤ 2 ^ 64 ∧
      (client.xmemory.heaps heapid).nextObject client.xmemory.space (boundary + size) % boundary = 0) ∧
    (boundary = 8 → size + 4144 ≤ 2 ^ 64 → client.Memaligned boundary size ptr xmemory') ∧
    (boundary % 16 = 0 → ¬ client.Memaligned boundary size ptr xmemory') := by
  have settled := settled_of_reachable reached
  obtain ⟨layout, laid, eight⟩ := settled.laid
  obtain ⟨low, words, served⟩ := memalign_malloc called
  have whole : client.Memaligned boundary size ptr xmemory' → boundary + size + 4136 ≤ 2 ^ 64 := by
    intro aligned
    have inside := aligned.inside
    simp only [userHeapBase, userHeapSize] at inside
    have least : boundary ≤ ptr := Nat.le_of_dvd (by omega) (Nat.dvd_of_mod_eq_zero aligned.multiple)
    omega
  have exactly : boundary + size + 4136 ≤ 2 ^ 64 → ptr % 16 = 8 ∧
      ptr = (client.xmemory.heaps heapid).nextObject client.xmemory.space (boundary + size) ∧
      (client.Memaligned boundary size ptr xmemory' ↔ ptr % boundary = 0) := by
    intro bound
    rw [sizeT_small (by omega)] at served
    have residue := (settled.malloc bound (Nat.le_add_left size boundary) served).1
    exact ⟨residue, (Xmemory.malloc_ptr eight.paged served).1 (by omega), settled.memaligned_iff bound served⟩
  refine ⟨⟨fun aligned => ?_, ?_⟩, ?_, ?_⟩
  · obtain ⟨_, same, iff⟩ := exactly (whole aligned)
    rw [← same]
    exact ⟨whole aligned, iff.mp aligned⟩
  · rintro ⟨bound, multiple⟩
    obtain ⟨_, same, iff⟩ := exactly bound
    rw [← same] at multiple
    exact iff.mpr multiple
  · intro eight bound
    obtain ⟨residue, _, iff⟩ := exactly (by omega)
    rw [iff, eight]
    omega
  · intro sixteen aligned
    obtain ⟨residue, _, iff⟩ := exactly (whole aligned)
    have multiple := iff.mp aligned
    have := Nat.mod_mod_of_dvd ptr (Nat.dvd_of_mod_eq_zero sixteen)
    omega

/-- The first object suits the boundary 8, but not 16. -/
theorem memalign_iff_first : ∃ client,
    Reachable (guarded run allows) (start fun _ => 0) client ∧
      (∃ ptr xmemory', client.xmemory.memalign 0 8 100 = .ok (ptr, xmemory') ∧
        client.Memaligned 8 100 ptr xmemory') ∧
      ∃ ptr xmemory', client.xmemory.memalign 0 16 100 = .ok (ptr, xmemory') ∧
        ¬ client.Memaligned 16 100 ptr xmemory' := by
  have reached := Reachable.refl (guarded run allows) (start fun _ => 0)
  have served : ((start fun _ => 0).xmemory.memalign 0 8 100).isOk = true ∧
      ((start fun _ => 0).xmemory.memalign 0 16 100).isOk = true := by
    decide +kernel
  refine ⟨start fun _ => 0, reached, ?_, ?_⟩
  · cases called : (start fun _ => 0).xmemory.memalign 0 8 100 with
    | error halt =>
      rw [called] at served
      cases served.1
    | ok result => exact ⟨result.1, result.2, rfl, (memalign_iff reached called).2.1 rfl (by omega)⟩
  · cases called : (start fun _ => 0).xmemory.memalign 0 16 100 with
    | error halt =>
      rw [called] at served
      cases served.2
    | ok result => exact ⟨result.1, result.2, rfl, (memalign_iff reached called).2.2 rfl⟩

/-- The first call of `memalign` for the boundary 16 returns an address that is no multiple of it. -/
theorem memalign_misaligned : ¬ ∀ memory client, Reachable (guarded run allows) (start memory) client →
    ∀ heapid < numHeaps, ∀ boundary size ptr xmemory',
      client.xmemory.memalign heapid boundary size = .ok (ptr, xmemory') →
        client.Memaligned boundary size ptr xmemory' := by
  have served : ((start fun _ => 0).xmemory.memalign 0 16 1).toOption.map Prod.fst =
      some (userHeapBase + 40) := by
    decide +kernel
  obtain ⟨⟨ptr, xmemory'⟩, called, same⟩ := Option.map_eq_some_iff.mp served
  intro claimed
  have multiple := (claimed _ _ (.refl ..) 0 (by decide) 16 1 ptr xmemory' (toOption_eq_some.mp called)).multiple
  simp only at same
  rw [same] at multiple
  exact absurd multiple (by decide)

end Client

end ProcessAsThread.Heap
