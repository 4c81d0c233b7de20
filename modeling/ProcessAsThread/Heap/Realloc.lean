import ProcessAsThread.Heap.Homecoming
import ProcessAsThread.Heap.Placement
import ProcessAsThread.Heap.Remaining

/-! Runs of all calls of the allocator, and what `realloc` does in them: a new
block, a copy as long as the recorded size allows, and the release of the old one. -/

namespace ProcessAsThread.Heap

open Library

/-- A call of any entry point of xmemory, or a write. -/
inductive Operation where
  | call (call : Call)
  | realloc (heapid ptr sz : Nat)
  | memalign (heapid boundary size : Nat)
  deriving DecidableEq, Repr

/-- NULL or a block. -/
def Client.Owned (client : Client) (ptr : Nat) : Prop := ptr = 0 ∨ ∃ block ∈ client.live, block.ptr = ptr

instance (client : Client) (ptr : Nat) : Decidable (client.Owned ptr) :=
  inferInstanceAs (Decidable (ptr = 0 ∨ ∃ block ∈ client.live, block.ptr = ptr))

/-- As `Client.admits`, for all operations. -/
def Client.allows (client : Client) : Operation → Prop
  | .call call => client.admits call
  | .realloc heapid ptr sz => heapid < numHeaps ∧ client.Owned ptr ∧ sz + 4136 ≤ 2 ^ 64
  | .memalign heapid boundary size => heapid < numHeaps ∧ boundary + size + 4136 ≤ 2 ^ 64

instance (client : Client) : (operation : Operation) → Decidable (client.allows operation)
  | .call call => inferInstanceAs (Decidable (client.admits call))
  | .realloc _ _ _ => inferInstanceAs (Decidable (_ ∧ _ ∧ _))
  | .memalign _ _ _ => inferInstanceAs (Decidable (_ ∧ _))

def Client.operate (client : Client) : Operation → Outcome Client
  | .call call => client.perform call
  | .realloc heapid ptr sz => do
    let (newptr, xmemory) ← client.xmemory.realloc heapid ptr sz
    return ⟨xmemory, ⟨newptr, sz⟩ :: client.live.filter (·.ptr ≠ ptr)⟩
  | .memalign heapid boundary size => do
    let (ptr, xmemory) ← client.xmemory.memalign heapid boundary size
    return ⟨xmemory, ⟨ptr, size⟩ :: client.live⟩

def Client.run (client : Client) (operation : Operation) : Option Client :=
  (client.operate operation).toOption

/-- The headers and payloads of blocks, in the sizes recorded for them, are the same in two states. -/
def Undisturbed (blocks : List Block) (xmemory xmemory' : Xmemory) : Prop :=
  ∀ block ∈ blocks, ∀ size, xmemory.getSize block.ptr = .ok size →
    ∀ place, block.ptr - ObjectHeader.size ≤ place → place < block.ptr + size →
      xmemory'.space.memory place = xmemory.space.memory place

/-- The block that `realloc` returns, and what it has done with the old one. -/
structure Reallocated (client : Client) (heapid ptr sz newptr : Nat) (xmemory' : Xmemory) : Prop where
  usable : ∃ size, xmemory'.getSize newptr = .ok size ∧ sz ≤ size ∧
    ∀ block ∈ client.live, block.ptr ≠ newptr ∧
      ∀ place, newptr ≤ place → place < newptr + size → ¬ block.Holds place
  copied : ∃ s, client.xmemory.getSize ptr = .ok s ∧ (ptr = 0 → s = 0) ∧
    ∀ offset < min s sz,
      xmemory'.space.memory (newptr + offset) = client.xmemory.space.memory (ptr + offset)
  released : ∀ s, client.xmemory.getSize ptr = .ok s → ptr ≠ 0 → s ≤ StrictSegHeap.maxObjectSize →
    xmemory'.Listed heapid ptr
  undisturbed : Undisturbed (client.live.filter (·.ptr ≠ ptr)) client.xmemory xmemory'

section

variable {layout : Layout} {xmemory xmemory' : Xmemory} {blocks : List Block}

/-- The recorded size of a live block is that of its object. -/
theorem Laid.recorded (laid : Laid layout xmemory blocks) (member : block ∈ blocks) :
    ∃ size, xmemory.getSize block.ptr = .ok size ∧ layout.size block.ptr = some size ∧ block.size ≤ size ∧
      ObjectLaid layout.own xmemory.space.memory block.ptr size := by
  obtain ⟨size, sized, fits, object⟩ := laid.object member
  exact ⟨size, AdaptAppHeap.getSize_kingsley _ object, sized, fits, object⟩

theorem Serves.undisturbed {heapid ptr : Nat}
    (serves : Serves layout layout' xmemory.space xmemory'.space heapid ptr)
    (laid : Laid layout xmemory blocks) : Undisturbed blocks xmemory xmemory' := by
  intro block member size read place low high
  obtain ⟨full, read', _, _, object⟩ := laid.recorded member
  cases read'.symm.trans read
  simp only [ObjectHeader.size] at low
  have owner := object.owns place (by omega) (by omega)
  exact serves.kept place (by simp [owner]) (by simp [owner]) (by simp [owner])

theorem Laid.undisturbed (laid : Laid layout xmemory blocks) (sized : layout.size ptr = some size)
    (others : ∀ block ∈ blocks, block.ptr ≠ ptr)
    (kept : ∀ place, place < ptr ∨ ptr + size ≤ place →
      xmemory'.space.memory place = xmemory.space.memory place) : Undisturbed blocks xmemory xmemory' := by
  intro block member full read place low high
  obtain ⟨_, read', sized', _, object⟩ := laid.recorded member
  cases read'.symm.trans read
  have apart := laid.apart sized sized' (others block member)
  have object' := laid.objects ptr size sized
  simp only [ObjectHeader.size] at low
  exact kept place (by omega)

private theorem Undisturbed.mono (undisturbed : Undisturbed blocks xmemory xmemory')
    (fewer : blocks'.Sublist blocks) :
    Undisturbed blocks' xmemory xmemory' := fun block member => undisturbed block (fewer.subset member)

theorem Undisturbed.trans {xmemory₁ : Xmemory} (first : Undisturbed blocks xmemory xmemory₁)
    (second : Undisturbed blocks xmemory₁ xmemory')
    (same : ∀ block ∈ blocks, ∀ size, xmemory.getSize block.ptr = .ok size →
      xmemory₁.getSize block.ptr = .ok size) : Undisturbed blocks xmemory xmemory' := by
  intro block member size read place low high
  exact (second block member size (same block member size read) place low high).trans
    (first block member size read place low high)

/-- With a block from `malloc`, `realloc` copies the smaller of the two sizes and frees. -/
theorem Xmemory.realloc_eq (read : xmemory.getSize ptr = .ok s)
    (called : xmemory.malloc heapid sz = .ok (newptr, xmemory')) (nonzero : newptr ≠ 0) :
    xmemory.realloc heapid ptr sz =
      (xmemory'.setMemory (xmemory'.space.memory.copy newptr ptr (min s sz))).free heapid ptr >>=
        fun freed => .ok (newptr, freed) := by
  have copied : (if newptr ≠ 0 ∧ s ≠ 0 then
      xmemory'.setMemory (xmemory'.space.memory.copy newptr ptr (if s < sz then s else sz)) else xmemory') =
        xmemory'.setMemory (xmemory'.space.memory.copy newptr ptr (min s sz)) := by
    by_cases none : s = 0
    · subst none
      rw [if_neg (by simp), Nat.zero_min, Memory.copy_nothing]
      rfl
    · have least : (if s < sz then s else sz) = min s sz := by split <;> omega
      rw [if_pos ⟨nonzero, none⟩, least]
  rw [realloc, read, ok_bind, called, ok_bind]
  simp only [copied]
  rfl

end

section

variable {layout : Layout} {client : Client}

theorem Client.Owned.recorded {ptr : Nat} (owned : client.Owned ptr)
    (laid : Laid layout client.xmemory client.live) :
    ∃ s, client.xmemory.getSize ptr = .ok s ∧ (ptr = 0 → s = 0) ∧
      (ptr ≠ 0 → layout.size ptr = some s ∧ ObjectLaid layout.own client.xmemory.space.memory ptr s) := by
  rcases owned with none | ⟨block, member, rfl⟩
  · subst none
    exact ⟨0, rfl, fun _ => rfl, fun some => (some rfl).elim⟩
  · obtain ⟨s, read, sized, _, object⟩ := laid.recorded member
    refine ⟨s, read, fun none => ?_, fun _ => ⟨sized, object⟩⟩
    have := object.low
    omega

/-- `free` of NULL or a block keeps the layout and writes only the block's first word. -/
theorem Xmemory.free_owned {xmemory : Xmemory} {blocks : List Block} (laid : Laid layout xmemory blocks)
    (owned : ptr = 0 ∨ ∃ block ∈ blocks, block.ptr = ptr) (heapid : Nat) :
    ∃ xmemory' layout', xmemory.free heapid ptr = .ok xmemory' ∧
      Laid layout' xmemory' (blocks.filter (·.ptr ≠ ptr)) ∧ layout'.size = layout.size ∧
      xmemory'.space.xheap = xmemory.space.xheap ∧
      (∀ place, (ptr ≠ 0 → place < ptr ∨ ptr + 8 ≤ place) →
        xmemory'.space.memory place = xmemory.space.memory place) ∧
      (Eight layout xmemory → Eight layout' xmemory') := by
  rcases owned with none | ⟨block, member, rfl⟩
  · subst none
    exact ⟨xmemory, layout, rfl, laid.forget List.filter_sublist, rfl, rfl, fun _ _ => rfl, id⟩
  · obtain ⟨xmemory', layout', called, releases, laid'⟩ := free_laid laid member heapid
    have nonzero : block.ptr ≠ 0 := by
      obtain ⟨_, _, _, object⟩ := laid.object member
      have := object.low
      omega
    exact ⟨xmemory', layout', called, laid', releases.sizes, releases.xheap,
      fun place away => releases.kept place (away nonzero), fun eight => free_eight eight laid member releases⟩

theorem Laid.getSize {xmemory : Xmemory} {blocks : List Block} (laid : Laid layout xmemory blocks)
    (member : block ∈ blocks) (sized : layout.size block.ptr = some size) :
    xmemory.getSize block.ptr = .ok size := by
  obtain ⟨full, read, sized', _, _⟩ := laid.recorded member
  cases sized'.symm.trans sized
  exact read

private theorem Laid.getSize_kept {xmemory xmemory' : Xmemory} {blocks blocks' : List Block}
    (laid : Laid layout xmemory blocks) (laid' : Laid layout' xmemory' blocks') (member : block ∈ blocks)
    (member' : block ∈ blocks') (same : layout'.size block.ptr = layout.size block.ptr)
    (read : xmemory.getSize block.ptr = .ok size) : xmemory'.getSize block.ptr = .ok size := by
  obtain ⟨full, read', sized, _, _⟩ := laid.recorded member
  cases read'.symm.trans read
  exact laid'.getSize member' (same.trans sized)

/-- The block of `full` bytes that `realloc` gets from `malloc`. -/
structure Obtained (client : Client) (layout layout₁ : Layout) (heapid sz newptr full : Nat)
    (xmemory₁ : Xmemory) : Prop where
  serves : Serves layout layout₁ client.xmemory.space xmemory₁.space heapid newptr
  laid : Laid layout₁ xmemory₁ (⟨newptr, sz⟩ :: client.live)
  sized : layout₁.size newptr = some full
  fits : sz ≤ full

abbrev Xmemory.copied (xmemory : Xmemory) (newptr ptr length : Nat) : Xmemory :=
  xmemory.setMemory (xmemory.space.memory.copy newptr ptr length)

section

variable {layout₁ : Layout} {heapid newptr full : Nat} {xmemory₁ : Xmemory}

theorem Obtained.object (obtained : Obtained client layout layout₁ heapid sz newptr full xmemory₁) :
    ObjectLaid layout₁.own xmemory₁.space.memory newptr full := obtained.laid.objects _ _ obtained.sized

theorem Obtained.fresh (obtained : Obtained client layout layout₁ heapid sz newptr full xmemory₁)
    (member : block ∈ client.live) : block.ptr ≠ newptr := fun same =>
  (List.nodup_cons.mp obtained.laid.distinct).1 (List.mem_map.mpr ⟨block, member, same⟩)

theorem Obtained.sizes (obtained : Obtained client layout layout₁ heapid sz newptr full xmemory₁)
    (member : block ∈ client.live) : layout₁.size block.ptr = layout.size block.ptr :=
  obtained.serves.sizes _ (obtained.fresh member)

theorem Obtained.different (obtained : Obtained client layout layout₁ heapid sz newptr full xmemory₁)
    (owned : client.Owned ptr) : ptr ≠ newptr := by
  rcases owned with none | ⟨block, member, rfl⟩
  · have := obtained.object.low
    omega
  · exact obtained.fresh member

theorem Obtained.copy_outside (obtained : Obtained client layout layout₁ heapid sz newptr full xmemory₁)
    (ptr s : Nat) {place : Nat} (away : place < newptr ∨ newptr + full ≤ place) :
    xmemory₁.space.memory.copy newptr ptr (min s sz) place = xmemory₁.space.memory place := by
  have := obtained.fits
  exact Memory.copy_outside (by omega)

theorem Obtained.copied (obtained : Obtained client layout layout₁ heapid sz newptr full xmemory₁)
    (ptr s : Nat) : Laid layout₁ (xmemory₁.copied newptr ptr (min s sz)) (⟨newptr, sz⟩ :: client.live) :=
  obtained.laid.write obtained.sized (obtained.laid.live _ (List.mem_cons_self ..)).1
    fun _ => obtained.copy_outside ptr s

theorem Obtained.undisturbed (obtained : Obtained client layout layout₁ heapid sz newptr full xmemory₁)
    (laid : Laid layout client.xmemory client.live) (ptr s : Nat) :
    Undisturbed client.live client.xmemory (xmemory₁.copied newptr ptr (min s sz)) := by
  have live₁ : Laid layout₁ xmemory₁ client.live := obtained.laid.forget (List.sublist_cons_self ..)
  have first := obtained.serves.undisturbed laid
  have second : Undisturbed client.live xmemory₁ (xmemory₁.copied newptr ptr (min s sz)) :=
    live₁.undisturbed obtained.sized (fun _ => obtained.fresh) fun _ => obtained.copy_outside ptr s
  exact first.trans second fun block member _ =>
    laid.getSize_kept live₁ member member (obtained.sizes member)

theorem Obtained.eight (obtained : Obtained client layout layout₁ heapid sz newptr full xmemory₁)
    (eight : Eight layout₁ xmemory₁) (ptr s : Nat) :
    Eight layout₁ (xmemory₁.copied newptr ptr (min s sz)) := by
  have object := obtained.object
  refine eight.memory obtained.laid fun place heapid owner => obtained.copy_outside ptr s ?_
  by_contra inside
  rw [object.owns place (by omega) (by omega)] at owner
  cases owner

end

/-- What `realloc` has done once `free` has returned. -/
theorem Obtained.reallocated (obtained : Obtained client layout layout₁ heapid sz newptr full xmemory₁)
    (laid : Laid layout client.xmemory client.live) (owned : client.Owned ptr)
    (read : client.xmemory.getSize ptr = .ok s) (empty : ptr = 0 → s = 0)
    (old : ptr ≠ 0 → layout.size ptr = some s ∧ ObjectLaid layout.own client.xmemory.space.memory ptr s)
    (freed : (xmemory₁.copied newptr ptr (min s sz)).free heapid ptr = .ok xmemory')
    (laid' : Laid layout' xmemory' (⟨newptr, sz⟩ :: client.live.filter (·.ptr ≠ ptr)))
    (sizes' : layout'.size = layout₁.size)
    (kept : ∀ place, (ptr ≠ 0 → place < ptr ∨ ptr + 8 ≤ place) →
      xmemory'.space.memory place = (xmemory₁.copied newptr ptr (min s sz)).space.memory place) :
    Reallocated client heapid ptr sz newptr xmemory' := by
  have sized := obtained.sized
  have live₁ : Laid layout₁ xmemory₁ client.live := obtained.laid.forget (List.sublist_cons_self ..)
  have live₂ : Laid layout₁ (xmemory₁.copied newptr ptr (min s sz)) client.live :=
    (obtained.copied ptr s).forget (List.sublist_cons_self ..)
  have different := obtained.different owned
  have old₁ : ptr ≠ 0 → layout₁.size ptr = some s := by
    intro nonzero
    rw [obtained.serves.sizes ptr different]
    exact (old nonzero).1
  refine ⟨⟨full, ?_, obtained.fits, fun block member => ⟨obtained.fresh member, ?_⟩⟩, ⟨s, read, empty, ?_⟩, ?_, ?_⟩
  · refine laid'.getSize (List.mem_cons_self ..) ?_
    rw [sizes', sized]
  · intro place low high holds
    obtain ⟨size, _, sized', fits, _⟩ := live₁.recorded member
    have := obtained.laid.apart sized sized' (obtained.fresh member)
    simp only [Block.Holds] at holds
    omega
  · intro offset less
    have nonzero : ptr ≠ 0 := by
      intro none
      have := empty none
      omega
    have fits := obtained.fits
    have apart := obtained.laid.apart sized (old₁ nonzero) different
    have owner := (old nonzero).2.owns (ptr + offset) (by omega) (by omega)
    rw [kept _ fun _ => by omega]
    simp only [Xmemory.setMemory, Memory.copy_inside less]
    exact obtained.serves.kept _ (by simp [owner]) (by simp [owner]) (by simp [owner])
  · intro s' read' nonzero small
    cases read.symm.trans read'
    rcases owned with none | ⟨block, member, rfl⟩
    · exact (nonzero none).elim
    · have read₂ := live₂.getSize member (old₁ nonzero)
      obtain ⟨_, freed', listed⟩ := Xmemory.listed_free live₂ member read₂ small heapid
      cases freed'.symm.trans freed
      exact (listed heapid).mpr rfl
  · have third : Undisturbed (client.live.filter (·.ptr ≠ ptr))
        (xmemory₁.copied newptr ptr (min s sz)) xmemory' := by
      by_cases none : ptr = 0
      · exact fun _ _ _ _ place _ _ => kept place fun some => (some none).elim
      · refine (live₂.forget List.filter_sublist).undisturbed (old₁ none) ?_ fun place away => kept place ?_
        · exact fun block member => by simpa using (List.mem_filter.mp member).2
        · have := (old none).2.positive
          omega
    refine ((obtained.undisturbed laid ptr s).mono List.filter_sublist).trans third fun block member _ => ?_
    have member := (List.mem_filter.mp member).1
    exact laid.getSize_kept live₂ member member (obtained.sizes member)

theorem Client.Owned.realloc_exits {ptr heapid : Nat} (owned : client.Owned ptr)
    (laid : Laid layout client.xmemory client.live) (exits : client.xmemory.malloc heapid sz = .error .exit) :
    client.xmemory.realloc heapid ptr sz = .error .exit := by
  obtain ⟨s, read, _⟩ := owned.recorded laid
  rw [Xmemory.realloc, read, ok_bind, exits]
  rfl

/-- A call of `realloc` exits where its `malloc` does, or does all it is to do. -/
theorem realloc_laid (laid : Laid layout client.xmemory client.live) (owned : client.Owned ptr)
    (bound : sz + 4136 ≤ 2 ^ 64) (heapid : Nat) :
    client.xmemory.malloc heapid sz = .error .exit ∨ ∃ newptr xmemory' layout',
      client.xmemory.realloc heapid ptr sz = .ok (newptr, xmemory') ∧
      Reallocated client heapid ptr sz newptr xmemory' ∧
      Laid layout' xmemory' (⟨newptr, sz⟩ :: client.live.filter (·.ptr ≠ ptr)) ∧
      (xmemory'.space.xheap.heapStart = client.xmemory.space.xheap.heapStart ∧
        xmemory'.space.xheap.heapEnd = client.xmemory.space.xheap.heapEnd) ∧
      (Eight layout client.xmemory → Eight layout' xmemory') := by
  obtain ⟨s, read, empty, old⟩ := owned.recorded laid
  rcases Xmemory.malloc_laid laid heapid bound (Nat.le_refl sz) with
    exits | ⟨newptr, xmemory₁, layout₁, called, serves, laid₁⟩
  · exact .inl exits
  obtain ⟨full, sized, fits, _⟩ := laid₁.object (List.mem_cons_self ..)
  have obtained : Obtained client layout layout₁ heapid sz newptr full xmemory₁ := ⟨serves, laid₁, sized, fits⟩
  have different := obtained.different owned
  have nonzero : newptr ≠ 0 := by
    have := obtained.object.low
    omega
  have owned₂ : ptr = 0 ∨ ∃ block ∈ (⟨newptr, sz⟩ : Block) :: client.live, block.ptr = ptr :=
    owned.imp id fun ⟨block, member, same⟩ => ⟨block, List.mem_cons_of_mem _ member, same⟩
  obtain ⟨xmemory', layout', freed, laid', sizes', region, kept, eight'⟩ :=
    Xmemory.free_owned (obtained.copied ptr s) owned₂ heapid
  rw [List.filter_cons_of_pos (by simpa using different.symm)] at laid'
  refine .inr ⟨newptr, xmemory', layout', ?_, ?_, laid', ?_, fun eight => eight' ?_⟩
  · rw [Xmemory.realloc_eq read called nonzero]
    exact congrArg (· >>= fun freed => Except.ok (newptr, freed)) freed
  · exact obtained.reallocated laid owned read empty old freed laid' sizes' kept
  · rw [region]
    exact ⟨serves.heapStart, serves.heapEnd⟩
  · exact obtained.eight (Xmemory.malloc_eight laid eight bound called serves laid₁).2 ptr s

end

namespace Client

/-- What every operation keeps: there is a layout, with its objects where they belong. -/
structure Settled (client : Client) : Prop where
  region : client.xmemory.space.xheap.heapStart = userHeapBase ∧
    client.xmemory.space.xheap.heapEnd = userHeapBase + userHeapSize
  laid : ∃ layout, Laid layout client.xmemory client.live ∧ Eight layout client.xmemory

variable {client after : Client} {operation : Operation}

theorem Settled.sound (settled : client.Settled) : client.Sound := by
  obtain ⟨layout, laid, _⟩ := settled.laid
  exact ⟨settled.region.1, settled.region.2, layout, laid⟩

private theorem start_settled (memory : Memory) : (start memory).Settled :=
  ⟨⟨by rw [start_region], by rw [start_region]⟩, .empty, start_laid memory, Xmemory.create_eight memory⟩

theorem Settled.malloc (settled : client.Settled) (bound : sz + 4136 ≤ 2 ^ 64) (enough : size ≤ sz)
    (called : client.xmemory.malloc heapid sz = .ok (ptr, xmemory')) :
    ptr % 16 = 8 ∧ Settled ⟨xmemory', ⟨ptr, size⟩ :: client.live⟩ := by
  obtain ⟨layout, laid, eight⟩ := settled.laid
  rcases Xmemory.malloc_laid laid heapid bound enough with exits | ⟨_, _, layout', called', serves, laid'⟩
  · cases exits.symm.trans called
  · cases called'.symm.trans called
    obtain ⟨residue, eight'⟩ := Xmemory.malloc_eight laid eight bound called serves laid'
    exact ⟨residue, ⟨serves.heapStart.trans settled.region.1, serves.heapEnd.trans settled.region.2⟩, layout',
      laid', eight'⟩

theorem memalign_malloc {xmemory xmemory' : Xmemory}
    (called : xmemory.memalign heapid boundary size = .ok (ptr, xmemory')) :
    8 ≤ boundary ∧ boundary % 8 = 0 ∧
      xmemory.malloc heapid (sizeT (boundary + size)) = .ok (ptr, xmemory') := by
  obtain ⟨_, checked, served⟩ := bind_eq_ok.mp called
  simp only [check] at checked
  split at checked
  · exact ⟨by omega, by omega, served⟩
  · cases checked

theorem Settled.operate (settled : client.Settled) (allowed : client.allows operation)
    (succeeds : client.operate operation = .ok after) : after.Settled := by
  cases operation with
  | call call =>
    obtain ⟨layout, laid, eight⟩ := settled.laid
    rcases perform_cases laid allowed with exits | ⟨layout', other, succeeds', laid', performs⟩
    · cases exits.symm.trans succeeds
    · cases succeeds'.symm.trans succeeds
      refine ⟨⟨performs.region.1.trans settled.region.1, performs.region.2.trans settled.region.2⟩, layout',
        laid', ?_⟩
      cases performs with
      | malloc called serves => exact (Xmemory.malloc_eight laid eight allowed.2 called serves laid').2
      | free member called releases => exact Xmemory.free_eight eight laid member releases
      | write member low high =>
        refine eight.memory laid fun place heapid owner => Function.update_of_ne ?_ ..
        rintro rfl
        obtain ⟨size, sized, fits, object⟩ := laid.object member
        rw [object.owns _ (by omega) (by omega)] at owner
        cases owner
  | realloc heapid ptr sz =>
    obtain ⟨layout, laid, eight⟩ := settled.laid
    obtain ⟨⟨newptr, xmemory⟩, called, same⟩ := bind_eq_ok.mp succeeds
    cases same
    rcases realloc_laid laid allowed.2.1 allowed.2.2 heapid with
      exits | ⟨_, _, layout', called', _, laid', region, eight'⟩
    · cases (allowed.2.1.realloc_exits laid exits).symm.trans called
    · cases called'.symm.trans called
      exact ⟨⟨region.1.trans settled.region.1, region.2.trans settled.region.2⟩, layout', laid', eight' eight⟩
  | memalign heapid boundary size =>
    obtain ⟨⟨ptr, xmemory⟩, called, same⟩ := bind_eq_ok.mp succeeds
    cases same
    have served := (memalign_malloc called).2.2
    have bound := allowed.2
    rw [sizeT_small (by omega)] at served
    exact (settled.malloc bound (Nat.le_add_left ..) served).2

theorem settled_of_reachable {memory : Memory} (reached : Reachable (guarded run allows) (start memory) client) :
    client.Settled := by
  refine reached.invariant (start_settled memory) ?_
  intro client operation after settled taken
  obtain ⟨allowed, taken⟩ := guarded_eq_some.mp taken
  exact settled.operate allowed (toOption_eq_some.mp taken)

/-- In every run, `realloc` of NULL or a live block moves the contents to a new block,
releases the old one and disturbs no other, if memory remains; else it exits. -/
theorem realloc_moves {memory : Memory} (reached : Reachable (guarded run allows) (start memory) client)
    (owned : client.Owned ptr) (bound : sz ≤ userHeapSize) (heapid : Nat) :
    (client.xmemory.Remains heapid sz → ∃ newptr xmemory',
      client.xmemory.realloc heapid ptr sz = .ok (newptr, xmemory') ∧
      Reallocated client heapid ptr sz newptr xmemory' ∧
      Safe ⟨xmemory', ⟨newptr, sz⟩ :: client.live.filter (·.ptr ≠ ptr)⟩) ∧
    (¬ client.xmemory.Remains heapid sz → client.xmemory.realloc heapid ptr sz = .error .exit) := by
  have settled := settled_of_reachable reached
  obtain ⟨layout, laid, _⟩ := settled.laid
  simp only [userHeapSize] at bound
  have small : sz + 4136 ≤ 2 ^ 64 := by omega
  constructor
  · intro remains
    rcases realloc_laid laid owned small heapid with
      exits | ⟨newptr, xmemory', layout', called, moved, laid', region, _⟩
    · exact ((Xmemory.malloc_exit_iff small).mp exits remains).elim
    · exact ⟨newptr, xmemory', called, moved,
        Sound.safe ⟨region.1.trans settled.region.1, region.2.trans settled.region.2, layout', laid'⟩⟩
  · intro exhausted
    exact owned.realloc_exits laid ((Xmemory.malloc_exit_iff small).mpr exhausted)

/-- A byte that is kept while its block grows, after a run that has reallocated before,
and a request for the whole region, which is too much. -/
theorem realloc_moves_byte : ∃ client,
    Reachable (guarded run allows) (start fun _ => 0) client ∧
      client.live = [⟨userHeapBase + 120, 40⟩, ⟨userHeapBase + 88, 10⟩] ∧
      (∃ newptr xmemory', client.xmemory.realloc 1 (userHeapBase + 120) 100 = .ok (newptr, xmemory') ∧
        xmemory'.space.memory newptr = 7) ∧
      client.xmemory.realloc 1 (userHeapBase + 120) userHeapSize = .error .exit := by
  have executed : ((execute (guarded run allows) (start fun _ => 0)
      [.call (.malloc 1 20), .call (.malloc 1 10), .call (.write (userHeapBase + 40) 7),
        .realloc 1 (userHeapBase + 40) 40]).map fun client => decide
        (client.live = [⟨userHeapBase + 120, 40⟩, ⟨userHeapBase + 88, 10⟩] ∧
          client.xmemory.space.memory (userHeapBase + 120) = 7 ∧
          (client.xmemory.getSize (userHeapBase + 120)).toOption = some 64 ∧
          client.xmemory.Remains 1 100 ∧ ¬ client.xmemory.Remains 1 userHeapSize)) = some true := by
    decide +kernel
  obtain ⟨client, reached, live, byte, read, remains, exhausted⟩ := exists_reachable executed
  have owned : client.Owned (userHeapBase + 120) :=
    .inr ⟨⟨userHeapBase + 120, 40⟩, by rw [live]; exact List.mem_cons_self .., rfl⟩
  obtain ⟨newptr, xmemory', called, moved, _⟩ :=
    (realloc_moves reached owned (show 100 ≤ userHeapSize by decide) 1).1 remains
  refine ⟨client, reached, live, ⟨newptr, xmemory', called, ?_⟩,
    (realloc_moves reached owned (Nat.le_refl userHeapSize) 1).2 exhausted⟩
  obtain ⟨s, read', _, copied⟩ := moved.copied
  cases (toOption_eq_some.mp read).symm.trans read'
  rw [← byte]
  exact copied 0 (by omega)

end Client

end ProcessAsThread.Heap
