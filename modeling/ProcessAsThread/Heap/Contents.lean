import ProcessAsThread.Heap.Ledger
import ProcessAsThread.Heap.Memalign
import ProcessAsThread.Library.BlockStore

/-! What clients read back from their blocks: what they wrote last, however many
blocks are allocated, freed, moved and written in between. -/

namespace ProcessAsThread.Heap

open Library

abbrev Contents := BlockStore Nat UInt8

abbrev Change := BlockStore.Event Nat UInt8

/-- The blocks of a store are those that are live. -/
def Tracks (live : List Block) (contents : Contents) : Prop :=
  ∀ ptr size, contents.size ptr = some size ↔ ⟨ptr, size⟩ ∈ live

/-- A byte of memory, by the block it is in. -/
def byteOf (memory : Memory) (ptr offset : Nat) : UInt8 := memory (ptr + offset)

/-- A store holds of a memory in which the live blocks have the bytes that it knows. -/
structure Holding (memory : Memory) (live : List Block) (contents : Contents) : Prop where
  tracks : Tracks live contents
  known : contents.Known
  shows_ : contents.Shows (byteOf memory)

def blockAt (live : List Block) (address : Nat) : Option Block :=
  live.find? fun block => block.ptr ≤ address ∧ address < block.ptr + block.size

/-- A write changes the block it is in. -/
def putAt (live : List Block) (address : Nat) (value : UInt8) : List Change :=
  (blockAt live address).toList.map fun block => .put block.ptr (address - block.ptr) value

section

variable {live : List Block} {contents : Contents} {memory memory' : Memory} {ptr size : Nat}

theorem Tracks.inside (tracks : Tracks live contents) {offset : Nat} (inside : contents.Inside ptr offset) :
    ∃ block ∈ live, block.ptr = ptr ∧ offset < block.size := by
  obtain ⟨size, sized, less⟩ := inside
  exact ⟨⟨ptr, size⟩, (tracks ptr size).mp sized, rfl, less⟩

theorem Tracks.free (tracks : Tracks live contents) (fresh : ∀ block ∈ live, block.ptr ≠ ptr) :
    contents.size ptr = none := by
  cases sized : contents.size ptr with
  | none => rfl
  | some size => exact (fresh _ ((tracks ptr size).mp sized) rfl).elim

theorem Tracks.add {sizes : Nat → Option Nat} (tracks : ∀ ptr size, sizes ptr = some size ↔ ⟨ptr, size⟩ ∈ live)
    (fresh : ∀ block ∈ live, block.ptr ≠ ptr) (other full : Nat) :
    Function.update sizes ptr (some size) other = some full ↔
      (⟨other, full⟩ : Block) ∈ ⟨ptr, size⟩ :: live := by
  by_cases here : other = ptr
  · subst here
    have absent : (⟨other, full⟩ : Block) ∉ live := fun member => fresh _ member rfl
    simp [absent, eq_comm]
  · rw [Function.update_of_ne here, tracks, List.mem_cons]
    simp [here]

theorem Tracks.remove {sizes : Nat → Option Nat}
    (tracks : ∀ ptr size, sizes ptr = some size ↔ ⟨ptr, size⟩ ∈ live) (other full : Nat) :
    Function.update sizes ptr none other = some full ↔ (⟨other, full⟩ : Block) ∈ live.filter (·.ptr ≠ ptr) := by
  by_cases here : other = ptr
  · subst here
    simp
  · rw [Function.update_of_ne here, tracks, List.mem_filter]
    simp [here]

theorem Holding.create (holding : Holding memory live contents) (fresh : ∀ block ∈ live, block.ptr ≠ ptr)
    {content : Option UInt8}
    (filled : ∀ value, content = some value → ∀ offset < size, memory' (ptr + offset) = value)
    (kept : ∀ block ∈ live, ∀ offset < block.size, memory' (block.ptr + offset) = memory (block.ptr + offset)) :
    ∃ contents', contents.step (.create ptr size content) = some contents' ∧
      Holding memory' (⟨ptr, size⟩ :: live) contents' := by
  have taken := BlockStore.step_eq_some.mpr
    ⟨show contents.Legal (.create ptr size content) from holding.tracks.free fresh, rfl⟩
  refine ⟨_, taken, Tracks.add holding.tracks fresh, holding.known.step taken,
    holding.shows_.step holding.known taken ⟨filled, ?_⟩⟩
  intro other offset _ inside
  obtain ⟨block, member, rfl, less⟩ := holding.tracks.inside inside
  exact kept block member offset less

theorem Holding.release (holding : Holding memory live contents) (member : block ∈ live)
    (kept : ∀ other ∈ live, other.ptr ≠ block.ptr → ∀ offset < other.size,
      memory' (other.ptr + offset) = memory (other.ptr + offset)) :
    ∃ contents', contents.step (.release block.ptr) = some contents' ∧
      Holding memory' (live.filter (·.ptr ≠ block.ptr)) contents' := by
  have sized := (holding.tracks block.ptr block.size).mpr member
  have legal : contents.Legal (.release block.ptr) := by
    show (contents.size block.ptr).isSome = true
    rw [sized]
    rfl
  have taken := BlockStore.step_eq_some.mpr ⟨legal, rfl⟩
  refine ⟨_, taken, Tracks.remove holding.tracks, holding.known.step taken,
    holding.shows_.step holding.known taken ?_⟩
  intro other offset different inside
  obtain ⟨block', member', rfl, less⟩ := holding.tracks.inside inside
  exact kept block' member' different offset less

/-- A block is released and its bytes are those of a new one, as far as they fit. -/
theorem Holding.move (holding : Holding memory live contents) (member : block ∈ live)
    (fresh : ∀ other ∈ live, other.ptr ≠ ptr)
    (moved : ∀ offset < min block.size size, memory' (ptr + offset) = memory (block.ptr + offset))
    (distinct : (live.map Block.ptr).Nodup)
    (kept : ∀ other ∈ live, other.ptr ≠ block.ptr → ∀ offset < other.size,
      memory' (other.ptr + offset) = memory (other.ptr + offset)) :
    ∃ contents', contents.step (.move block.ptr ptr size) = some contents' ∧
      Holding memory' (⟨ptr, size⟩ :: live.filter (·.ptr ≠ block.ptr)) contents' := by
  have sized := (holding.tracks block.ptr block.size).mpr member
  have legal : contents.Legal (.move block.ptr ptr size) := by
    refine ⟨?_, holding.tracks.free fresh⟩
    rw [sized]
    rfl
  have taken := BlockStore.step_eq_some.mpr ⟨legal, rfl⟩
  refine ⟨_, taken, Tracks.add (Tracks.remove holding.tracks) ?_, holding.known.step taken,
    holding.shows_.step holding.known taken ⟨?_, ?_⟩⟩
  · exact fun other present => fresh other (List.mem_filter.mp present).1
  · intro offset less inside
    obtain ⟨block', member', same, less'⟩ := holding.tracks.inside inside
    cases List.inj_on_of_nodup_map distinct member' member same
    exact moved offset (by omega)
  · intro other offset different inside
    obtain ⟨block', member', rfl, less⟩ := holding.tracks.inside inside
    exact kept block' member' different offset less

theorem Holding.put (holding : Holding memory live contents) (member : block ∈ live)
    (low : block.ptr ≤ address) (high : address < block.ptr + block.size)
    (apart : ∀ other ∈ live, other.ptr ≠ block.ptr → ¬ (other.ptr ≤ address ∧ address < other.ptr + other.size))
    (distinct : (live.map Block.ptr).Nodup) (value : UInt8) :
    ∃ contents', execute BlockStore.step contents (putAt live address value) = some contents' ∧
      Holding (Function.update memory address value) live contents' := by
  have found : blockAt live address = some block := by
    cases first : blockAt live address with
    | none => exact absurd (List.find?_eq_none.mp first block member) (by simp [low, high])
    | some other =>
      have within_ : other.ptr ≤ address ∧ address < other.ptr + other.size := by
        simpa using List.find?_some first
      have member' := List.mem_of_find?_eq_some first
      by_cases same : other.ptr = block.ptr
      · rw [List.inj_on_of_nodup_map distinct member' member same]
      · exact (apart other member' same within_).elim
  have address_ : block.ptr + (address - block.ptr) = address := by omega
  have legal : contents.Legal (.put block.ptr (address - block.ptr) value) :=
    ⟨block.size, (holding.tracks _ _).mpr member, by omega⟩
  have taken := BlockStore.step_eq_some.mpr ⟨legal, rfl⟩
  refine ⟨contents.happen (.put block.ptr (address - block.ptr) value), ?_, holding.tracks,
    holding.known.step taken, holding.shows_.step holding.known taken ⟨?_, ?_⟩⟩
  · rw [putAt, found]
    exact execute_one taken
  · rw [byteOf, address_, Function.update_self]
  · intro other offset different inside
    obtain ⟨block', member', rfl, less⟩ := holding.tracks.inside inside
    refine Function.update_of_ne (fun same => ?_) ..
    by_cases here : block'.ptr = block.ptr
    · exact different here (by omega)
    · exact apart block' member' here ⟨by omega, by omega⟩

end

theorem Undisturbed.bytes {xmemory xmemory' : Xmemory} {live blocks : List Block}
    (undisturbed : Undisturbed blocks xmemory xmemory') (laid : Laid layout xmemory live)
    (fewer : blocks.Sublist live) : ∀ block ∈ blocks, ∀ offset < block.size,
      xmemory'.space.memory (block.ptr + offset) = xmemory.space.memory (block.ptr + offset) := by
  intro block member offset less
  obtain ⟨size, read, _, fits, _⟩ := laid.recorded (fewer.subset member)
  exact undisturbed block member size read _ (by omega) (by omega)

namespace Client

/-- What an operation does to the blocks and their bytes. -/
def changes (before : Client) (operation : Operation) (after : Client) : List Change :=
  match operation with
  | .call (.malloc _ sz) => [.create after.newest sz none]
  | .call (.free _ ptr) => [.release ptr]
  | .call (.write address value) => putAt before.live address value
  | .realloc _ ptr sz => if ptr = 0 then [.create after.newest sz none] else [.move ptr after.newest sz]
  | .memalign _ _ size => [.create after.newest size none]

def journal : List (Client × Operation) → Client → List Change
  | [], _ => []
  | (before, operation) :: earlier, after => journal earlier before ++ changes before operation after

variable {client after : Client} {contents : Contents} {operation : Operation}

/-- A block from `malloc` is new and disturbs no other one. -/
theorem Settled.mallocHolding (settled : client.Settled)
    (holding : Holding client.xmemory.space.memory client.live contents) (bound : sz + 4136 ≤ 2 ^ 64)
    (enough : size ≤ sz) (called : client.xmemory.malloc heapid sz = .ok (ptr, xmemory')) :
    ∃ contents', contents.step (.create ptr size none) = some contents' ∧
      Holding xmemory'.space.memory (⟨ptr, size⟩ :: client.live) contents' := by
  obtain ⟨layout, laid, _⟩ := settled.laid
  rcases Xmemory.malloc_laid laid heapid bound enough with exits | ⟨_, _, layout', called', serves, laid'⟩
  · cases exits.symm.trans called
  · cases called'.symm.trans called
    refine holding.create (fun block member same => ?_) (fun value none => by cases none)
      ((serves.undisturbed laid).bytes laid (List.Sublist.refl _))
    exact (List.nodup_cons.mp laid'.distinct).1 (List.mem_map.mpr ⟨block, member, same⟩)

theorem Settled.freeHolding (settled : client.Settled)
    (holding : Holding client.xmemory.space.memory client.live contents) (member : block ∈ client.live)
    (called : client.xmemory.free heapid block.ptr = .ok xmemory') :
    ∃ contents', contents.step (.release block.ptr) = some contents' ∧
      Holding xmemory'.space.memory (client.live.filter (·.ptr ≠ block.ptr)) contents' := by
  obtain ⟨_, called', undisturbed, _⟩ := settled.releasable block client (.refl ..) member heapid
  cases called'.symm.trans called
  obtain ⟨layout, laid, _⟩ := settled.laid
  refine holding.release member fun other present different => ?_
  have stays : other ∈ client.live.filter (·.ptr ≠ block.ptr) :=
    List.mem_filter.mpr ⟨present, by simpa using different⟩
  exact undisturbed.bytes laid List.filter_sublist other stays

theorem Settled.reallocHolding (settled : client.Settled)
    (holding : Holding client.xmemory.space.memory client.live contents) (owned : client.Owned ptr)
    (bound : sz + 4136 ≤ 2 ^ 64)
    (called : client.xmemory.realloc heapid ptr sz = .ok (newptr, xmemory')) :
    ∃ contents', contents.step (if ptr = 0 then .create newptr sz none else .move ptr newptr sz) =
        some contents' ∧
      Holding xmemory'.space.memory (⟨newptr, sz⟩ :: client.live.filter (·.ptr ≠ ptr)) contents' := by
  obtain ⟨layout, laid, _⟩ := settled.laid
  rcases realloc_laid laid owned bound heapid with exits | ⟨_, _, _, called', moved, _⟩
  · cases (owned.realloc_exits laid exits).symm.trans called
  cases called'.symm.trans called
  have fresh : ∀ block ∈ client.live, block.ptr ≠ newptr := by
    obtain ⟨_, _, _, apart⟩ := moved.usable
    exact fun block member => (apart block member).1
  have kept := moved.undisturbed.bytes laid List.filter_sublist
  rcases owned with none | ⟨block, member, rfl⟩
  · subst none
    have all : client.live.filter (·.ptr ≠ 0) = client.live := by
      refine List.filter_eq_self.mpr fun block member => ?_
      obtain ⟨_, _, _, object⟩ := laid.object member
      have := object.low
      simp only [ne_eq, decide_eq_true_eq]
      omega
    rw [all] at kept ⊢
    rw [if_pos rfl]
    exact holding.create fresh (fun value none => by cases none) kept
  · obtain ⟨size, read, sized, fits, object⟩ := laid.recorded member
    have low := object.low
    obtain ⟨s, read', _, copied⟩ := moved.copied
    cases read.symm.trans read'
    rw [if_neg (by omega)]
    refine holding.move member fresh (fun offset less => copied offset (by omega)) laid.distinct ?_
    exact fun other present different => kept other (List.mem_filter.mpr ⟨present, by simpa using different⟩)

theorem Settled.holding (settled : client.Settled)
    (holding : Holding client.xmemory.space.memory client.live contents) (allowed : client.allows operation)
    (succeeds : client.operate operation = .ok after) :
    ∃ contents', execute BlockStore.step contents (changes client operation after) = some contents' ∧
      Holding after.xmemory.space.memory after.live contents' := by
  cases operation with
  | call call =>
    cases call with
    | malloc heapid sz =>
      obtain ⟨⟨ptr, xmemory⟩, called, same⟩ := bind_eq_ok.mp succeeds
      cases same
      obtain ⟨contents', taken, holding'⟩ := settled.mallocHolding holding allowed.2 (Nat.le_refl sz) called
      exact ⟨contents', execute_one taken, holding'⟩
    | free heapid ptr =>
      obtain ⟨xmemory, called, same⟩ := bind_eq_ok.mp succeeds
      cases same
      obtain ⟨block, member, rfl⟩ := allowed.2
      obtain ⟨contents', taken, holding'⟩ := settled.freeHolding holding member called
      exact ⟨contents', execute_one taken, holding'⟩
    | write address value =>
      cases succeeds
      obtain ⟨block, member, low, high⟩ := allowed
      obtain ⟨layout, laid, _⟩ := settled.laid
      refine holding.put member low high (fun other present different within_ => ?_) laid.distinct value
      obtain ⟨size, sized, fits, object⟩ := laid.object member
      obtain ⟨size', sized', fits', object'⟩ := laid.object present
      have apart := laid.apart sized sized' different
      omega
  | realloc heapid ptr sz =>
    obtain ⟨⟨newptr, xmemory⟩, called, same⟩ := bind_eq_ok.mp succeeds
    cases same
    obtain ⟨contents', taken, holding'⟩ := settled.reallocHolding holding allowed.2.1 allowed.2.2 called
    refine ⟨contents', ?_, holding'⟩
    simp only [changes]
    split at taken
    · rw [if_pos ‹_›]
      exact execute_one taken
    · rw [if_neg ‹_›]
      exact execute_one taken
  | memalign heapid boundary size =>
    obtain ⟨⟨ptr, xmemory⟩, called, same⟩ := bind_eq_ok.mp succeeds
    cases same
    have served := (memalign_malloc called).2.2
    have bound := allowed.2
    rw [sizeT_small (by omega)] at served
    obtain ⟨contents', taken, holding'⟩ :=
      settled.mallocHolding holding bound (Nat.le_add_left size boundary) served
    exact ⟨contents', execute_one taken, holding'⟩

/-- Every run of the allocator is a run of the store of blocks: whatever is allocated,
freed, moved and written, each live block has the bytes that were put there last. -/
theorem journal_kept {memory : Memory} (run : Run (guarded Client.run allows) (start memory) history client) :
    ∃ contents, execute BlockStore.step .empty (journal history client) = some contents ∧
      Tracks client.live contents ∧ contents.Shows (byteOf client.xmemory.space.memory) := by
  have held : ∃ contents, execute BlockStore.step .empty (journal history client) = some contents ∧
      Holding client.xmemory.space.memory client.live contents := by
    induction run with
    | start =>
      refine ⟨.empty, rfl, fun ptr size => ?_, BlockStore.known_empty, BlockStore.shows_empty _⟩
      simp [BlockStore.empty, start]
    | @next history client operation after earlier taken ih =>
      obtain ⟨contents, executed, holding⟩ := ih
      have settled := settled_of_reachable ⟨_, earlier⟩
      obtain ⟨allowed, moved⟩ := guarded_eq_some.mp taken
      obtain ⟨contents', executed', holding'⟩ := settled.holding holding allowed (toOption_eq_some.mp moved)
      refine ⟨contents', ?_, holding'⟩
      rw [journal, execute_append, executed]
      exact executed'
  obtain ⟨contents, executed, holding⟩ := held
  exact ⟨contents, executed, holding.tracks, holding.shows_⟩

/-- A byte that is written, moved with its block by `realloc`, and left alone by all other calls. -/
theorem journal_kept_moved : ∃ history client,
    Run (guarded Client.run allows) (start fun _ => 0) history client ∧
      journal history client = [.create (userHeapBase + 40) 20 none, .put (userHeapBase + 40) 3 7,
        .create (userHeapBase + 88) 20 none, .move (userHeapBase + 40) (userHeapBase + 136) 40,
        .release (userHeapBase + 88), .create (userHeapBase + 88) 30 none] ∧
      client.xmemory.space.memory (userHeapBase + 139) = 7 := by
  have executed : ((record (guarded Client.run allows) [] (start fun _ => 0)
      [.call (.malloc 1 20), .call (.write (userHeapBase + 43) 7), .call (.malloc 1 20),
        .realloc 1 (userHeapBase + 40) 40, .call (.free 1 (userHeapBase + 88)), .call (.malloc 1 30)]).map
      fun recorded => decide (journal recorded.1 recorded.2 =
        [.create (userHeapBase + 40) 20 none, .put (userHeapBase + 40) 3 7,
          .create (userHeapBase + 88) 20 none, .move (userHeapBase + 40) (userHeapBase + 136) 40,
          .release (userHeapBase + 88), .create (userHeapBase + 88) 30 none])) = some true := by
    decide +kernel
  obtain ⟨history, client, run, written⟩ := exists_run executed
  simp only at written
  refine ⟨history, client, run, written, ?_⟩
  obtain ⟨contents, executed', _, shows_⟩ := journal_kept run
  have known : contents.byte (userHeapBase + 136) 3 = some 7 := by
    rw [written] at executed'
    have checked : (execute BlockStore.step (.empty : Contents)
        [.create (userHeapBase + 40) 20 none, .put (userHeapBase + 40) 3 7,
          .create (userHeapBase + 88) 20 none, .move (userHeapBase + 40) (userHeapBase + 136) 40,
          .release (userHeapBase + 88), .create (userHeapBase + 88) 30 none]).map
        (fun contents => contents.byte (userHeapBase + 136) 3) = some (some 7) := by
      decide +kernel
    rw [executed'] at checked
    exact Option.some.inj checked
  exact shows_ (userHeapBase + 136) 3 7 known

end Client

end ProcessAsThread.Heap
