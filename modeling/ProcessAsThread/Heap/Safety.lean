import ProcessAsThread.Heap.Calls
import ProcessAsThread.Library.Run

/-! Safety of the allocator over whole runs: calls under any heap, mixed with
the clients' writes into their own blocks. -/

namespace ProcessAsThread.Heap

open Library

/-- The bytes of the PerThreadHeap. -/
def Metadata (place : Nat) : Prop := userHeapBase - metasize ≤ place ∧ place < userHeapBase

/-- All clients of the allocator, and the blocks they have. -/
structure Client where
  xmemory : Xmemory
  live : List Block

inductive Call where
  | malloc (heapid sz : Nat)
  | free (heapid ptr : Nat)
  | write (address : Nat) (value : UInt8)
  deriving DecidableEq, Repr

namespace Client

def start (memory : Memory) : Client := ⟨Xmemory.create memory, []⟩

/-- A client frees only live blocks, under any heap, and writes only into live blocks. -/
def permits (client : Client) : Call → Prop
  | .malloc heapid sz => heapid < numHeaps ∧ sz ≤ userHeapSize
  | .free heapid ptr => heapid < numHeaps ∧ ∃ block ∈ client.live, block.ptr = ptr
  | .write address _ => ∃ block ∈ client.live, block.ptr ≤ address ∧ address < block.ptr + block.size

instance : (client : Client) → (call : Call) → Decidable (client.permits call)
  | _, .malloc _ _ => inferInstanceAs (Decidable (_ ∧ _))
  | client, .free heapid ptr =>
    inferInstanceAs (Decidable (heapid < numHeaps ∧ ∃ block ∈ client.live, block.ptr = ptr))
  | client, .write address _ => inferInstanceAs (Decidable
      (∃ block ∈ client.live, block.ptr ≤ address ∧ address < block.ptr + block.size))

/-- As `permits`, for requests of any size with which no sum of the allocator wraps around. -/
def admits (client : Client) : Call → Prop
  | .malloc heapid sz => heapid < numHeaps ∧ sz + 4136 ≤ 2 ^ 64
  | call => client.permits call

instance (client : Client) : (call : Call) → Decidable (client.admits call)
  | .malloc _ _ => inferInstanceAs (Decidable (_ ∧ _))
  | .free heapid ptr => inferInstanceAs (Decidable (client.permits (.free heapid ptr)))
  | .write address value => inferInstanceAs (Decidable (client.permits (.write address value)))

def perform (client : Client) : Call → Outcome Client
  | .malloc heapid sz => do
    let (ptr, xmemory) ← client.xmemory.malloc heapid sz
    return ⟨xmemory, ⟨ptr, sz⟩ :: client.live⟩
  | .free heapid ptr => do
    let xmemory ← client.xmemory.free heapid ptr
    return ⟨xmemory, client.live.filter (·.ptr ≠ ptr)⟩
  | .write address value =>
    let memory := Function.update client.xmemory.space.memory address value
    .ok { client with
      xmemory := { client.xmemory with space := { client.xmemory.space with memory := memory } } }

/-- A run ends with the process. -/
def step (client : Client) (call : Call) : Option Client := (client.perform call).toOption

structure Safe (client : Client) : Prop where
  region : client.xmemory.space.xheap.heapStart = userHeapBase ∧
    client.xmemory.space.xheap.heapEnd = userHeapBase + userHeapSize
  inside : ∀ block ∈ client.live, client.xmemory.space.xheap.heapStart ≤ block.ptr ∧
    block.ptr + block.size ≤ client.xmemory.space.xheap.heapEnd
  disjoint : client.live.Pairwise fun block other => block.ptr ≠ other.ptr ∧
    ∀ place, block.Holds place → ¬ other.Holds place
  headers : ∀ block ∈ client.live, ∀ other ∈ client.live, ∀ place, block.Holds place → ¬ other.Header place
  metadata : ∀ block ∈ client.live, ∀ place, block.Holds place → ¬ Metadata place
  sized : ∀ block ∈ client.live, ∀ heapid, ∃ size,
    (client.xmemory.heaps heapid).getSize client.xmemory.space.memory block.ptr = .ok size ∧
      block.size ≤ size

/-- What every call keeps: there is a layout. -/
def Sound (client : Client) : Prop :=
  client.xmemory.space.xheap.heapStart = userHeapBase ∧
    client.xmemory.space.xheap.heapEnd = userHeapBase + userHeapSize ∧
    ∃ layout, Laid layout client.xmemory client.live

theorem start_region (memory : Memory) : (start memory).xmemory.space.xheap =
    ⟨userHeapBase, userHeapBase + userHeapSize, userHeapBase, userHeapSize⟩ := by
  have base : (XHeap.create (userHeapBase - metasize) userHeapSize metasize) =
      ⟨userHeapBase, userHeapBase + userHeapSize, userHeapBase, userHeapSize⟩ := by decide
  exact base

theorem start_laid (memory : Memory) : Laid .empty (start memory).xmemory (start memory).live := by
  refine ⟨?_, fun _ => .inl rfl, nofun, fun _ _ => ⟨rfl, List.nodup_nil, nofun⟩, List.nodup_nil, nofun⟩
  rw [start_region]
  exact ⟨by decide, Nat.le_refl _, rfl, by decide, fun _ owned => (owned rfl).elim⟩

theorem start_sound (memory : Memory) : (start memory).Sound :=
  ⟨by rw [start_region], by rw [start_region], .empty, start_laid memory⟩

private theorem permits_admits {client : Client} {call : Call} (permitted : client.permits call) :
    client.admits call := by
  cases call with
  | malloc heapid sz =>
    refine ⟨permitted.1, ?_⟩
    have := permitted.2
    simp only [userHeapSize] at this
    omega
  | free heapid ptr => exact permitted
  | write address value => exact permitted

/-- What an admitted call does that succeeds, with the layouts before and after it. -/
inductive Performs (layout : Layout) (client : Client) : Call → Layout → Client → Prop where
  | malloc (called : client.xmemory.malloc heapid sz = .ok (ptr, xmemory'))
      (serves : Serves layout layout' client.xmemory.space xmemory'.space heapid ptr) :
      Performs layout client (.malloc heapid sz) layout' ⟨xmemory', ⟨ptr, sz⟩ :: client.live⟩
  | free (member : block ∈ client.live) (called : client.xmemory.free heapid block.ptr = .ok xmemory')
      (releases : Releases layout layout' client.xmemory xmemory' heapid block.ptr) :
      Performs layout client (.free heapid block.ptr) layout'
        ⟨xmemory', client.live.filter (·.ptr ≠ block.ptr)⟩
  | write (member : block ∈ client.live) (low : block.ptr ≤ address)
      (high : address < block.ptr + block.size) :
      Performs layout client (.write address value) layout { client with
        xmemory := { client.xmemory with space := { client.xmemory.space with
          memory := Function.update client.xmemory.space.memory address value } } }

/-- An admitted call exits for lack of memory, or keeps the layout. -/
theorem perform_cases {client : Client} {call : Call} (laid : Laid layout client.xmemory client.live)
    (admitted : client.admits call) :
    client.perform call = .error .exit ∨ ∃ layout' after, client.perform call = .ok after ∧
      Laid layout' after.xmemory after.live ∧ Performs layout client call layout' after := by
  cases call with
  | malloc heapid sz =>
    rcases Xmemory.malloc_laid laid heapid admitted.2 (Nat.le_refl sz) with
      exits | ⟨ptr, xmemory', layout', called, serves, laid'⟩
    · left
      rw [perform, exits]
      rfl
    · refine .inr ⟨layout', _, ?_, laid', .malloc called serves⟩
      rw [perform, called]
      rfl
  | free heapid ptr =>
    obtain ⟨block, member, rfl⟩ := admitted.2
    obtain ⟨xmemory', layout', called, releases, laid'⟩ := Xmemory.free_laid laid member heapid
    refine .inr ⟨layout', _, ?_, laid', .free member called releases⟩
    rw [perform, called]
    rfl
  | write address value =>
    obtain ⟨block, member, low, high⟩ := admitted
    obtain ⟨size, sized, fits, _⟩ := laid.object member
    refine .inr ⟨layout, _, rfl, laid.write sized (laid.live block member).1 ?_, .write member low high⟩
    intro place outside
    exact Function.update_of_ne (by omega) ..

theorem Performs.region {client after : Client} {call : Call}
    (performs : Performs layout client call layout' after) :
    after.xmemory.space.xheap.heapStart = client.xmemory.space.xheap.heapStart ∧
      after.xmemory.space.xheap.heapEnd = client.xmemory.space.xheap.heapEnd := by
  cases performs with
  | malloc called serves => exact ⟨serves.heapStart, serves.heapEnd⟩
  | free member called releases => exact ⟨by rw [releases.xheap], by rw [releases.xheap]⟩
  | write member low high => exact ⟨rfl, rfl⟩

theorem perform_sound {client : Client} {call : Call} (sound : client.Sound)
    (admitted : client.admits call) :
    client.perform call = .error .exit ∨ ∃ after, client.perform call = .ok after ∧ after.Sound := by
  obtain ⟨start, finish, layout, laid⟩ := sound
  rcases perform_cases laid admitted with exits | ⟨layout', after, succeeds, laid', performs⟩
  · exact .inl exits
  · have region := performs.region
    exact .inr ⟨after, succeeds, region.1.trans start, region.2.trans finish, layout', laid'⟩

theorem Sound.safe {client : Client} (sound : client.Sound) : client.Safe := by
  obtain ⟨start, finish, layout, laid⟩ := sound
  have apart : ∀ block ∈ client.live, ∀ other ∈ client.live, other.ptr ≠ block.ptr →
      block.ptr + block.size ≤ other.ptr - 16 ∨ other.ptr + other.size ≤ block.ptr - 16 := by
    intro block member other member' different
    obtain ⟨size, sized, fits, _⟩ := laid.object member
    obtain ⟨size', sized', fits', _⟩ := laid.object member'
    have := laid.apart sized sized' different
    omega
  have range : ∀ block ∈ client.live, client.xmemory.space.xheap.heapStart + 16 ≤ block.ptr ∧
      block.ptr + block.size ≤ client.xmemory.space.xheap.heapEnd := by
    intro block member
    obtain ⟨size, sized, fits, _⟩ := laid.object member
    have := laid.range sized
    omega
  refine ⟨⟨start, finish⟩, ?_, ?_, ?_, ?_, ?_⟩
  · intro block member
    have := range block member
    omega
  · refine (List.pairwise_map.mp laid.distinct).imp_of_mem ?_
    intro block other member member' different
    refine ⟨different, fun place holds holds' => ?_⟩
    have := apart block member other member' different.symm
    simp only [Block.Holds] at holds holds'
    omega
  · intro block member other member' place holds header
    simp only [Block.Holds, Block.Header, ObjectHeader.size] at holds header
    by_cases same : other.ptr = block.ptr
    · omega
    · have := apart block member other member' same
      have := range block member
      omega
  · intro block member place holds meta_
    have := range block member
    simp only [Block.Holds] at holds
    simp only [Metadata] at meta_
    omega
  · intro block member heapid
    obtain ⟨size, _, fits, object⟩ := laid.object member
    exact ⟨size, AdaptAppHeap.getSize_kingsley _ object, fits⟩

/-- In every run, the live blocks are safe and no permitted call aborts. -/
theorem safe_of_reachable {memory : Memory} {client : Client}
    (reached : Reachable (guarded step permits) (start memory) client) :
    client.Safe ∧ ∀ call, client.permits call → client.perform call ≠ .error .abort := by
  have sound : client.Sound := by
    refine reached.invariant (start_sound memory) ?_
    intro client call after sound taken
    obtain ⟨permitted, taken⟩ := guarded_eq_some.mp taken
    have performed := toOption_eq_some.mp taken
    rcases perform_sound sound (permits_admits permitted) with exits | ⟨other, succeeds, sound'⟩
    · cases exits.symm.trans performed
    · cases succeeds.symm.trans performed
      exact sound'
  refine ⟨sound.safe, fun call permitted => ?_⟩
  rcases perform_sound sound (permits_admits permitted) with exits | ⟨_, succeeds, _⟩
  · rw [exits]
    exact nofun
  · rw [succeeds]
    exact nofun

/-- A block allocated under heap 1, written, freed under heap 2 and handed out again there. -/
theorem safe_of_reachable_reused : ∃ client,
    Reachable (guarded step permits) (start fun _ => 0) client ∧
      client.live = [⟨userHeapBase + 40, 30⟩, ⟨userHeapBase + 88, 24⟩] ∧ client.Safe := by
  have executed : ((execute (guarded step permits) (start fun _ => 0)
      [.malloc 1 20, .malloc 1 24, .write (userHeapBase + 40) 7, .free 2 (userHeapBase + 40),
        .malloc 2 30]).map
      fun client => decide (client.live = [⟨userHeapBase + 40, 30⟩, ⟨userHeapBase + 88, 24⟩])) =
        some true := by
    decide +kernel
  obtain ⟨client, reached, checked⟩ := exists_reachable executed
  exact ⟨client, reached, checked, (safe_of_reachable reached).1⟩

end Client

end ProcessAsThread.Heap
