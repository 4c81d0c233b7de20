import ProcessAsThread.Heap.SizeClass
import ProcessAsThread.Library.Run

/-! Which of the 128 heaps a thread works on: `getHeapId` takes it from the
kernel's id of the thread. A heap has no lock, so no two live threads may share
one; whether they do depends on the ids alone. -/

namespace ProcessAsThread.Heap

open Library

/-- `gettid() % NUM_HEAPS`. -/
def getHeapId (tid : Nat) : Nat := tid % numHeaps

/-- Nothing in the library checks it. -/
def maxAliveThreads : Nat := numHeaps

/-- What a thread asks of the allocator; `realloc` and `memalign` are made of these. -/
inductive HeapCall where
  | malloc (sz : Nat)
  | free (ptr : Nat)
  | getSize (ptr : Nat)
  deriving DecidableEq, Repr

namespace Xmemory

def setHeap (xmemory : Xmemory) (heapid : Nat) (heap : KingsleyHeap) : Xmemory :=
  { xmemory with heaps := Function.update xmemory.heaps heapid heap }

/-- A call by the thread with this id. The result of `free` is 0. -/
def call (xmemory : Xmemory) (tid : Nat) : HeapCall → Outcome (Nat × Xmemory)
  | .malloc sz => xmemory.malloc (getHeapId tid) sz
  | .free ptr => do
    let xmemory ← xmemory.free (getHeapId tid) ptr
    return (0, xmemory)
  | .getSize ptr => do
    let size ← xmemory.getSize ptr
    return (size, xmemory)

end Xmemory

namespace Xmemory

private theorem malloc_result (xmemory : Xmemory) (heapid sz : Nat) :
    (xmemory.malloc heapid sz).toOption.map Prod.fst =
      ((xmemory.heaps heapid).malloc xmemory.space sz).toOption.map Prod.fst := by
  simp only [malloc]
  cases (xmemory.heaps heapid).malloc xmemory.space sz <;> rfl

/-- Neither `malloc` nor `free` reads or writes any heap but the one it is given. -/
theorem malloc_setHeap {xmemory : Xmemory} {heapid heapid' : Nat} (other : heapid' ≠ heapid)
    (heap : KingsleyHeap) (sz : Nat) :
    (xmemory.setHeap heapid' heap).malloc heapid sz =
      (xmemory.malloc heapid sz).map fun (ptr, after) => (ptr, after.setHeap heapid' heap) := by
  simp only [malloc, setHeap, Function.update_of_ne other.symm]
  cases (xmemory.heaps heapid).malloc xmemory.space sz with
  | error halt => rfl
  | ok made =>
    simp only [ok_bind, Function.update_comm other]
    rfl

private theorem free_setHeap {xmemory : Xmemory} {heapid heapid' : Nat} (other : heapid' ≠ heapid)
    (heap : KingsleyHeap) (ptr : Nat) :
    (xmemory.setHeap heapid' heap).free heapid ptr =
      (xmemory.free heapid ptr).map fun after => after.setHeap heapid' heap := by
  simp only [free, setHeap, Function.update_of_ne other.symm]
  split
  · rfl
  · cases (xmemory.heaps heapid).free xmemory.space ptr with
    | error halt => rfl
    | ok left =>
      simp only [ok_bind, Function.update_comm other]
      rfl

private theorem call_setHeap {xmemory : Xmemory} {tid heapid : Nat} (other : heapid ≠ getHeapId tid)
    (heap : KingsleyHeap) (call : HeapCall) :
    (xmemory.setHeap heapid heap).call tid call =
      (xmemory.call tid call).map fun (result, after) => (result, after.setHeap heapid heap) := by
  cases call with
  | malloc sz => exact malloc_setHeap other heap sz
  | free ptr =>
    simp only [Xmemory.call, free_setHeap other]
    cases xmemory.free (getHeapId tid) ptr <;> rfl
  | getSize ptr =>
    -- `getSize` goes through heap 0, whoever asks, and reads no field of it
    have same : (xmemory.setHeap heapid heap).getSize ptr = xmemory.getSize ptr := rfl
    simp only [Xmemory.call, same]
    cases xmemory.getSize ptr <;> rfl

end Xmemory

/-- Some call by the thread does not leave the heap alone: with other contents of
that heap it ends in another way, or the contents do not survive it. -/
def Operates (tid heapid : Nat) : Prop :=
  ∃ (xmemory : Xmemory) (heap : KingsleyHeap) (call : HeapCall),
    (xmemory.setHeap heapid heap).call tid call ≠
      (xmemory.call tid call).map fun (result, after) => (result, after.setHeap heapid heap)

/-- The live threads by the kernel's ids, and the allocator they all use. -/
structure Users where
  xmemory : Xmemory
  live : List Nat

namespace Users

inductive Action where
  | arrive (tid : Nat)
  | leave (tid : Nat)
  | call (tid : Nat) (call : HeapCall)
  deriving DecidableEq, Repr

/-- The thread that loads the library, with any id. -/
def start (memory : Memory) (tid : Nat) : Users := ⟨.create memory, [tid]⟩

/-- The kernel gives a new thread any id that no live thread has. A call that
ends its process is a `leave`. -/
def step (users : Users) : Action → Option Users
  | .arrive tid => if tid ∉ users.live then some { users with live := tid :: users.live } else none
  | .leave tid => if tid ∈ users.live then some { users with live := users.live.erase tid } else none
  | .call tid call =>
    if tid ∈ users.live then
      (users.xmemory.call tid call).toOption.map fun (_, xmemory) => { users with xmemory := xmemory }
    else none

/-- No two of these threads have one heap, and none of their calls meet on one. -/
def Apart (live : List Nat) : Prop :=
  ∀ tid ∈ live, ∀ other ∈ live, other ≠ tid →
    getHeapId tid ≠ getHeapId other ∧ ∀ heapid, Operates tid heapid → ¬ Operates other heapid

def HeapsPrivate (users : Users) : Prop := users.live.length ≤ maxAliveThreads → Apart users.live

/-- The two ids differ by a multiple of `NUM_HEAPS`. -/
def Clash (tid other : Nat) : Prop := numHeaps ∣ (tid - other) + (other - tid)

instance (tid other : Nat) : Decidable (Clash tid other) := inferInstanceAs (Decidable (_ ∣ _))

/-- Whenever at most `MAX_ALIVE_THREADS` threads are left after a thread has come
or gone, no two of their ids clash; where one has come, that is a matter of its own id. -/
def IdsApart (users : Users) : Action → Prop
  | .arrive tid => users.live.length < maxAliveThreads → ∀ other ∈ users.live, ¬ Clash tid other
  | .leave tid => users.live.length = maxAliveThreads + 1 →
      ∀ one ∈ users.live.erase tid, ∀ other ∈ users.live.erase tid, other ≠ one → ¬ Clash one other
  | .call _ _ => True

instance (users : Users) : (action : Action) → Decidable (users.IdsApart action)
  | .arrive tid => inferInstanceAs (Decidable (users.live.length < maxAliveThreads →
      ∀ other ∈ users.live, ¬ Clash tid other))
  | .leave tid => inferInstanceAs (Decidable (users.live.length = maxAliveThreads + 1 →
      ∀ one ∈ users.live.erase tid, ∀ other ∈ users.live.erase tid, other ≠ one → ¬ Clash one other))
  | .call _ _ => inferInstanceAs (Decidable True)

end Users

/-- A thread works on one heap and no other. -/
theorem operates_iff {tid heapid : Nat} : Operates tid heapid ↔ heapid = getHeapId tid := by
  constructor
  · rintro ⟨xmemory, heap, call, differs⟩
    by_contra other
    exact differs (Xmemory.call_setHeap other heap call)
  · rintro rfl
    refine ⟨.create fun _ => 0, ⟨⟨0, 0⟩, fun _ => 8, 0⟩, .malloc 16, fun same => ?_⟩
    -- an object on the free list is handed out, and without one an object is carved
    have listed : (KingsleyHeap.malloc (Xmemory.create fun _ => 0).space
        ⟨⟨0, 0⟩, fun _ => 8, 0⟩ 16).toOption.map Prod.fst = some 8 := by
      decide +kernel
    have carved : (KingsleyHeap.malloc (Xmemory.create fun _ => 0).space .new 16).toOption.map Prod.fst =
        some (userHeapBase + 40) := by
      decide +kernel
    have unchanged : ∀ (outcome : Outcome (Nat × Xmemory)) (heap : KingsleyHeap),
        (outcome.map fun (result, after) => (result, after.setHeap (getHeapId tid) heap)).toOption.map
          Prod.fst = outcome.toOption.map Prod.fst := by
      rintro (_ | _) _ <;> rfl
    have results := congrArg (fun outcome => outcome.toOption.map Prod.fst) same
    simp only [unchanged] at results
    simp only [Xmemory.call, Xmemory.malloc_result, Xmemory.setHeap, Function.update_self] at results
    rw [listed] at results
    exact absurd (results.trans carved) (by decide)

namespace Users

theorem clash_iff {tid other : Nat} : Clash tid other ↔ getHeapId tid = getHeapId other := by
  simp only [Clash, getHeapId, numHeaps]
  omega

private theorem apart_iff {live : List Nat} :
    Apart live ↔ ∀ tid ∈ live, ∀ other ∈ live, other ≠ tid → ¬ Clash tid other := by
  constructor
  · intro apart tid member other member' different clash
    exact (apart tid member other member' different).1 (clash_iff.mp clash)
  · intro apart tid member other member' different
    have heaps : getHeapId tid ≠ getHeapId other :=
      fun same => apart tid member other member' different (clash_iff.mpr same)
    refine ⟨heaps, fun heapid one two => heaps ?_⟩
    rw [← operates_iff.mp one, ← operates_iff.mp two]

theorem Apart.sublist {live fewer : List Nat} (apart : Apart live) (sub : fewer.Sublist live) :
    Apart fewer :=
  fun tid member other member' => apart tid (sub.subset member) other (sub.subset member')

private theorem apart_cons {tid : Nat} {live : List Nat} (fresh : tid ∉ live) :
    Apart (tid :: live) ↔ Apart live ∧ ∀ other ∈ live, ¬ Clash tid other := by
  simp only [apart_iff]
  constructor
  · intro apart
    refine ⟨fun one member other member' => ?_, fun other member => ?_⟩
    · exact apart one (List.mem_cons_of_mem _ member) other (List.mem_cons_of_mem _ member')
    · have different : other ≠ tid := fun same => fresh (same ▸ member)
      exact apart tid (List.mem_cons_self ..) other (List.mem_cons_of_mem _ member) different
  · rintro ⟨apart, new⟩ one member other member' different
    rcases List.mem_cons.mp member with same | older
    · subst one
      rcases List.mem_cons.mp member' with same | older'
      · exact (different same).elim
      · exact new other older'
    · rcases List.mem_cons.mp member' with same | older'
      · subst other
        intro clash
        exact new one older (clash_iff.mpr (clash_iff.mp clash).symm)
      · exact apart one older other older' different

/-- A step keeps the heaps private exactly when the ids allow it. -/
theorem heapsPrivate_step {users after : Users} {action : Action} (before : users.HeapsPrivate)
    (taken : users.step action = some after) : after.HeapsPrivate ↔ users.IdsApart action := by
  cases action with
  | arrive tid =>
    simp only [step] at taken
    split at taken
    · rename_i fresh
      cases taken
      simp only [HeapsPrivate, IdsApart, List.length_cons, Nat.add_one_le_iff, apart_cons fresh]
      constructor
      · exact fun new few => (new few).2
      · exact fun new few => ⟨before (Nat.le_of_lt few), new few⟩
    · cases taken
  | leave tid =>
    simp only [step] at taken
    split at taken
    · rename_i member
      cases taken
      have shorter := List.length_erase_of_mem member
      simp only [HeapsPrivate, IdsApart, ← apart_iff]
      constructor
      · exact fun left full => left (by omega)
      · intro left few
        by_cases full : users.live.length = maxAliveThreads + 1
        · exact left full
        · exact (before (by omega)).sublist List.erase_sublist
    · cases taken
  | call tid call =>
    simp only [step] at taken
    split at taken
    · obtain ⟨_, _, same⟩ := Option.map_eq_some_iff.mp taken
      cases same
      simp only [IdsApart, iff_true]
      exact before
    · cases taken

/-- In every run, with whatever ids threads come and go, the heaps are private
in all its states exactly when the ids never clash. -/
theorem heapsPrivate_iff {memory : Memory} {tid : Nat}
    (run : Run step (start memory tid) history users) :
    (∀ seen ∈ visited history users, HeapsPrivate seen) ↔ Meets IdsApart history := by
  refine run.always_iff (fun _ => trivial) ?_ (fun _ => heapsPrivate_step)
  intro _
  exact apart_iff.mpr (by simp [start])

/-- Two ids in a row, and a third past 128 others that clashes with neither. -/
theorem heapsPrivate_iff_successive : ∃ history users, Run step (start (fun _ => 0) 1000) history users ∧
    users.live = [1130, 1001, 1000] ∧ ∀ seen ∈ visited history users, HeapsPrivate seen := by
  have executed : ((execute (guarded step IdsApart) (start (fun _ => 0) 1000)
      [.arrive 1001, .call 1000 (.malloc 24), .call 1001 (.malloc 24), .arrive 1130]).map
      fun users => decide (users.live = [1130, 1001, 1000])) = some true := by
    decide +kernel
  obtain ⟨history, users, run, meets, checked⟩ := exists_guarded executed
  exact ⟨history, users, run, checked, (heapsPrivate_iff run).mpr meets⟩

/-- Two threads whose ids are 128 apart have one heap. -/
theorem heaps_shared : ¬ ∀ memory tid users, Reachable step (start memory tid) users →
    users.HeapsPrivate := by
  have executed : ((execute step (start (fun _ => 0) 1000) [.arrive 1128]).map
      fun users => decide (users.live = [1128, 1000])) = some true := by
    decide +kernel
  obtain ⟨users, reached, checked⟩ := exists_reachable executed
  intro claimed
  have apart := claimed _ _ users reached (by rw [checked]; decide)
  rw [checked] at apart
  exact (apart 1128 (by simp) 1000 (by simp) (by decide)).1 (by decide)

end Users

end ProcessAsThread.Heap
