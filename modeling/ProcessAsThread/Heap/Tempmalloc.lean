import ProcessAsThread.Heap.Release

/-! The blocks of `tempmalloc` over a whole run of requests before the
constructor. A size goes from 64 bits into an `int` and into a sum of two `int`s;
the blocks are sound as long as neither loses anything. -/

namespace ProcessAsThread.Heap

open Library

/-- A block of `tempmalloc`, with what was asked for and how far `_allocated` moved. -/
structure Grant where
  ptr : Nat
  requested : Nat
  length : Int
  deriving DecidableEq, Repr

def Grant.Holds (grant : Grant) (place : Nat) : Prop :=
  grant.ptr ≤ place ∧ (place : Int) < grant.ptr + grant.length

/-- The library before the constructor, and the blocks it has handed out. -/
structure Early where
  library : Libmythread
  grants : List Grant

/-- A call of `malloc` by a thread with some heap. -/
structure EarlyCall where
  heapid : Nat
  sz : Nat
  deriving DecidableEq, Repr

namespace Early

def start (memory : Memory) : Early := ⟨.load memory, []⟩

/-- Any `size_t`. -/
def permits (_ : Early) (call : EarlyCall) : Prop := call.sz < 2 ^ 64

instance (early : Early) (call : EarlyCall) : Decidable (early.permits call) :=
  inferInstanceAs (Decidable (_ < _))

/-- A call that aborts ends the run. -/
def step (buffer : TempBuffer) (early : Early) (call : EarlyCall) : Option Early :=
  (early.library.malloc buffer call.heapid call.sz).toOption.map fun (ptr, library) =>
    ⟨library, ⟨ptr, call.sz, library.allocated - early.library.allocated⟩ :: early.grants⟩

structure Proper (buffer : TempBuffer) (early : Early) : Prop where
  range : 0 ≤ early.library.allocated ∧ early.library.allocated ≤ initialMallocSize
  inside : ∀ grant ∈ early.grants, buffer.base ≤ grant.ptr ∧
    grant.ptr + grant.length ≤ buffer.base + initialMallocSize
  long : ∀ grant ∈ early.grants, (grant.requested : Int) ≤ grant.length
  disjoint : early.grants.Pairwise fun later earlier => ∀ place, later.Holds place → ¬ earlier.Holds place

/-- `_allocated` has not decreased from one state to a later one. -/
def Grows (later earlier : Early) : Prop := earlier.library.allocated ≤ later.library.allocated

/-- All through the run, the blocks are proper and `_allocated` does not decrease. -/
structure ProperRun (buffer : TempBuffer) (history : List (Early × EarlyCall)) (early : Early) : Prop where
  always : ∀ seen ∈ visited history early, Proper buffer seen
  grows : (visited history early).Pairwise Grows

/-- The next value of `_allocated`, without bounds, is an `int`. -/
def Fits (early : Early) (call : EarlyCall) : Prop :=
  early.library.allocated + tempSize call.sz < 2 ^ 31

instance (early : Early) (call : EarlyCall) : Decidable (early.Fits call) :=
  inferInstanceAs (Decidable (_ < _))

/-- The states of a run whose calls fit: all blocks end where the free rest begins. -/
structure Packed (buffer : TempBuffer) (early : Early) : Prop where
  uninitialized : early.library.initialized = false
  proper : Proper buffer early
  below : ∀ grant ∈ early.grants, grant.ptr + grant.length ≤ buffer.base + early.library.allocated

variable {buffer : TempBuffer} {early after : Early} {call : EarlyCall}

theorem step_cases (taken : step buffer early call = some after) : ∃ ptr library,
    early.library.malloc buffer call.heapid call.sz = .ok (ptr, library) ∧
      after = ⟨library, ⟨ptr, call.sz, library.allocated - early.library.allocated⟩ :: early.grants⟩ := by
  obtain ⟨⟨ptr, library⟩, called, same⟩ := Option.map_eq_some_iff.mp taken
  exact ⟨ptr, library, toOption_eq_some.mp called, same.symm⟩

private theorem start_packed (buffer : TempBuffer) (memory : Memory) : Packed buffer (start memory) :=
  ⟨rfl, ⟨⟨Int.le_refl 0, Int.natCast_nonneg _⟩, by simp [start], by simp [start], List.Pairwise.nil⟩,
    by simp [start]⟩

theorem Packed.step (packed : Packed buffer early) (fits : early.Fits call)
    (taken : step buffer early call = some after) : Packed buffer after ∧ Grows after early := by
  obtain ⟨ptr, library, called, rfl⟩ := step_cases taken
  have low := packed.proper.range.1
  obtain ⟨same, room, address⟩ := Program.malloc_uninitialized packed.uninitialized low fits called
  have long := Program.tempSize_fits call.sz
  subst same
  have length : early.library.allocated + tempSize call.sz - early.library.allocated = tempSize call.sz := by
    omega
  simp only [length]
  refine ⟨⟨packed.uninitialized, ⟨⟨by simp only; omega, room⟩, ?_, ?_, ?_⟩, ?_⟩, by simp only [Grows]; omega⟩
  · intro grant member
    rcases List.mem_cons.mp member with same | older
    · subst same
      simp only
      omega
    · exact packed.proper.inside grant older
  · intro grant member
    rcases List.mem_cons.mp member with same | older
    · subst same
      simp only
      omega
    · exact packed.proper.long grant older
  · refine List.pairwise_cons.mpr ⟨fun grant older place here there => ?_, packed.proper.disjoint⟩
    have := packed.below grant older
    simp only [Grant.Holds] at here there
    omega
  · intro grant member
    rcases List.mem_cons.mp member with same | older
    · subst same
      simp only
      omega
    · have := packed.below grant older
      simp only
      omega

private theorem fits_of_proper (taken : step buffer early call = some after)
    (proper : Proper buffer after) : early.Fits call := by
  obtain ⟨ptr, library, called, rfl⟩ := step_cases taken
  have room := proper.range.2
  have long := proper.long _ (List.mem_cons_self ..)
  simp only at room long
  simp only [Fits, tempSize]
  simp only [initialMallocSize] at room
  omega

theorem packed_of_run {memory : Memory} (run : Run (guarded (step buffer) permits) (start memory) history early)
    (meets : Meets Fits history) : ∀ seen ∈ visited history early, Packed buffer seen :=
  run.always (start_packed buffer memory)
    (fun _ packed fits taken => (packed.step fits (guarded_eq_some.mp taken).2).1) meets

/-- In every run of requests before the constructor, the blocks lie in the buffer,
are long enough and disjoint, and `_allocated` neither decreases nor leaves the
buffer, exactly when for every request that is served `_allocated` plus the size
rounded up is an `int`. -/
theorem properRun_iff {memory : Memory}
    (run : Run (guarded (step buffer) permits) (start memory) history early) :
    ProperRun buffer history early ↔ Meets Fits history := by
  constructor
  · intro proper
    exact run.meets_of_always
      (fun _ _ taken proper' => fits_of_proper (guarded_eq_some.mp taken).2 proper') proper.always
  · intro meets
    have packed := packed_of_run run meets
    refine ⟨fun seen member => (packed seen member).proper, ?_⟩
    refine run.pairwise (fun grown grown' => Int.le_trans grown' grown) fun member taken => ?_
    exact ((packed _ (visited_of_mem member)).step (meets _ member) (guarded_eq_some.mp taken).2).2

/-- Two blocks of different lengths. -/
theorem properRun_iff_two : ∃ history early,
    Run (guarded (step Program.highBuffer) permits) (start fun _ => 0) history early ∧
      early.grants = [⟨2 ^ 40 + 32, 0, 16⟩, ⟨2 ^ 40, 24, 32⟩] ∧
      ProperRun Program.highBuffer history early := by
  have executed : ((execute (guarded (guarded (step Program.highBuffer) permits) Fits) (start fun _ => 0)
      [⟨1, 24⟩, ⟨2, 0⟩]).map fun early =>
      decide (early.grants = [⟨2 ^ 40 + 32, 0, 16⟩, ⟨2 ^ 40, 24, 32⟩])) = some true := by
    decide +kernel
  obtain ⟨history, early, run, meets, grants⟩ := exists_guarded executed
  exact ⟨history, early, run, grants, (properRun_iff run).mpr meets⟩

/-- A request for four gigabytes becomes one for nothing, and is served. -/
theorem size_truncated : ¬ ∀ memory buffer history early,
    Run (guarded (step buffer) permits) (start memory) history early →
      ProperRun buffer history early := by
  have executed : ((record (guarded (step Program.highBuffer) permits) [] (start fun _ => 0)
      [⟨1, 2 ^ 32⟩]).map fun recorded => decide (recorded.2.grants = [⟨2 ^ 40, 2 ^ 32, 0⟩])) =
        some true := by
    decide +kernel
  obtain ⟨history, early, run, grants⟩ := exists_run executed
  intro claimed
  have long := ((claimed _ _ history early run).always early (List.mem_cons_self ..)).long
    ⟨2 ^ 40, 2 ^ 32, 0⟩ (by rw [show early.grants = _ from grants]; exact List.mem_cons_self ..)
  simp only at long
  omega

end Early

end ProcessAsThread.Heap
