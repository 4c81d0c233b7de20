import Mathlib.Algebra.Ring.Int.Defs
import ProcessAsThread.Heap.Layout

/-! The library's `malloc`, `calloc`, `free` and `malloc_usable_size`: a static
buffer serves the calls before the constructor and after the destructor, the
heap those in between. -/

namespace ProcessAsThread.Heap

open Library

/-- `int` arithmetic, which wraps. -/
def intT (value : Int) : Int := value.bmod (2 ^ 32)

def initialMallocSize : Nat := 1024 * 1024 * 1024

/-- Where `_buf` of `tempmalloc` is: the loader places it apart from the heap. -/
structure TempBuffer where
  base : Nat
  low : 16 ≤ base
  high : base + initialMallocSize < 2 ^ 64
  apart : base + initialMallocSize ≤ userHeapBase - metasize ∨ userHeapBase + userHeapSize ≤ base

def TempBuffer.Holds (buffer : TempBuffer) (place : Nat) : Prop :=
  buffer.base ≤ place ∧ place < buffer.base + initialMallocSize

instance (buffer : TempBuffer) (place : Nat) : Decidable (buffer.Holds place) :=
  inferInstanceAs (Decidable (_ ∧ _))

/-- The pointer, and the new value of `_allocated`. -/
def TempBuffer.tempmalloc (buffer : TempBuffer) (allocated size : Int) : Outcome (Nat × Int) :=
  if (initialMallocSize : Int) < intT (allocated + size) then .error .abort
  else .ok (((buffer.base + allocated) % 2 ^ 64).toNat, intT (allocated + size))

structure Libmythread where
  initialized : Bool
  /-- `_allocated` of `tempmalloc`. -/
  allocated : Int
  xmemory : Xmemory

namespace Libmythread

def memory (library : Libmythread) : Memory := library.xmemory.space.memory

def setMemory (library : Libmythread) (memory : Memory) : Libmythread :=
  { library with
    xmemory := { library.xmemory with space := { library.xmemory.space with memory := memory } } }

/-- Before the constructor: nothing is read of the heap but the contents of memory. -/
def load (memory : Memory) : Libmythread := ⟨false, 0, .create memory⟩

/-- The constructor `initialize`: `xmemory::initialize` makes one allocation of its own. -/
def initializeLibrary (library : Libmythread) (heapid : Nat) : Outcome Libmythread := do
  let (_, xmemory) ← (Xmemory.create library.memory).malloc heapid 32
  return { library with xmemory := xmemory, initialized := true }

/-- The destructor. -/
def finalize (library : Libmythread) : Libmythread := { library with initialized := false }

def malloc (buffer : TempBuffer) (library : Libmythread) (heapid sz : Nat) :
    Outcome (Nat × Libmythread) := do
  let sz := if sz = 0 then 1 else sz
  if library.initialized then
    let (ptr, xmemory) ← library.xmemory.malloc heapid sz
    check (ptr ≠ 0)
    return (ptr, { library with xmemory := xmemory })
  else
    let sz := if sz < 16 then 16 else sz
    let sz := sizeT (sz + 15) / 16 * 16
    let (ptr, allocated) ← buffer.tempmalloc library.allocated (intT sz)
    check (ptr ≠ 0)
    return (ptr, { library with allocated := allocated })

def calloc (buffer : TempBuffer) (library : Libmythread) (heapid nmemb sz : Nat) :
    Outcome (Nat × Libmythread) := do
  let (ptr, library) ← library.malloc buffer heapid (sizeT (nmemb * sz))
  return (ptr, library.setMemory (library.memory.fill ptr 0 (sizeT (sz * nmemb))))

def free (library : Libmythread) (heapid ptr : Nat) : Outcome Libmythread :=
  if library.initialized then do
    let xmemory ← library.xmemory.free heapid ptr
    return { library with xmemory := xmemory }
  else .ok library

def mallocUsableSize (library : Libmythread) (ptr : Nat) : Outcome Nat :=
  if library.initialized then library.xmemory.getSize ptr else .ok 0

end Libmythread

/-- A program with the library, and the blocks it has. -/
structure Program where
  library : Libmythread
  /-- The constructor has run. -/
  constructed : Bool
  live : List Block

/-- What happens in a run: the constructor, the destructor, the program's calls
by a thread with some heap, and its writes. -/
inductive Request where
  | initializeLibrary (heapid : Nat)
  | finalize
  | malloc (heapid sz : Nat)
  | calloc (heapid nmemb sz : Nat)
  | free (heapid ptr : Nat)
  | write (address : Nat) (value : UInt8)
  deriving DecidableEq, Repr

namespace Program

def start (memory : Memory) : Program := ⟨.load memory, false, []⟩

/-- Only live blocks are freed and written; the constructor runs once, before the destructor. -/
def permits (program : Program) : Request → Prop
  | .initializeLibrary heapid => heapid < numHeaps ∧ program.constructed = false
  | .finalize => program.constructed = true
  | .malloc heapid sz => heapid < numHeaps ∧ sz < 2 ^ 64
  | .calloc heapid nmemb sz => heapid < numHeaps ∧ nmemb < 2 ^ 64 ∧ sz < 2 ^ 64
  | .free heapid ptr => heapid < numHeaps ∧ ∃ block ∈ program.live, block.ptr = ptr
  | .write address _ => ∃ block ∈ program.live, block.ptr ≤ address ∧ address < block.ptr + block.size

instance : (program : Program) → (request : Request) → Decidable (program.permits request)
  | _, .initializeLibrary _ => inferInstanceAs (Decidable (_ ∧ _))
  | program, .finalize => inferInstanceAs (Decidable (program.constructed = true))
  | _, .malloc _ _ => inferInstanceAs (Decidable (_ ∧ _))
  | _, .calloc _ _ _ => inferInstanceAs (Decidable (_ ∧ _ ∧ _))
  | program, .free heapid ptr =>
    inferInstanceAs (Decidable (heapid < numHeaps ∧ ∃ block ∈ program.live, block.ptr = ptr))
  | program, .write address _ => inferInstanceAs (Decidable
      (∃ block ∈ program.live, block.ptr ≤ address ∧ address < block.ptr + block.size))

/-- A block carries the size that was asked for, which is a product for `calloc`. -/
def perform (buffer : TempBuffer) (program : Program) : Request → Outcome Program
  | .initializeLibrary heapid => do
    let library ← program.library.initializeLibrary heapid
    return { program with library := library, constructed := true }
  | .finalize => .ok { program with library := program.library.finalize }
  | .malloc heapid sz => do
    let (ptr, library) ← program.library.malloc buffer heapid sz
    return { program with library := library, live := ⟨ptr, sz⟩ :: program.live }
  | .calloc heapid nmemb sz => do
    let (ptr, library) ← program.library.calloc buffer heapid nmemb sz
    return { program with library := library, live := ⟨ptr, nmemb * sz⟩ :: program.live }
  | .free heapid ptr => do
    let library ← program.library.free heapid ptr
    return { program with library := library, live := program.live.filter (·.ptr ≠ ptr) }
  | .write address value =>
    let memory := Function.update program.library.memory address value
    .ok { program with library := program.library.setMemory memory }

def step (buffer : TempBuffer) (program : Program) (request : Request) : Option Program :=
  (program.perform buffer request).toOption

end Program

end ProcessAsThread.Heap
