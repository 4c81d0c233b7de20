import ProcessAsThread.Library.ByteMemory

/-! The allocator, layer by layer from the bottom: xheap, ZoneHeap, AdaptAppHeap,
SLList, StrictSegHeap with the Kingsley size classes, ANSIWrapper, PerThreadHeap
and xmemory. Arena headers, object headers and the links of free lists are in
memory; the metadata before `_start`, which no allocated block overlaps, is not. -/

namespace ProcessAsThread.Heap

open Library

/-- The two ways a call ends the process: `exit(-1)`, and `abort()` or a failed assertion. -/
inductive Halt where
  | exit
  | abort
  deriving DecidableEq, Repr

abbrev Outcome := Except Halt

def check (condition : Prop) [Decidable condition] : Outcome Unit :=
  if condition then .ok () else .error .abort

/-- `size_t` arithmetic. -/
def sizeT (value : Nat) : Nat := value % 2 ^ 64

def pageSize : Nat := 4096

def userHeapBase : Nat := 0x40000000

def userHeapSize : Nat := 1048576 * 8192 * 8

def numHeaps : Nat := 128

/-- `PHEAP_CHUNK`. -/
def chunkSize : Nat := 1048576

/-- `sizeof(PerThreadHeap)`: each heap is padded to a page. -/
def metasize : Nat := numHeaps * 4096

structure XHeap where
  heapStart : Nat
  heapEnd : Nat
  position : Nat
  remaining : Nat
  deriving DecidableEq, Repr

/-- `xheap::initialize`, with `ptr` the address of the mapping. -/
def XHeap.create (ptr startsize metasize : Nat) : XHeap :=
  let start := sizeT (ptr + metasize)
  ⟨start, sizeT (start + startsize), start, startsize⟩

def XHeap.malloc (heap : XHeap) (sz : Nat) : Outcome (Nat × XHeap) :=
  let sz := pageSize * (sizeT (sz + (pageSize - 1)) / pageSize)
  if heap.remaining < sz then .error .exit
  else .ok (heap.position,
    { heap with remaining := heap.remaining - sz, position := heap.position + sz })

/-- What all heaps of the process share: its memory and the bump allocator. -/
structure Space where
  memory : Memory
  xheap : XHeap

/-- Both `align` functions: `(sz + 7) & ~7`. -/
def align (sz : Nat) : Nat := sizeT (sz + 7) / 8 * 8

namespace Arena

/-- `sizeof(Arena)`: `_remaining`, `_nextArena` and `_arenaSpace`. -/
def size : Nat := 24

def sizeRemaining (memory : Memory) (arena : Nat) : Nat := memory.load arena 8

def create (memory : Memory) (arena sz : Nat) : Memory :=
  ((memory.store arena sz 8).store (arena + 8) 0 8).store (arena + 16) (arena + size) 8

def setNextArena (memory : Memory) (arena next : Nat) : Memory := memory.store (arena + 8) next 8

def malloc (memory : Memory) (arena sz : Nat) : Nat × Memory :=
  if sizeRemaining memory arena < sz then (0, memory)
  else
    let memory := memory.store arena (sizeRemaining memory arena - sz) 8
    let ptr := memory.load (arena + 16) 8
    (ptr, memory.store (arena + 16) (sizeT (ptr + sz)) 8)

end Arena

/-- Arenas by address; 0 is NULL. -/
structure ZoneHeap where
  currentArena : Nat
  pastArenas : Nat
  deriving DecidableEq, Repr

namespace ZoneHeap

def slowMalloc (space : Space) (zone : ZoneHeap) (sz : Nat) : Outcome (Nat × Space × ZoneHeap) := do
  check (zone.currentArena = 0 ∨ Arena.sizeRemaining space.memory zone.currentArena < sz)
  let memory := if zone.currentArena = 0 then space.memory
    else Arena.setNextArena space.memory zone.currentArena zone.pastArenas
  let pastArenas := if zone.currentArena = 0 then zone.pastArenas else zone.currentArena
  let allocSize := if chunkSize < sz then sz else chunkSize
  let (buf, xheap) ← space.xheap.malloc (sizeT (Arena.size + allocSize))
  if buf = 0 then return (0, ⟨memory, xheap⟩, ⟨0, pastArenas⟩)
  else
    let (ptr, memory) := Arena.malloc (Arena.create memory buf allocSize) buf sz
    return (ptr, ⟨memory, xheap⟩, ⟨buf, pastArenas⟩)

def malloc (space : Space) (zone : ZoneHeap) (sz : Nat) : Outcome (Nat × Space × ZoneHeap) :=
  let sz := align sz
  if zone.currentArena ≠ 0 ∧ sz ≤ Arena.sizeRemaining space.memory zone.currentArena then
    let (ptr, memory) := Arena.malloc space.memory zone.currentArena sz
    .ok (ptr, { space with memory := memory }, zone)
  else slowMalloc space zone sz

end ZoneHeap

namespace ObjectHeader

/-- `sizeof(objectHeader)`: `_magic` and `_size`. -/
def size : Nat := 16

def magic : Nat := 0xCAFEBABE

def create (memory : Memory) (header sz : Nat) : Memory :=
  (memory.store header magic 8).store (header + 8) sz 8

/-- Reads `_size` after `sanityCheck`. -/
def getSize (memory : Memory) (header : Nat) : Outcome Nat := do
  check (memory.load header 8 = magic)
  return memory.load (header + 8) 8

end ObjectHeader

namespace AdaptAppHeap

def getObject (ptr : Nat) : Nat := sizeT (ptr + (2 ^ 64 - ObjectHeader.size))

def getPointer (header : Nat) : Nat := sizeT (header + ObjectHeader.size)

def getSize (memory : Memory) (ptr : Nat) : Outcome Nat := ObjectHeader.getSize memory (getObject ptr)

/-- `malloc` over a zone heap. -/
def malloc (space : Space) (zone : ZoneHeap) (sz : Nat) : Outcome (Nat × Space × ZoneHeap) := do
  let (ptr, space, zone) ← zone.malloc space (sizeT (sz + ObjectHeader.size))
  if ptr = 0 then return (0, space, zone)
  else
    let memory := ObjectHeader.create space.memory ptr sz
    let newptr := getPointer ptr
    check ((← getSize memory newptr) = sz)
    return (newptr, { space with memory := memory }, zone)

end AdaptAppHeap

namespace SLList

/-- The entry at the head, and the new head. -/
def get (memory : Memory) (head : Nat) : Nat × Nat :=
  if head = 0 then (0, head) else (head, memory.load head 8)

def insert (memory : Memory) (head entry : Nat) : Memory × Nat := (memory.store entry head 8, entry)

end SLList

namespace Kingsley

def numBins : Int := 29

def cl : List Int := [0, 1, 2, 2, 3, 3, 3, 3, 4, 4, 4, 4, 4, 4, 4, 4]

/-- `1UL << (i+3)`. -/
def class2Size (i : Int) : Nat := sizeT (2 ^ (i + 3).toNat)

/-- The loop `while (sz1 > 7)`, which halves a 64-bit value. -/
def countClass : Nat → Nat → Int → Int
  | 0, _, c => c
  | fuel + 1, sz1, c => if 7 < sz1 then countClass fuel (sz1 / 2) (c + 1) else c

def size2Class (sz : Nat) : Outcome Int := do
  let sz := if sz < 8 then 8 else sz
  let c := if sz ≤ 128 then cl.getD ((sz - 1) / 8) 0 else countClass 64 ((sz - 1) / 32) 5
  check (sz ≤ class2Size c)
  return c

end Kingsley

/-- One `KingsleyStyleHeap`: its zone heap, and the head of the free list of each bin. -/
structure KingsleyHeap where
  bigheap : ZoneHeap
  bins : Int → Nat
  memoryHeld : Nat

namespace StrictSegHeap

def maxObjectSize : Nat := Kingsley.class2Size (Kingsley.numBins - 1)

/-- `bigheap.malloc`. -/
def bigMalloc (space : Space) (heap : KingsleyHeap) (sz : Nat) :
    Outcome (Nat × Space × KingsleyHeap) := do
  let (ptr, space, bigheap) ← AdaptAppHeap.malloc space heap.bigheap sz
  return (ptr, space, { heap with bigheap := bigheap })

def malloc (space : Space) (heap : KingsleyHeap) (sz : Nat) :
    Outcome (Nat × Space × KingsleyHeap) := do
  if sz ≤ maxObjectSize then
    let sizeClass ← Kingsley.size2Class sz
    let objectSize := Kingsley.class2Size sizeClass
    check (sz ≤ objectSize)
    check ((← Kingsley.size2Class objectSize) = sizeClass)
    check (0 ≤ sizeClass ∧ sizeClass < Kingsley.numBins)
    let (ptr, head) := SLList.get space.memory (heap.bins sizeClass)
    if ptr = 0 then bigMalloc space heap objectSize
    else return (ptr, space, { heap with bins := Function.update heap.bins sizeClass head })
  else bigMalloc space heap sz

/-- The loop that lowers the size class, at most once for each class and each
of the three shifts below class 0. -/
def lowerClass (objectSize : Nat) : Nat → Int → Int
  | 0, c => c
  | fuel + 1, c => if objectSize < Kingsley.class2Size c then lowerClass objectSize fuel (c - 1) else c

/-- The zone heap's own `free` does nothing. -/
def free (space : Space) (heap : KingsleyHeap) (ptr : Nat) : Outcome (Space × KingsleyHeap) := do
  let objectSize ← AdaptAppHeap.getSize space.memory ptr
  if objectSize = 0 ∨ maxObjectSize < objectSize then return (space, heap)
  else
    let objectSizeClass ← Kingsley.size2Class objectSize
    check (0 ≤ objectSizeClass ∧ objectSizeClass < Kingsley.numBins)
    check (objectSize ≤ Kingsley.class2Size objectSizeClass)
    let objectSizeClass := lowerClass objectSize 32 objectSizeClass
    check (Kingsley.class2Size objectSizeClass ≤ objectSize)
    check (0 < objectSizeClass → Kingsley.class2Size (objectSizeClass - 1) ≤ objectSize)
    let (memory, head) := SLList.insert space.memory (heap.bins objectSizeClass) ptr
    return ({ space with memory := memory },
      { heap with
        bins := Function.update heap.bins objectSizeClass head
        memoryHeld := sizeT (heap.memoryHeld + objectSize) })

end StrictSegHeap

namespace KingsleyHeap

def new : KingsleyHeap := ⟨⟨0, 0⟩, fun _ => 0, 0⟩

/-- `ANSIWrapper::malloc`. -/
def malloc (space : Space) (heap : KingsleyHeap) (sz : Nat) :
    Outcome (Nat × Space × KingsleyHeap) :=
  StrictSegHeap.malloc space heap (align (if sz < 16 then 16 else sz))

def free (space : Space) (heap : KingsleyHeap) (ptr : Nat) : Outcome (Space × KingsleyHeap) :=
  if ptr = 0 then .ok (space, heap) else StrictSegHeap.free space heap ptr

/-- No field of the heap is read: the size is in the object's header. -/
def getSize (_heap : KingsleyHeap) (memory : Memory) (ptr : Nat) : Outcome Nat :=
  if ptr = 0 then .ok 0 else AdaptAppHeap.getSize memory ptr

end KingsleyHeap

/-- `xmemory` with its `PerThreadHeap`. -/
structure Xmemory where
  space : Space
  heaps : Nat → KingsleyHeap

namespace Xmemory

/-- `_heap.initialize(USER_HEAP_SIZE)`, over any contents of memory. -/
def create (memory : Memory) : Xmemory :=
  ⟨⟨memory, XHeap.create (userHeapBase - metasize) userHeapSize metasize⟩, fun _ => .new⟩

def malloc (xmemory : Xmemory) (heapid sz : Nat) : Outcome (Nat × Xmemory) := do
  let (ptr, space, heap) ← (xmemory.heaps heapid).malloc xmemory.space sz
  return (ptr, ⟨space, Function.update xmemory.heaps heapid heap⟩)

def free (xmemory : Xmemory) (heapid ptr : Nat) : Outcome Xmemory :=
  if ptr = 0 then .ok xmemory
  else do
    let (space, heap) ← (xmemory.heaps heapid).free xmemory.space ptr
    return ⟨space, Function.update xmemory.heaps heapid heap⟩

def getSize (xmemory : Xmemory) (ptr : Nat) : Outcome Nat :=
  (xmemory.heaps 0).getSize xmemory.space.memory ptr

def setMemory (xmemory : Xmemory) (memory : Memory) : Xmemory :=
  { xmemory with space := { xmemory.space with memory := memory } }

/-- The copy is as long as the recorded size allows, which may be more than was asked for. -/
def realloc (xmemory : Xmemory) (heapid ptr sz : Nat) : Outcome (Nat × Xmemory) := do
  let s ← xmemory.getSize ptr
  let (newptr, xmemory) ← xmemory.malloc heapid sz
  let xmemory :=
    if newptr ≠ 0 ∧ s ≠ 0 then
      let copySz := if s < sz then s else sz
      xmemory.setMemory (xmemory.space.memory.copy newptr ptr copySz)
    else xmemory
  let xmemory ← xmemory.free heapid ptr
  return (newptr, xmemory)

/-- `boundary & (wordSize-1)` is the remainder by 8. -/
def memalign (xmemory : Xmemory) (heapid boundary size : Nat) : Outcome (Nat × Xmemory) := do
  check (¬ (boundary < 8 ∨ boundary % 8 ≠ 0))
  xmemory.malloc heapid (sizeT (boundary + size))

end Xmemory

end ProcessAsThread.Heap
