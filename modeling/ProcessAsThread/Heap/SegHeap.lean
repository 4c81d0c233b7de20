import ProcessAsThread.Library.Bitmap
import ProcessAsThread.Heap.SizeClass

/-! SegHeap, which keeps a bit for each bin that may have an object and lets `malloc` look
for the next bit instead of the next bin. Whatever calls are made, it serves what a search
through all bins would serve. -/

namespace ProcessAsThread.Heap

open Library

/-- The template parameters that choose a bin for a size. -/
structure SizeClasses where
  numBins : Nat
  getSizeClass : Nat → Outcome Int
  getClassMaxSize : Int → Nat

namespace SizeClasses

def maxObjectSize (classes : SizeClasses) : Nat := classes.getClassMaxSize (classes.numBins - 1)

/-- `MAX_BITS / BITS_PER_ULONG`. -/
def numUlongs (classes : SizeClasses) : Nat := (classes.numBins + 31) / 32

/-- Each size up to the largest class has a class it fits in, and larger classes hold larger objects. -/
structure Lawful (classes : SizeClasses) : Prop where
  nonempty : 0 < classes.numBins
  getSizeClass : ∀ sz ≤ classes.maxObjectSize, ∃ c : Nat, c < classes.numBins ∧
    classes.getSizeClass sz = .ok c ∧ sz ≤ classes.getClassMaxSize c
  larger : ∀ c c' : Nat, c < c' → c' < classes.numBins → classes.getClassMaxSize c < classes.getClassMaxSize c'

end SizeClasses

/-- The template parameters that hold objects: the little heaps by bin, and the big heap.
They work on a state that they may share, and may end the process. -/
structure Subheaps (World : Type) where
  malloc : Nat → Nat → World → Outcome (Option Nat × World)
  free : Nat → Nat → World → Outcome World
  clear : Nat → World → Outcome World
  getSize : World → Nat → Outcome Nat
  bigMalloc : Nat → World → Outcome (Option Nat × World)
  bigFree : Nat → World → Outcome World
  bigClear : World → Outcome World

/-- A little heap holds what was freed to it. One that has served nothing is empty, and an
empty one serves nothing, whatever the size is, until an object is freed to it. -/
structure Subheaps.Lawful {World : Type} (sub : Subheaps World) (empty : Nat → World → Prop) : Prop where
  malloc_empty : ∀ {bin sz world}, empty bin world → sub.malloc bin sz world = .ok (none, world)
  empty_of_none : ∀ {bin sz world after}, sub.malloc bin sz world = .ok (none, after) → empty bin after
  malloc_keeps : ∀ {bin other sz world ptr after}, sub.malloc bin sz world = .ok (ptr, after) →
    empty other world → empty other after
  free_keeps : ∀ {bin other ptr world after}, sub.free bin ptr world = .ok after → other ≠ bin →
    empty other world → empty other after
  clear_empty : ∀ {bin world after}, sub.clear bin world = .ok after → empty bin after
  clear_keeps : ∀ {bin other world after}, sub.clear bin world = .ok after →
    empty other world → empty other after
  bigMalloc_keeps : ∀ {other sz world ptr after}, sub.bigMalloc sz world = .ok (ptr, after) →
    empty other world → empty other after
  bigFree_keeps : ∀ {other ptr world after}, sub.bigFree ptr world = .ok after →
    empty other world → empty other after
  bigClear_keeps : ∀ {other world after}, sub.bigClear world = .ok after →
    empty other world → empty other after

structure SegHeap (World : Type) where
  world : World
  binmap : Nat → BitVec 64
  memoryHeld : Nat

namespace SegHeap

variable {World : Type}

def create (world : World) : SegHeap World := ⟨world, fun _ => 0#64, 0⟩

def idx2block (classes : SizeClasses) (i : Nat) : Outcome Nat := do
  check (i / 32 < classes.numUlongs)
  return i / 32

/-- An `unsigned int`, widened. -/
def idx2bit (i : Nat) : BitVec 64 := (1#32 <<< (i % 32)).setWidth 64

def markBin (seg : SegHeap World) (i : Nat) : SegHeap World :=
  { seg with binmap := Function.update seg.binmap (i / 32) (seg.binmap (i / 32) ||| idx2bit i) }

/-- The loop `do .. while ((map = binmap[block]) == 0)`, and NULL for its way out. -/
def nextBlock (classes : SizeClasses) (binmap : Nat → BitVec 64) : Nat → Nat → Option Nat
  | 0, _ => none
  | fuel + 1, block =>
    if classes.numUlongs ≤ block + 1 then none
    else if binmap (block + 1) = 0#64 then nextBlock classes binmap fuel (block + 1)
    else some (block + 1)

/-- The `if` at the head of the loop: `idx`, `block`, `map` and `bit` after it. -/
def skipBlock (classes : SizeClasses) (binmap : Nat → BitVec 64) (idx block : Nat) (map bit : BitVec 64) :
    Option (Nat × Nat × BitVec 64 × BitVec 64) :=
  if map < bit ∨ bit = 0#64 then
    (nextBlock classes binmap classes.numUlongs block).map fun block => (block * 32, block, binmap block, 1#64)
  else some (idx, block, map, bit)

/-- The loop `while ((bit & map) == 0)`. A bit is shifted out after 64 turns. -/
def findBit (map : BitVec 64) : Nat → Nat → BitVec 64 → Outcome (Nat × BitVec 64)
  | 0, _, _ => .error .abort
  | fuel + 1, idx, bit =>
    if bit &&& map = 0#64 then do
      check (bit <<< 1 ≠ 0#64)
      findBit map fuel (idx + 1) (bit <<< 1)
    else .ok (idx, bit)

def getMemory (sub : Subheaps World) (seg : SegHeap World) (sz : Nat) : Outcome (Option Nat × SegHeap World) := do
  let (ptr, world) ← sub.bigMalloc sz seg.world
  return (ptr, { seg with world := world })

/-- The loop `for (;;)`. Each turn but the last goes on behind another bin. -/
def search (classes : SizeClasses) (sub : Subheaps World) (sz : Nat) :
    Nat → SegHeap World → Nat → Nat → BitVec 64 → BitVec 64 → Outcome (Option Nat × SegHeap World)
  | 0, _, _, _, _, _ => .error .abort
  | fuel + 1, seg, idx, block, map, bit =>
    match skipBlock classes seg.binmap idx block map bit with
    | none => seg.getMemory sub sz
    | some (idx, block, map, bit) => do
      let (idx, bit) ← findBit map 65 idx bit
      check (idx < classes.numBins)
      let (ptr, world) ← sub.malloc idx sz seg.world
      match ptr with
      | none =>
        let map := map &&& ~~~bit
        let seg := { seg with world := world, binmap := Function.update seg.binmap block map }
        search classes sub sz fuel seg (idx + 1) block map (bit <<< 1)
      | some ptr => return (some ptr, { seg with world := world })

def malloc (classes : SizeClasses) (sub : Subheaps World) (seg : SegHeap World) (sz : Nat) :
    Outcome (Option Nat × SegHeap World) := do
  if classes.maxObjectSize < sz then seg.getMemory sub sz
  else
    let sc ← classes.getSizeClass sz
    check (0 ≤ sc)
    check (sc < classes.numBins)
    let idx := sc.toNat
    let block ← idx2block classes idx
    search classes sub sz (classes.numBins + 1) seg idx block (seg.binmap block) (idx2bit idx)

/-- The loop `while (getClassMaxSize(objectSizeClass) > objectSize)`. -/
def lowerClass (classes : SizeClasses) (objectSize : Nat) : Nat → Int → Int
  | 0, c => c
  | fuel + 1, c =>
    if objectSize < classes.getClassMaxSize c then lowerClass classes objectSize fuel (c - 1) else c

/-- A class that was lowered below 0 is no index: such a call has no result here. -/
def free (classes : SizeClasses) (sub : Subheaps World) (seg : SegHeap World) (ptr : Nat) :
    Outcome (SegHeap World) := do
  let objectSize ← sub.getSize seg.world ptr
  if objectSize = 0 then return seg
  else if classes.maxObjectSize < objectSize then return { seg with world := ← sub.bigFree ptr seg.world }
  else
    let objectSizeClass ← classes.getSizeClass objectSize
    check (0 ≤ objectSizeClass)
    check (objectSizeClass < classes.numBins)
    check (objectSize ≤ classes.getClassMaxSize objectSizeClass)
    let objectSizeClass := lowerClass classes objectSize (objectSizeClass.toNat + 1) objectSizeClass
    check (0 ≤ objectSizeClass ∧ classes.getClassMaxSize objectSizeClass ≤ objectSize)
    check (0 < objectSizeClass → classes.getClassMaxSize (objectSizeClass - 1) ≤ objectSize)
    let seg := { seg with world := ← sub.free objectSizeClass.toNat ptr seg.world }
    let seg := seg.markBin objectSizeClass.toNat
    return { seg with memoryHeld := sizeT (seg.memoryHeld + objectSize) }

def clearBins (sub : Subheaps World) (bins : Nat) (world : World) : Outcome World :=
  (List.range bins).foldlM (fun world bin => sub.clear bin world) world

def clear (classes : SizeClasses) (sub : Subheaps World) (seg : SegHeap World) : Outcome (SegHeap World) := do
  let world ← clearBins sub classes.numBins seg.world
  return ⟨← sub.bigClear world, fun block => if block < classes.numUlongs then 0#64 else seg.binmap block, 0⟩

inductive Operation where
  | malloc (sz : Nat)
  | free (ptr : Nat)
  | clear
  deriving DecidableEq, Repr

/-- The pointer is the one that `malloc` returns. -/
def step (classes : SizeClasses) (sub : Subheaps World) (seg : SegHeap World) :
    Operation → Outcome (Option Nat × SegHeap World)
  | .malloc sz => seg.malloc classes sub sz
  | .free ptr => do return (none, ← seg.free classes sub ptr)
  | .clear => do return (none, ← seg.clear classes sub)

def run (classes : SizeClasses) (sub : Subheaps World) :
    SegHeap World → List Operation → Outcome (List (Option Nat) × SegHeap World)
  | seg, [] => .ok ([], seg)
  | seg, operation :: rest => do
    let (ptr, seg) ← seg.step classes sub operation
    let (ptrs, seg) ← run classes sub seg rest
    return (ptr :: ptrs, seg)

end SegHeap

/-- A segregated-fits heap with no bitmap: every bin from a size's class on is asked, and an
object is put into the largest class it fills. -/
structure PlainHeap (World : Type) where
  world : World
  memoryHeld : Nat

namespace PlainHeap

variable {World : Type}

/-- Ask `left` bins from `bin` on, and then the big heap. -/
def search (sub : Subheaps World) (sz : Nat) : Nat → Nat → PlainHeap World → Outcome (Option Nat × PlainHeap World)
  | 0, _, plain => do
    let (ptr, world) ← sub.bigMalloc sz plain.world
    return (ptr, { plain with world := world })
  | left + 1, bin, plain => do
    let (ptr, world) ← sub.malloc bin sz plain.world
    match ptr with
    | none => search sub sz left (bin + 1) { plain with world := world }
    | some ptr => return (some ptr, { plain with world := world })

/-- The bins from a size's class on. None are for a size above the largest class. -/
def firstBin (classes : SizeClasses) (sz : Nat) : Nat :=
  if classes.maxObjectSize < sz then classes.numBins
  else
    match classes.getSizeClass sz with
    | .ok c => c.toNat
    | .error _ => classes.numBins

def malloc (classes : SizeClasses) (sub : Subheaps World) (plain : PlainHeap World) (sz : Nat) :
    Outcome (Option Nat × PlainHeap World) :=
  let bin := firstBin classes sz
  plain.search sub sz (classes.numBins - bin) bin

/-- The largest class that an object fills. -/
def filled (classes : SizeClasses) (objectSize : Nat) : Nat :=
  Nat.findGreatest (fun c => classes.getClassMaxSize c ≤ objectSize) (classes.numBins - 1)

def free (classes : SizeClasses) (sub : Subheaps World) (plain : PlainHeap World) (ptr : Nat) :
    Outcome (PlainHeap World) := do
  let objectSize ← sub.getSize plain.world ptr
  if objectSize = 0 then return plain
  else if classes.maxObjectSize < objectSize then return { plain with world := ← sub.bigFree ptr plain.world }
  else return ⟨← sub.free (filled classes objectSize) ptr plain.world, sizeT (plain.memoryHeld + objectSize)⟩

def clear (classes : SizeClasses) (sub : Subheaps World) (plain : PlainHeap World) : Outcome (PlainHeap World) := do
  let world ← SegHeap.clearBins sub classes.numBins plain.world
  return ⟨← sub.bigClear world, 0⟩

def step (classes : SizeClasses) (sub : Subheaps World) (plain : PlainHeap World) :
    SegHeap.Operation → Outcome (Option Nat × PlainHeap World)
  | .malloc sz => plain.malloc classes sub sz
  | .free ptr => do return (none, ← plain.free classes sub ptr)
  | .clear => do return (none, ← plain.clear classes sub)

def run (classes : SizeClasses) (sub : Subheaps World) :
    PlainHeap World → List SegHeap.Operation → Outcome (List (Option Nat) × PlainHeap World)
  | plain, [] => .ok ([], plain)
  | plain, operation :: rest => do
    let (ptr, plain) ← plain.step classes sub operation
    let (ptrs, plain) ← run classes sub plain rest
    return (ptr :: ptrs, plain)

/-- An object that is freed fills the smallest class. -/
def fills (classes : SizeClasses) (sub : Subheaps World) (plain : PlainHeap World) : SegHeap.Operation → Bool
  | .free ptr =>
    match sub.getSize plain.world ptr with
    | .ok objectSize => objectSize = 0 ∨ classes.getClassMaxSize 0 ≤ objectSize
    | .error _ => true
  | _ => true

/-- Every object that is freed in a run fills the smallest class, as those of the heap do. -/
def filling (classes : SizeClasses) (sub : Subheaps World) : PlainHeap World → List SegHeap.Operation → Bool
  | _, [] => true
  | plain, operation :: rest => plain.fills classes sub operation &&
    match plain.step classes sub operation with
    | .ok (_, plain) => filling classes sub plain rest
    | .error _ => true

end PlainHeap

namespace SegHeap

variable {World : Type} {classes : SizeClasses} {sub : Subheaps World} {empty : Nat → World → Prop}
  {seg : SegHeap World} {words : Nat → BitVec 64} {idx block : Nat} {map bit : BitVec 64}

private theorem idx2bit_eq (i : Nat) : idx2bit i = BitVec.twoPow 64 (i % 32) := by
  have inside : i % 32 < 32 := Nat.mod_lt i (by omega)
  refine BitVec.eq_of_toNat_eq ?_
  rw [idx2bit, ← BitVec.twoPow_eq, BitVec.toNat_setWidth, BitVec.toNat_twoPow_of_lt inside,
    BitVec.toNat_twoPow_of_lt (by omega)]
  exact Nat.mod_eq_of_lt (Nat.pow_lt_pow_right (by omega) (by omega))

theorem markBin_binmap (seg : SegHeap World) (i : Nat) : (seg.markBin i).binmap = Bitmap.mark 32 seg.binmap i := by
  rw [markBin, Bitmap.mark, idx2bit_eq]

/-- Where a search stands: it has read the word, and the bit is that of the bin. -/
structure At (words : Nat → BitVec 64) (idx block : Nat) (map bit : BitVec 64) : Prop where
  map : map = words block
  place : ∃ place ≤ 32, idx = block * 32 + place ∧ bit = BitVec.twoPow 64 place

private theorem nextBlock_none {fuel : Nat} (enough : classes.numUlongs ≤ block + fuel)
    (last : nextBlock classes words fuel block = none) (other : Nat) (behind : block < other)
    (inside : other < classes.numUlongs) : words other = 0#64 := by
  induction fuel generalizing block with
  | zero => omega
  | succ fuel ih =>
    rw [nextBlock] at last
    split at last
    · omega
    · split at last
      · rename_i zero
        rcases Nat.eq_or_lt_of_le (show block + 1 ≤ other from behind) with next | later
        · rw [← next, zero]
        · exact ih (by omega) last later
      · cases last

private theorem nextBlock_some {fuel next : Nat} (found : nextBlock classes words fuel block = some next) :
    block < next ∧ next < classes.numUlongs ∧ words next ≠ 0#64 ∧
      ∀ other, block < other → other < next → words other = 0#64 := by
  induction fuel generalizing block with
  | zero => cases found
  | succ fuel ih =>
    rw [nextBlock] at found
    split at found
    · cases found
    · split at found
      · rename_i zero
        obtain ⟨behind, inside, stocked, between⟩ := ih found
        refine ⟨by omega, inside, stocked, fun other above below => ?_⟩
        rcases Nat.eq_or_lt_of_le (show block + 1 ≤ other from above) with next | later
        · rw [← next, zero]
        · exact between other later below
      · cases Option.some.inj found
        refine ⟨by omega, by omega, by assumption, fun other above below => by omega⟩

theorem At.passed (standing : At words idx block map bit) : map < bit ∨ bit = 0#64 ↔
    ∀ place, idx ≤ block * 32 + place → (words block).getLsbD place = false := by
  obtain ⟨place, small, rfl, rfl⟩ := standing.place
  rw [standing.map, or_iff_left (twoPow_ne_zero (by omega)), lt_twoPow (by omega)]
  exact forall_congr' fun other => by rw [Nat.add_le_add_iff_left]

private theorem block_inside (within : Bitmap.Within 32 classes.numBins words) {place : Nat}
    (present : (words block).getLsbD place = true) : block < classes.numUlongs := by
  have below := (within block place present).2
  rw [SizeClasses.numUlongs]
  omega

private theorem skipBlock_none (within : Bitmap.Within 32 classes.numBins words)
    (standing : At words idx block map bit)
    (last : skipBlock classes words idx block map bit = none) : ∀ i ∈ Bitmap.members 32 words, i < idx := by
  intro i member
  have inside := block_inside within member
  rw [skipBlock] at last
  split at last
  · rename_i passed
    have ended := Option.map_eq_none_iff.mp last
    rcases Nat.lt_trichotomy (i / 32) block with before | here | behind
    · obtain ⟨place, _, rfl, _⟩ := standing.place
      omega
    · by_contra above
      have missing := standing.passed.mp passed (i % 32) (by omega)
      rw [← here] at missing
      exact Bool.false_ne_true (missing.symm.trans member)
    · have zero := nextBlock_none (by omega) ended _ behind inside
      rw [Bitmap.mem_members_iff, zero] at member
      simp at member
  · cases last

private theorem skipBlock_some (standing : At words idx block map bit)
    (found : skipBlock classes words idx block map bit = some (idx', block', map', bit')) :
    At words idx' block' map' bit' ∧ idx ≤ idx' ∧ (∀ i ∈ Bitmap.members 32 words, idx ≤ i → idx' ≤ i) ∧
      ∃ place, idx' ≤ block' * 32 + place ∧ (words block').getLsbD place = true := by
  rw [skipBlock] at found
  split at found
  · rename_i passed
    obtain ⟨next, reached, moved⟩ := Option.map_eq_some_iff.mp found
    cases moved
    obtain ⟨behind, inside, stocked, between⟩ := nextBlock_some reached
    refine ⟨⟨rfl, 0, by omega, rfl, BitVec.twoPow_zero.symm⟩, ?_, ?_, ?_⟩
    · obtain ⟨place, small, rfl, _⟩ := standing.place
      omega
    · intro i member above
      by_contra below
      rcases Nat.lt_trichotomy (i / 32) block with before | here | later
      · obtain ⟨place, _, rfl, _⟩ := standing.place
        omega
      · have missing := standing.passed.mp passed (i % 32) (by omega)
        rw [← here] at missing
        exact Bool.false_ne_true (missing.symm.trans member)
      · have zero := between _ later (by omega)
        rw [Bitmap.mem_members_iff, zero] at member
        simp at member
    · by_contra absent
      refine stocked (BitVec.eq_of_getLsbD_eq fun place _ => ?_)
      rw [BitVec.getLsbD_zero]
      by_contra present
      exact absent ⟨place, by omega, by simpa using present⟩
  · rename_i passed
    cases Option.some.inj found
    refine ⟨standing, Nat.le_refl _, fun _ _ above => above, ?_⟩
    rw [standing.passed] at passed
    push Not at passed
    simpa using passed

/-- The loop stops at the lowest bit from here on. -/
theorem findBit_eq {place first fuel : Nat} (above : place ≤ first) (inside : first < 64)
    (enough : first < place + fuel) (present : map.getLsbD first = true)
    (lowest : ∀ other, place ≤ other → other < first → map.getLsbD other = false) (idx : Nat) :
    findBit map fuel idx (BitVec.twoPow 64 place) = .ok (idx + (first - place), BitVec.twoPow 64 first) := by
  induction fuel generalizing place idx with
  | zero => omega
  | succ fuel ih =>
    rw [findBit]
    rcases Nat.eq_or_lt_of_le above with same | later
    · subst same
      have here : ¬ BitVec.twoPow 64 place &&& map = 0#64 := fun none =>
        Bool.false_ne_true ((twoPow_and_eq_zero.mp none).symm.trans present)
      rw [if_neg here, Nat.sub_self, Nat.add_zero]
    · rw [if_pos (twoPow_and_eq_zero.mpr (lowest place (Nat.le_refl _) later)), twoPow_shiftLeft_one,
        check_true (twoPow_ne_zero (by omega)), ok_bind,
        ih later (by omega) (fun other from_ below => lowest other (by omega) below)]
      congr 2
      omega

private theorem findBit_next (within : Bitmap.Within 32 classes.numBins words)
    (standing : At words idx block map bit)
    (found : skipBlock classes words idx block map bit = some (idx', block', map', bit')) :
    ∃ i ∈ Bitmap.members 32 words, findBit map' 65 idx' bit' = .ok (i, BitVec.twoPow 64 (i % 32)) ∧
      block' = i / 32 ∧ map' = words (i / 32) ∧ idx ≤ i ∧
      ∀ other, idx ≤ other → other < i → other ∉ Bitmap.members 32 words := by
  obtain ⟨moved, forward, passed, place, ahead, present⟩ := skipBlock_some standing found
  obtain ⟨start, _, here, rfl⟩ := moved.place
  have some : ∃ place, start ≤ place ∧ (words block').getLsbD place = true := ⟨place, by omega, present⟩
  obtain ⟨first, above, there, lowest⟩ := exists_lowest some
  have small : first < 32 := (within _ _ there).1
  have quotient : (block' * 32 + first) / 32 = block' := by omega
  have remainder : (block' * 32 + first) % 32 = first := by omega
  refine ⟨block' * 32 + first, (Bitmap.mem_members small).mpr there, ?_, quotient.symm, ?_, by omega, ?_⟩
  · rw [moved.map, findBit_eq above (by omega) (by omega) there lowest, remainder]
    congr 2
    omega
  · rw [moved.map, quotient]
  · intro other from_ below member
    have after := passed other member from_
    obtain ⟨offset, rfl⟩ : ∃ offset, other = block' * 32 + offset := ⟨other - block' * 32, by omega⟩
    rw [Bitmap.mem_members (by omega), lowest offset (by omega) (by omega)] at member
    exact Bool.false_ne_true member

/-- A bin whose bit is not set is empty. -/
structure Marked (classes : SizeClasses) (empty : Nat → World → Prop) (seg : SegHeap World) : Prop where
  within : Bitmap.Within 32 classes.numBins seg.binmap
  unmarked : ∀ bin < classes.numBins, bin ∉ Bitmap.members 32 seg.binmap → empty bin seg.world

def plain (seg : SegHeap World) : PlainHeap World := ⟨seg.world, seg.memoryHeld⟩

/-- Two calls that end the process in the same way, or go on with the same result and heap. -/
inductive Agrees {α : Type} (classes : SizeClasses) (empty : Nat → World → Prop) :
    Outcome (α × SegHeap World) → Outcome (α × PlainHeap World) → Prop where
  | ok {result : α} {seg : SegHeap World} (marked : seg.Marked classes empty) :
    Agrees classes empty (.ok (result, seg)) (.ok (result, seg.plain))
  | error {halt : Halt} : Agrees classes empty (.error halt) (.error halt)

theorem Agrees.bind {α β : Type} {call : Outcome (α × SegHeap World)} {call' : Outcome (α × PlainHeap World)}
    {next : α × SegHeap World → Outcome (β × SegHeap World)}
    {next' : α × PlainHeap World → Outcome (β × PlainHeap World)} (agrees : Agrees classes empty call call')
    (goes : ∀ result seg, seg.Marked classes empty → call = .ok (result, seg) →
      Agrees classes empty (next (result, seg)) (next' (result, seg.plain))) :
    Agrees classes empty (call >>= next) (call' >>= next') := by
  cases agrees with
  | ok marked => exact goes _ _ marked rfl
  | error => exact .error

private theorem Agrees.map_eq {α : Type} {call : Outcome (α × SegHeap World)}
    {call' : Outcome (α × PlainHeap World)}
    (agrees : Agrees classes empty call call') : call.map (Prod.map id plain) = call' := by
  cases agrees <;> rfl

theorem getMemory_agrees (lawful : sub.Lawful empty) (marked : seg.Marked classes empty) (sz bin : Nat) :
    Agrees classes empty (seg.getMemory sub sz) (seg.plain.search sub sz 0 bin) := by
  rw [getMemory, PlainHeap.search, plain]
  cases served : sub.bigMalloc sz seg.world with
  | error => exact .error
  | ok result =>
    exact .ok ⟨marked.within, fun bin below absent => lawful.bigMalloc_keeps served (marked.unmarked bin below absent)⟩

/-- Empty bins may be left out of a search. -/
theorem search_empty (lawful : sub.Lawful empty) {sz bin last : Nat} {plain : PlainHeap World} (ordered : bin ≤ last)
    (inside : last ≤ classes.numBins) (none : ∀ other, bin ≤ other → other < last → empty other plain.world) :
    plain.search sub sz (classes.numBins - bin) bin = plain.search sub sz (classes.numBins - last) last := by
  induction last, ordered using Nat.le_induction with
  | base => rfl
  | succ last above ih =>
    rw [ih (by omega) fun other first below => none other first (by omega),
      show classes.numBins - last = classes.numBins - (last + 1) + 1 by omega, PlainHeap.search,
      lawful.malloc_empty (none last above (by omega))]
    rfl

theorem search_agrees (lawful : sub.Lawful empty) (sz fuel : Nat) (marked : seg.Marked classes empty)
    (standing : At seg.binmap idx block map bit) (inside : idx ≤ classes.numBins)
    (enough : classes.numBins < fuel + idx) :
    Agrees classes empty (search classes sub sz fuel seg idx block map bit)
      (seg.plain.search sub sz (classes.numBins - idx) idx) := by
  induction fuel generalizing seg idx block map bit with
  | zero => omega
  | succ fuel ih =>
    rw [search]
    cases skipped : skipBlock classes seg.binmap idx block map bit with
    | none =>
      have rest : ∀ other, idx ≤ other → other < classes.numBins → empty other seg.plain.world :=
        fun other from_ below => marked.unmarked other below fun member =>
          absurd (skipBlock_none marked.within standing skipped other member) (by omega)
      rw [search_empty lawful inside (Nat.le_refl _) rest, Nat.sub_self]
      exact getMemory_agrees lawful marked sz _
    | some place =>
      obtain ⟨idx', block', map', bit'⟩ := place
      obtain ⟨i, member, found, rfl, rfl, above, passed⟩ := findBit_next marked.within standing skipped
      have below : i < classes.numBins := marked.within.lt member
      have between : ∀ other, idx ≤ other → other < i → empty other seg.plain.world :=
        fun other from_ before => marked.unmarked other (by omega) (passed other from_ before)
      rw [search_empty lawful above (Nat.le_of_lt below) between,
        show classes.numBins - i = classes.numBins - (i + 1) + 1 by omega, PlainHeap.search, plain]
      simp only [found, ok_bind, check_true below]
      cases served : sub.malloc i sz seg.world with
      | error => exact .error
      | ok result =>
        obtain ⟨ptr, world⟩ := result
        cases ptr with
        | some ptr =>
          refine .ok ⟨marked.within, fun bin inside' absent => ?_⟩
          exact lawful.malloc_keeps served (marked.unmarked bin inside' absent)
        | none =>
          have cleared : Bitmap.members 32 (Bitmap.unmark 32 seg.binmap i) = Bitmap.members 32 seg.binmap \ {i} :=
            Bitmap.members_unmark (by omega) (by omega)
          have standing' : At (Bitmap.unmark 32 seg.binmap i) (i + 1) (i / 32)
              (seg.binmap (i / 32) &&& ~~~BitVec.twoPow 64 (i % 32)) (BitVec.twoPow 64 (i % 32) <<< 1) :=
            ⟨by rw [Bitmap.unmark, Function.update_self], i % 32 + 1, by omega, by omega, twoPow_shiftLeft_one⟩
          have marked' : Marked classes empty ⟨world, Bitmap.unmark 32 seg.binmap i, seg.memoryHeld⟩ := by
            refine ⟨marked.within.unmark, fun bin inside' absent => ?_⟩
            by_cases same : bin = i
            · rw [same]
              exact lawful.empty_of_none served
            · rw [cleared] at absent
              exact lawful.malloc_keeps served (marked.unmarked bin inside' fun old => absent ⟨old, same⟩)
          exact ih marked' standing' below (by omega)

theorem malloc_agrees (legal : classes.Lawful) (lawful : sub.Lawful empty) (marked : seg.Marked classes empty)
    (sz : Nat) : Agrees classes empty (seg.malloc classes sub sz) (seg.plain.malloc classes sub sz) := by
  by_cases big : classes.maxObjectSize < sz
  · have first : PlainHeap.firstBin classes sz = classes.numBins := if_pos big
    simp only [malloc, if_pos big, PlainHeap.malloc, first, Nat.sub_self]
    exact getMemory_agrees lawful marked sz _
  · obtain ⟨c, below, class_, _⟩ := legal.getSizeClass sz (Nat.le_of_not_lt big)
    have first : PlainHeap.firstBin classes sz = c := by simp [PlainHeap.firstBin, big, class_]
    have block : c / 32 < classes.numUlongs := by rw [SizeClasses.numUlongs]; omega
    have standing : At seg.binmap c (c / 32) (seg.binmap (c / 32)) (idx2bit c) :=
      ⟨rfl, c % 32, by omega, by omega, idx2bit_eq c⟩
    simp only [malloc, if_neg big, class_, ok_bind, check_true (Int.natCast_nonneg c),
      check_true (Int.ofNat_lt.mpr below), Int.toNat_natCast, idx2block, check_true block, pure_bind,
      PlainHeap.malloc, first]
    exact search_agrees lawful sz (classes.numBins + 1) marked standing (Nat.le_of_lt below) (by omega)

/-- The loop of `free` stops at the largest class that the object fills. -/
theorem lowerClass_eq (legal : classes.Lawful) {objectSize c : Nat} (below : c < classes.numBins)
    (fits : objectSize ≤ classes.getClassMaxSize c) (fills : classes.getClassMaxSize (0 : Nat) ≤ objectSize) :
    lowerClass classes objectSize (c + 1) c = PlainHeap.filled classes objectSize := by
  have lowered : lowerClass classes objectSize (c + 1) c =
      Nat.findGreatest (fun c => classes.getClassMaxSize c ≤ objectSize) c := by
    clear below fits
    induction c with
    | zero =>
      rw [lowerClass, if_neg (by omega)]
      simp
    | succ c ih =>
      rw [lowerClass, Nat.findGreatest_succ]
      by_cases full : objectSize < classes.getClassMaxSize ((c + 1 : Nat) : Int)
      · rw [if_pos full, if_neg (by omega), show ((c + 1 : Nat) : Int) - 1 = (c : Nat) by omega, ih]
      · rw [if_neg full, if_pos (by omega)]
  rw [lowered, PlainHeap.filled]
  congr 1
  refine (Nat.findGreatest_eq_iff.mpr ⟨?_, ?_, ?_⟩).symm
  · exact (Nat.findGreatest_le c).trans (by omega)
  · intro _
    exact Nat.findGreatest_spec (P := fun c => classes.getClassMaxSize c ≤ objectSize) (Nat.zero_le c) fills
  · intro c' above inside
    by_cases larger : c < c'
    · have more := legal.larger c c' larger (by omega)
      omega
    · exact Nat.findGreatest_is_greatest (P := fun c => classes.getClassMaxSize c ≤ objectSize) above (by omega)

private theorem filled_spec (classes : SizeClasses) {objectSize : Nat} (nonempty : 0 < classes.numBins)
    (fills : classes.getClassMaxSize (0 : Nat) ≤ objectSize) :
    PlainHeap.filled classes objectSize < classes.numBins ∧
      classes.getClassMaxSize (PlainHeap.filled classes objectSize) ≤ objectSize := by
  have top : PlainHeap.filled classes objectSize ≤ classes.numBins - 1 := Nat.findGreatest_le _
  exact ⟨by omega, Nat.findGreatest_spec (P := fun c => classes.getClassMaxSize c ≤ objectSize) (Nat.zero_le _) fills⟩

theorem free_agrees (legal : classes.Lawful) (lawful : sub.Lawful empty) (marked : seg.Marked classes empty)
    {ptr : Nat} (fills : seg.plain.fills classes sub (.free ptr) = true) :
    Agrees classes empty (seg.step classes sub (.free ptr)) (seg.plain.step classes sub (.free ptr)) := by
  rw [step, PlainHeap.step, free, PlainHeap.free, plain]
  rw [PlainHeap.fills, plain] at fills
  cases read : sub.getSize seg.world ptr with
  | error => exact .error
  | ok objectSize =>
    rw [read] at fills
    simp only [ok_bind]
    by_cases nothing : objectSize = 0
    · rw [if_pos nothing, if_pos nothing]
      exact .ok marked
    by_cases big : classes.maxObjectSize < objectSize
    · rw [if_neg nothing, if_neg nothing, if_pos big, if_pos big]
      cases freed : sub.bigFree ptr seg.world with
      | error => exact .error
      | ok world =>
        refine .ok ⟨marked.within, fun bin below absent => ?_⟩
        exact lawful.bigFree_keeps freed (marked.unmarked bin below absent)
    have fills : classes.getClassMaxSize (0 : Nat) ≤ objectSize := by simpa [nothing] using fills
    obtain ⟨c, below, class_, fits⟩ := legal.getSizeClass _ (Nat.le_of_not_lt big)
    obtain ⟨inside, filled⟩ := filled_spec classes legal.nonempty fills
    have lowered := lowerClass_eq legal below fits fills
    generalize PlainHeap.filled classes objectSize = c' at inside filled lowered ⊢
    have ordered : 0 < (c' : Int) → classes.getClassMaxSize (c' - 1) ≤ objectSize := by
      intro positive
      have smaller := legal.larger (c' - 1) c' (by omega) inside
      rw [show ((c' - 1 : Nat) : Int) = c' - 1 by omega] at smaller
      exact (Nat.le_of_lt smaller).trans filled
    simp only [if_neg nothing, if_neg big, class_, ok_bind, check_true (Int.natCast_nonneg c),
      check_true (Int.ofNat_lt.mpr below), check_true fits, Int.toNat_natCast, lowered,
      check_true (And.intro (Int.natCast_nonneg c') filled), check_true ordered]
    cases freed : sub.free c' ptr seg.world with
    | error => exact .error
    | ok world =>
      refine .ok ⟨?_, fun bin inside' absent => ?_⟩
      · rw [markBin_binmap]
        exact marked.within.mark (by omega) inside
      · rw [markBin_binmap, Bitmap.members_mark (by omega) (by omega)] at absent
        refine lawful.free_keeps freed (fun same => absent (.inl same)) ?_
        exact marked.unmarked bin inside' fun old => absent (.inr old)

private theorem clearBins_empty (lawful : sub.Lawful empty) {bins bin : Nat} {world after : World}
    (inside : bin < bins)
    (cleared : clearBins sub bins world = .ok after) : empty bin after := by
  induction bins generalizing after with
  | zero => omega
  | succ bins ih =>
    rw [clearBins, List.range_succ, List.foldlM_append] at cleared
    obtain ⟨middle, before, last⟩ := bind_eq_ok.mp cleared
    rw [List.foldlM_cons] at last
    obtain ⟨final, last, same⟩ := bind_eq_ok.mp last
    cases same
    rcases Nat.lt_succ_iff_lt_or_eq.mp inside with earlier | here
    · exact lawful.clear_keeps last (ih earlier before)
    · rw [here]
      exact lawful.clear_empty last

theorem clear_agrees (lawful : sub.Lawful empty) (marked : seg.Marked classes empty) :
    Agrees classes empty (seg.step classes sub .clear) (seg.plain.step classes sub .clear) := by
  rw [step, PlainHeap.step, clear, PlainHeap.clear, plain]
  cases cleared : clearBins sub classes.numBins seg.world with
  | error => exact .error
  | ok middle =>
    simp only [ok_bind]
    cases all : sub.bigClear middle with
    | error => exact .error
    | ok world =>
      refine .ok ⟨?_, fun bin inside _ => lawful.bigClear_keeps all (clearBins_empty lawful inside cleared)⟩
      intro block place present
      simp only at present
      split at present
      · simp at present
      · exact marked.within block place present

theorem step_agrees (legal : classes.Lawful) (lawful : sub.Lawful empty) (marked : seg.Marked classes empty)
    {operation : Operation} (fills : seg.plain.fills classes sub operation = true) :
    Agrees classes empty (seg.step classes sub operation) (seg.plain.step classes sub operation) := by
  cases operation with
  | malloc sz => exact malloc_agrees legal lawful marked sz
  | free ptr => exact free_agrees legal lawful marked fills
  | clear => exact clear_agrees lawful marked

theorem run_agrees (legal : classes.Lawful) (lawful : sub.Lawful empty) (marked : seg.Marked classes empty)
    {operations : List Operation} (filling : seg.plain.filling classes sub operations = true) :
    Agrees classes empty (run classes sub seg operations) (seg.plain.run classes sub operations) := by
  induction operations generalizing seg with
  | nil => exact .ok marked
  | cons operation rest ih =>
    rw [PlainHeap.filling, Bool.and_eq_true] at filling
    obtain ⟨fills, later⟩ := filling
    have both := step_agrees legal lawful marked fills
    rw [run, PlainHeap.run]
    refine both.bind fun ptr after marked' taken => ?_
    rw [taken] at both
    generalize seg.plain.step classes sub operation = plain at both later
    cases both with
    | ok =>
      refine (ih marked' later).bind fun ptrs last marked'' _ => ?_
      exact .ok marked''

end SegHeap

namespace Kingsley

def classes : SizeClasses := ⟨29, size2Class, class2Size⟩

theorem classes_lawful : classes.Lawful := by
  constructor
  case nonempty => exact Nat.zero_lt_succ 28
  case getSizeClass =>
    intro sz bound
    obtain ⟨c, small, found, fits, _⟩ := @size2Class_fits sz bound
    refine ⟨c, Nat.lt_succ_of_le small, found, ?_⟩
    exact fits.trans_eq (class2Size_nat small).symm
  case larger =>
    intro c c' less inside
    have inside : c' ≤ 28 := Nat.le_of_lt_succ inside
    have sizes : class2Size c < class2Size c' := by
      rw [class2Size_nat (by omega), class2Size_nat inside]
      exact Nat.pow_lt_pow_right (by omega) (by omega)
    exact sizes

end Kingsley

/-- The little heaps and the big heap of a `KingsleyStyleHeap`. A zone heap has no `clear`,
so that no call of it compiles over these. -/
def KingsleyHeap.subheaps : Subheaps (Space × KingsleyHeap) where
  malloc bin _ world :=
    let (ptr, head) := SLList.get world.1.memory (world.2.bins bin)
    .ok (if ptr = 0 then none else some ptr,
      world.1, { world.2 with bins := Function.update world.2.bins bin head })
  free bin ptr world :=
    let (memory, head) := SLList.insert world.1.memory (world.2.bins bin) ptr
    .ok ({ world.1 with memory := memory }, { world.2 with bins := Function.update world.2.bins bin head })
  clear _ _ := .error .abort
  getSize world ptr := AdaptAppHeap.getSize world.1.memory ptr
  bigMalloc sz world := do
    let (ptr, space, heap) ← StrictSegHeap.bigMalloc world.1 world.2 sz
    return (if ptr = 0 then none else some ptr, space, heap)
  bigFree _ world := .ok world
  bigClear _ := .error .abort

/-- A free list is empty when its head is NULL, whatever memory holds. -/
theorem KingsleyHeap.subheaps_lawful : subheaps.Lawful fun bin world => world.2.bins bin = 0 := by
  constructor
  case malloc_empty =>
    intro bin sz world none
    have same : Function.update world.2.bins (bin : Int) 0 = world.2.bins := by
      rw [← none]
      exact Function.update_eq_self ..
    simp only [subheaps, SLList.get, none, if_true, same]
  case empty_of_none =>
    intro bin sz world after served
    simp only [subheaps, SLList.get] at served
    split at served
    · cases served
      simpa using by assumption
    · simp at served
  case malloc_keeps =>
    intro bin other sz world ptr after served none
    simp only [subheaps, SLList.get, Except.ok.injEq, Prod.mk.injEq] at served
    obtain ⟨_, rfl⟩ := served
    by_cases same : other = bin
    · subst same
      simp [none]
    · simpa [Function.update_of_ne (Int.ofNat_inj.not.mpr same)] using none
  case free_keeps =>
    intro bin other ptr world after freed away none
    cases freed
    exact (Function.update_of_ne (Int.ofNat_inj.not.mpr away) ..).trans none
  case clear_empty | clear_keeps | bigClear_keeps =>
    intros
    contradiction
  case bigMalloc_keeps =>
    intro other sz world ptr after served none
    obtain ⟨result, big, same⟩ := bind_eq_ok.mp served
    obtain ⟨_, _, same'⟩ := bind_eq_ok.mp big
    cases same
    cases same'
    exact none
  case bigFree_keeps =>
    intro other ptr world after freed none
    cases freed
    exact none

namespace SegHeap

variable {World : Type} {classes : SizeClasses} {sub : Subheaps World} {empty : Nat → World → Prop}

/-- Whatever calls are made on a new heap, the search over the bitmap finds what a search of
all bins finds, and the process ends only where a little heap or the big heap ends it. -/
theorem run_eq_plain (legal : classes.Lawful) (lawful : sub.Lawful empty) {world : World}
    (fresh : ∀ bin < classes.numBins, empty bin world) {operations : List Operation}
    (filling : PlainHeap.filling classes sub ⟨world, 0⟩ operations = true) :
    (run classes sub (create world) operations).map (Prod.map id plain) =
      PlainHeap.run classes sub ⟨world, 0⟩ operations := by
  have marked : (create world).Marked classes empty :=
    ⟨Bitmap.within_zero 32 classes.numBins, fun bin below _ => fresh bin below⟩
  exact (run_agrees legal lawful marked filling).map_eq

/-- A block of 16 bytes that was freed is served again for 8 bytes. -/
theorem run_eq_plain_again :
    let world := ((Xmemory.create fun _ => 0).space, KingsleyHeap.new)
    let operations := [Operation.malloc 16, .free (userHeapBase + 40), .malloc 8]
    (run Kingsley.classes KingsleyHeap.subheaps (create world) operations).map (Prod.map id plain) =
        PlainHeap.run Kingsley.classes KingsleyHeap.subheaps ⟨world, 0⟩ operations ∧
      (run Kingsley.classes KingsleyHeap.subheaps (create world) operations).map Prod.fst =
        .ok [some (userHeapBase + 40), none, some (userHeapBase + 40)] := by
  constructor
  · exact run_eq_plain Kingsley.classes_lawful KingsleyHeap.subheaps_lawful (fun _ _ => rfl) (by decide +kernel)
  · decide +kernel

end SegHeap

end ProcessAsThread.Heap
