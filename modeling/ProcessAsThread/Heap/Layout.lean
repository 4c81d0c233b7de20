import ProcessAsThread.Heap.SizeClass

/-! The layout of the heap: who owns each byte, which objects have been carved
and in which free list each of the freed ones is. The allocator keeps four
things right under it: the bump pointer, the current arena of each heap, the
header of each object and the free lists. -/

namespace ProcessAsThread.Heap

open Library

/-- The owners of bytes: the header and the unused rest of a heap's current
arena, and an object with its header, named by its payload. -/
inductive Owner where
  | nobody
  | arena (heapid : Nat)
  | tail (heapid : Nat)
  | object (ptr : Nat)
  deriving DecidableEq

inductive Place where
  | live
  | listed (heapid : Nat) (sizeClass : Int)
  | dropped
  deriving DecidableEq

structure Layout where
  own : Nat → Owner
  /-- The size of each carved object. -/
  size : Nat → Option Nat
  place : Nat → Place
  listed : Nat → Int → List Nat

def Layout.empty : Layout := ⟨fun _ => .nobody, fun _ => none, fun _ => .live, fun _ _ => []⟩

/-- A block in the hands of a client: where it starts and how much was asked for. -/
structure Block where
  ptr : Nat
  size : Nat
  deriving DecidableEq, Repr

def Block.Holds (block : Block) (place : Nat) : Prop :=
  block.ptr ≤ place ∧ place < block.ptr + block.size

/-- The bytes of the block's `objectHeader`. -/
def Block.Header (block : Block) (place : Nat) : Prop :=
  block.ptr - ObjectHeader.size ≤ place ∧ place < block.ptr

/-- Only bytes the bump allocator has handed out have an owner. -/
structure XHeap.Laid (own : Nat → Owner) (xheap : XHeap) : Prop where
  positive : 0 < xheap.heapStart
  started : xheap.heapStart ≤ xheap.position
  rest : xheap.position + xheap.remaining = xheap.heapEnd
  bound : xheap.heapEnd < 2 ^ 64
  inside : ∀ place, own place ≠ .nobody → xheap.heapStart ≤ place ∧ place < xheap.position

/-- The current arena of a heap owns its header and what remains of its space. -/
def ZoneHeap.Laid (own : Nat → Owner) (memory : Memory) (heapid : Nat) (zone : ZoneHeap) : Prop :=
  zone.currentArena = 0 ∨
    Owns own (.arena heapid) zone.currentArena Arena.size ∧
    Owns own (.tail heapid) (memory.load (zone.currentArena + 16) 8) (memory.load zone.currentArena 8)

/-- An object owns its header and its payload, and its header holds its size. -/
structure ObjectLaid (own : Nat → Owner) (memory : Memory) (ptr size : Nat) : Prop where
  low : 16 ≤ ptr
  high : ptr + size < 2 ^ 64
  owns : Owns own (.object ptr) (ptr - 16) (size + 16)
  magic : memory.load (ptr - 16) 8 = ObjectHeader.magic
  header : memory.load (ptr - 8) 8 = size
  sized : (∃ c : Nat, c ≤ 28 ∧ size = 2 ^ (c + 3)) ∨ StrictSegHeap.maxObjectSize < size

/-- A free list holds carved objects of its class. -/
structure ListLaid (layout : Layout) (memory : Memory) (heapid : Nat) (sizeClass : Int) (head : Nat) :
    Prop where
  chain : Chain (memory.load · 8) head (layout.listed heapid sizeClass)
  nodup : (layout.listed heapid sizeClass).Nodup
  members : ∀ ptr ∈ layout.listed heapid sizeClass, layout.place ptr = .listed heapid sizeClass ∧
    ∃ c : Nat, c ≤ 28 ∧ sizeClass = c ∧ layout.size ptr = some (2 ^ (c + 3))

structure Laid (layout : Layout) (xmemory : Xmemory) (blocks : List Block) : Prop where
  xheap : xmemory.space.xheap.Laid layout.own
  zones : ∀ heapid, (xmemory.heaps heapid).bigheap.Laid layout.own xmemory.space.memory heapid
  objects : ∀ ptr size, layout.size ptr = some size →
    ObjectLaid layout.own xmemory.space.memory ptr size
  lists : ∀ heapid sizeClass, ListLaid layout xmemory.space.memory heapid sizeClass
    ((xmemory.heaps heapid).bins sizeClass)
  distinct : (blocks.map Block.ptr).Nodup
  live : ∀ block ∈ blocks, layout.place block.ptr = .live ∧
    ∃ size, layout.size block.ptr = some size ∧ block.size ≤ size

theorem ObjectLaid.positive (laid : ObjectLaid own memory ptr size) : 8 ≤ size := by
  rcases laid.sized with ⟨c, _, same⟩ | large
  · have := Nat.pow_le_pow_right (show 0 < 2 by omega) (show 3 ≤ c + 3 by omega)
    omega
  · rw [Kingsley.maxObjectSize_eq] at large
    omega

/-- The header is read back while the object's bytes before its payload are kept. -/
theorem ObjectLaid.kept (laid : ObjectLaid own memory ptr size) {own' : Nat → Owner} {memory' : Memory}
    (owners : ∀ place, own place = .object ptr → own' place = own place)
    (kept : ∀ place, own place = .object ptr → place < ptr → memory' place = memory place) :
    ObjectLaid own' memory' ptr size := by
  have low := laid.low
  have header : ∀ place, ptr - 16 ≤ place → place < ptr → memory' place = memory place :=
    fun place from_ to_ => kept place (laid.owns place from_ (by omega)) to_
  refine ⟨low, laid.high, laid.owns.kept owners, ?_, ?_, laid.sized⟩
  · rw [← laid.magic]
    exact Memory.load_congr fun place from_ to_ => header place from_ (by omega)
  · rw [← laid.header]
    exact Memory.load_congr fun place from_ to_ => header place (by omega) (by omega)

theorem ZoneHeap.Laid.kept {zone : ZoneHeap} (laid : zone.Laid own memory heapid)
    {own' : Nat → Owner} {memory' : Memory}
    (owners : ∀ place, own place = .arena heapid ∨ own place = .tail heapid → own' place = own place)
    (kept : ∀ place, own place = .arena heapid → memory' place = memory place) :
    zone.Laid own' memory' heapid := by
  rcases laid with none | ⟨arena, tail⟩
  · exact .inl none
  · refine .inr ⟨arena.kept fun place same => owners place (.inl same), ?_⟩
    rw [arena.load kept (by omega) (by simp [Arena.size]),
      arena.load kept (by omega) (by simp [Arena.size])]
    exact tail.kept fun place same => owners place (.inr same)

theorem ListLaid.kept {layout : Layout} (laid : ListLaid layout memory heapid sizeClass head)
    (objects : ∀ ptr size, layout.size ptr = some size → ObjectLaid layout.own memory ptr size)
    {memory' : Memory}
    (kept : ∀ ptr, layout.place ptr = .listed heapid sizeClass →
      ∀ place, layout.own place = .object ptr → memory' place = memory place) :
    ListLaid layout memory' heapid sizeClass head := by
  refine ⟨laid.chain.kept ?_, laid.nodup, laid.members⟩
  intro ptr member
  obtain ⟨listed, c, _, _, sized⟩ := laid.members ptr member
  have object := objects ptr _ sized
  have room := object.positive
  exact object.owns.load (kept ptr listed) (by omega) (by omega)

theorem Laid.write {xmemory : Xmemory} {blocks : List Block} (laid : Laid layout xmemory blocks)
    (sized : layout.size ptr = some size) (alive : layout.place ptr = .live) {memory : Memory}
    (kept : ∀ place, place < ptr ∨ ptr + size ≤ place → memory place = xmemory.space.memory place) :
    Laid layout { xmemory with space := { xmemory.space with memory := memory } } blocks := by
  have object := laid.objects ptr size sized
  have other : ∀ place, layout.own place ≠ .object ptr → memory place = xmemory.space.memory place := by
    intro place different
    refine kept place ?_
    by_contra inside
    exact different (object.owns place (by omega) (by have := object.low; omega))
  refine { laid with zones := ?_, objects := ?_, lists := ?_ }
  · intro heapid
    refine (laid.zones heapid).kept (fun _ _ => rfl) ?_
    exact fun place same => other place (by rw [same]; exact nofun)
  · intro ptr' size' sized'
    refine (laid.objects ptr' size' sized').kept (fun _ _ => rfl) ?_
    intro place same before
    by_cases own : ptr' = ptr
    · subst own
      exact kept place (.inl before)
    · exact other place (by rw [same]; simpa using own)
  · intro heapid sizeClass
    refine (laid.lists heapid sizeClass).kept laid.objects ?_
    intro ptr' listed place same
    refine other place ?_
    rw [same]
    intro own
    cases own
    rw [alive] at listed
    cases listed

/-- One free list gets other members; one object moves. -/
def Layout.relist (layout : Layout) (heapid : Nat) (sizeClass : Int) (nodes : List Nat) (ptr : Nat)
    (place : Place) : Layout :=
  { layout with
    place := Function.update layout.place ptr place
    listed := Function.update layout.listed heapid
      (Function.update (layout.listed heapid) sizeClass nodes) }

theorem Layout.relist_self (layout : Layout) (heapid : Nat) (sizeClass : Int) (nodes : List Nat)
    (ptr : Nat) (place : Place) :
    (layout.relist heapid sizeClass nodes ptr place).listed heapid sizeClass = nodes := by
  simp [Layout.relist]

private theorem Layout.relist_other {layout : Layout} {heapid heapid' : Nat} {sizeClass sizeClass' : Int}
    (other : ¬ (heapid' = heapid ∧ sizeClass' = sizeClass)) (nodes : List Nat) (ptr : Nat)
    (place : Place) :
    (layout.relist heapid sizeClass nodes ptr place).listed heapid' sizeClass' =
      layout.listed heapid' sizeClass' := by
  by_cases same : heapid' = heapid
  · subst same
    have different : sizeClass' ≠ sizeClass := fun same => other ⟨rfl, same⟩
    simp [Layout.relist, Function.update_of_ne different]
  · simp [Layout.relist, Function.update_of_ne same]

theorem Laid.live_others {xmemory : Xmemory} {blocks : List Block} {block other : Block} {sizeClass : Int}
    {nodes : List Nat} {place : Place} (laid : Laid layout xmemory blocks)
    (present : other ∈ blocks.filter (·.ptr ≠ block.ptr)) :
    (layout.relist heapid sizeClass nodes block.ptr place).place other.ptr = .live ∧
      ∃ size, layout.size other.ptr = some size ∧ other.size ≤ size := by
  obtain ⟨present, different⟩ := List.mem_filter.mp present
  have different : other.ptr ≠ block.ptr := by simpa using different
  simp only [Layout.relist, Function.update_of_ne different]
  exact laid.live other present

theorem Laid.relist {xmemory : Xmemory} {blocks blocks' : List Block} {heap : KingsleyHeap}
    {sizeClass : Int} {nodes : List Nat} {place : Place} {ptr head : Nat}
    (laid : Laid layout xmemory blocks)
    (bigheap : heap.bigheap = (xmemory.heaps heapid).bigheap)
    (bins : heap.bins = Function.update (xmemory.heaps heapid).bins sizeClass head)
    (here : ListLaid (layout.relist heapid sizeClass nodes ptr place) xmemory.space.memory heapid
      sizeClass head)
    (elsewhere : ∀ heapid' sizeClass', ¬ (heapid' = heapid ∧ sizeClass' = sizeClass) →
      ptr ∉ layout.listed heapid' sizeClass')
    (distinct : (blocks'.map Block.ptr).Nodup)
    (live : ∀ block ∈ blocks', (layout.relist heapid sizeClass nodes ptr place).place block.ptr = .live ∧
      ∃ size, layout.size block.ptr = some size ∧ block.size ≤ size) :
    Laid (layout.relist heapid sizeClass nodes ptr place)
      { xmemory with heaps := Function.update xmemory.heaps heapid heap } blocks' := by
  refine ⟨laid.xheap, ?_, laid.objects, ?_, distinct, live⟩
  · intro heapid'
    by_cases same : heapid' = heapid
    · subst same
      simp only [Function.update_self, bigheap]
      exact laid.zones heapid'
    · simp only [Function.update_of_ne same]
      exact laid.zones heapid'
  · intro heapid' sizeClass'
    by_cases at_ : heapid' = heapid ∧ sizeClass' = sizeClass
    · obtain ⟨same, same'⟩ := at_
      subst same same'
      simpa only [Function.update_self, bins] using here
    · have old := laid.lists heapid' sizeClass'
      have head : (Function.update xmemory.heaps heapid heap heapid').bins sizeClass' =
          (xmemory.heaps heapid').bins sizeClass' := by
        by_cases same : heapid' = heapid
        · subst same
          have different : sizeClass' ≠ sizeClass := fun same => at_ ⟨rfl, same⟩
          simp [bins, Function.update_of_ne different]
        · simp [Function.update_of_ne same]
      have listed := @Layout.relist_other layout _ _ _ _ at_ nodes ptr place
      refine ⟨?_, ?_, ?_⟩
      · rw [listed]
        simp only [head]
        exact old.chain
      · rw [listed]
        exact old.nodup
      · rw [listed]
        intro ptr' member
        have different : ptr' ≠ ptr := fun same => elsewhere _ _ at_ (same ▸ member)
        simp only [Layout.relist, Function.update_of_ne different]
        exact old.members ptr' member

theorem Laid.unlisted {xmemory : Xmemory} {blocks : List Block} (laid : Laid layout xmemory blocks)
    (alive : layout.place ptr = .live) (heapid : Nat) (sizeClass : Int) :
    ptr ∉ layout.listed heapid sizeClass := by
  intro listed
  rw [((laid.lists heapid sizeClass).members _ listed).1] at alive
  cases alive

/-- A live block whose first word holds the head of a list of its class goes onto that list. -/
theorem Laid.push {xmemory : Xmemory} {blocks : List Block} {heap : KingsleyHeap} {block : Block}
    {c : Nat} (laid : Laid layout xmemory blocks) (member : block ∈ blocks)
    (small : c ≤ 28) (sized : layout.size block.ptr = some (2 ^ (c + 3)))
    (linked : xmemory.space.memory.load block.ptr 8 = (xmemory.heaps heapid).bins c)
    (bigheap : heap.bigheap = (xmemory.heaps heapid).bigheap)
    (bins : heap.bins = Function.update (xmemory.heaps heapid).bins c block.ptr) :
    Laid
      (layout.relist heapid c (block.ptr :: layout.listed heapid c) block.ptr (.listed heapid c))
      { xmemory with heaps := Function.update xmemory.heaps heapid heap }
      (blocks.filter (·.ptr ≠ block.ptr)) := by
  have unlisted := laid.unlisted (laid.live block member).1
  have old := laid.lists heapid c
  refine laid.relist bigheap bins ⟨?_, ?_, ?_⟩ (fun heapid' sizeClass _ => unlisted heapid' sizeClass)
    (laid.distinct.sublist ((List.filter_sublist).map Block.ptr)) ?_
  · rw [Layout.relist_self]
    have nonzero := (laid.objects _ _ sized).low
    refine ⟨rfl, by omega, ?_⟩
    simp only [linked]
    exact old.chain
  · rw [Layout.relist_self]
    exact List.nodup_cons.mpr ⟨unlisted heapid c, old.nodup⟩
  · rw [Layout.relist_self]
    intro ptr listed
    rcases List.mem_cons.mp listed with same | older
    · subst same
      exact ⟨Function.update_self .., c, small, rfl, sized⟩
    · have different : ptr ≠ block.ptr := fun same => unlisted heapid c (same ▸ older)
      simp only [Layout.relist, Function.update_of_ne different]
      exact old.members ptr older
  · exact fun other present => laid.live_others present

theorem Laid.pop {xmemory : Xmemory} {blocks : List Block} {heap : KingsleyHeap} {c size : Nat}
    (laid : Laid layout xmemory blocks) (nonempty : (xmemory.heaps heapid).bins c ≠ 0)
    (fits : size ≤ 2 ^ (c + 3)) (bigheap : heap.bigheap = (xmemory.heaps heapid).bigheap)
    (bins : heap.bins = Function.update (xmemory.heaps heapid).bins c
      (xmemory.space.memory.load ((xmemory.heaps heapid).bins c) 8)) :
    ∃ rest, Laid (layout.relist heapid c rest ((xmemory.heaps heapid).bins c) .live)
      { xmemory with heaps := Function.update xmemory.heaps heapid heap }
      (⟨(xmemory.heaps heapid).bins c, size⟩ :: blocks) := by
  have old := laid.lists heapid c
  cases listed : layout.listed heapid c with
  | nil => exact (nonempty (old.chain.head_zero.mpr listed)).elim
  | cons ptr rest =>
    have chain := old.chain
    have nodup := old.nodup
    have members := old.members
    rw [listed] at chain nodup members
    obtain ⟨head, _, tail⟩ := chain
    rw [head] at bins ⊢
    obtain ⟨place, c', small, same, sized⟩ := members ptr (List.mem_cons_self ..)
    have same : c' = c := by omega
    subst same
    have unlive : ∀ block ∈ blocks, block.ptr ≠ ptr := by
      intro block member same
      have alive := (laid.live block member).1
      rw [same, place] at alive
      cases alive
    refine ⟨rest, laid.relist bigheap bins ⟨?_, ?_, ?_⟩ ?_ ?_ ?_⟩
    · rw [Layout.relist_self]
      exact tail
    · rw [Layout.relist_self]
      exact nodup.of_cons
    · rw [Layout.relist_self]
      intro other older
      have different : other ≠ ptr := fun same => (List.nodup_cons.mp nodup).1 (same ▸ older)
      simp only [Layout.relist, Function.update_of_ne different]
      exact members other (List.mem_cons_of_mem _ older)
    · intro heapid' sizeClass' elsewhere member
      have other := ((laid.lists heapid' sizeClass').members ptr member).1
      rw [place] at other
      cases other
      exact elsewhere ⟨rfl, rfl⟩
    · exact List.nodup_cons.mpr ⟨by simpa using unlive, laid.distinct⟩
    · intro block member
      rcases List.mem_cons.mp member with same | older
      · subst same
        exact ⟨Function.update_self .., _, sized, fits⟩
      · simp only [Layout.relist, Function.update_of_ne (unlive block older)]
        exact laid.live block older

end ProcessAsThread.Heap
