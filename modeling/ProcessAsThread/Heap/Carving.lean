import ProcessAsThread.Heap.Layout

/-! How a new object is carved: from the rest of the heap's current arena, or
from a new arena that the bump allocator provides. -/

namespace ProcessAsThread.Heap

open Library

/-- A heap takes a range from its tail or from fresh memory and gives it to an
owner; what belongs to anybody else is left alone. -/
structure Carved (own own' : Nat → Owner) (memory memory' : Memory) (heapid : Nat) (owner : Owner)
    (ptr length : Nat) : Prop where
  owns : Owns own' owner ptr length
  source : ∀ place, ptr ≤ place → place < ptr + length → own place = .nobody ∨ own place = .tail heapid
  others : ∀ place, own place ≠ .nobody → own place ≠ .arena heapid → own place ≠ .tail heapid →
    own' place = own place ∧ memory' place = memory place

/-- A call of `xheap::malloc` exits, or bumps the pointer by at least the request. -/
theorem XHeap.malloc_cases (xheap : XHeap) {sz : Nat} (bound : sz + 4095 < 2 ^ 64) :
    xheap.malloc sz = .error .exit ∨
      ∃ rounded, sz ≤ rounded ∧ rounded ≤ xheap.remaining ∧ xheap.malloc sz = .ok (xheap.position,
        { xheap with remaining := xheap.remaining - rounded, position := xheap.position + rounded }) := by
  have round : sizeT (sz + (pageSize - 1)) = sz + 4095 := sizeT_small bound
  simp only [XHeap.malloc, round]
  split
  · exact .inl rfl
  · exact .inr ⟨_, by simp only [pageSize]; omega, by omega, rfl⟩

theorem XHeap.Laid.bump {xheap : XHeap} (laid : xheap.Laid own) (fits : rounded ≤ xheap.remaining)
    {own' : Nat → Owner}
    (inside : ∀ place, own' place ≠ .nobody →
      own place ≠ .nobody ∨ xheap.position ≤ place ∧ place < xheap.position + rounded) :
    XHeap.Laid own'
      { xheap with remaining := xheap.remaining - rounded, position := xheap.position + rounded } := by
  have rest := laid.rest
  have started := laid.started
  refine ⟨laid.positive, by simp only; omega, by simp only; omega, laid.bound, ?_⟩
  intro place owned
  rcases inside place owned with before | ⟨low, high⟩
  · have := laid.inside place before
    simp only
    omega
  · simp only
    omega

theorem XHeap.Laid.range {xheap : XHeap} (laid : xheap.Laid own) (owns : Owns own owner start length)
    (owned : owner ≠ .nobody) (positive : 0 < length) :
    xheap.heapStart ≤ start ∧ start + length ≤ xheap.position := by
  have first := laid.inside start (by rw [owns start (by omega) (by omega)]; exact owned)
  have last := laid.inside (start + length - 1)
    (by rw [owns (start + length - 1) (by omega) (by omega)]; exact owned)
  omega

namespace Arena

theorem malloc_laid {xheap : XHeap} {memory : Memory} {arena heapid sz : Nat} (owner : Owner)
    (laid : xheap.Laid own) (header : Owns own (.arena heapid) arena size)
    (tail : Owns own (.tail heapid) (memory.load (arena + 16) 8) (memory.load arena 8))
    (positive : 0 < sz) (room : sz ≤ memory.load arena 8) :
    ∃ memory' own', malloc memory arena sz = (memory.load (arena + 16) 8, memory') ∧
      0 < memory.load (arena + 16) 8 ∧ xheap.Laid own' ∧
      ZoneHeap.Laid own' memory' heapid ⟨arena, pastArenas⟩ ∧
      Carved own own' memory memory' heapid owner (memory.load (arena + 16) 8) sz := by
  have bounds := laid.range tail (by simp) (by omega)
  have rest := laid.rest
  have bound := laid.bound
  have low := laid.positive
  have reload : (memory.store arena (memory.load arena 8 - sz) 8).load (arena + 16) 8 =
      memory.load (arena + 16) 8 := Memory.load_store_apart (by omega)
  have sum : sizeT (memory.load (arena + 16) 8 + sz) = memory.load (arena + 16) 8 + sz :=
    sizeT_small (by omega)
  have outside : ∀ place, own place ≠ .tail heapid →
      place < memory.load (arena + 16) 8 ∨ memory.load (arena + 16) 8 + sz ≤ place := by
    intro place other
    by_contra inside
    exact other (tail place (by omega) (by omega))
  refine ⟨(memory.store arena (memory.load arena 8 - sz) 8).store (arena + 16)
    (memory.load (arena + 16) 8 + sz) 8, claim own owner (memory.load (arena + 16) 8) sz, ?_,
    by omega, ?_, .inr ⟨?_, ?_⟩, claim_owns _ _ _ _, ?_, ?_⟩
  · simp only [malloc, sizeRemaining, reload, sum]
    rw [if_neg (by omega)]
  · refine ⟨laid.positive, laid.started, laid.rest, laid.bound, ?_⟩
    intro place owned
    refine laid.inside place ?_
    intro none
    rw [claim_outside (outside place (by simp [none]))] at owned
    exact owned none
  · exact header.kept fun place same => claim_outside (outside place (by simp [same]))
  · have space : (((memory.store arena (memory.load arena 8 - sz) 8).store (arena + 16)
        (memory.load (arena + 16) 8 + sz) 8).load (arena + 16) 8) = memory.load (arena + 16) 8 + sz := by
      rw [Memory.load_store]
      omega
    have remaining : (((memory.store arena (memory.load arena 8 - sz) 8).store (arena + 16)
        (memory.load (arena + 16) 8 + sz) 8).load arena 8) = memory.load arena 8 - sz := by
      rw [Memory.load_store_apart (by omega), Memory.load_store]
      omega
    simp only [space, remaining]
    intro place low' high'
    rw [claim_outside (.inr low')]
    exact tail place (by omega) (by omega)
  · exact fun place low' high' => .inr (tail place low' (by omega))
  · intro place _ notArena notTail
    refine ⟨claim_outside (outside place notTail), ?_⟩
    rw [header.store (by omega) (by simp only [size]; omega) rfl notArena,
      header.store (by omega) (by simp only [size]; omega) rfl notArena]

theorem create_laid {xheap : XHeap} {memory : Memory} {heapid allocSize rounded : Nat}
    (laid : xheap.Laid own) (covers : size + allocSize ≤ rounded) (fits : rounded ≤ xheap.remaining) :
    ∃ own', XHeap.Laid own'
        { xheap with remaining := xheap.remaining - rounded, position := xheap.position + rounded } ∧
      Owns own' (.arena heapid) xheap.position size ∧
      Owns own' (.tail heapid) (xheap.position + size) allocSize ∧
      (create memory xheap.position allocSize).load (xheap.position + 16) 8 = xheap.position + size ∧
      (create memory xheap.position allocSize).load xheap.position 8 = allocSize ∧
      ∀ place, own place ≠ .nobody → own' place = own place ∧
        create memory xheap.position allocSize place = memory place := by
  have rest := laid.rest
  have bound := laid.bound
  have free : ∀ place, own place ≠ .nobody → place < xheap.position :=
    fun place owned => (laid.inside place owned).2
  refine ⟨claim (claim own (.arena heapid) xheap.position size) (.tail heapid)
    (xheap.position + size) allocSize, laid.bump fits ?_, ?_, claim_owns _ _ _ _, ?_, ?_, ?_⟩
  · intro place owned
    by_cases inside : xheap.position ≤ place ∧ place < xheap.position + rounded
    · exact .inr inside
    · rw [claim_outside (by omega), claim_outside (by omega)] at owned
      exact .inl owned
  · intro place low high
    rw [claim_outside (by omega)]
    exact claim_owns _ _ _ _ place low high
  · rw [create, Memory.load_store]
    omega
  · rw [create, Memory.load_store_apart (by omega), Memory.load_store_apart (by omega), Memory.load_store]
    omega
  · intro place owned
    have before := free place owned
    refine ⟨?_, ?_⟩
    · rw [claim_outside (by omega), claim_outside (by omega)]
    · rw [create, Memory.store_outside (by omega), Memory.store_outside (by omega),
        Memory.store_outside (by omega)]

end Arena

theorem align_bounds {sz : Nat} (bound : sz + 7 < 2 ^ 64) : sz ≤ align sz ∧ align sz ≤ sz + 7 := by
  simp only [align, sizeT_small bound]
  omega

/-- The request that ANSIWrapper passes on. -/
theorem align_request {sz : Nat} (bound : sz + 4136 ≤ 2 ^ 64) :
    sz ≤ align (if sz < 16 then 16 else sz) ∧ 16 ≤ align (if sz < 16 then 16 else sz) ∧
      align (if sz < 16 then 16 else sz) + 4136 ≤ 2 ^ 64 ∧ align (if sz < 16 then 16 else sz) % 8 = 0 := by
  have whole : sizeT ((if sz < 16 then 16 else sz) + 7) = (if sz < 16 then 16 else sz) + 7 :=
    sizeT_small (by split <;> omega)
  rw [align, whole]
  split <;> omega

/-- What a layer hands out: the outcome of a call that exits or carves a range,
whose owner is named after where it starts. -/
def Carves (own : Nat → Owner) (space : Space) (heapid : Nat) (owner : Nat → Owner) (length : Nat)
    (outcome : Outcome (Nat × Space × ZoneHeap)) : Prop :=
  outcome = .error .exit ∨ ∃ ptr space' zone' own', outcome = .ok (ptr, space', zone') ∧ 0 < ptr ∧
    space'.xheap.Laid own' ∧ space'.xheap.heapStart = space.xheap.heapStart ∧
    space'.xheap.heapEnd = space.xheap.heapEnd ∧ zone'.Laid own' space'.memory heapid ∧
    Carved own own' space.memory space'.memory heapid (owner ptr) ptr length

namespace ZoneHeap

theorem slowMalloc_laid {space : Space} {zone : ZoneHeap} (owner : Nat → Owner)
    (xheap : space.xheap.Laid own) (laid : zone.Laid own space.memory heapid) (positive : 0 < sz)
    (bound : sz + 4119 < 2 ^ 64)
    (full : zone.currentArena = 0 ∨ Arena.sizeRemaining space.memory zone.currentArena < sz) :
    Carves own space heapid owner sz (slowMalloc space zone sz) := by
  have chunk : chunkSize = 1048576 := rfl
  have sized : Arena.size = 24 := rfl
  simp only [slowMalloc, check_true full]
  generalize past : (if zone.currentArena = 0 then zone.pastArenas else zone.currentArena) = pastArenas
  generalize linked : (if zone.currentArena = 0 then space.memory
    else Arena.setNextArena space.memory zone.currentArena zone.pastArenas) = memory
  generalize allocated : (if chunkSize < sz then sz else chunkSize) = allocSize
  have covers : sz ≤ allocSize ∧ (allocSize = sz ∨ allocSize = 1048576) := by
    subst allocated
    split <;> omega
  have kept : ∀ place, own place ≠ .arena heapid → memory place = space.memory place := by
    intro place other
    subst linked
    rcases laid with none | ⟨header, _⟩
    · rw [if_pos none]
    · split
      · rfl
      · exact header.store (by omega) (by omega) rfl other
  have request : sizeT (Arena.size + allocSize) = Arena.size + allocSize := sizeT_small (by omega)
  rw [request]
  rcases space.xheap.malloc_cases (show Arena.size + allocSize + 4095 < 2 ^ 64 by omega) with
    exits | ⟨rounded, enough, fits, bumped⟩
  · rw [exits]
    exact .inl rfl
  · obtain ⟨own₁, xheap₁, header, tail, arenaSpace, remaining, kept₁⟩ :=
      @Arena.create_laid own space.xheap memory heapid allocSize rounded xheap enough fits
    have started := xheap.started
    have nonzero : space.xheap.position ≠ 0 := by
      have := xheap.positive
      omega
    have tail : Owns own₁ (.tail heapid)
        ((Arena.create memory space.xheap.position allocSize).load (space.xheap.position + 16) 8)
        ((Arena.create memory space.xheap.position allocSize).load space.xheap.position 8) := by
      rw [arenaSpace, remaining]
      exact tail
    obtain ⟨memory', own', made, ptrNonzero, xheap', laid', carved⟩ :=
      @Arena.malloc_laid _ pastArenas _ _ _ heapid sz (owner _) xheap₁ header tail positive
        (by rw [remaining]; omega)
    rw [bumped]
    refine .inr ⟨_, ⟨memory', _⟩, ⟨space.xheap.position, pastArenas⟩, own', ?_, ptrNonzero, xheap', rfl,
      rfl, laid', carved.owns, ?_, ?_⟩
    · show (if space.xheap.position = 0 then _ else _) = _
      rw [if_neg nonzero]
      simp only [made]
      rfl
    · intro place low high
      left
      by_contra owned
      have before := (xheap.inside place owned).2
      rw [arenaSpace] at low
      omega
    · intro place owned notArena notTail
      obtain ⟨same₁, byte₁⟩ := kept₁ place owned
      obtain ⟨same, byte⟩ := carved.others place (by rw [same₁]; exact owned)
        (by rw [same₁]; exact notArena) (by rw [same₁]; exact notTail)
      exact ⟨same.trans same₁, byte.trans (byte₁.trans (kept place notArena))⟩

theorem malloc_laid {space : Space} {zone : ZoneHeap} (owner : Nat → Owner)
    (xheap : space.xheap.Laid own) (laid : zone.Laid own space.memory heapid) (positive : 0 < sz)
    (bound : sz + 7 < 2 ^ 64) (bound' : align sz + 4119 < 2 ^ 64) :
    Carves own space heapid owner (align sz) (malloc space zone sz) := by
  obtain ⟨lower, upper⟩ := align_bounds bound
  by_cases fits : zone.currentArena ≠ 0 ∧ align sz ≤ Arena.sizeRemaining space.memory zone.currentArena
  · rcases laid with none | ⟨header, tail⟩
    · exact (fits.1 none).elim
    · obtain ⟨memory', own', made, nonzero, xheap', laid', carved⟩ :=
        @Arena.malloc_laid _ zone.pastArenas _ _ _ _ _ (owner _) xheap header tail (by omega) fits.2
      refine .inr ⟨_, { space with memory := memory' }, zone, own', ?_, nonzero, xheap', rfl, rfl, laid',
        carved⟩
      simp only [malloc, if_pos fits, made]
  · simp only [malloc, if_neg fits]
    refine slowMalloc_laid owner xheap laid (by omega) bound' ?_
    by_cases none : zone.currentArena = 0
    · exact .inl none
    · exact .inr (by
        by_contra large
        exact fits ⟨none, by omega⟩)

end ZoneHeap

namespace AdaptAppHeap

theorem getObject_eq {ptr : Nat} (low : 16 ≤ ptr) (high : ptr < 2 ^ 64) : getObject ptr = ptr - 16 := by
  simp only [getObject, ObjectHeader.size, sizeT]
  omega

/-- The header is read in the sixteen bytes before the object. -/
theorem getSize_iff {memory : Memory} {ptr size : Nat} (low : 16 ≤ ptr) (high : ptr < 2 ^ 64) :
    getSize memory ptr = .ok size ↔
      memory.load (ptr - 16) 8 = ObjectHeader.magic ∧ memory.load (ptr - 8) 8 = size := by
  have second : ptr - 16 + 8 = ptr - 8 := by omega
  simp only [getSize, getObject_eq low high, ObjectHeader.getSize, second, check]
  split
  · rename_i magic
    simp [magic, bind, Except.bind, pure, Except.pure]
  · rename_i other
    simp [other, bind, Except.bind]

theorem getSize_laid (laid : ObjectLaid own memory ptr size) : getSize memory ptr = .ok size :=
  (getSize_iff laid.low (by have := laid.high; omega)).mpr ⟨laid.magic, laid.header⟩

theorem getSize_kingsley (heap : KingsleyHeap) (laid : ObjectLaid own memory ptr size) :
    heap.getSize memory ptr = .ok size := by
  have low := laid.low
  rw [KingsleyHeap.getSize, if_neg (by omega)]
  exact getSize_laid laid

/-- A new object: its range, with the header before the payload. -/
structure Made (own own' : Nat → Owner) (space space' : Space) (heapid : Nat) (zone' : ZoneHeap)
    (ptr sz : Nat) : Prop where
  xheap : space'.xheap.Laid own'
  heapStart : space'.xheap.heapStart = space.xheap.heapStart
  heapEnd : space'.xheap.heapEnd = space.xheap.heapEnd
  zone : zone'.Laid own' space'.memory heapid
  object : ObjectLaid own' space'.memory ptr sz
  source : own ptr = .nobody ∨ own ptr = .tail heapid
  others : ∀ place, own place ≠ .nobody → own place ≠ .arena heapid → own place ≠ .tail heapid →
    own' place = own place ∧ space'.memory place = space.memory place

theorem malloc_laid {space : Space} {zone : ZoneHeap} (xheap : space.xheap.Laid own)
    (laid : zone.Laid own space.memory heapid) (bound : sz + 4136 ≤ 2 ^ 64) (aligned : sz % 8 = 0)
    (sized : (∃ c : Nat, c ≤ 28 ∧ sz = 2 ^ (c + 3)) ∨ StrictSegHeap.maxObjectSize < sz) :
    malloc space zone sz = .error .exit ∨ ∃ ptr space' zone' own',
      malloc space zone sz = .ok (ptr, space', zone') ∧ Made own own' space space' heapid zone' ptr sz := by
  have request : sizeT (sz + ObjectHeader.size) = sz + 16 := sizeT_small (by
    simp only [ObjectHeader.size]
    omega)
  have length : align (sz + 16) = sz + 16 := by
    simp only [align, sizeT_small (show sz + 16 + 7 < 2 ^ 64 by omega)]
    omega
  simp only [malloc, request]
  rcases zone.malloc_laid (fun raw => .object (raw + 16)) xheap laid (show 0 < sz + 16 by omega)
    (by omega) (by omega) with
    exits | ⟨raw, space₁, zone₁, own', made, nonzero, xheap', start, finish, laid', carved⟩
  · rw [exits]
    exact .inl rfl
  · have range := xheap'.range carved.owns (by simp) (by omega)
    have rest := xheap'.rest
    have ends := xheap'.bound
    have owns := carved.owns
    rw [length] at owns
    have positive : 0 < sz := by
      rcases sized with ⟨c, _, same⟩ | large
      · have := Nat.two_pow_pos (c + 3)
        omega
      · omega
    have outside : ∀ place, place < raw ∨ raw + 16 ≤ place →
        ObjectHeader.create space₁.memory raw sz place = space₁.memory place := by
      intro place away
      rw [ObjectHeader.create, Memory.store_outside (by omega), Memory.store_outside (by omega)]
    have object : ObjectLaid own' (ObjectHeader.create space₁.memory raw sz) (raw + 16) sz := by
      refine ⟨by omega, by omega, by simpa [Nat.add_comm sz 16] using owns, ?_, ?_, sized⟩
      · rw [ObjectHeader.create, Nat.add_sub_cancel, Memory.load_store_apart (by omega),
          Memory.load_store]
        rfl
      · rw [ObjectHeader.create, show raw + 16 - 8 = raw + 8 by omega, Memory.load_store]
        omega
    have pointer : getPointer raw = raw + 16 := sizeT_small (by
      simp only [ObjectHeader.size]
      omega)
    rw [made]
    refine .inr ⟨raw + 16, { space₁ with memory := ObjectHeader.create space₁.memory raw sz }, zone₁, own',
      ?_, xheap', start, finish, ?_, object, ?_, ?_⟩
    · show (if raw = 0 then _ else _) = _
      rw [if_neg (by omega)]
      simp only [pointer, getSize_laid object]
      show (check (sz = sz) >>= fun _ => pure _) = _
      rw [check_true rfl]
      rfl
    · refine laid'.kept (fun _ _ => rfl) ?_
      intro place same
      refine outside place ?_
      by_contra inside
      rw [owns place (by omega) (by omega)] at same
      cases same
    · exact carved.source (raw + 16) (by omega) (by omega)
    · intro place owned notArena notTail
      obtain ⟨same, byte⟩ := carved.others place owned notArena notTail
      refine ⟨same, (outside place ?_).trans byte⟩
      by_contra inside
      rcases carved.source place (by omega) (by omega) with none | tail
      · exact owned none
      · exact notTail tail

end AdaptAppHeap

def Layout.add (layout : Layout) (own : Nat → Owner) (ptr size : Nat) : Layout :=
  { layout with
    own := own
    size := Function.update layout.size ptr (some size)
    place := Function.update layout.place ptr .live }

theorem Laid.carve {layout : Layout} {xmemory : Xmemory} {blocks : List Block} {heap : KingsleyHeap}
    (laid : Laid layout xmemory blocks) {own' : Nat → Owner} {space' : Space} {ptr sz size : Nat}
    (made : AdaptAppHeap.Made layout.own own' xmemory.space space' heapid heap.bigheap ptr sz)
    (bins : heap.bins = (xmemory.heaps heapid).bins) (fits : size ≤ sz) :
    Laid (layout.add own' ptr sz) ⟨space', Function.update xmemory.heaps heapid heap⟩
      (⟨ptr, size⟩ :: blocks) := by
  have kept : ∀ place owner, layout.own place = owner → owner ≠ .nobody → owner ≠ .arena heapid →
      owner ≠ .tail heapid → own' place = layout.own place ∧
        space'.memory place = xmemory.space.memory place :=
    fun place owner same none arena tail =>
      made.others place (by rw [same]; exact none) (by rw [same]; exact arena) (by rw [same]; exact tail)
  have fresh : ∀ other size, layout.size other = some size → other ≠ ptr := by
    intro other size sized same
    subst same
    have object := laid.objects other size sized
    have owned := object.owns other (by omega) (by have := object.positive; have := object.low; omega)
    rcases made.source with none | tail
    · rw [owned] at none
      cases none
    · rw [owned] at tail
      cases tail
  have unlisted : ∀ heapid sizeClass, ∀ other ∈ layout.listed heapid sizeClass, other ≠ ptr := by
    intro heapid sizeClass other member
    obtain ⟨_, c, _, _, sized⟩ := (laid.lists heapid sizeClass).members other member
    exact fresh other _ sized
  have unlive : ∀ block ∈ blocks, block.ptr ≠ ptr := by
    intro block member
    obtain ⟨_, size, sized, _⟩ := laid.live block member
    exact fresh block.ptr size sized
  refine ⟨made.xheap, ?_, ?_, ?_, ?_, ?_⟩
  · intro heapid'
    by_cases same : heapid' = heapid
    · subst same
      simp only [Function.update_self]
      exact made.zone
    · simp only [Function.update_of_ne same]
      refine (laid.zones heapid').kept ?_ ?_
      · intro place owner
        rcases owner with arena | tail
        · exact (kept place _ arena nofun (by simpa using same) nofun).1
        · exact (kept place _ tail nofun nofun (by simpa using same)).1
      · exact fun place arena => (kept place _ arena nofun (by simpa using same) nofun).2
  · intro other size sized
    by_cases same : other = ptr
    · subst same
      simp only [Layout.add, Function.update_self, Option.some.injEq] at sized
      subst sized
      exact made.object
    · simp only [Layout.add, Function.update_of_ne same] at sized
      refine (laid.objects other size sized).kept ?_ ?_
      · exact fun place owner => (kept place _ owner nofun nofun nofun).1
      · exact fun place owner _ => (kept place _ owner nofun nofun nofun).2
  · intro heapid' sizeClass
    have head : (Function.update xmemory.heaps heapid heap heapid').bins sizeClass =
        (xmemory.heaps heapid').bins sizeClass := by
      by_cases same : heapid' = heapid
      · subst same
        simp [bins]
      · simp [Function.update_of_ne same]
    have moved := (laid.lists heapid' sizeClass).kept laid.objects
      (fun other _ place owner => (kept place (.object other) owner nofun nofun nofun).2)
    refine ⟨?_, moved.nodup, ?_⟩
    · simp only [head]
      exact moved.chain
    · intro other member
      have different := unlisted heapid' sizeClass other member
      simp only [Layout.add, Function.update_of_ne different]
      exact moved.members other member
  · exact List.nodup_cons.mpr ⟨by simpa using unlive, laid.distinct⟩
  · intro block member
    rcases List.mem_cons.mp member with same | older
    · subst same
      exact ⟨Function.update_self .., sz, Function.update_self .., fits⟩
    · have different := unlive block older
      simp only [Layout.add, Function.update_of_ne different]
      exact laid.live block older

end ProcessAsThread.Heap
