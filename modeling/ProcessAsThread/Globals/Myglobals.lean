import ProcessAsThread.Library.AddressSpace
import ProcessAsThread.Globals.Pmparser
import ProcessAsThread.Heap.Layers

/-! `xglobals::initialize` of myglobals.h: every listed region is copied out,
mapped again as shared memory and copied back. -/

namespace ProcessAsThread

open Library Heap

def roundToPages (length : Nat) : Nat := (length + (pageSize - 1)) / pageSize * pageSize

structure MmapFlags where
  shared : Bool
  fixed : Bool
  anonymous : Bool

/-- A mapping that can be read and written, `none` for MAP_FAILED. Without MAP_FIXED
the kernel chooses `place`. With MAP_ANONYMOUS it looks at neither the file nor
the offset; nothing here maps a file. -/
def mmap (space : AddressSpace) (place start length : Nat) (flags : MmapFlags) (_fd : Int)
    (_offset : Nat) : Option (Nat × AddressSpace) :=
  let mapping : Mapping := ⟨flags.shared, true, true, false, none⟩
  if length = 0 ∨ flags.anonymous = false then none
  else if flags.fixed then
    if start % pageSize = 0 then some (start, space.map start (roundToPages length) mapping) else none
  else if place % pageSize = 0 ∧ 0 < place ∧ space.Free place (roundToPages length) then
    some (place, space.map place (roundToPages length) mapping)
  else none

def munmap (space : AddressSpace) (start length : Nat) : Option AddressSpace :=
  if start % pageSize = 0 ∧ 0 < length then some (space.unmap start (roundToPages length)) else none

namespace Mm

/-- `MM::allocate`; a failure aborts. -/
def allocate (space : AddressSpace) (place : Nat) (isShared : Bool) (sz : Nat) (fd : Int)
    (startaddr : Nat) : Option (Nat × AddressSpace) :=
  mmap space place startaddr sz ⟨isShared, startaddr != 0, fd == -1⟩ fd 0

def mmapAllocatePrivate (space : AddressSpace) (place sz : Nat) : Option (Nat × AddressSpace) :=
  allocate space place false sz (-1) 0

/-- `MM::mmapDeallocate`; the result of munmap is not looked at. -/
def mmapDeallocate (space : AddressSpace) (ptr sz : Nat) : AddressSpace :=
  (munmap space ptr sz).getD space

end Mm

namespace Xglobals

/-- What the kernel chooses in one turn: where it puts the temporary zone, and
what the open of the region's file returns. -/
structure Turn where
  place : Nat
  opened : Int

/-- The shared mapping in place of a region: of the file at its pathname, if it has
one, or of the file mkstemp has made, but both with MAP_ANONYMOUS. -/
def persistZone (space : AddressSpace) (fd : Int) (entry : Mapparser.Procmaps) (turn : Turn) :
    Option (Nat × AddressSpace) :=
  if entry.pathname.length > 0 then
    mmap space 0 entry.addrStart entry.length ⟨true, true, true⟩ turn.opened entry.offset
  else mmap space 0 entry.addrStart entry.length ⟨true, true, true⟩ fd entry.offset

/-- One turn of the loop, `none` for an abort or a fault. -/
def shareRegion (space : AddressSpace) (fd : Int) (entry : Mapparser.Procmaps) (turn : Turn) :
    Option AddressSpace := do
  let (tmpZone, space) ← Mm.mmapAllocatePrivate space turn.place (userHeapSize * 2)
  let space ← space.copy tmpZone entry.addrStart entry.length
  -- a munmap that fails is only reported
  let space := (munmap space entry.addrStart entry.length).getD space
  let (_, space) ← persistZone space fd entry turn
  let space ← space.copy entry.addrStart tmpZone entry.length
  return Mm.mmapDeallocate space tmpZone (userHeapSize * 2)

def shareRegions (space : AddressSpace) (fd : Int) :
    List Mapparser.Procmaps → List Turn → Option AddressSpace
  | [], _ => some space
  | entry :: entries, turn :: turns => do
    let space ← shareRegion space fd entry turn
    shareRegions space fd entries turns
  | _ :: _, [] => none

/-- The entries the loop goes over. -/
def entries (maplist : Mapparser) : List Mapparser.Procmaps :=
  (List.range maplist.length.toNat).map maplist.map

end Xglobals

/-- `xglobals::initialize` after `pmparser_parse`; `fd` is what mkstemp returns. -/
def xglobalsInitialize (space : AddressSpace) (maplist : Mapparser) (fd : Int)
    (turns : List Xglobals.Turn) : Option AddressSpace :=
  if fd = -1 then none else Xglobals.shareRegions space fd (Xglobals.entries maplist) turns

namespace Xglobals

/-- Anonymous shared memory that can be read and written. -/
def sharedZone : Mapping := ⟨true, true, true, false, none⟩

def Covers (entry : Mapparser.Procmaps) (place : Nat) : Prop :=
  Within entry.addrStart entry.length place

/-- Page-aligned regions that do not overlap, fit the temporary zone and can be read. -/
structure Listed (space : AddressSpace) (entries : List Mapparser.Procmaps) : Prop where
  aligned : ∀ entry ∈ entries, entry.addrStart % pageSize = 0 ∧ entry.length % pageSize = 0
  bounded : ∀ entry ∈ entries, entry.length ≤ userHeapSize * 2
  apart : entries.Pairwise fun entry other => ∀ place, Covers entry place → ¬ Covers other place
  readable : ∀ entry ∈ entries, space.Readable entry.addrStart entry.length

/-- The bytes of the regions are what they were and shared now; nothing else has
changed, and no place has become mapped. -/
structure OnlyShared (entries : List Mapparser.Procmaps) (before after : AddressSpace) : Prop where
  listed : ∀ entry ∈ entries, ∀ place, Covers entry place →
    ∃ cell, before place = some cell ∧ after place = some ⟨cell.value, sharedZone⟩
  unlisted : ∀ place, (∀ entry ∈ entries, ¬ Covers entry place) → after place = before place
  temporary : ∀ place, before place = none → after place = none

instance (entry : Mapparser.Procmaps) (place : Nat) : Decidable (Covers entry place) :=
  inferInstanceAs (Decidable (Within _ _ _))

/-- Where the temporary zone may be put; a region of length 0 cannot be mapped. -/
structure Placed (space : AddressSpace) (entry : Mapparser.Procmaps) (turn : Turn) : Prop where
  present : 0 < entry.length
  aligned : turn.place % pageSize = 0
  positive : 0 < turn.place
  free : space.Free turn.place (userHeapSize * 2)

def sharedRegion (space : AddressSpace) (entry : Mapparser.Procmaps) : AddressSpace := fun place =>
  if Covers entry place then (space place).map fun cell => ⟨cell.value, sharedZone⟩ else space place

theorem roundToPages_aligned {length : Nat} (aligned : length % pageSize = 0) :
    roundToPages length = length := by
  simp only [roundToPages, pageSize] at *
  omega

private theorem roundToPages_zone : roundToPages (userHeapSize * 2) = userHeapSize * 2 :=
  roundToPages_aligned (by decide)

def withZone (space : AddressSpace) (turn : Turn) : AddressSpace :=
  space.map turn.place (userHeapSize * 2) ⟨false, true, true, false, none⟩

private theorem mmapAllocatePrivate_zone (space : AddressSpace) (turn : Turn) :
    Mm.mmapAllocatePrivate space turn.place (userHeapSize * 2) =
      if turn.place % pageSize = 0 ∧ 0 < turn.place ∧ space.Free turn.place (userHeapSize * 2) then
        some (turn.place, withZone space turn)
      else none := by
  have positive : userHeapSize * 2 ≠ 0 := by decide
  simp [Mm.mmapAllocatePrivate, Mm.allocate, mmap, roundToPages_zone, withZone, positive]

/-- Both branches map the region in the same way. -/
theorem persistZone_eq {space : AddressSpace} {fd : Int} {entry : Mapparser.Procmaps} {turn : Turn}
    (aligned : entry.addrStart % pageSize = 0 ∧ entry.length % pageSize = 0) :
    persistZone space fd entry turn = if 0 < entry.length then
      some (entry.addrStart, space.map entry.addrStart entry.length sharedZone) else none := by
  simp only [persistZone, mmap, ite_self, aligned.1, roundToPages_aligned aligned.2, sharedZone]
  rcases Nat.eq_zero_or_pos entry.length with zero | positive
  · simp [zero]
  · simp [positive, Nat.ne_of_gt positive]

section Turn

variable {space : AddressSpace} {entry : Mapparser.Procmaps} {turn : Turn}

theorem Placed.apart (placed : Placed space entry turn)
    (readable : space.Readable entry.addrStart entry.length) {place : Nat}
    (covers : Covers entry place) : ¬ Within turn.place (userHeapSize * 2) place := by
  intro inside
  obtain ⟨cell, present, _⟩ := readable.cell covers
  rw [placed.free.unmapped inside] at present
  cases present

/-- The region has been copied to the zone. -/
def copiedOut (space : AddressSpace) (entry : Mapparser.Procmaps) (turn : Turn) : AddressSpace := fun place =>
  if Within turn.place entry.length place then
    some ⟨space.value (entry.addrStart + (place - turn.place)), ⟨false, true, true, false, none⟩⟩
  else withZone space turn place

theorem copy_out (placed : Placed space entry turn) (bounded : entry.length ≤ userHeapSize * 2)
    (readable : space.Readable entry.addrStart entry.length) :
    (withZone space turn).copy turn.place entry.addrStart entry.length =
      some (copiedOut space entry turn) := by
  have same : ∀ place, Covers entry place → withZone space turn place = space place :=
    fun place covers => AddressSpace.map_outside _ (placed.apart readable covers)
  have zone : ∀ place, Within turn.place entry.length place →
      withZone space turn place = some ⟨0, ⟨false, true, true, false, none⟩⟩ := by
    intro place inside
    exact AddressSpace.map_inside _ ⟨inside.1, by have := inside.2; omega⟩
  refine AddressSpace.copy_eq_some.mpr ⟨⟨?_, ?_⟩, ?_⟩
  · intro index small
    rw [same _ ⟨by omega, by omega⟩]
    exact readable index small
  · intro index small
    rw [zone _ ⟨by omega, by omega⟩]
    rfl
  · funext place
    by_cases inside : Within turn.place entry.length place
    · have covers : Covers entry (entry.addrStart + (place - turn.place)) := by
        obtain ⟨low, high⟩ := inside
        exact ⟨by omega, by omega⟩
      rw [copiedOut, if_pos inside, if_pos inside, zone place inside, AddressSpace.value,
        AddressSpace.value, same _ covers]
      rfl
    · rw [copiedOut, if_neg inside, if_neg inside]

/-- The region is shared memory, filled from the zone. -/
theorem copy_back (placed : Placed space entry turn) (bounded : entry.length ≤ userHeapSize * 2)
    (readable : space.Readable entry.addrStart entry.length) :
    (((copiedOut space entry turn).unmap entry.addrStart entry.length).map
        entry.addrStart entry.length sharedZone).copy entry.addrStart turn.place entry.length =
      some fun place => if Covers entry place then some ⟨space.value place, sharedZone⟩
        else copiedOut space entry turn place := by
  have region : ∀ place, Covers entry place →
      ((copiedOut space entry turn).unmap entry.addrStart entry.length).map
        entry.addrStart entry.length sharedZone place = some ⟨0, sharedZone⟩ :=
    fun place covers => AddressSpace.map_inside _ covers
  have elsewhere : ∀ place, ¬ Covers entry place →
      ((copiedOut space entry turn).unmap entry.addrStart entry.length).map
        entry.addrStart entry.length sharedZone place = copiedOut space entry turn place := by
    intro place outside
    rw [AddressSpace.map_outside _ outside, AddressSpace.unmap_outside outside]
  have zone : ∀ index < entry.length, ¬ Covers entry (turn.place + index) := by
    intro index small covers
    exact placed.apart readable covers ⟨by omega, by omega⟩
  have held : ∀ index < entry.length, copiedOut space entry turn (turn.place + index) =
      some ⟨space.value (entry.addrStart + index), ⟨false, true, true, false, none⟩⟩ := by
    intro index small
    rw [copiedOut, if_pos ⟨by omega, by omega⟩, Nat.add_sub_cancel_left]
  refine AddressSpace.copy_eq_some.mpr ⟨⟨?_, ?_⟩, ?_⟩
  · intro index small
    rw [elsewhere _ (zone index small), held index small]
    rfl
  · intro index small
    rw [region _ ⟨by omega, by omega⟩]
    rfl
  · funext place
    by_cases covers : Covers entry place
    · obtain ⟨index, rfl⟩ : ∃ index, place = entry.addrStart + index :=
        ⟨place - entry.addrStart, by have := covers.1; omega⟩
      have small : index < entry.length := by have := covers.2; omega
      have inside : Within entry.addrStart entry.length (entry.addrStart + index) := covers
      have value : AddressSpace.value (((copiedOut space entry turn).unmap entry.addrStart
          entry.length).map entry.addrStart entry.length sharedZone) (turn.place + index) =
            space.value (entry.addrStart + index) := by
        rw [AddressSpace.value, elsewhere _ (zone index small), held index small]
        rfl
      rw [if_pos covers, if_pos inside, region _ covers, Nat.add_sub_cancel_left, Option.map_some,
        value]
    · have outside : ¬ Within entry.addrStart entry.length place := covers
      rw [if_neg covers, if_neg outside, elsewhere place covers]

theorem munmap_zone {after : AddressSpace} (placed : Placed space entry turn)
    (readable : space.Readable entry.addrStart entry.length)
    (filled : after = fun place => if Covers entry place then some ⟨space.value place, sharedZone⟩
      else copiedOut space entry turn place) (bounded : entry.length ≤ userHeapSize * 2) :
    Mm.mmapDeallocate after turn.place (userHeapSize * 2) = sharedRegion space entry := by
  have positive : 0 < userHeapSize * 2 := by decide
  have unmaps : Mm.mmapDeallocate after turn.place (userHeapSize * 2) =
      after.unmap turn.place (userHeapSize * 2) := by
    rw [Mm.mmapDeallocate, munmap, if_pos ⟨placed.aligned, positive⟩, roundToPages_zone]
    rfl
  rw [unmaps, filled]
  funext place
  by_cases covers : Covers entry place
  · obtain ⟨cell, present, _⟩ := readable.cell covers
    rw [AddressSpace.unmap_outside (placed.apart readable covers), if_pos covers, sharedRegion,
      if_pos covers, AddressSpace.value, present]
    rfl
  · rw [sharedRegion, if_neg covers]
    by_cases inside : Within turn.place (userHeapSize * 2) place
    · rw [AddressSpace.unmap_inside inside, placed.free.unmapped inside]
    · have outside : ¬ Within turn.place entry.length place := by
        intro within
        exact inside ⟨within.1, by have := within.2; omega⟩
      rw [AddressSpace.unmap_outside inside, if_neg covers, copiedOut, if_neg outside]
      exact AddressSpace.map_outside _ inside

/-- A turn succeeds exactly when its zone is put where nothing is, and then it has
shared the region. -/
theorem shareRegion_eq_some {after : AddressSpace} {fd : Int}
    (aligned : entry.addrStart % pageSize = 0 ∧ entry.length % pageSize = 0)
    (bounded : entry.length ≤ userHeapSize * 2)
    (readable : space.Readable entry.addrStart entry.length) :
    shareRegion space fd entry turn = some after ↔
      Placed space entry turn ∧ after = sharedRegion space entry := by
  by_cases here : turn.place % pageSize = 0 ∧ 0 < turn.place ∧
      space.Free turn.place (userHeapSize * 2)
  · by_cases present : 0 < entry.length
    · have placed : Placed space entry turn := ⟨present, here.1, here.2.1, here.2.2⟩
      have unmaps : (munmap (copiedOut space entry turn) entry.addrStart entry.length).getD
          (copiedOut space entry turn) = (copiedOut space entry turn).unmap entry.addrStart entry.length := by
        rw [munmap, if_pos ⟨aligned.1, present⟩, roundToPages_aligned aligned.2]
        rfl
      have shares : shareRegion space fd entry turn = some (sharedRegion space entry) := by
        simp only [shareRegion, mmapAllocatePrivate_zone, if_pos here, Option.bind_eq_bind,
          Option.bind_some, copy_out placed bounded readable, unmaps,
          persistZone_eq aligned, if_pos present, copy_back placed bounded readable,
          munmap_zone placed readable rfl bounded, Option.pure_def]
      rw [shares, Option.some_inj, eq_comm]
      simp [placed]
    · have fails : shareRegion space fd entry turn = none := by
        simp only [shareRegion, mmapAllocatePrivate_zone, if_pos here, Option.bind_eq_bind,
          Option.bind_some, persistZone_eq aligned, if_neg present, Option.bind_none]
        cases (withZone space turn).copy turn.place entry.addrStart entry.length <;> rfl
      rw [fails]
      constructor
      · intro same
        cases same
      · intro ⟨placed, _⟩
        exact (present placed.present).elim
  · have fails : shareRegion space fd entry turn = none := by
      simp only [shareRegion, mmapAllocatePrivate_zone, if_neg here, Option.bind_eq_bind,
        Option.bind_none]
    rw [fails]
    constructor
    · intro same
      cases same
    · intro ⟨placed, _⟩
      exact (here ⟨placed.aligned, placed.positive, placed.free⟩).elim

end Turn

theorem onlyShared_region {space : AddressSpace} {entry : Mapparser.Procmaps}
    (readable : space.Readable entry.addrStart entry.length) :
    OnlyShared [entry] space (sharedRegion space entry) where
  listed := by
    intro other member place covers
    cases List.mem_singleton.mp member
    obtain ⟨cell, present, _⟩ := readable.cell covers
    exact ⟨cell, present, by rw [sharedRegion, if_pos covers, present]; rfl⟩
  unlisted := by
    intro place outside
    exact if_neg (outside entry (List.mem_singleton.mpr rfl))
  temporary := by
    intro place unmapped
    simp only [sharedRegion, unmapped]
    split <;> rfl

theorem Listed.tail {space after : AddressSpace} {entry : Mapparser.Procmaps}
    {rest : List Mapparser.Procmaps} (listed : Listed space (entry :: rest))
    (shared : OnlyShared [entry] space after) : Listed after rest where
  aligned := fun other member => listed.aligned other (List.mem_cons_of_mem _ member)
  bounded := fun other member => listed.bounded other (List.mem_cons_of_mem _ member)
  apart := (List.pairwise_cons.mp listed.apart).2
  readable := by
    intro other member index small
    have covers : Covers other (other.addrStart + index) := ⟨by omega, by omega⟩
    have same := shared.unlisted (other.addrStart + index) fun entry' member' covers' => by
      cases List.mem_singleton.mp member'
      exact (List.pairwise_cons.mp listed.apart).1 other member _ covers' covers
    rw [same]
    exact listed.readable other (List.mem_cons_of_mem _ member) index small

theorem OnlyShared.cons {space middle after : AddressSpace} {entry : Mapparser.Procmaps}
    {rest : List Mapparser.Procmaps} (listed : Listed space (entry :: rest))
    (first : OnlyShared [entry] space middle) (others : OnlyShared rest middle after) :
    OnlyShared (entry :: rest) space after where
  listed := by
    intro other member place covers
    have apart := (List.pairwise_cons.mp listed.apart).1
    rcases List.mem_cons.mp member with same | inside
    · subst same
      obtain ⟨cell, present, shared⟩ := first.listed other (List.mem_singleton.mpr rfl) place covers
      refine ⟨cell, present, ?_⟩
      rw [others.unlisted place fun later member => apart later member place covers, shared]
    · obtain ⟨cell, present, shared⟩ := others.listed other inside place covers
      refine ⟨cell, ?_, shared⟩
      rw [← present]
      refine (first.unlisted place fun entry' member' covers' => ?_).symm
      cases List.mem_singleton.mp member'
      exact apart other inside place covers' covers
  unlisted := by
    intro place outside
    rw [others.unlisted place fun other member => outside other (List.mem_cons_of_mem _ member)]
    refine first.unlisted place fun other member => ?_
    rw [List.mem_singleton.mp member]
    exact outside entry (List.mem_cons_self ..)
  temporary := fun place unmapped => others.temporary place (first.temporary place unmapped)

theorem shareRegions_onlyShared {space after : AddressSpace} {fd : Int}
    {entries : List Mapparser.Procmaps} {turns : List Turn} (listed : Listed space entries)
    (succeeds : shareRegions space fd entries turns = some after) : OnlyShared entries space after := by
  induction entries generalizing space turns with
  | nil =>
    cases Option.some.inj succeeds
    exact ⟨by simp, fun _ _ => rfl, fun _ unmapped => unmapped⟩
  | cons entry rest ih =>
    cases turns with
    | nil => cases succeeds
    | cons turn turns =>
      obtain ⟨middle, turned, remaining⟩ := Option.bind_eq_some_iff.mp succeeds
      have member : entry ∈ entry :: rest := List.mem_cons_self ..
      have readable := listed.readable entry member
      obtain ⟨placed, same⟩ :=
        (shareRegion_eq_some (listed.aligned entry member) (listed.bounded entry member) readable).mp turned
      subst same
      have first := onlyShared_region readable
      exact .cons listed first (ih (listed.tail first) remaining)

/-- If every call succeeds, the listed regions end up shared with the bytes they
had, and nothing else has changed. -/
theorem initialize_onlyShares {space after : AddressSpace} {maplist : Mapparser} {fd : Int}
    {turns : List Turn} (listed : Listed space (entries maplist))
    (succeeds : xglobalsInitialize space maplist fd turns = some after) :
    OnlyShared (entries maplist) space after := by
  unfold xglobalsInitialize at succeeds
  split at succeeds
  · cases succeeds
  · exact shareRegions_onlyShared listed succeeds

/-- It does succeed if the kernel puts every zone where nothing is mapped at first. -/
theorem shareRegions_succeeds {space : AddressSpace} (fd : Int) {entries : List Mapparser.Procmaps}
    {turns : List Turn} (listed : Listed space entries) (enough : entries.length = turns.length)
    (placed : ∀ entry ∈ entries, ∀ turn ∈ turns, Placed space entry turn) :
    ∃ after, shareRegions space fd entries turns = some after := by
  induction entries generalizing space turns with
  | nil => exact ⟨space, rfl⟩
  | cons entry rest ih =>
    cases turns with
    | nil => cases enough
    | cons turn turns =>
      have member : entry ∈ entry :: rest := List.mem_cons_self ..
      have readable := listed.readable entry member
      have turned : shareRegion space fd entry turn = some (sharedRegion space entry) :=
        (shareRegion_eq_some (listed.aligned entry member) (listed.bounded entry member)
          readable).mpr ⟨placed entry member turn (List.mem_cons_self ..), rfl⟩
      have first := onlyShared_region readable
      have later : ∀ other ∈ rest, ∀ turn ∈ turns, Placed (sharedRegion space entry) other turn := by
        intro other inside turn later
        have before := placed other (List.mem_cons_of_mem _ inside) turn (List.mem_cons_of_mem _ later)
        refine ⟨before.present, before.aligned, before.positive, fun index small => ?_⟩
        have unmapped := before.free index small
        rw [Option.isNone_iff_eq_none] at unmapped ⊢
        exact first.temporary _ unmapped
      obtain ⟨after, remaining⟩ := ih (listed.tail first) (Nat.succ.inj enough) later
      exact ⟨after, by rw [shareRegions, turned]; exact remaining⟩

def threeRegions : AddressSpace := fun place =>
  if Within 0x400000 4096 place then some ⟨7, ⟨false, true, true, false, some 12⟩⟩
  else if Within 0x500000 8192 place then some ⟨8, ⟨false, true, true, false, none⟩⟩
  else if Within 0x7ffd0000 4096 place then some ⟨9, ⟨false, true, true, false, none⟩⟩
  else none

def twoMaps : Mapparser where
  map place :=
    if place = 0 then ⟨0x400000, 0x401000, 4096, chars "rw-p", 0, chars "08:02", 12, chars "/lib/a.so"⟩
    else ⟨0x500000, 0x502000, 8192, chars "rw-p", 0, chars "00:00", 0, []⟩
  length := 2

private theorem twoMaps_listed : Listed threeRegions (entries twoMaps) := by
  constructor
  case aligned => decide
  case bounded => decide
  case apart =>
    refine List.pairwise_pair.mpr fun place covers covers' => ?_
    have high : place < 0x400000 + 4096 := covers.2
    have low : 0x500000 ≤ place := covers'.1
    omega
  case readable =>
    intro entry member index small
    rcases List.mem_cons.mp member with same | later
    · subst same
      have small : index < 4096 := small
      have inside : Within 0x400000 4096 (0x400000 + index) := ⟨by omega, by omega⟩
      simp [threeRegions, twoMaps, inside]
    · cases List.mem_singleton.mp later
      have small : index < 8192 := small
      have outside : ¬ Within 0x400000 4096 (0x500000 + index) := fun within => by
        have high := within.2
        omega
      have inside : Within 0x500000 8192 (0x500000 + index) := ⟨by omega, by omega⟩
      simp [threeRegions, twoMaps, outside, inside]

private theorem threeRegions_placed {entry : Mapparser.Procmaps} {turn : Turn} (present : 0 < entry.length)
    (aligned : turn.place % pageSize = 0) (high : 2 ^ 40 ≤ turn.place) : Placed threeRegions entry turn := by
  refine ⟨present, aligned, by omega, fun index _ => ?_⟩
  have outside : ∀ {start length}, start + length ≤ 2 ^ 40 → ¬ Within start length (turn.place + index) := by
    intro start length low within
    have below := within.2
    omega
  rw [threeRegions, if_neg (outside (by decide)), if_neg (outside (by decide)), if_neg (outside (by decide))]
  rfl

theorem initialize_onlyShares_twoMaps : ∃ after,
    xglobalsInitialize threeRegions twoMaps 3 [⟨2 ^ 40, 4⟩, ⟨2 ^ 41, -1⟩] = some after ∧
      OnlyShared (entries twoMaps) threeRegions after ∧
      after 0x7ffd0010 = some ⟨9, ⟨false, true, true, false, none⟩⟩ := by
  have placed : ∀ entry ∈ entries twoMaps, ∀ turn ∈ [(⟨2 ^ 40, 4⟩ : Turn), ⟨2 ^ 41, -1⟩],
      Placed threeRegions entry turn := by
    intro entry member turn chosen
    have present : ∀ entry ∈ entries twoMaps, 0 < entry.length := by decide
    rcases List.mem_cons.mp chosen with same | later
    · subst same
      exact threeRegions_placed (present entry member) (by decide) (by decide)
    · cases List.mem_singleton.mp later
      exact threeRegions_placed (present entry member) (by decide) (by decide)
  obtain ⟨after, succeeds⟩ := shareRegions_succeeds 3 twoMaps_listed rfl placed
  have initialized : xglobalsInitialize threeRegions twoMaps 3 [⟨2 ^ 40, 4⟩, ⟨2 ^ 41, -1⟩] = some after := by
    rw [xglobalsInitialize, if_neg (by decide)]
    exact succeeds
  have shared := initialize_onlyShares twoMaps_listed initialized
  refine ⟨after, initialized, shared, ?_⟩
  rw [shared.unlisted 0x7ffd0010 (by decide)]
  decide

end Xglobals

end ProcessAsThread
