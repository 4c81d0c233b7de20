import Mathlib.Data.List.Pairwise
import ProcessAsThread.Globals.Maps
import ProcessAsThread.Globals.Myglobals
import ProcessAsThread.Library.ForkedMemory

/-! `xglobals::initialize` as a whole, from the text of /proc/self/maps to the address
space, and what the processes that are forked afterwards see of each other's stores. -/

namespace ProcessAsThread

open Library Heap

namespace Mapparser

def KernelLine.start (line : KernelLine) : Nat := digits 16 line.addr1

def KernelLine.stop (line : KernelLine) : Nat := digits 16 line.addr2

def KernelLine.Covers (line : KernelLine) (place : Nat) : Prop := line.start ≤ place ∧ place < line.stop

instance (line : KernelLine) (place : Nat) : Decidable (line.Covers place) :=
  inferInstanceAs (Decidable (_ ∧ _))

/-- The permissions the kernel writes for a mapping. -/
def letters (mapping : Mapping) : List UInt8 :=
  permissions (if mapping.read then 'r' else '-') (if mapping.write then 'w' else '-')
    (if mapping.execute then 'x' else '-') (if mapping.shared then 's' else 'p')

/-- The lines are those of the address space: in order, and one for each place that is
mapped. -/
structure Describes (lines : List KernelLine) (space : AddressSpace) : Prop where
  aligned : ∀ line ∈ lines, line.start % pageSize = 0 ∧ line.stop % pageSize = 0
  ascending : lines.Pairwise fun line later => line.stop ≤ later.start
  complete : ∀ place cell, space place = some cell → ∃ line ∈ lines, line.Covers place
  mapped : ∀ line ∈ lines, ∀ place, line.Covers place →
    ∃ cell, space place = some cell ∧ line.perm = letters cell.mapping

def privateData (mapping : Mapping) : Bool :=
  !mapping.shared && mapping.read && mapping.write && !mapping.execute

/-- Private memory that is read and written and not executed, but for the stack. -/
def isGlobal (lines : List KernelLine) (space : AddressSpace) (place : Nat) : Bool :=
  (space place).any (fun cell => privateData cell.mapping) &&
    lines.all fun line => !(line.name == stack && decide (line.Covers place))

private theorem letters_privateData (mapping : Mapping) :
    letters mapping = permissions 'r' 'w' '-' 'p' ↔ privateData mapping = true := by
  obtain ⟨shared, read, write, execute, file⟩ := mapping
  cases shared <;> cases read <;> cases write <;> cases execute <;> simp [letters, privateData] <;> decide

variable {lines : List KernelLine} {space after : AddressSpace}

theorem Describes.unique (describes : Describes lines space) (first : line ∈ lines) (second : other ∈ lines)
    (covers : line.Covers place) (covers' : other.Covers place) : other = line := by
  by_contra different
  have apart : lines.Pairwise fun line other => ¬ (line.Covers place ∧ other.Covers place) :=
    describes.ascending.imp fun below both => by
      have high := both.1.2
      have low := both.2.1
      omega
  have symmetric : Std.Symm fun line other : KernelLine => ¬ (line.Covers place ∧ other.Covers place) :=
    ⟨fun _ _ apart both => apart both.symm⟩
  exact apart.forall second first different ⟨covers', covers⟩

private theorem Describes.kept_iff (describes : Describes lines space) (member : line ∈ lines)
    (covers : line.Covers place) : line.kept = true ↔ isGlobal lines space place = true := by
  obtain ⟨cell, present, perm⟩ := describes.mapped line member place covers
  have writable := letters_privateData cell.mapping
  simp only [KernelLine.kept, isGlobal, present, Option.any_some, Bool.and_eq_true, beq_iff_eq, perm, writable,
    bne_iff_ne, List.all_eq_true, Bool.not_eq_true', Bool.and_eq_false_iff, beq_eq_false_iff_ne,
    decide_eq_false_iff_not]
  refine and_congr_right fun _ => ⟨fun name other inside => ?_, fun all => ?_⟩
  · by_cases covers' : other.Covers place
    · rw [describes.unique member inside covers covers']
      exact .inl name
    · exact .inr covers'
  · exact (all line member).resolve_right fun not => not covers

end Mapparser

namespace Xglobals

open Mapparser

/-- `xglobals::initialize`: the maps file is parsed, and what the parser has found is shared. -/
def initializeGlobals (space : AddressSpace) (parser : Mapparser) (buf : Memory) (fields : Fields)
    (file : Option (List UInt8)) (fd : Int) (turns : List Turn) : Option AddressSpace := do
  let maplist ← pmparserParse parser buf fields file
  xglobalsInitialize space maplist fd turns

/-- The address space that is wanted: the global data shared, everything else as it was. -/
def shareGlobals (lines : List KernelLine) (space : AddressSpace) : AddressSpace := fun place =>
  if isGlobal lines space place then (space place).map fun cell => ⟨cell.value, sharedZone⟩ else space place

/-- The kernel has put a temporary zone where nothing is. -/
def Zoned (space : AddressSpace) (turn : Turn) : Prop :=
  turn.place % pageSize = 0 ∧ 0 < turn.place ∧ space.Free turn.place (userHeapSize * 2)

variable {space after : AddressSpace} {lines : List KernelLine}

private theorem sharedRegion_free (space : AddressSpace) (entry : Procmaps) (start length : Nat) :
    (sharedRegion space entry).Free start length ↔ space.Free start length := by
  refine forall₂_congr fun index _ => ?_
  unfold sharedRegion
  split <;> simp

private theorem shareRegions_eq_some {fd : Int} {entries : List Procmaps} {turns : List Turn}
    (listed : Listed space entries) (present : ∀ entry ∈ entries, 0 < entry.length) :
    shareRegions space fd entries turns = some after ↔ entries.length ≤ turns.length ∧
      (∀ turn ∈ turns.take entries.length, Zoned space turn) ∧ after = entries.foldl sharedRegion space := by
  induction entries generalizing space turns with
  | nil => simp [shareRegions, eq_comm]
  | cons entry rest ih =>
    cases turns with
    | nil => simp [shareRegions]
    | cons turn turns =>
      have member : entry ∈ entry :: rest := List.mem_cons_self ..
      have readable := listed.readable entry member
      have others := @ih (sharedRegion space entry) turns (listed.tail (onlyShared_region readable))
        fun other inside => present other (List.mem_cons_of_mem _ inside)
      have turned := fun middle => @shareRegion_eq_some space entry turn middle fd
        (listed.aligned entry member) (listed.bounded entry member) readable
      simp only [shareRegions, Option.bind_eq_bind, Option.bind_eq_some_iff, turned, List.length_cons,
        List.take_succ_cons, List.forall_mem_cons, List.foldl_cons, Nat.add_le_add_iff_right]
      constructor
      · rintro ⟨middle, ⟨placed, rfl⟩, remaining⟩
        obtain ⟨enough, zoned, same⟩ := others.mp remaining
        refine ⟨enough, ⟨⟨placed.aligned, placed.positive, placed.free⟩, fun turn later => ?_⟩, same⟩
        obtain ⟨aligned, positive, free⟩ := zoned turn later
        exact ⟨aligned, positive, (sharedRegion_free ..).mp free⟩
      · rintro ⟨enough, ⟨⟨aligned, positive, free⟩, zoned⟩, same⟩
        refine ⟨_, ⟨⟨present entry member, aligned, positive, free⟩, rfl⟩, others.mpr ⟨enough, ?_, same⟩⟩
        intro turn later
        obtain ⟨aligned, positive, free⟩ := zoned turn later
        exact ⟨aligned, positive, (sharedRegion_free ..).mpr free⟩

private theorem foldl_sharedRegion (entries : List Procmaps) (place : Nat) :
    entries.foldl sharedRegion space place =
      if ∃ entry ∈ entries, Covers entry place then (space place).map fun cell => ⟨cell.value, sharedZone⟩
      else space place := by
  induction entries generalizing space with
  | nil => simp
  | cons entry rest ih =>
    rw [List.foldl_cons, ih]
    by_cases here : Covers entry place <;> by_cases later : ∃ other ∈ rest, Covers other place <;>
      simp [sharedRegion, here, later, Function.comp_def]

private theorem entries_filled (lines : List KernelLine) (map : Nat → Procmaps) :
    entries ⟨filled lines 0 map, (lines.filter KernelLine.kept).length⟩ =
      (lines.filter KernelLine.kept).map KernelLine.entry := by
  refine List.ext_getElem (by simp [entries]) fun place small small' => ?_
  have inside : place < (lines.filter KernelLine.kept).length := by simpa using small'
  simp [entries, filled, inside]

theorem covers_entry (line : KernelLine) (place : Nat) : Covers line.entry place ↔ line.Covers place := by
  have ordered := line.ordered
  simp only [Covers, Within, KernelLine.entry, KernelLine.Covers, KernelLine.start, KernelLine.stop]
  omega

private theorem listed_of_describes (describes : Describes lines space)
    (fits : ∀ line ∈ lines, line.kept = true → line.stop - line.start ≤ userHeapSize * 2) :
    Listed space ((lines.filter KernelLine.kept).map KernelLine.entry) where
  aligned := by
    intro entry member
    obtain ⟨line, inside, rfl⟩ := List.mem_map.mp member
    obtain ⟨start, stop⟩ := describes.aligned line (List.mem_of_mem_filter inside)
    refine ⟨start, ?_⟩
    simp only [KernelLine.entry, KernelLine.start, KernelLine.stop, pageSize] at start stop ⊢
    omega
  bounded := by
    intro entry member
    obtain ⟨line, inside, rfl⟩ := List.mem_map.mp member
    obtain ⟨inside, kept⟩ := List.mem_filter.mp inside
    exact fits line inside kept
  apart := by
    rw [List.pairwise_map]
    refine (describes.ascending.filter _).imp fun below place covers covers' => ?_
    have high := ((covers_entry ..).mp covers).2
    have low := ((covers_entry ..).mp covers').1
    omega
  readable := by
    intro entry member index small
    obtain ⟨line, inside, rfl⟩ := List.mem_map.mp member
    obtain ⟨inside, kept⟩ := List.mem_filter.mp inside
    have covers : line.Covers (line.entry.addrStart + index) :=
      (covers_entry ..).mp ⟨Nat.le_add_right .., by omega⟩
    obtain ⟨cell, present, perm⟩ := describes.mapped line inside _ covers
    have data : privateData cell.mapping = true := by
      have marked := (describes.kept_iff inside covers).mp kept
      simp only [isGlobal, present, Option.any_some, Bool.and_eq_true] at marked
      exact marked.1
    simp only [privateData, Bool.and_eq_true] at data
    rw [present, Option.map_some, data.1.1.2]

private theorem foldl_kept (describes : Describes lines space) :
    ((lines.filter KernelLine.kept).map KernelLine.entry).foldl sharedRegion space = shareGlobals lines space := by
  funext place
  have same : (∃ entry ∈ (lines.filter KernelLine.kept).map KernelLine.entry, Covers entry place) ↔
      isGlobal lines space place = true := by
    constructor
    · rintro ⟨entry, member, covers⟩
      obtain ⟨line, inside, rfl⟩ := List.mem_map.mp member
      obtain ⟨inside, kept⟩ := List.mem_filter.mp inside
      exact (describes.kept_iff inside ((covers_entry ..).mp covers)).mp kept
    · intro marked
      cases present : space place with
      | none => simp [isGlobal, present] at marked
      | some cell =>
        obtain ⟨line, inside, covers⟩ := describes.complete place cell present
        have kept := (describes.kept_iff inside covers).mpr marked
        exact ⟨_, List.mem_map_of_mem (List.mem_filter.mpr ⟨inside, kept⟩), (covers_entry ..).mpr covers⟩
  rw [foldl_sharedRegion, shareGlobals]
  simp only [same]

/-- The lines that are kept are the regions that are shared. -/
theorem initializeGlobals_eq {parser : Mapparser} {buf : Memory} {fields : Fields} {fd : Int} {turns : List Turn}
    (short : ∀ line ∈ lines, line.text.length ≤ 259) :
    initializeGlobals space parser buf fields (some (contents lines)) fd turns =
      if (lines.filter KernelLine.kept).length ≤ 64 ∧ fd ≠ -1 then
        shareRegions space fd ((lines.filter KernelLine.kept).map KernelLine.entry) turns
      else none := by
  simp only [initializeGlobals, pmparserParse_lines short, xglobalsInitialize]
  by_cases room : (lines.filter KernelLine.kept).length ≤ 64
  · by_cases failed : fd = -1
    · simp [room, failed]
    · rw [if_pos room, Option.bind_eq_bind, Option.bind_some, if_neg failed, entries_filled, if_pos ⟨room, failed⟩]
  · simp [room]

private theorem shareKept_eq_some {fd : Int} {turns : List Turn} (describes : Describes lines space)
    (fits : ∀ line ∈ lines, line.kept = true → line.stop - line.start ≤ userHeapSize * 2) :
    shareRegions space fd ((lines.filter KernelLine.kept).map KernelLine.entry) turns = some after ↔
      (lines.filter KernelLine.kept).length ≤ turns.length ∧
      (∀ turn ∈ turns.take (lines.filter KernelLine.kept).length, Zoned space turn) ∧
      after = shareGlobals lines space := by
  have present : ∀ entry ∈ (lines.filter KernelLine.kept).map KernelLine.entry, 0 < entry.length := by
    intro entry member
    obtain ⟨line, _, rfl⟩ := List.mem_map.mp member
    exact Nat.sub_pos_of_lt line.ordered
  rw [shareRegions_eq_some (listed_of_describes describes fits) present, List.length_map, foldl_kept describes]

def twoPages : AddressSpace := fun place =>
  if heapLine.Covers place ∨ stackLine.Covers place then some ⟨7, ⟨false, true, true, false, none⟩⟩ else none

private theorem twoPages_described : Describes [heapLine, stackLine] twoPages where
  aligned := by decide
  ascending := by decide
  complete := by
    intro place cell present
    unfold twoPages at present
    split at present
    · rename_i covered
      exact covered.elim (fun covers => ⟨heapLine, by simp, covers⟩) fun covers => ⟨stackLine, by simp, covers⟩
    · cases present
  mapped := by
    intro line member place covers
    have covered : heapLine.Covers place ∨ stackLine.Covers place := by
      rcases List.mem_pair.mp member with rfl | rfl
      · exact .inl covers
      · exact .inr covers
    refine ⟨⟨7, ⟨false, true, true, false, none⟩⟩, if_pos covered, ?_⟩
    rcases List.mem_pair.mp member with rfl | rfl <;> decide

private theorem twoPages_short : ∀ line ∈ [heapLine, stackLine], line.text.length ≤ 259 := by decide

private theorem twoPages_fit : ∀ line ∈ [heapLine, stackLine], line.kept = true →
    line.stop - line.start ≤ userHeapSize * 2 := by decide

private theorem twoPages_zoned : ∀ turn ∈ [(⟨2 ^ 40, -1⟩ : Turn)], Zoned twoPages turn := by
  intro turn member
  cases List.mem_singleton.mp member
  refine ⟨by decide, by decide, fun index _ => ?_⟩
  have heap : heapLine.stop = 0x401000 := by decide
  have stack : stackLine.stop = 0x7ffd1000 := by decide
  have outside : ¬ (heapLine.Covers (2 ^ 40 + index) ∨ stackLine.Covers (2 ^ 40 + index)) := by
    rintro (covers | covers)
    · have high := covers.2
      omega
    · have high := covers.2
      omega
  rw [twoPages, if_neg outside]
  rfl

/-- After it every process reads at a place of the global data what any process stored
there last, and elsewhere what it stored itself or had when it was forked. -/
theorem load_initialized {parser : Mapparser} {buf : Memory} {fields : Fields} {fd : Int} {turns : List Turn}
    {history : List (ForkedMemory × ForkedMemory.Event)} {memory : ForkedMemory}
    (describes : Describes lines space) (short : ∀ line ∈ lines, line.text.length ≤ 259)
    (fits : ∀ line ∈ lines, line.kept = true → line.stop - line.start ≤ userHeapSize * 2)
    (initialized : initializeGlobals space parser buf fields (some (contents lines)) fd turns = some after)
    (run : Run ForkedMemory.step (.boot after) history memory) (member : process < memory.tables.length)
    (place : Nat) :
    memory.load process place = (space place).bind fun cell =>
      if cell.mapping.read then
        some ((if isGlobal lines space place || cell.mapping.shared then ForkedMemory.stored place history
          else ForkedMemory.inherited process place history).getD cell.value)
      else none := by
  have same : after = shareGlobals lines space := by
    rw [initializeGlobals_eq short] at initialized
    split at initialized
    · exact ((shareKept_eq_some describes fits).mp initialized).2.2
    · cases initialized
  have mapped := ForkedMemory.mapped_of_run run
  cases present : space place with
  | none =>
    have unmapped : after place = none := by
      rw [same, shareGlobals, present]
      split <;> rfl
    have slot := mapped process _ (List.getElem?_eq_getElem member) place
    rw [unmapped] at slot
    simp [ForkedMemory.load, List.getElem?_eq_getElem member, slot]
  | some cell =>
    cases marked : isGlobal lines space place with
    | true =>
      have shared : after place = some ⟨cell.value, sharedZone⟩ := by
        rw [same, shareGlobals, if_pos marked, present]
        rfl
      have readable : cell.mapping.read = true := by
        simp only [isGlobal, present, Option.any_some, privateData, Bool.and_eq_true] at marked
        exact marked.1.1.1.2
      rw [ForkedMemory.load_shared run shared rfl member]
      simp [sharedZone, readable]
    | false =>
      have kept : after place = some cell := by
        rw [same, shareGlobals, marked, if_neg Bool.false_ne_true, present]
      cases shared : cell.mapping.shared with
      | true =>
        simp [ForkedMemory.load_shared run kept shared member, shared]
      | false =>
        simp [ForkedMemory.load_own run kept shared member, shared]

/-- What a child stores in the heap its parent reads, what it stores on the stack not. -/
theorem load_initialized_child : ∃ after history memory,
    initializeGlobals twoPages zeroParser zeros zeroFields (some (contents [heapLine, stackLine])) 3
      [⟨2 ^ 40, -1⟩] = some after ∧
    Run ForkedMemory.step (.boot after) history memory ∧ memory.load 0 0x400010 = some 5 ∧
      memory.load 0 0x7ffd0010 = some 7 ∧ memory.load 1 0x7ffd0010 = some 6 := by
  have initialized : initializeGlobals twoPages zeroParser zeros zeroFields
      (some (contents [heapLine, stackLine])) 3 [⟨2 ^ 40, -1⟩] =
        some (shareGlobals [heapLine, stackLine] twoPages) := by
    rw [initializeGlobals_eq twoPages_short, if_pos (by decide), shareKept_eq_some twoPages_described twoPages_fit]
    exact ⟨by decide, fun turn member => twoPages_zoned turn (List.mem_of_mem_take member), rfl⟩
  have executed : ((record ForkedMemory.step [] (.boot (shareGlobals [heapLine, stackLine] twoPages))
      [.fork 0, .store 1 0x400010 5, .store 1 0x7ffd0010 6]).map fun recorded =>
        decide (recorded.2.tables.length = 2 ∧ ForkedMemory.stored 0x400010 recorded.1 = some 5 ∧
          ForkedMemory.inherited 0 0x7ffd0010 recorded.1 = none ∧
          ForkedMemory.inherited 1 0x7ffd0010 recorded.1 = some 6)) = some true := by
    decide +kernel
  obtain ⟨history, memory, run, two, heap, unstored, six⟩ := exists_run executed
  have load := fun process (member : process < memory.tables.length) =>
    load_initialized twoPages_described twoPages_short twoPages_fit initialized run member
  have global : isGlobal [heapLine, stackLine] twoPages 0x400010 = true := by decide
  have private' : isGlobal [heapLine, stackLine] twoPages 0x7ffd0010 = false := by decide
  have heapCell : twoPages 0x400010 = some ⟨7, ⟨false, true, true, false, none⟩⟩ := by decide
  have stackCell : twoPages 0x7ffd0010 = some ⟨7, ⟨false, true, true, false, none⟩⟩ := by decide
  refine ⟨_, history, memory, initialized, run, ?_, ?_, ?_⟩
  · simp [load 0 (two ▸ by decide), heapCell, global, heap]
  · simp [load 0 (two ▸ by decide), stackCell, private', unstored]
  · simp [load 1 (two ▸ by decide), stackCell, private', six]

end Xglobals

end ProcessAsThread
