import ProcessAsThread.Heap.SizeClass
import ProcessAsThread.Library.Run

/-! The two heaps that hand out whole pages by bumping a pointer: xheap, at the
bottom of the application's heap, and SourceInternalHeap. -/

namespace ProcessAsThread.Heap

open Library

/-- Its counterpart for the library's own objects. -/
structure SourceInternalHeap where
  heapStart : Nat
  heapEnd : Nat
  position : Nat
  remaining : Nat
  magic : Nat
  deriving DecidableEq, Repr

namespace SourceInternalHeap

/-- `initialize`, with `ptr` the address of the mapping. -/
def create (ptr initSize metasize : Nat) : SourceInternalHeap :=
  let base := sizeT (ptr + metasize)
  ⟨base, sizeT (base + initSize), base, initSize, 0xCAFEBABE⟩

/-- Unlike that of xheap, `sanityCheck` ends the process. -/
def malloc (heap : SourceInternalHeap) (sz : Nat) : Outcome (Nat × SourceInternalHeap) := do
  check (heap.magic = 0xCAFEBABE)
  let sz := pageSize * (sizeT (sz + (pageSize - 1)) / pageSize)
  if heap.remaining < sz then .error .exit
  else .ok (heap.position,
    { heap with remaining := heap.remaining - sz, position := heap.position + sz })

end SourceInternalHeap

/-- What both are for: a range of memory that is handed out from its start on, in whole pages. -/
structure Region where
  heapStart : Nat
  heapEnd : Nat
  position : Nat
  remaining : Nat

/-- The bytes of the pages a request takes. -/
def pages (sz : Nat) : Nat := pageSize * ((sz + (pageSize - 1)) / pageSize)

namespace Region

def whole (start size : Nat) : Region := ⟨start, start + size, start, size⟩

def take (region : Region) (sz : Nat) : Option (Nat × Region) :=
  if region.remaining < pages sz then none
  else some (region.position, { region with
    remaining := region.remaining - pages sz
    position := region.position + pages sz })

end Region

/-- A heap with the requests it has served, oldest first: the address and the size of each. -/
structure Served (Pool : Type) where
  heap : Pool
  granted : List (Nat × Nat)

/-- One more request; an exit or an abort ends the run. -/
def serve {Pool : Type} (malloc : Pool → Nat → Option (Nat × Pool)) (state : Served Pool) (sz : Nat) :
    Option (Served Pool) :=
  (malloc state.heap sz).map fun (p, heap) => ⟨heap, state.granted ++ [(p, sz)]⟩

def XHeap.step : Served XHeap → Nat → Option (Served XHeap) := serve fun heap sz => (heap.malloc sz).toOption

def SourceInternalHeap.step : Served SourceInternalHeap → Nat → Option (Served SourceInternalHeap) :=
  serve fun heap sz => (heap.malloc sz).toOption

def XHeap.region (heap : XHeap) : Region := ⟨heap.heapStart, heap.heapEnd, heap.position, heap.remaining⟩

def SourceInternalHeap.region (heap : SourceInternalHeap) : Region :=
  ⟨heap.heapStart, heap.heapEnd, heap.position, heap.remaining⟩

/-- Where the requests lie that are served from `position` on. -/
def placed (position : Nat) : List Nat → List (Nat × Nat)
  | [] => []
  | sz :: rest => (position, sz) :: placed (position + pages sz) rest

def OnPage (grant : Nat × Nat) (page : Nat) : Prop :=
  ∃ place, grant.1 ≤ place ∧ place < grant.1 + pages grant.2 ∧ place / pageSize = page

/-- The accounts of a heap that was given `size` bytes and has served some requests. -/
structure PageSafe (size : Nat) (sizes : List Nat) (region : Region) (granted : List (Nat × Nat)) : Prop where
  ordered : region.heapStart ≤ region.position ∧ region.position ≤ region.heapEnd
  aligned : region.position % pageSize = 0
  exact : region.position - region.heapStart + region.remaining = size
  answered : granted.map Prod.snd = sizes
  inside : ∀ grant ∈ granted, grant.1 % pageSize = 0 ∧ grant.2 ≤ pages grant.2 ∧
    region.heapStart ≤ grant.1 ∧ grant.1 + pages grant.2 ≤ region.heapEnd
  apart : granted.Pairwise fun grant other => ∀ page, OnPage grant page → ¬ OnPage other page

/-- A mapping that a heap can be made of: page by page, and within the address space. -/
structure Fits (ptr startsize metasize : Nat) : Prop where
  ptr_page : ptr % pageSize = 0
  metasize_page : metasize % pageSize = 0
  positive : 0 < ptr + metasize
  room : ptr + metasize + startsize < 2 ^ 64

/-! A region serves requests one after another until its pages are used up. -/

section

variable {region : Region} {granted : List (Nat × Nat)} {sz : Nat}

private theorem serve_take_full (full : region.remaining < pages sz) :
    serve Region.take ⟨region, granted⟩ sz = none := by
  simp [serve, Region.take, full]

private theorem serve_take (room : pages sz ≤ region.remaining) : serve Region.take ⟨region, granted⟩ sz =
    some ⟨{ region with
      position := region.position + pages sz
      remaining := region.remaining - pages sz }, granted ++ [(region.position, sz)]⟩ := by
  simp [serve, Region.take, Nat.not_lt.mpr room]

private theorem execute_take (sizes : List Nat) : execute (serve Region.take) ⟨region, granted⟩ sizes =
    if (sizes.map pages).sum ≤ region.remaining then
      some ⟨{ region with
        position := region.position + (sizes.map pages).sum
        remaining := region.remaining - (sizes.map pages).sum }, granted ++ placed region.position sizes⟩
    else none := by
  induction sizes generalizing region granted with
  | nil => simp [execute, placed]
  | cons sz rest ih =>
    rw [execute, List.map_cons, List.sum_cons]
    by_cases room : pages sz ≤ region.remaining
    · rw [serve_take room, Option.bind_some, ih]
      by_cases fits : (rest.map pages).sum ≤ region.remaining - pages sz
      · rw [if_pos fits, if_pos (by omega)]
        simp only [placed, List.append_assoc, List.singleton_append, Nat.add_assoc, Nat.sub_sub]
      · rw [if_neg fits, if_neg (by omega)]
    · rw [serve_take_full (Nat.lt_of_not_le room), Option.bind_none, if_neg (by omega)]

end

private theorem placed_sizes (position : Nat) (sizes : List Nat) :
    (placed position sizes).map Prod.snd = sizes := by
  induction sizes generalizing position with
  | nil => rfl
  | cons sz rest ih => rw [placed, List.map_cons, ih]

/-- The offsets do not depend on where the region is. -/
theorem placed_offsets (start done : Nat) (sizes : List Nat) :
    (placed (start + done) sizes).map (fun grant => grant.1 - start) = (placed done sizes).map Prod.fst := by
  induction sizes generalizing done with
  | nil => rfl
  | cons sz rest ih =>
    rw [placed, placed, List.map_cons, List.map_cons, Nat.add_assoc, ih]
    simp

private theorem le_pages (sz : Nat) : sz ≤ pages sz := by
  simp only [pages, pageSize]
  omega

private theorem pages_mod (sz : Nat) : pages sz % pageSize = 0 := Nat.mul_mod_right ..

private theorem sum_pages_mod (sizes : List Nat) : (sizes.map pages).sum % pageSize = 0 := by
  induction sizes with
  | nil => rfl
  | cons sz rest ih =>
    rw [List.map_cons, List.sum_cons, Nat.add_mod, pages_mod, ih]
    rfl

private theorem placed_inside {position : Nat} {sizes : List Nat} (aligned : position % pageSize = 0) :
    ∀ grant ∈ placed position sizes, grant.1 % pageSize = 0 ∧ position ≤ grant.1 ∧
      grant.1 + pages grant.2 ≤ position + (sizes.map pages).sum := by
  induction sizes generalizing position with
  | nil => simp [placed]
  | cons sz rest ih =>
    have next : (position + pages sz) % pageSize = 0 := by
      rw [Nat.add_mod, aligned, pages_mod]
      rfl
    rw [placed, List.map_cons, List.sum_cons]
    refine List.forall_mem_cons.mpr ⟨⟨aligned, Nat.le_refl _, by simp only; omega⟩, fun grant member => ?_⟩
    obtain ⟨page, low, high⟩ := ih next grant member
    exact ⟨page, by omega, by omega⟩

private theorem placed_apart {position : Nat} {sizes : List Nat} (aligned : position % pageSize = 0) :
    (placed position sizes).Pairwise fun grant other => ∀ page, OnPage grant page → ¬ OnPage other page := by
  induction sizes generalizing position with
  | nil => exact .nil
  | cons sz rest ih =>
    have next : (position + pages sz) % pageSize = 0 := by
      rw [Nat.add_mod, aligned, pages_mod]
      rfl
    rw [placed]
    refine List.pairwise_cons.mpr ⟨fun other member page shared shared' => ?_, ih next⟩
    obtain ⟨place, low, high, same⟩ := shared
    obtain ⟨place', low', high', same'⟩ := shared'
    have later := (placed_inside next other member).2.1
    simp only [pageSize] at *
    omega

private theorem placed_safe {start size : Nat} {sizes : List Nat} (aligned : start % pageSize = 0)
    {state : Served Region} (served : execute (serve Region.take) ⟨.whole start size, []⟩ sizes = some state) :
    PageSafe size sizes state.heap state.granted := by
  rw [execute_take] at served
  split at served
  · rename_i room
    cases served
    simp only [Region.whole] at room
    constructor
    case ordered => exact ⟨Nat.le_add_right .., Nat.add_le_add_left room start⟩
    case aligned =>
      show (start + (sizes.map pages).sum) % pageSize = 0
      rw [Nat.add_mod, aligned, sum_pages_mod]
      rfl
    case exact =>
      show start + (sizes.map pages).sum - start + (size - (sizes.map pages).sum) = size
      omega
    case answered => exact placed_sizes start sizes
    case inside =>
      intro grant member
      obtain ⟨page, low, high⟩ := placed_inside aligned grant member
      exact ⟨page, le_pages _, low, Nat.le_trans high (Nat.add_le_add_left room start)⟩
    case apart => exact placed_apart aligned
  · cases served

/-! Both heaps do what a region does. -/

/-- A heap whose `malloc` takes from a region, as long as rounding up does not wrap. -/
structure Takes {Pool : Type} (malloc : Pool → Nat → Option (Nat × Pool)) (region : Pool → Region)
    (Good : Pool → Prop) : Prop where
  take : ∀ heap sz, Good heap → sz + 4095 < 2 ^ 64 →
    (malloc heap sz).map (fun (p, heap) => (p, region heap)) = (region heap).take sz
  good : ∀ heap sz p heap', Good heap → malloc heap sz = some (p, heap') → Good heap'

theorem Takes.simulates {Pool : Type} {malloc : Pool → Nat → Option (Nat × Pool)} {region : Pool → Region}
    {Good : Pool → Prop} (takes : Takes malloc region Good) {state : Served Pool} {sz : Nat}
    (good : Good state.heap) (small : sz + 4095 < 2 ^ 64) :
    Option.Rel (fun state state' => Good state.heap ∧ state' = ⟨region state.heap, state.granted⟩)
      (serve malloc state sz) (serve Region.take ⟨region state.heap, state.granted⟩ sz) := by
  have taken := takes.take state.heap sz good small
  rw [serve, serve, ← taken]
  cases called : malloc state.heap sz with
  | none => exact .none
  | some outcome => exact .some ⟨takes.good _ _ _ _ good called, rfl⟩

theorem Takes.executed {Pool : Type} {malloc : Pool → Nat → Option (Nat × Pool)} {region : Pool → Region}
    {Good : Pool → Prop} (takes : Takes malloc region Good) {heap : Pool} {sizes : List Nat} (good : Good heap)
    (small : ∀ sz ∈ sizes, sz + 4095 < 2 ^ 64) :
    (execute (serve malloc) ⟨heap, []⟩ sizes).map
        (fun state => (⟨region state.heap, state.granted⟩ : Served Region)) =
      execute (serve Region.take) ⟨region heap, []⟩ sizes := by
  have both : Option.Rel (fun (state : Served Pool) (state' : Served Region) =>
      Good state.heap ∧ state' = ⟨region state.heap, state.granted⟩)
      (execute (serve malloc) ⟨heap, []⟩ sizes)
      (execute (serve Region.take) ⟨region heap, []⟩ sizes) := by
    refine execute_simulates (fun state state' sz related bound => ?_) ⟨good, rfl⟩ small
    obtain ⟨good, same⟩ := related
    subst same
    exact takes.simulates good bound
  generalize execute (serve malloc) ⟨heap, []⟩ sizes = one,
    execute (serve Region.take) ⟨region heap, []⟩ sizes = other at both ⊢
  cases both with
  | none => rfl
  | some related => exact congrArg some related.2.symm

theorem sizeT_pages {sz : Nat} (small : sz + 4095 < 2 ^ 64) :
    pageSize * (sizeT (sz + (pageSize - 1)) / pageSize) = pages sz :=
  congrArg (fun sum => pageSize * (sum / pageSize)) (sizeT_small small)

private theorem toOption_take {Pool : Type} {region : Pool → Region} {heap after : Pool} {sz : Nat}
    (bumped : region after = { region heap with
      position := (region heap).position + pages sz
      remaining := (region heap).remaining - pages sz }) :
    (if (region heap).remaining < pages sz then .error .exit
      else .ok ((region heap).position, after) : Outcome (Nat × Pool)).toOption.map
        (fun (p, heap) => (p, region heap)) = (region heap).take sz := by
  rw [Region.take, ← bumped]
  split <;> rfl

theorem xheap_takes : Takes (fun (heap : XHeap) sz => (heap.malloc sz).toOption) XHeap.region fun _ => True := by
  refine ⟨fun heap sz _ small => ?_, fun _ _ _ _ _ _ => trivial⟩
  simp only [XHeap.malloc, sizeT_pages small]
  exact toOption_take rfl

/-- `sanityCheck` passes, and the rest is what xheap does. -/
theorem SourceInternalHeap.malloc_eq {heap : SourceInternalHeap} (sz : Nat) (magic : heap.magic = 0xCAFEBABE) :
    heap.malloc sz =
      let sz := pageSize * (sizeT (sz + (pageSize - 1)) / pageSize)
      if heap.remaining < sz then .error .exit
      else .ok (heap.position,
        { heap with remaining := heap.remaining - sz, position := heap.position + sz }) := by
  rw [SourceInternalHeap.malloc, check, if_pos magic]
  rfl

theorem sourceInternalHeap_takes : Takes (fun (heap : SourceInternalHeap) sz => (heap.malloc sz).toOption)
    SourceInternalHeap.region fun heap => heap.magic = 0xCAFEBABE := by
  refine ⟨fun heap sz magic small => ?_, fun heap sz p heap' magic called => ?_⟩
  · simp only [heap.malloc_eq sz magic, sizeT_pages small]
    exact toOption_take rfl
  · simp only [heap.malloc_eq sz magic] at called
    split at called
    · cases called
    · cases called
      exact magic

theorem Fits.start {ptr startsize metasize : Nat} (fits : Fits ptr startsize metasize) :
    sizeT (ptr + metasize) = ptr + metasize ∧ sizeT (ptr + metasize + startsize) = ptr + metasize + startsize ∧
      (ptr + metasize) % pageSize = 0 := by
  have room := fits.room
  refine ⟨sizeT_small (by omega), sizeT_small room, ?_⟩
  rw [Nat.add_mod, fits.ptr_page, fits.metasize_page]
  rfl

theorem Fits.small {ptr startsize metasize sz : Nat} (fits : Fits ptr startsize metasize)
    (asked : sz ≤ startsize) : sz + 4095 < 2 ^ 64 := by
  have page := fits.start.2.2
  have room := fits.room
  have positive := fits.positive
  simp only [pageSize] at page
  omega

theorem XHeap.create_region {ptr startsize metasize : Nat} (fits : Fits ptr startsize metasize) :
    (XHeap.create ptr startsize metasize).region = .whole (ptr + metasize) startsize := by
  obtain ⟨start, ending, _⟩ := fits.start
  simp only [XHeap.create, XHeap.region, Region.whole, start, ending]

theorem SourceInternalHeap.create_region {ptr startsize metasize : Nat} (fits : Fits ptr startsize metasize) :
    (SourceInternalHeap.create ptr startsize metasize).region = .whole (ptr + metasize) startsize := by
  obtain ⟨start, ending, _⟩ := fits.start
  simp only [SourceInternalHeap.create, SourceInternalHeap.region, Region.whole, start, ending]

/-- Where the served requests lie in their heap. -/
def offsets (region : Region) (granted : List (Nat × Nat)) : List Nat :=
  granted.map fun grant => grant.1 - region.heapStart

theorem execute_offsets (start size : Nat) (sizes : List Nat) :
    (execute (serve Region.take) ⟨.whole start size, []⟩ sizes).map
        (fun state => offsets state.heap state.granted) =
      if (sizes.map pages).sum ≤ size then some ((placed 0 sizes).map Prod.fst) else none := by
  rw [execute_take, Region.whole]
  by_cases room : (sizes.map pages).sum ≤ size
  · rw [if_pos room, if_pos room]
    exact congrArg some (placed_offsets start 0 sizes)
  · rw [if_neg room, if_neg room]
    rfl

section

variable {ptr metasize startsize : Nat} {sizes : List Nat} (fits : Fits ptr startsize metasize)
  (asked : ∀ sz ∈ sizes, sz ≤ startsize)

include fits asked

theorem XHeap.executed : (execute XHeap.step ⟨.create ptr startsize metasize, []⟩ sizes).map
    (fun state => (⟨state.heap.region, state.granted⟩ : Served Region)) =
      execute (serve Region.take) ⟨.whole (ptr + metasize) startsize, []⟩ sizes := by
  rw [← XHeap.create_region fits]
  exact xheap_takes.executed trivial fun sz member => fits.small (asked sz member)

theorem SourceInternalHeap.executed :
    (execute SourceInternalHeap.step ⟨.create ptr startsize metasize, []⟩ sizes).map
      (fun state => (⟨state.heap.region, state.granted⟩ : Served Region)) =
        execute (serve Region.take) ⟨.whole (ptr + metasize) startsize, []⟩ sizes := by
  rw [← SourceInternalHeap.create_region fits]
  exact sourceInternalHeap_takes.executed rfl fun sz member => fits.small (asked sz member)

end

/-- After any requests that were served, both heaps have exact accounts and have given
every request pages of its own; and both answer with the same offsets, or exit at the
same request. -/
theorem pageHeaps_safe {ptr metasize ptr' metasize' startsize : Nat} {sizes : List Nat}
    (fits : Fits ptr startsize metasize) (fits' : Fits ptr' startsize metasize')
    (asked : ∀ sz ∈ sizes, sz ≤ startsize) :
    (∀ state, execute XHeap.step ⟨.create ptr startsize metasize, []⟩ sizes = some state →
      PageSafe startsize sizes state.heap.region state.granted) ∧
    (∀ state, execute SourceInternalHeap.step ⟨.create ptr' startsize metasize', []⟩ sizes = some state →
      PageSafe startsize sizes state.heap.region state.granted) ∧
    (execute XHeap.step ⟨.create ptr startsize metasize, []⟩ sizes).map
        (fun state => offsets state.heap.region state.granted) =
      (execute SourceInternalHeap.step ⟨.create ptr' startsize metasize', []⟩ sizes).map
        (fun state => offsets state.heap.region state.granted) := by
  have one := XHeap.executed fits asked
  have other := SourceInternalHeap.executed fits' asked
  refine ⟨fun state served => ?_, fun state served => ?_, ?_⟩
  · rw [served] at one
    exact placed_safe fits.start.2.2 one.symm
  · rw [served] at other
    exact placed_safe fits'.start.2.2 other.symm
  · have first := congrArg (Option.map fun state => offsets state.heap state.granted) one
    have second := congrArg (Option.map fun state => offsets state.heap state.granted) other
    rw [Option.map_map, execute_offsets] at first second
    exact first.trans second.symm

/-- The real bases, with four pages each: a request of no bytes, one of a page, and one
of a byte more. -/
theorem pageHeaps_safe_four :
    (execute XHeap.step ⟨.create (userHeapBase - 8192) 16384 8192, []⟩ [0, 4096, 4097]).map
        (fun state => offsets state.heap.region state.granted) = some [0, 0, 4096] ∧
      (execute SourceInternalHeap.step ⟨.create 0x100000000000 16384 4096, []⟩ [0, 4096, 4097]).map
        (fun state => offsets state.heap.region state.granted) = some [0, 0, 4096] := by
  have fits : Fits (userHeapBase - 8192) 16384 8192 := ⟨by decide, by decide, by decide, by decide⟩
  have fits' : Fits 0x100000000000 16384 4096 := ⟨by decide, by decide, by decide, by decide⟩
  have asked : ∀ sz ∈ [0, 4096, 4097], sz ≤ 16384 := by decide
  have same := (pageHeaps_safe fits fits' asked).2.2
  have first : (execute XHeap.step ⟨.create (userHeapBase - 8192) 16384 8192, []⟩ [0, 4096, 4097]).map
      (fun state => offsets state.heap.region state.granted) = some [0, 0, 4096] := by decide +kernel
  exact ⟨first, same.symm.trans first⟩

/-- A mapping of 2^64 - 4096 bytes after 8192 of metadata: its length wraps to a page. -/
theorem xheap_wraps : ¬ ∀ (ptr metasize startsize : Nat) (sizes : List Nat) (state : Served XHeap),
    ptr < 2 ^ 64 → metasize < 2 ^ 64 → startsize < 2 ^ 64 → ptr % pageSize = 0 → metasize % pageSize = 0 →
    (∀ sz ∈ sizes, sz ≤ startsize) → execute XHeap.step ⟨.create ptr startsize metasize, []⟩ sizes = some state →
    PageSafe startsize sizes state.heap.region state.granted := by
  intro claim
  have safe := claim (userHeapBase - 8192) 8192 (2 ^ 64 - 4096) [] _ (by decide) (by decide) (by decide)
    (by decide) (by decide) (by decide) rfl
  exact absurd safe.ordered (by decide)

end ProcessAsThread.Heap
