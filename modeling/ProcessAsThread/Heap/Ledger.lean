import ProcessAsThread.Heap.Realloc
import ProcessAsThread.Library.Shelves

/-! The heaps as shelves of addresses: each heap has a stack of addresses for every
size class, and what `malloc` and `free` do in memory is to take from these stacks
and to put onto them. -/

namespace ProcessAsThread.Heap

open Library

/-- The size class a request is served from; one above the largest class has none. -/
def KingsleyHeap.kind (sz : Nat) : Option Int :=
  let sz := align (if sz < 16 then 16 else sz)
  if sz ≤ StrictSegHeap.maxObjectSize then (Kingsley.size2Class sz).toOption else none

/-- The size of an object of a kind. -/
def Kinded : Option Int → Nat → Prop
  | some sizeClass, size => ∃ c : Nat, c ≤ 28 ∧ sizeClass = c ∧ size = 2 ^ (c + 3)
  | none, size => StrictSegHeap.maxObjectSize < size

/-- A served object is the head of the list for its kind or, only if that is empty, a new one. -/
inductive Supplied (layout layout' : Layout) (heapid : Nat) (kind : Option Int) (ptr : Nat) : Prop where
  | reused (kinded : kind = some sizeClass) (first : layout.listed heapid sizeClass = ptr :: rest)
      (sizes : layout'.size = layout.size)
      (listed : layout'.listed =
        Function.update layout.listed heapid (Function.update (layout.listed heapid) sizeClass rest))
  | carved (bare : ∀ sizeClass, kind = some sizeClass → layout.listed heapid sizeClass = [])
      (fresh : layout.size ptr = none) (kinded : Kinded kind size)
      (sizes : layout'.size = Function.update layout.size ptr (some size))
      (listed : layout'.listed = layout.listed)

/-- A released object goes onto the list of its class, if it has one. -/
inductive Filed (layout layout' : Layout) (heapid ptr : Nat) : Prop where
  | listed {c : Nat} (small : c ≤ 28) (sized : layout.size ptr = some (2 ^ (c + 3)))
      (listed : layout'.listed = Function.update layout.listed heapid
        (Function.update (layout.listed heapid) (c : Int) (ptr :: layout.listed heapid c)))
  | dropped (sized : layout.size ptr = some size) (large : StrictSegHeap.maxObjectSize < size)
      (listed : layout'.listed = layout.listed)

section

variable {layout : Layout} {xmemory xmemory' : Xmemory} {blocks : List Block}

private theorem Laid.unsized (laid : Laid layout xmemory blocks) {own' : Nat → Owner} {space' : Space}
    {zone' : ZoneHeap} (made : AdaptAppHeap.Made layout.own own' xmemory.space space' heapid zone' ptr sz) :
    layout.size ptr = none := by
  cases sized : layout.size ptr with
  | none => rfl
  | some size =>
    have object := laid.objects ptr size sized
    have owned := object.owns ptr (by omega) (by have := object.positive; have := object.low; omega)
    rcases made.source with nobody | tail
    · rw [owned] at nobody
      cases nobody
    · rw [owned] at tail
      cases tail

theorem StrictSegHeap.bigMalloc_supplied (laid : Laid layout xmemory blocks) (heapid : Nat)
    (bound : sz + 4136 ≤ 2 ^ 64) (aligned : sz % 8 = 0) (kinded : Kinded kind sz)
    (bare : ∀ sizeClass, kind = some sizeClass → layout.listed heapid sizeClass = []) (fits : size ≤ sz) :
    bigMalloc xmemory.space (xmemory.heaps heapid) sz = .error .exit ∨
      ∃ ptr space' heap' layout',
        bigMalloc xmemory.space (xmemory.heaps heapid) sz = .ok (ptr, space', heap') ∧
        Supplied layout layout' heapid kind ptr ∧
        Laid layout' ⟨space', Function.update xmemory.heaps heapid heap'⟩ (⟨ptr, size⟩ :: blocks) := by
  have sized : (∃ c : Nat, c ≤ 28 ∧ sz = 2 ^ (c + 3)) ∨ maxObjectSize < sz := by
    cases kind with
    | none => exact .inr kinded
    | some sizeClass =>
      obtain ⟨c, small, _, same⟩ := kinded
      exact .inl ⟨c, small, same⟩
  rcases AdaptAppHeap.malloc_laid laid.xheap (laid.zones heapid) bound aligned sized with
    exits | ⟨ptr, space', zone', own', succeeds, made⟩
  · left
    rw [bigMalloc, exits]
    rfl
  · refine .inr ⟨ptr, space', { xmemory.heaps heapid with bigheap := zone' }, layout.add own' ptr sz, ?_,
      .carved bare (laid.unsized made) kinded rfl rfl, laid.carve made rfl fits⟩
    rw [bigMalloc, succeeds]
    rfl

/-- A call of `malloc` exits, or serves an object as the lists say. -/
theorem Xmemory.malloc_supplied (laid : Laid layout xmemory blocks) (heapid : Nat)
    (bound : sz + 4136 ≤ 2 ^ 64) (enough : size ≤ sz) :
    xmemory.malloc heapid sz = .error .exit ∨ ∃ ptr xmemory' layout',
      xmemory.malloc heapid sz = .ok (ptr, xmemory') ∧
      Supplied layout layout' heapid (KingsleyHeap.kind sz) ptr ∧
      Laid layout' xmemory' (⟨ptr, size⟩ :: blocks) := by
  obtain ⟨fits, _, bound', aligned⟩ := align_request bound
  have served : StrictSegHeap.malloc xmemory.space (xmemory.heaps heapid)
      (align (if sz < 16 then 16 else sz)) = .error .exit ∨ ∃ ptr space' heap' layout',
        StrictSegHeap.malloc xmemory.space (xmemory.heaps heapid)
          (align (if sz < 16 then 16 else sz)) = .ok (ptr, space', heap') ∧
        Supplied layout layout' heapid (KingsleyHeap.kind sz) ptr ∧
        Laid layout' ⟨space', Function.update xmemory.heaps heapid heap'⟩ (⟨ptr, size⟩ :: blocks) := by
    simp only [KingsleyHeap.kind]
    generalize align (if sz < 16 then 16 else sz) = rounded at fits bound' aligned ⊢
    by_cases small : rounded ≤ StrictSegHeap.maxObjectSize
    · obtain ⟨c, indexed, found, upper, called⟩ :=
        @StrictSegHeap.malloc_class _ xmemory.space (xmemory.heaps heapid) small
      have list := laid.lists heapid c
      rw [called]
      simp only [if_pos small, found, Except.toOption]
      split
      · rename_i empty
        have room := StrictSegHeap.maxObjectSize_class indexed
        rw [Kingsley.maxObjectSize_eq] at room
        refine StrictSegHeap.bigMalloc_supplied laid heapid (by omega) ?_ ⟨c, indexed, rfl, rfl⟩ ?_ (by omega)
        · rw [Nat.pow_add]
          omega
        · rintro sizeClass same
          cases same
          exact list.chain.head_zero.mp empty
      · rename_i nonempty
        cases listed : layout.listed heapid c with
        | nil => exact (nonempty (list.chain.head_zero.mpr listed)).elim
        | cons first others =>
          have chain := list.chain
          rw [listed] at chain
          obtain ⟨rest, popped⟩ := @Laid.pop _ _ _ _
            { xmemory.heaps heapid with
              bins := Function.update (xmemory.heaps heapid).bins c
                (xmemory.space.memory.load ((xmemory.heaps heapid).bins c) 8) }
            _ size laid nonempty (by omega) rfl rfl
          have tail := (popped.lists heapid c).chain
          simp only [Function.update_self, Layout.relist_self, chain.1] at tail
          have same : rest = others := tail.unique chain.2.2
          refine .inr ⟨_, _, _, _, rfl, ?_, popped⟩
          exact .reused rfl (by rw [listed, chain.1]) rfl (by rw [← same]; rfl)
    · rw [StrictSegHeap.malloc, if_neg small, if_neg small]
      exact StrictSegHeap.bigMalloc_supplied laid heapid bound' aligned (Nat.lt_of_not_le small)
        (fun _ same => by cases same) (Nat.le_trans enough fits)
  rcases served with exits | ⟨ptr, space', heap', layout', succeeds, supplied, laid'⟩
  · left
    rw [malloc, KingsleyHeap.malloc, exits]
    rfl
  · refine .inr ⟨ptr, _, layout', ?_, supplied, laid'⟩
    rw [malloc, KingsleyHeap.malloc, succeeds]
    rfl

/-- A call of `free` on a live block files its object. -/
theorem Xmemory.free_filed (laid : Laid layout xmemory blocks) (member : block ∈ blocks) (heapid : Nat) :
    ∃ xmemory' layout', xmemory.free heapid block.ptr = .ok xmemory' ∧ layout'.size = layout.size ∧
      Filed layout layout' heapid block.ptr ∧ Laid layout' xmemory' (blocks.filter (·.ptr ≠ block.ptr)) := by
  obtain ⟨size, sized, _, object⟩ := laid.object member
  have read := AdaptAppHeap.getSize_laid object
  have nonzero : block.ptr ≠ 0 := by
    have := object.low
    omega
  rcases object.sized with ⟨c, small, rfl⟩ | large
  · have positive := object.positive
    obtain ⟨sizeClass, memoryHeld, freed, classed⟩ := @StrictSegHeap.free_small _ _ _
      (xmemory.heaps heapid) read (by omega) (StrictSegHeap.maxObjectSize_class small)
    obtain rfl := classed c small rfl
    have link : (xmemory.heaps heapid).bins c < 2 ^ 64 := laid.head_bound heapid c
    have kept : ∀ place, place < block.ptr ∨ block.ptr + 2 ^ (c + 3) ≤ place →
        xmemory.space.memory.store block.ptr ((xmemory.heaps heapid).bins c) 8 place =
          xmemory.space.memory place := fun place away => Memory.store_outside (by omega)
    have written := laid.write sized (laid.live block member).1 kept
    have linked : (xmemory.space.memory.store block.ptr ((xmemory.heaps heapid).bins c) 8).load
        block.ptr 8 = (xmemory.heaps heapid).bins c := by
      rw [Memory.load_store]
      omega
    have pushed := @Laid.push _ heapid _ _
      ⟨(xmemory.heaps heapid).bigheap, Function.update (xmemory.heaps heapid).bins c block.ptr, memoryHeld⟩
      _ _ written member small sized linked rfl rfl
    refine ⟨_, layout.relist heapid c (block.ptr :: layout.listed heapid c) block.ptr (.listed heapid c), ?_,
      rfl, .listed small sized rfl, pushed⟩
    rw [free, if_neg nonzero, KingsleyHeap.free, if_neg nonzero, freed]
    rfl
  · have freed := @StrictSegHeap.free_large _ _ xmemory.space (xmemory.heaps heapid) read (.inr large)
    refine ⟨{ xmemory with heaps := Function.update xmemory.heaps heapid (xmemory.heaps heapid) },
      layout.relist heapid 0 (layout.listed heapid 0) block.ptr .dropped, ?_, rfl,
      .dropped sized large ?_, laid.drop member heapid⟩
    · rw [free, if_neg nonzero, KingsleyHeap.free, if_neg nonzero, freed]
      rfl
    · simp [Layout.relist]

end

/-- Addresses that are lent by heaps, each kind on a stack of its own. -/
abbrev Account := Shelves Nat (Option Int) Nat

abbrev Entry := Shelves.Event Nat (Option Int) Nat

/-- Objects with a class are kept for another use. -/
abbrev Account.step : Account → Entry → Option Account := Shelves.step Option.isSome

namespace Client

def newest (client : Client) : Nat := (client.live.map Block.ptr).headD 0

/-- What an operation lends and takes back; `realloc` first gets the new block. -/
def entries (operation : Operation) (after : Client) : List Entry :=
  match operation with
  | .call (.malloc heapid sz) => [.serve heapid (KingsleyHeap.kind sz) after.newest]
  | .call (.free heapid ptr) => [.release heapid ptr]
  | .call (.write _ _) => []
  | .realloc heapid ptr sz => .serve heapid (KingsleyHeap.kind sz) after.newest ::
      if ptr = 0 then [] else [.release heapid ptr]
  | .memalign heapid boundary size => [.serve heapid (KingsleyHeap.kind (boundary + size)) after.newest]

def trace : List (Client × Operation) → Client → List Entry
  | [], _ => []
  | (before, operation) :: earlier, after => trace earlier before ++ entries operation after

/-- The account of the blocks, of the free lists in memory and of the sizes in the headers. -/
structure Represents (client : Client) (account : Account) : Prop where
  live : account.out.map Loan.name = client.live.map Block.ptr
  lists : ∀ heapid sizeClass, Chain (client.xmemory.space.memory.load · 8)
    ((client.xmemory.heaps heapid).bins sizeClass) (account.stack heapid (some sizeClass))
  sizes : ∀ loan ∈ account.issued, ∃ size, client.xmemory.getSize loan.name = .ok size ∧ Kinded loan.kind size

/-- As `Represents`, by way of a layout. -/
structure Booked (layout : Layout) (client : Client) (account : Account) : Prop where
  laid : Laid layout client.xmemory client.live
  live : account.out.map Loan.name = client.live.map Block.ptr
  lists : ∀ heapid sizeClass, account.stack heapid (some sizeClass) = layout.listed heapid sizeClass
  sizes : ∀ loan ∈ account.issued, ∃ size, layout.size loan.name = some size ∧ Kinded loan.kind size
  accounted : account.Accounted Option.isSome

variable {layout layout' : Layout} {client : Client} {account : Account} {xmemory' : Xmemory}

theorem Booked.represents (booked : Booked layout client account) : client.Represents account := by
  refine ⟨booked.live, fun heapid sizeClass => ?_, fun loan member => ?_⟩
  · rw [booked.lists]
    exact (booked.laid.lists heapid sizeClass).chain
  · obtain ⟨size, sized, kinded⟩ := booked.sizes loan member
    exact ⟨size, AdaptAppHeap.getSize_kingsley _ (booked.laid.objects _ _ sized), kinded⟩

private theorem start_booked (memory : Memory) : Booked .empty (start memory) .empty :=
  ⟨start_laid memory, rfl, fun _ _ => rfl, fun _ member => (List.not_mem_nil member).elim,
    Shelves.accounted_empty⟩

theorem Booked.memory (booked : Booked layout client account) (laid : Laid layout xmemory' client.live) :
    Booked layout ⟨xmemory', client.live⟩ account :=
  { booked with laid := laid }

private theorem stack_none (accounted : account.Accounted Option.isSome) (heapid : Nat) :
    account.stack heapid none = [] := by
  refine List.eq_nil_iff_forall_not_mem.mpr fun name member => ?_
  cases (accounted.stackIssued member).1

theorem Booked.restack (booked : Booked layout client account) {sizeClass : Int} {names : List Nat}
    (listed : layout'.listed =
      Function.update layout.listed heapid (Function.update (layout.listed heapid) sizeClass names))
    (heapid' : Nat) (sizeClass' : Int) :
    account.restack heapid (some sizeClass) names heapid' (some sizeClass') =
      layout'.listed heapid' sizeClass' := by
  rw [listed]
  by_cases here : heapid' = heapid ∧ sizeClass' = sizeClass
  · obtain ⟨rfl, rfl⟩ := here
    simp
  · rw [Shelves.restack_other (fun same => here ⟨same.1, Option.some.inj same.2⟩), booked.lists]
    by_cases same : heapid' = heapid
    · subst same
      have different : sizeClass' ≠ sizeClass := fun same => here ⟨rfl, same⟩
      simp [Function.update_of_ne different]
    · simp [Function.update_of_ne same]

theorem Booked.serve (booked : Booked layout client account) {kind : Option Int}
    (supplied : Supplied layout layout' heapid kind ptr)
    (laid' : Laid layout' xmemory' (⟨ptr, size⟩ :: client.live)) :
    ∃ account', account.step (.serve heapid kind ptr) = some account' ∧
      Booked layout' ⟨xmemory', ⟨ptr, size⟩ :: client.live⟩ account' := by
  have live := congrArg (ptr :: ·) booked.live
  cases supplied with
  | @reused sizeClass rest kinded first sizes listed =>
    subst kinded
    have stacked : account.stack heapid (some sizeClass) = ptr :: rest := by rw [booked.lists, first]
    have legal : account.Legal (.serve heapid (some sizeClass) ptr) := by simp only [Shelves.Legal, stacked]
    have taken := (@Shelves.step_eq_some _ _ _ _ _ _ Option.isSome account _ _).mpr ⟨legal, rfl⟩
    refine ⟨_, taken, laid', live, fun heapid' sizeClass' => ?_, fun loan member => ?_,
      booked.accounted.step taken⟩
    · rw [← booked.restack listed]
      simp only [Shelves.happen, Shelves.serve, stacked, List.tail_cons]
    · rw [sizes]
      simp only [Shelves.happen, Shelves.serve, stacked, List.isEmpty_cons] at member
      exact booked.sizes loan member
  | @carved full bare fresh kinded sizes listed =>
    have empty : account.stack heapid kind = [] := by
      cases kind with
      | none => exact stack_none booked.accounted heapid
      | some sizeClass => rw [booked.lists, bare sizeClass rfl]
    have unissued : ∀ loan ∈ account.issued, loan.name ≠ ptr := by
      rintro loan member rfl
      obtain ⟨size, sized, _⟩ := booked.sizes loan member
      rw [fresh] at sized
      cases sized
    have legal : account.Legal (.serve heapid kind ptr) := by
      simp only [Shelves.Legal, empty]
      exact unissued
    have taken := (@Shelves.step_eq_some _ _ _ _ _ _ Option.isSome account _ _).mpr ⟨legal, rfl⟩
    have same := account.restack_eq heapid kind
    rw [empty] at same
    refine ⟨_, taken, laid', live, fun heapid' sizeClass' => ?_, fun loan member => ?_,
      booked.accounted.step taken⟩
    · rw [listed, ← booked.lists]
      simp only [Shelves.happen, Shelves.serve, empty, List.tail_nil, same]
    · rw [sizes]
      simp only [Shelves.happen, Shelves.serve, empty, List.isEmpty_nil, if_true] at member
      rcases List.mem_cons.mp member with newest | older
      · subst newest
        exact ⟨full, Function.update_self .., kinded⟩
      · rw [Function.update_of_ne (unissued loan older)]
        exact booked.sizes loan older

theorem Booked.release (booked : Booked layout client account) (present : ptr ∈ client.live.map Block.ptr)
    (sizes : layout'.size = layout.size) (filed : Filed layout layout' heapid ptr)
    (laid' : Laid layout' xmemory' (client.live.filter (·.ptr ≠ ptr))) :
    ∃ account', account.step (.release heapid ptr) = some account' ∧
      Booked layout' ⟨xmemory', client.live.filter (·.ptr ≠ ptr)⟩ account' := by
  have legal : account.Legal (.release heapid ptr) := by
    rw [← booked.live] at present
    exact List.mem_map.mp present
  have taken := (@Shelves.step_eq_some _ _ _ _ _ _ Option.isSome account _ _).mpr ⟨legal, rfl⟩
  have accounted := booked.accounted.step taken
  have live : (account.out.filter (·.name ≠ ptr)).map Loan.name =
      (client.live.filter (·.ptr ≠ ptr)).map Block.ptr := by
    have filtered := congrArg (List.filter (· ≠ ptr)) booked.live
    rw [List.filter_map, List.filter_map] at filtered
    exact filtered
  have kinds : ∀ loan ∈ account.out, ∃ size, layout.size loan.name = some size ∧ Kinded loan.kind size := by
    intro loan lent
    obtain ⟨first, issued, named, kind⟩ := booked.accounted.outIssued loan lent
    rw [← named, ← kind]
    exact booked.sizes first issued
  refine ⟨_, taken, ?_⟩
  generalize account.happen Option.isSome (.release heapid ptr) = account' at taken accounted ⊢
  cases Shelves.step_cases taken with
  | @putAway loan pool lent kept =>
    obtain ⟨size, sized, kinded⟩ := kinds loan lent
    obtain ⟨sizeClass, kind⟩ := Option.isSome_iff_exists.mp kept
    rw [kind] at kinded ⊢
    obtain ⟨c, small, rfl, rfl⟩ := kinded
    cases filed with
    | @listed c' small' sized' listed =>
      have same : c' = c := by
        have := Nat.pow_right_injective (Nat.le_refl 2) (Option.some.inj (sized'.symm.trans sized))
        omega
      subst same
      rw [kind] at accounted
      refine ⟨laid', live, fun heapid' sizeClass' => ?_, by rw [sizes]; exact booked.sizes, accounted⟩
      rw [← booked.restack listed, booked.lists]
    | dropped sized' large listed =>
      have := StrictSegHeap.maxObjectSize_class small
      cases sized'.symm.trans sized
      omega
  | @discard loan pool lent unkept =>
    obtain ⟨size, sized, kinded⟩ := kinds loan lent
    have kind : loan.kind = none := by simpa using unkept
    rw [kind] at kinded
    cases filed with
    | listed small' sized' listed =>
      have := StrictSegHeap.maxObjectSize_class small'
      cases sized'.symm.trans sized
      exact absurd kinded (Nat.not_lt.mpr this)
    | dropped sized' large listed =>
      refine ⟨laid', live, fun heapid' sizeClass' => ?_, by rw [sizes]; exact booked.sizes, accounted⟩
      rw [listed]
      exact booked.lists heapid' sizeClass'

theorem Booked.free (booked : Booked layout client account) (present : ptr ∈ client.live.map Block.ptr)
    (called : client.xmemory.free heapid ptr = .ok xmemory') :
    ∃ layout' account', account.step (.release heapid ptr) = some account' ∧
      Booked layout' ⟨xmemory', client.live.filter (·.ptr ≠ ptr)⟩ account' := by
  obtain ⟨block, member, rfl⟩ := List.mem_map.mp present
  obtain ⟨_, layout', called', sizes, filed, laid'⟩ := Xmemory.free_filed booked.laid member heapid
  cases called'.symm.trans called
  exact ⟨layout', booked.release present sizes filed laid'⟩

theorem Booked.malloc (booked : Booked layout client account) (bound : sz + 4136 ≤ 2 ^ 64) (enough : size ≤ sz)
    (called : client.xmemory.malloc heapid sz = .ok (ptr, xmemory')) :
    ∃ layout' account', account.step (.serve heapid (KingsleyHeap.kind sz) ptr) = some account' ∧
      Booked layout' ⟨xmemory', ⟨ptr, size⟩ :: client.live⟩ account' := by
  rcases Xmemory.malloc_supplied booked.laid heapid bound enough with
    exits | ⟨_, _, layout', called', supplied, laid'⟩
  · cases exits.symm.trans called
  · cases called'.symm.trans called
    exact ⟨layout', booked.serve supplied laid'⟩

theorem Booked.realloc (booked : Booked layout client account) (owned : client.Owned ptr)
    (bound : sz + 4136 ≤ 2 ^ 64)
    (called : client.xmemory.realloc heapid ptr sz = .ok (newptr, xmemory')) :
    ∃ layout' account', execute Account.step account (.serve heapid (KingsleyHeap.kind sz) newptr ::
        if ptr = 0 then [] else [.release heapid ptr]) = some account' ∧
      Booked layout' ⟨xmemory', ⟨newptr, sz⟩ :: client.live.filter (·.ptr ≠ ptr)⟩ account' := by
  have laid := booked.laid
  obtain ⟨s, read, _, _⟩ := owned.recorded laid
  rcases Xmemory.malloc_supplied laid heapid bound (Nat.le_refl sz) with
    exits | ⟨new, xmemory₁, layout₁, served, supplied, laid₁⟩
  · rw [Xmemory.realloc, read, ok_bind, exits] at called
    cases called
  obtain ⟨full, sized, fits, object⟩ := laid₁.object (List.mem_cons_self ..)
  have nonzero : new ≠ 0 := by
    have := object.low
    simp only at this
    omega
  rw [Xmemory.realloc_eq read served nonzero] at called
  obtain ⟨freed, released, same⟩ := bind_eq_ok.mp called
  cases same
  obtain ⟨account₁, taken, booked₁⟩ := booked.serve supplied laid₁
  have away : ∀ place, place < newptr ∨ newptr + full ≤ place →
      xmemory₁.space.memory.copy newptr ptr (min s sz) place = xmemory₁.space.memory place :=
    fun place away => Memory.copy_outside (by simp only at fits; omega)
  have copied := laid₁.write sized (laid₁.live _ (List.mem_cons_self ..)).1 away
  have booked₂ := booked₁.memory copied
  have fresh : ∀ block ∈ client.live, block.ptr ≠ newptr := fun block member same =>
    (List.nodup_cons.mp laid₁.distinct).1 (List.mem_map.mpr ⟨block, member, same⟩)
  rcases owned with none | ⟨block, member, rfl⟩
  · subst none
    cases released
    have all : client.live.filter (·.ptr ≠ 0) = client.live := by
      refine List.filter_eq_self.mpr fun block member => ?_
      obtain ⟨_, _, _, object⟩ := laid.object member
      have := object.low
      simp only [ne_eq, decide_eq_true_eq]
      omega
    rw [all]
    refine ⟨layout₁, account₁, ?_, booked₂⟩
    simp only [if_true, execute, taken, Option.bind_some]
  · have present : block.ptr ∈ ((⟨newptr, sz⟩ : Block) :: client.live).map Block.ptr :=
      List.mem_map_of_mem (List.mem_cons_of_mem _ member)
    obtain ⟨layout', account', taken', booked'⟩ := booked₂.free present released
    rw [List.filter_cons_of_pos (by simpa using (fresh block member).symm)] at booked'
    refine ⟨layout', account', ?_, booked'⟩
    have low := (laid.object member).choose_spec.2.2.low
    rw [if_neg (by omega)]
    simp only [execute, taken, taken', Option.bind_some]

theorem Booked.operate {operation : Operation} {after : Client} (booked : Booked layout client account)
    (allowed : client.allows operation) (succeeds : client.operate operation = .ok after) :
    ∃ layout' account', execute Account.step account (entries operation after) = some account' ∧
      Booked layout' after account' := by
  cases operation with
  | call call =>
    cases call with
    | malloc heapid sz =>
      obtain ⟨⟨ptr, xmemory⟩, called, same⟩ := bind_eq_ok.mp succeeds
      cases same
      obtain ⟨layout', account', taken, booked'⟩ := booked.malloc allowed.2 (Nat.le_refl sz) called
      exact ⟨layout', account', execute_one taken, booked'⟩
    | free heapid ptr =>
      obtain ⟨xmemory, called, same⟩ := bind_eq_ok.mp succeeds
      cases same
      obtain ⟨layout', account', taken, booked'⟩ := booked.free (List.mem_map.mpr allowed.2) called
      exact ⟨layout', account', execute_one taken, booked'⟩
    | write address value =>
      cases succeeds
      obtain ⟨block, member, low, high⟩ := allowed
      obtain ⟨size, sized, fits, _⟩ := booked.laid.object member
      have away : ∀ place, place < block.ptr ∨ block.ptr + size ≤ place →
          Function.update client.xmemory.space.memory address value place = client.xmemory.space.memory place :=
        fun place away => Function.update_of_ne (by omega) ..
      have written := booked.laid.write sized (booked.laid.live block member).1 away
      exact ⟨layout, account, rfl, booked.memory written⟩
  | realloc heapid ptr sz =>
    obtain ⟨⟨newptr, xmemory⟩, called, same⟩ := bind_eq_ok.mp succeeds
    cases same
    exact booked.realloc allowed.2.1 allowed.2.2 called
  | memalign heapid boundary size =>
    obtain ⟨⟨ptr, xmemory⟩, called, same⟩ := bind_eq_ok.mp succeeds
    cases same
    have served := (memalign_malloc called).2.2
    have bound := allowed.2
    rw [sizeT_small (by omega)] at served
    obtain ⟨layout', account', taken, booked'⟩ := booked.malloc bound (Nat.le_add_left size boundary) served
    exact ⟨layout', account', execute_one taken, booked'⟩

theorem booked_of_run {memory : Memory} (run : Run (guarded Client.run allows) (start memory) history client) :
    ∃ layout account, execute Account.step .empty (trace history client) = some account ∧
      Booked layout client account := by
  induction run with
  | start => exact ⟨.empty, .empty, rfl, start_booked memory⟩
  | @next history client operation after earlier taken ih =>
    obtain ⟨layout, account, executed, booked⟩ := ih
    obtain ⟨allowed, moved⟩ := guarded_eq_some.mp taken
    obtain ⟨layout', account', executed', booked'⟩ := booked.operate allowed (toOption_eq_some.mp moved)
    refine ⟨layout', account', ?_, booked'⟩
    rw [trace, execute_append, executed]
    exact executed'

/-- Every run of the allocator is one of the shelves: `malloc` hands out the address
that was last put onto the stack of its heap and class, a new one if there is none,
and the free lists in memory are these stacks. -/
theorem trace_refines {memory : Memory}
    (run : Run (guarded Client.run allows) (start memory) history client) :
    ∃ account, execute Account.step .empty (trace history client) = some account ∧
      client.Represents account := by
  obtain ⟨layout, account, executed, booked⟩ := booked_of_run run
  exact ⟨account, executed, booked.represents⟩

/-- A block that is freed under another heap and handed out there, one that grows and one that is aligned. -/
theorem trace_refines_moved : ∃ history client,
    Run (guarded Client.run allows) (start fun _ => 0) history client ∧
      trace history client = [.serve 1 (some 2) (userHeapBase + 40), .release 2 (userHeapBase + 40),
        .serve 2 (some 2) (userHeapBase + 40), .serve 2 (some 4) (userHeapBase + 1052712),
        .release 2 (userHeapBase + 40), .serve 2 (some 2) (userHeapBase + 40)] ∧
      ∃ account, execute Account.step .empty (trace history client) = some account ∧
        client.Represents account := by
  have executed : ((record (guarded Client.run allows) [] (start fun _ => 0)
      [.call (.malloc 1 20), .call (.free 2 (userHeapBase + 40)), .call (.malloc 2 30),
        .realloc 2 (userHeapBase + 40) 100, .memalign 2 8 10]).map fun recorded =>
          decide (trace recorded.1 recorded.2 =
            [.serve 1 (some 2) (userHeapBase + 40), .release 2 (userHeapBase + 40),
              .serve 2 (some 2) (userHeapBase + 40), .serve 2 (some 4) (userHeapBase + 1052712),
              .release 2 (userHeapBase + 40), .serve 2 (some 2) (userHeapBase + 40)])) = some true := by
    decide +kernel
  obtain ⟨history, client, run, traced⟩ := exists_run executed
  exact ⟨history, client, run, traced, trace_refines run⟩

private theorem Represents.onList_iff (represents : client.Represents account)
    {first : Loan Nat (Option Int) Nat} (issued : first ∈ account.issued) {sizeClass : Int}
    (kind : first.kind = some sizeClass) (heapid : Nat) :
    client.xmemory.Listed heapid first.name ↔ first.name ∈ account.stack heapid (some sizeClass) := by
  obtain ⟨size, read, kinded⟩ := represents.sizes first issued
  rw [kind] at kinded
  obtain ⟨c, small, rfl, rfl⟩ := kinded
  have found := Kingsley.size2Class_class small
  constructor
  · rintro ⟨size, sizeClass, nodes, read', found', chain, listed⟩
    cases read.symm.trans read'
    cases found.symm.trans found'
    rwa [chain.unique (represents.lists heapid c)] at listed
  · exact fun stacked => ⟨_, _, _, read, found, represents.lists heapid c, stacked⟩

/-- In every run, an address that was ever handed out for a size class is live and on
no free list, or not live and on the free list of exactly one heap. -/
theorem served_once {memory : Memory} {sizeClass : Int}
    (run : Run (guarded Client.run allows) (start memory) history client)
    (served : .serve heapid (some sizeClass) ptr ∈ trace history client) :
    ((∃ block ∈ client.live, block.ptr = ptr) ∧ ∀ other, ¬ client.xmemory.Listed other ptr) ∨
      ((∀ block ∈ client.live, block.ptr ≠ ptr) ∧
        ∃ home, ∀ other, client.xmemory.Listed other ptr ↔ other = home) := by
  obtain ⟨layout, account, executed, booked⟩ := booked_of_run run
  have represents := booked.represents
  have accounted := booked.accounted
  obtain ⟨first, issued, rfl, kind⟩ := Shelves.issued_of_execute executed _ _ _ served
  have listed := represents.onList_iff issued kind
  have live : ∀ loan ∈ account.out, ∃ block ∈ client.live, block.ptr = loan.name := fun loan lent =>
    List.mem_map.mp (by rw [← represents.live]; exact List.mem_map_of_mem lent)
  rcases accounted.kept first issued (by rw [kind]; rfl) with ⟨loan, lent, named⟩ | ⟨home, stacked⟩
  · left
    refine ⟨by rw [← named]; exact live loan lent, fun other on => ?_⟩
    refine accounted.apart loan lent other (some sizeClass) ?_
    rw [named]
    exact (listed other).mp on
  · right
    rw [kind] at stacked
    refine ⟨fun block member same => ?_, home, fun other => ?_⟩
    · have present : block.ptr ∈ account.out.map Loan.name := by
        rw [represents.live]
        exact List.mem_map_of_mem member
      obtain ⟨loan, lent, named⟩ := List.mem_map.mp present
      exact accounted.apart loan lent home (some sizeClass) (by rw [named, same]; exact stacked)
    · rw [listed]
      refine ⟨fun on => (accounted.oneStack on stacked).1, ?_⟩
      rintro rfl
      exact stacked

/-- One address that is live and one that is free. -/
theorem served_once_two : ∃ history client,
    Run (guarded Client.run allows) (start fun _ => 0) history client ∧
      ((∃ block ∈ client.live, block.ptr = userHeapBase + 88) ∧
        ∀ other, ¬ client.xmemory.Listed other (userHeapBase + 88)) ∧
      (∀ block ∈ client.live, block.ptr ≠ userHeapBase + 40) ∧
        ∃ home, ∀ other, client.xmemory.Listed other (userHeapBase + 40) ↔ other = home := by
  have executed : ((record (guarded Client.run allows) [] (start fun _ => 0)
      [.call (.malloc 1 20), .call (.malloc 1 20), .call (.free 2 (userHeapBase + 40))]).map fun recorded =>
        decide (trace recorded.1 recorded.2 = [.serve 1 (some 2) (userHeapBase + 40),
            .serve 1 (some 2) (userHeapBase + 88), .release 2 (userHeapBase + 40)] ∧
          recorded.2.live = [⟨userHeapBase + 88, 20⟩])) = some true := by
    decide +kernel
  obtain ⟨history, client, run, traced, live⟩ := exists_run executed
  simp only at traced live
  refine ⟨history, client, run, ?_, ?_⟩
  · rcases served_once run (by rw [traced]; exact .tail _ (.head _)) with here | there
    · exact here
    · exact (there.1 ⟨userHeapBase + 88, 20⟩ (by rw [live]; exact List.mem_cons_self ..) rfl).elim
  · rcases served_once run (by rw [traced]; exact .head _) with here | there
    · obtain ⟨block, member, same⟩ := here.1
      rw [live] at member
      cases List.mem_singleton.mp member
      exact absurd same (by decide)
    · exact there

/-- Every block is released under the heap that lent it. -/
def Homely (history : List (Client × Operation)) (client : Client) : Prop :=
  (execute (guarded Account.step Shelves.Home) .empty (trace history client)).isSome = true

instance (history : List (Client × Operation)) (client : Client) : Decidable (Homely history client) :=
  inferInstanceAs (Decidable (_ = true))

/-- In every run in which nothing is freed under a heap, that heap hands out no address
twice: blocks that are always freed under other heaps cost it new memory each time. -/
theorem served_new {memory : Memory}
    (run : Run (guarded Client.run allows) (start memory) history client)
    (abroad : ∀ ptr, .release heapid ptr ∉ trace history client) :
    (Shelves.served heapid (trace history client)).Nodup := by
  obtain ⟨_, account, executed, _⟩ := booked_of_run run
  exact Shelves.served_nodup executed abroad

/-- A block of heap 1 is freed under heap 2; the next one of heap 1 is new. -/
theorem served_new_twice : ∃ history client,
    Run (guarded Client.run allows) (start fun _ => 0) history client ∧
      Shelves.served 1 (trace history client) = [userHeapBase + 40, userHeapBase + 88] ∧
      (Shelves.served 1 (trace history client)).Nodup := by
  have executed : ((record (guarded Client.run allows) [] (start fun _ => 0)
      [.call (.malloc 1 20), .call (.free 2 (userHeapBase + 40)), .call (.malloc 1 20)]).map fun recorded =>
        decide (trace recorded.1 recorded.2 = [.serve 1 (some 2) (userHeapBase + 40),
          .release 2 (userHeapBase + 40), .serve 1 (some 2) (userHeapBase + 88)])) = some true := by
    decide +kernel
  obtain ⟨history, client, run, traced⟩ := exists_run executed
  simp only at traced
  have once : (Shelves.served 1 (trace history client)).Nodup := served_new run (by rw [traced]; simp)
  exact ⟨history, client, run, by rw [traced]; rfl, once⟩

end Client

end ProcessAsThread.Heap
