import Mathlib.Data.List.Nodup
import ProcessAsThread.Library.Run

/-! Names that are lent out and put away. Each pool keeps a stack of names for
every kind; a name that comes back goes onto a stack of its kind, if the kind is
kept, and only an empty stack makes a new name. -/

namespace ProcessAsThread.Library

universe u v w

structure Loan (Pool : Type u) (Kind : Type v) (Name : Type w) where
  name : Name
  pool : Pool
  kind : Kind
  deriving DecidableEq

/-- `issued` are the first loans of all names there have been; `peak` is the most
loans of a pool and kind that were out at once. -/
structure Shelves (Pool : Type u) (Kind : Type v) (Name : Type w) where
  stack : Pool → Kind → List Name
  out : List (Loan Pool Kind Name)
  issued : List (Loan Pool Kind Name)
  peak : Pool → Kind → Nat

namespace Shelves

variable {Pool : Type u} {Kind : Type v} {Name : Type w}
variable [DecidableEq Pool] [DecidableEq Kind]

def empty : Shelves Pool Kind Name := ⟨fun _ _ => [], [], [], fun _ _ => 0⟩

/-- The number of loans of a pool and kind. -/
def amount (loans : List (Loan Pool Kind Name)) (pool : Pool) (kind : Kind) : Nat :=
  loans.countP fun loan => loan.pool = pool ∧ loan.kind = kind

def restack (shelves : Shelves Pool Kind Name) (pool : Pool) (kind : Kind) (names : List Name) :
    Pool → Kind → List Name :=
  Function.update shelves.stack pool (Function.update (shelves.stack pool) kind names)

section

variable {shelves : Shelves Pool Kind Name} {pool pool' : Pool} {kind kind' : Kind} {names : List Name}
variable {top other : Name}

@[simp] theorem restack_self (shelves : Shelves Pool Kind Name) (pool : Pool) (kind : Kind)
    (names : List Name) : shelves.restack pool kind names pool kind = names := by
  simp [restack]

theorem restack_other (elsewhere : ¬ (pool' = pool ∧ kind' = kind)) (names : List Name) :
    shelves.restack pool kind names pool' kind' = shelves.stack pool' kind' := by
  by_cases same : pool' = pool
  · subst same
    have different : kind' ≠ kind := fun same => elsewhere ⟨rfl, same⟩
    simp [restack, Function.update_of_ne different]
  · simp [restack, Function.update_of_ne same]

theorem restack_eq (shelves : Shelves Pool Kind Name) (pool : Pool) (kind : Kind) :
    shelves.restack pool kind (shelves.stack pool kind) = shelves.stack := by
  simp [restack]

theorem mem_restack (member : other ∈ shelves.restack pool kind names pool' kind') :
    (pool' = pool ∧ kind' = kind ∧ other ∈ names) ∨
      (¬ (pool' = pool ∧ kind' = kind) ∧ other ∈ shelves.stack pool' kind') := by
  by_cases same : pool' = pool ∧ kind' = kind
  · obtain ⟨rfl, rfl⟩ := same
    rw [restack_self] at member
    exact .inl ⟨rfl, rfl, member⟩
  · rw [restack_other same] at member
    exact .inr ⟨same, member⟩

/-- A name on a stack after a step was there before, or is put there now. -/
theorem mem_restack_cons (older : ∀ name ∈ names, name ∈ shelves.stack pool kind)
    (member : other ∈ shelves.restack pool kind (top :: names) pool' kind') :
    (pool' = pool ∧ kind' = kind ∧ other = top) ∨ other ∈ shelves.stack pool' kind' := by
  rcases mem_restack member with ⟨rfl, rfl, listed⟩ | ⟨_, listed⟩
  · exact (List.mem_cons.mp listed).imp (fun same => ⟨rfl, rfl, same⟩) (older _)
  · exact .inr listed

end

variable [DecidableEq Name]

def serve (shelves : Shelves Pool Kind Name) (pool : Pool) (kind : Kind) (name : Name) :
    Shelves Pool Kind Name :=
  let loan : Loan Pool Kind Name := ⟨name, pool, kind⟩
  let out := loan :: shelves.out
  { stack := shelves.restack pool kind (shelves.stack pool kind).tail
    out := out
    issued := if (shelves.stack pool kind).isEmpty then loan :: shelves.issued else shelves.issued
    peak := fun pool kind => max (shelves.peak pool kind) (amount out pool kind) }

/-- A name comes back to a pool, which need not be the one it is from. -/
def release (keeps : Kind → Bool) (shelves : Shelves Pool Kind Name) (pool : Pool) (name : Name) :
    Shelves Pool Kind Name :=
  match shelves.out.find? (·.name = name) with
  | none => shelves
  | some loan =>
    { shelves with
      stack := if keeps loan.kind
        then shelves.restack pool loan.kind (name :: shelves.stack pool loan.kind) else shelves.stack
      out := shelves.out.filter (·.name ≠ name) }

inductive Event (Pool : Type u) (Kind : Type v) (Name : Type w) where
  | serve (pool : Pool) (kind : Kind) (name : Name)
  | release (pool : Pool) (name : Name)
  deriving DecidableEq

/-- A stack that is not empty serves its top, an empty one a new name; only what is
out can come back. -/
def Legal (shelves : Shelves Pool Kind Name) : Event Pool Kind Name → Prop
  | .serve pool kind name => match shelves.stack pool kind with
    | top :: _ => name = top
    | [] => ∀ loan ∈ shelves.issued, loan.name ≠ name
  | .release _ name => ∃ loan ∈ shelves.out, loan.name = name

instance (shelves : Shelves Pool Kind Name) : (event : Event Pool Kind Name) →
    Decidable (shelves.Legal event)
  | .serve pool kind name => match same : shelves.stack pool kind with
    | top :: _ => decidable_of_iff (name = top) (by rw [Legal, same])
    | [] => decidable_of_iff (∀ loan ∈ shelves.issued, loan.name ≠ name) (by rw [Legal, same])
  | .release _ name => inferInstanceAs (Decidable (∃ loan ∈ shelves.out, loan.name = name))

def happen (keeps : Kind → Bool) (shelves : Shelves Pool Kind Name) :
    Event Pool Kind Name → Shelves Pool Kind Name
  | .serve pool kind name => shelves.serve pool kind name
  | .release pool name => shelves.release keeps pool name

def step (keeps : Kind → Bool) (shelves : Shelves Pool Kind Name) (event : Event Pool Kind Name) :
    Option (Shelves Pool Kind Name) :=
  if shelves.Legal event then some (shelves.happen keeps event) else none

/-- Where the names are: a name is out once, or on one stack, or of a kind that is not kept. -/
structure Accounted (keeps : Kind → Bool) (shelves : Shelves Pool Kind Name) : Prop where
  issuedOnce : (shelves.issued.map Loan.name).Nodup
  outOnce : (shelves.out.map Loan.name).Nodup
  stackOnce : ∀ pool kind, (shelves.stack pool kind).Nodup
  oneStack : ∀ {name pool kind pool' kind'}, name ∈ shelves.stack pool kind →
    name ∈ shelves.stack pool' kind' → pool = pool' ∧ kind = kind'
  apart : ∀ loan ∈ shelves.out, ∀ pool kind, loan.name ∉ shelves.stack pool kind
  outIssued : ∀ loan ∈ shelves.out, ∃ first ∈ shelves.issued, first.name = loan.name ∧ first.kind = loan.kind
  stackIssued : ∀ {name pool kind}, name ∈ shelves.stack pool kind →
    keeps kind = true ∧ ∃ first ∈ shelves.issued, first.name = name ∧ first.kind = kind
  kept : ∀ first ∈ shelves.issued, keeps first.kind = true →
    (∃ loan ∈ shelves.out, loan.name = first.name) ∨ ∃ pool, first.name ∈ shelves.stack pool first.kind

/-- A name comes back to the pool it was lent from. -/
def Home (shelves : Shelves Pool Kind Name) : Event Pool Kind Name → Prop
  | .serve _ _ _ => True
  | .release pool name => ∀ loan ∈ shelves.out, loan.name = name → loan.pool = pool

instance (shelves : Shelves Pool Kind Name) : (event : Event Pool Kind Name) → Decidable (shelves.Home event)
  | .serve _ _ _ => .isTrue trivial
  | .release pool name =>
    inferInstanceAs (Decidable (∀ loan ∈ shelves.out, loan.name = name → loan.pool = pool))

/-- No pool has made more names of a kind than were out at once. -/
structure Tight (keeps : Kind → Bool) (shelves : Shelves Pool Kind Name) : Prop where
  shared : ∀ pool kind, keeps kind = true →
    amount shelves.issued pool kind = (shelves.stack pool kind).length + amount shelves.out pool kind
  peak : ∀ pool kind, keeps kind = true → shelves.peak pool kind = amount shelves.issued pool kind

/-- What a step does: it lends the top of a stack or a new name, or takes a loan back. -/
inductive Steps (keeps : Kind → Bool) (shelves : Shelves Pool Kind Name) :
    Event Pool Kind Name → Shelves Pool Kind Name → Prop where
  | reuse (stacked : shelves.stack pool kind = name :: rest) : Steps keeps shelves (.serve pool kind name)
      { stack := shelves.restack pool kind rest
        out := ⟨name, pool, kind⟩ :: shelves.out
        issued := shelves.issued
        peak := fun pool' kind' =>
          max (shelves.peak pool' kind') (amount (⟨name, pool, kind⟩ :: shelves.out) pool' kind') }
  | issue (bare : shelves.stack pool kind = []) (fresh : ∀ loan ∈ shelves.issued, loan.name ≠ name) :
      Steps keeps shelves (.serve pool kind name)
        { stack := shelves.stack
          out := ⟨name, pool, kind⟩ :: shelves.out
          issued := ⟨name, pool, kind⟩ :: shelves.issued
          peak := fun pool' kind' =>
            max (shelves.peak pool' kind') (amount (⟨name, pool, kind⟩ :: shelves.out) pool' kind') }
  | putAway (member : loan ∈ shelves.out) (kept : keeps loan.kind = true) :
      Steps keeps shelves (.release pool loan.name)
        { shelves with
          stack := shelves.restack pool loan.kind (loan.name :: shelves.stack pool loan.kind)
          out := shelves.out.filter (·.name ≠ loan.name) }
  | discard (member : loan ∈ shelves.out) (unkept : keeps loan.kind = false) :
      Steps keeps shelves (.release pool loan.name)
        { shelves with out := shelves.out.filter (·.name ≠ loan.name) }

variable {keeps : Kind → Bool} {shelves after : Shelves Pool Kind Name}
variable {pool : Pool} {kind : Kind} {name : Name}

theorem step_eq_some {event : Event Pool Kind Name} :
    shelves.step keeps event = some after ↔ shelves.Legal event ∧ after = shelves.happen keeps event := by
  unfold step
  split <;> simp [*, eq_comm]

theorem step_cases {event : Event Pool Kind Name} (taken : shelves.step keeps event = some after) :
    Steps keeps shelves event after := by
  obtain ⟨legal, rfl⟩ := step_eq_some.mp taken
  cases event with
  | serve pool kind name =>
    cases stacked : shelves.stack pool kind with
    | nil =>
      simp only [Legal, stacked] at legal
      have same := shelves.restack_eq pool kind
      rw [stacked] at same
      simp only [happen, serve, stacked, List.tail_nil, List.isEmpty_nil, if_true, same]
      exact .issue stacked legal
    | cons top rest =>
      simp only [Legal, stacked] at legal
      subst legal
      simp only [happen, serve, stacked, List.tail_cons, List.isEmpty_cons]
      exact .reuse stacked
  | release pool name =>
    obtain ⟨found, member, named⟩ := legal
    cases first : shelves.out.find? (·.name = name) with
    | none => exact absurd named (by simpa using List.find?_eq_none.mp first found member)
    | some loan =>
      have same : loan.name = name := by simpa using List.find?_some first
      have member := List.mem_of_find?_eq_some first
      subst same
      simp only [happen, release, first]
      cases kept : keeps loan.kind with
      | true => exact .putAway member kept
      | false => exact .discard member kept

omit [DecidableEq Pool] [DecidableEq Kind] [DecidableEq Name] in
theorem accounted_empty : Accounted keeps (empty : Shelves Pool Kind Name) := by
  constructor <;> simp [empty]

namespace Accounted

variable (accounted : Accounted keeps shelves)

include accounted

theorem reuse {rest : List Name} (stacked : shelves.stack pool kind = name :: rest) (peak : Pool → Kind → Nat) :
    Accounted keeps
      { stack := shelves.restack pool kind rest
        out := ⟨name, pool, kind⟩ :: shelves.out
        issued := shelves.issued
        peak := peak } := by
  have top : name ∈ shelves.stack pool kind := by simp [stacked]
  have once := accounted.stackOnce pool kind
  rw [stacked] at once
  have before : ∀ {other pool' kind'}, other ∈ shelves.restack pool kind rest pool' kind' →
      other ∈ shelves.stack pool' kind' ∧ other ≠ name := by
    intro other pool' kind' member
    rcases mem_restack member with ⟨rfl, rfl, listed⟩ | ⟨elsewhere, listed⟩
    · exact ⟨by simp [stacked, listed], fun same => (List.nodup_cons.mp once).1 (same ▸ listed)⟩
    · exact ⟨listed, fun same => elsewhere (accounted.oneStack (same ▸ listed) top)⟩
  refine ⟨accounted.issuedOnce, ?_, ?_, ?_, ?_, ?_, ?_, ?_⟩
  · refine List.nodup_cons.mpr ⟨fun member => ?_, accounted.outOnce⟩
    obtain ⟨loan, member, same⟩ := List.mem_map.mp member
    exact accounted.apart loan member pool kind (same ▸ top)
  · intro pool' kind'
    by_cases same : pool' = pool ∧ kind' = kind
    · obtain ⟨rfl, rfl⟩ := same
      simpa using once.of_cons
    · simpa only [restack_other same] using accounted.stackOnce pool' kind'
  · exact fun member member' => accounted.oneStack (before member).1 (before member').1
  · intro loan member pool' kind' stacked'
    rcases List.mem_cons.mp member with same | older
    · exact (before stacked').2 (by rw [same])
    · exact accounted.apart loan older pool' kind' (before stacked').1
  · intro loan member
    rcases List.mem_cons.mp member with same | older
    · subst same
      exact (accounted.stackIssued top).2
    · exact accounted.outIssued loan older
  · exact fun member => accounted.stackIssued (before member).1
  · intro first member kept
    by_cases same : first.name = name
    · exact .inl ⟨_, List.mem_cons_self .., same.symm⟩
    · rcases accounted.kept first member kept with ⟨loan, out, named⟩ | ⟨pool', put⟩
      · exact .inl ⟨loan, List.mem_cons_of_mem _ out, named⟩
      · refine .inr ⟨pool', ?_⟩
        by_cases here : pool' = pool ∧ first.kind = kind
        · obtain ⟨rfl, rfl⟩ := here
          rw [stacked] at put
          simpa [same] using put
        · simpa only [restack_other here] using put

omit [DecidableEq Pool] [DecidableEq Kind] [DecidableEq Name] in
theorem issue (fresh : ∀ loan ∈ shelves.issued, loan.name ≠ name) (peak : Pool → Kind → Nat) :
    Accounted keeps
      { stack := shelves.stack
        out := ⟨name, pool, kind⟩ :: shelves.out
        issued := ⟨name, pool, kind⟩ :: shelves.issued
        peak := peak } := by
  refine ⟨?_, ?_, accounted.stackOnce, accounted.oneStack, ?_, ?_, ?_, ?_⟩
  · exact List.nodup_cons.mpr ⟨by simpa using fresh, accounted.issuedOnce⟩
  · refine List.nodup_cons.mpr ⟨fun member => ?_, accounted.outOnce⟩
    obtain ⟨loan, member, same⟩ := List.mem_map.mp member
    obtain ⟨first, issued, named, _⟩ := accounted.outIssued loan member
    exact fresh first issued (named.trans same)
  · intro loan member pool' kind' stacked
    rcases List.mem_cons.mp member with same | older
    · subst same
      obtain ⟨_, first, issued, named, _⟩ := accounted.stackIssued stacked
      exact fresh first issued named
    · exact accounted.apart loan older pool' kind' stacked
  · intro loan member
    rcases List.mem_cons.mp member with same | older
    · subst same
      exact ⟨_, List.mem_cons_self .., rfl, rfl⟩
    · obtain ⟨first, issued, same⟩ := accounted.outIssued loan older
      exact ⟨first, List.mem_cons_of_mem _ issued, same⟩
  · intro other pool' kind' stacked
    obtain ⟨kept, first, issued, same⟩ := accounted.stackIssued stacked
    exact ⟨kept, first, List.mem_cons_of_mem _ issued, same⟩
  · intro first member kept
    rcases List.mem_cons.mp member with same | older
    · subst same
      exact .inl ⟨_, List.mem_cons_self .., rfl⟩
    · refine (accounted.kept first older kept).imp_left ?_
      rintro ⟨loan, out, named⟩
      exact ⟨loan, List.mem_cons_of_mem _ out, named⟩

theorem putAway {loan : Loan Pool Kind Name} (member : loan ∈ shelves.out) (kept : keeps loan.kind = true) :
    Accounted keeps
      { shelves with
        stack := shelves.restack pool loan.kind (loan.name :: shelves.stack pool loan.kind)
        out := shelves.out.filter (·.name ≠ loan.name) } := by
  have put : ∀ {other pool' kind'},
      other ∈ shelves.restack pool loan.kind (loan.name :: shelves.stack pool loan.kind) pool' kind' →
        (pool' = pool ∧ kind' = loan.kind ∧ other = loan.name) ∨ other ∈ shelves.stack pool' kind' :=
    fun stacked => mem_restack_cons (fun _ => id) stacked
  have away := accounted.apart loan member
  refine ⟨accounted.issuedOnce, accounted.outOnce.sublist (List.filter_sublist.map _), ?_, ?_, ?_, ?_, ?_, ?_⟩
  · intro pool' kind'
    by_cases same : pool' = pool ∧ kind' = loan.kind
    · obtain ⟨rfl, rfl⟩ := same
      simpa using ⟨away pool' loan.kind, accounted.stackOnce pool' loan.kind⟩
    · simpa only [restack_other same] using accounted.stackOnce pool' kind'
  · intro other pool₁ kind₁ pool₂ kind₂ first second
    rcases put first with ⟨rfl, rfl, named⟩ | before
    · rcases put second with ⟨rfl, rfl, _⟩ | before'
      · exact ⟨rfl, rfl⟩
      · exact (away _ _ (named ▸ before')).elim
    · rcases put second with ⟨rfl, rfl, named⟩ | before'
      · exact (away _ _ (named ▸ before)).elim
      · exact accounted.oneStack before before'
  · intro other present pool' kind' stacked
    obtain ⟨present, different⟩ := List.mem_filter.mp present
    rcases put stacked with ⟨_, _, named⟩ | stacked
    · simp [named] at different
    · exact accounted.apart other present pool' kind' stacked
  · exact fun other present => accounted.outIssued other (List.mem_filter.mp present).1
  · intro other pool' kind' stacked
    rcases put stacked with ⟨_, rfl, rfl⟩ | stacked
    · exact ⟨kept, accounted.outIssued loan member⟩
    · exact accounted.stackIssued stacked
  · intro first issued kept'
    by_cases same : first.name = loan.name
    · obtain ⟨first', issued', named, kinded⟩ := accounted.outIssued loan member
      have equal := List.inj_on_of_nodup_map accounted.issuedOnce issued issued' (same.trans named.symm)
      refine .inr ⟨pool, ?_⟩
      simp only [equal, kinded, restack_self, named, List.mem_cons_self]
    · rcases accounted.kept first issued kept' with ⟨other, out, named⟩ | ⟨pool', stacked⟩
      · exact .inl ⟨other, List.mem_filter.mpr ⟨out, by simpa [named] using same⟩, named⟩
      · refine .inr ⟨pool', ?_⟩
        by_cases here : pool' = pool ∧ first.kind = loan.kind
        · rw [here.1, here.2] at stacked
          simp only [here.1, here.2, restack_self]
          exact List.mem_cons_of_mem _ stacked
        · simpa only [restack_other here] using stacked

omit [DecidableEq Pool] [DecidableEq Kind] in
theorem discard {loan : Loan Pool Kind Name} (member : loan ∈ shelves.out) (unkept : keeps loan.kind = false) :
    Accounted keeps { shelves with out := shelves.out.filter (·.name ≠ loan.name) } := by
  refine ⟨accounted.issuedOnce, accounted.outOnce.sublist (List.filter_sublist.map _), accounted.stackOnce,
    accounted.oneStack, ?_, ?_, accounted.stackIssued, ?_⟩
  · exact fun other present => accounted.apart other (List.mem_filter.mp present).1
  · exact fun other present => accounted.outIssued other (List.mem_filter.mp present).1
  · intro first issued kept
    refine (accounted.kept first issued kept).imp_left ?_
    rintro ⟨other, out, named⟩
    refine ⟨other, List.mem_filter.mpr ⟨out, ?_⟩, named⟩
    have different : other.name ≠ loan.name := by
      intro same
      obtain ⟨first', issued', named', kinded⟩ := accounted.outIssued loan member
      have equal := List.inj_on_of_nodup_map accounted.issuedOnce issued issued'
        (named.symm.trans (same.trans named'.symm))
      rw [equal, kinded, unkept] at kept
      cases kept
    simpa using different

/-- Every step keeps account of all names. -/
theorem step {event : Event Pool Kind Name} (taken : shelves.step keeps event = some after) :
    Accounted keeps after := by
  cases step_cases taken with
  | reuse stacked => exact accounted.reuse stacked _
  | issue bare fresh => exact accounted.issue fresh _
  | putAway member kept => exact accounted.putAway member kept
  | discard member unkept => exact accounted.discard member unkept

end Accounted

omit [DecidableEq Name] in
theorem amount_cons (loan : Loan Pool Kind Name) (loans : List (Loan Pool Kind Name)) (pool : Pool)
    (kind : Kind) : amount (loan :: loans) pool kind =
      amount loans pool kind + if loan.pool = pool ∧ loan.kind = kind then 1 else 0 := by
  simp [amount, List.countP_cons]

/-- A loan that is taken away counts for its own pool and kind. -/
theorem amount_filter {loans : List (Loan Pool Kind Name)} {loan : Loan Pool Kind Name}
    (once : (loans.map Loan.name).Nodup) (member : loan ∈ loans) (pool : Pool) (kind : Kind) :
    amount (loans.filter (·.name ≠ loan.name)) pool kind +
      (if loan.pool = pool ∧ loan.kind = kind then 1 else 0) = amount loans pool kind := by
  induction loans with
  | nil => cases member
  | cons first rest ih =>
    obtain ⟨unlisted, once⟩ := List.nodup_cons.mp once
    rcases List.mem_cons.mp member with same | later
    · subst same
      have all : rest.filter (·.name ≠ loan.name) = rest := by
        refine List.filter_eq_self.mpr fun other present => ?_
        have different : other.name ≠ loan.name :=
          fun same => unlisted (List.mem_map.mpr ⟨other, present, same⟩)
        simpa using different
      rw [List.filter_cons_of_neg (by simp), all, amount_cons]
    · have different : first.name ≠ loan.name :=
        fun same => unlisted (List.mem_map.mpr ⟨loan, later, same.symm⟩)
      rw [List.filter_cons_of_pos (by simpa using different), amount_cons, amount_cons, ← ih once later]
      omega

omit [DecidableEq Name] in
theorem tight_empty : Tight keeps (empty : Shelves Pool Kind Name) := by
  constructor <;> simp [empty, amount]

/-- While every name comes back to where it was lent, a new name means more loans at once than ever. -/
theorem Tight.step (tight : Tight keeps shelves) (accounted : Accounted keeps shelves)
    {event : Event Pool Kind Name} (home : shelves.Home event)
    (taken : shelves.step keeps event = some after) : Tight keeps after := by
  cases step_cases taken with
  | @reuse pool kind name rest stacked =>
    refine ⟨fun pool' kind' kept => ?_, fun pool' kind' kept => ?_⟩
    all_goals
      have shared := tight.shared pool' kind' kept
      have peak := tight.peak pool' kind' kept
      simp only [amount_cons]
    · by_cases same : pool' = pool ∧ kind' = kind
      · obtain ⟨rfl, rfl⟩ := same
        rw [stacked] at shared
        simp only [restack_self, and_self, if_true, List.length_cons] at shared ⊢
        omega
      · have other : ¬ (pool = pool' ∧ kind = kind') := fun equal => same ⟨equal.1.symm, equal.2.symm⟩
        rw [restack_other same, if_neg other]
        omega
    · by_cases same : pool = pool' ∧ kind = kind'
      · obtain ⟨rfl, rfl⟩ := same
        rw [stacked] at shared
        simp only [and_self, if_true, List.length_cons] at shared ⊢
        omega
      · rw [if_neg same]
        omega
  | @issue pool kind name bare fresh =>
    refine ⟨fun pool' kind' kept => ?_, fun pool' kind' kept => ?_⟩
    all_goals
      have shared := tight.shared pool' kind' kept
      have peak := tight.peak pool' kind' kept
      simp only [amount_cons]
    · omega
    · by_cases same : pool = pool' ∧ kind = kind'
      · obtain ⟨rfl, rfl⟩ := same
        rw [bare] at shared
        simp only [and_self, if_true, List.length_nil] at shared ⊢
        omega
      · rw [if_neg same]
        omega
  | @putAway loan pool member kept =>
    have from_ : loan.pool = pool := home loan member rfl
    subst from_
    refine ⟨fun pool' kind' kept' => ?_, tight.peak⟩
    have shared := tight.shared pool' kind' kept'
    have fewer := amount_filter accounted.outOnce member pool' kind'
    by_cases same : pool' = loan.pool ∧ kind' = loan.kind
    · obtain ⟨rfl, rfl⟩ := same
      simp only [restack_self, and_self, if_true, List.length_cons] at fewer ⊢
      omega
    · have other : ¬ (loan.pool = pool' ∧ loan.kind = kind') := fun equal => same ⟨equal.1.symm, equal.2.symm⟩
      rw [if_neg other] at fewer
      simp only [restack_other same]
      omega
  | @discard loan pool member unkept =>
    refine ⟨fun pool' kind' kept => ?_, tight.peak⟩
    have shared := tight.shared pool' kind' kept
    have fewer := amount_filter accounted.outOnce member pool' kind'
    have other : ¬ (loan.pool = pool' ∧ loan.kind = kind') := by
      rintro ⟨_, rfl⟩
      rw [unkept] at kept
      cases kept
    rw [if_neg other] at fewer
    simp only
    omega

/-- While every release of an execution is to where the loan is from, the peaks are the numbers of new names. -/
theorem tight_of_execute {events : List (Event Pool Kind Name)}
    (executed : execute (guarded (step keeps) Home) empty events = some shelves) : Tight keeps shelves := by
  refine (execute_invariant (fun _ shelves => Accounted keeps shelves ∧ Tight keeps shelves)
    ⟨accounted_empty, tight_empty⟩ ?_ executed).2
  intro earlier shelves event after both taken
  obtain ⟨home, taken⟩ := guarded_eq_some.mp taken
  exact ⟨both.1.step taken, both.2.step both.1 home taken⟩

/-- The names a pool has lent, oldest first. -/
def served (pool : Pool) (events : List (Event Pool Kind Name)) : List Name :=
  events.filterMap fun
    | .serve from_ _ name => if from_ = pool then some name else none
    | .release _ _ => none

theorem issued_step {event : Event Pool Kind Name} (taken : shelves.step keeps event = some after) :
    ∀ loan ∈ shelves.issued, loan ∈ after.issued := by
  cases step_cases taken with
  | reuse stacked => exact fun _ member => member
  | issue bare fresh => exact fun _ member => List.mem_cons_of_mem _ member
  | putAway member kept => exact fun _ member => member
  | discard member unkept => exact fun _ member => member

/-- A name that an execution has lent was new once, with the same kind. -/
theorem issued_of_execute {events : List (Event Pool Kind Name)}
    (executed : execute (step keeps) empty events = some shelves) :
    ∀ pool kind name, .serve pool kind name ∈ events →
      ∃ first ∈ shelves.issued, first.name = name ∧ first.kind = kind := by
  refine (execute_invariant (fun events shelves => Accounted keeps shelves ∧ ∀ pool kind name,
    .serve pool kind name ∈ events → ∃ first ∈ shelves.issued, first.name = name ∧ first.kind = kind)
    ⟨accounted_empty, nofun⟩ ?_ executed).2
  intro earlier shelves event after good taken
  have accounted := good.1.step taken
  refine ⟨accounted, fun pool kind name member => ?_⟩
  rcases List.mem_append.mp member with older | newest
  · obtain ⟨first, issued, same⟩ := good.2 pool kind name older
    exact ⟨first, issued_step taken first issued, same⟩
  · obtain rfl := List.mem_singleton.mp newest
    cases step_cases taken with
    | reuse stacked => exact accounted.outIssued _ (List.mem_cons_self ..)
    | issue bare fresh => exact accounted.outIssued _ (List.mem_cons_self ..)

/-- A pool that nothing comes back to lends no name twice. -/
theorem served_nodup {events : List (Event Pool Kind Name)}
    (executed : execute (step keeps) empty events = some shelves)
    (abroad : ∀ name, .release pool name ∉ events) : (served pool events).Nodup := by
  refine (execute_invariant (fun events shelves => (∀ name, .release pool name ∉ events) →
    (∀ kind, shelves.stack pool kind = []) ∧
    (∀ name ∈ served pool events, ∃ first ∈ shelves.issued, first.name = name) ∧ (served pool events).Nodup)
    (fun _ => ⟨fun _ => rfl, nofun, List.nodup_nil⟩) ?_ executed abroad).2.2
  intro earlier shelves event after good taken abroad
  obtain ⟨bare, known, once⟩ := good fun name member => abroad name (List.mem_append_left _ member)
  have elsewhere : ∀ name, event ≠ .release pool name := by
    rintro name rfl
    exact abroad name (by simp)
  have more := issued_step taken
  cases step_cases taken with
  | @reuse pool' kind name rest stacked =>
    have other : pool' ≠ pool := by
      rintro rfl
      rw [bare kind] at stacked
      cases stacked
    have same : served pool (earlier ++ [.serve pool' kind name]) = served pool earlier := by
      simp [served, other]
    rw [same]
    refine ⟨fun kind' => ?_, known, once⟩
    rw [← bare kind']
    exact restack_other (fun equal => other equal.1.symm) rest
  | @issue pool' kind name bare' fresh =>
    by_cases here : pool' = pool
    · have same : served pool (earlier ++ [.serve pool' kind name]) = served pool earlier ++ [name] := by
        simp [served, here]
      rw [same]
      refine ⟨bare, fun other member => ?_, ?_⟩
      · rcases List.mem_append.mp member with older | newest
        · obtain ⟨first, issued, named⟩ := known other older
          exact ⟨first, more first issued, named⟩
        · exact ⟨_, List.mem_cons_self .., (List.mem_singleton.mp newest).symm⟩
      · refine List.nodup_append.mpr ⟨once, List.nodup_singleton _, fun other older name' newest same => ?_⟩
        obtain ⟨first, issued, named⟩ := known other older
        exact fresh first issued (by rw [named, same, List.mem_singleton.mp newest])
    · have same : served pool (earlier ++ [.serve pool' kind name]) = served pool earlier := by
        simp [served, here]
      rw [same]
      refine ⟨bare, fun other member => ?_, once⟩
      obtain ⟨first, issued, named⟩ := known other member
      exact ⟨first, more first issued, named⟩
  | @putAway loan pool' member kept =>
    have other : pool ≠ pool' := fun same => elsewhere loan.name (by rw [same])
    have same : served pool (earlier ++ [.release pool' loan.name]) = served pool earlier := by simp [served]
    rw [same]
    refine ⟨fun kind' => ?_, known, once⟩
    rw [← bare kind']
    exact restack_other (fun equal => other equal.1) _
  | @discard loan pool' member unkept =>
    have same : served pool (earlier ++ [.release pool' loan.name]) = served pool earlier := by simp [served]
    rw [same]
    exact ⟨bare, known, once⟩

end Shelves

end ProcessAsThread.Library
