import Mathlib.Logic.Basic

/-! Runs of a partial step function. An action carries every choice its step
makes, so one list of actions names one run. -/

namespace ProcessAsThread.Library

universe u v

variable {State : Type u} {Action : Type v}

/-- A run with its history, newest entry first: each action is kept with the
state it was taken in. -/
inductive Run (step : State → Action → Option State) (initial : State) :
    List (State × Action) → State → Prop where
  | start : Run step initial [] initial
  | next (earlier : Run step initial history state) (taken : step state action = some after) :
      Run step initial ((state, action) :: history) after

/-- Every step of the run was taken under the guard. -/
def Meets (guard : State → Action → Prop) (history : List (State × Action)) : Prop :=
  ∀ entry ∈ history, guard entry.1 entry.2

theorem Meets.tail {guard : State → Action → Prop} (meets : Meets guard (entry :: history)) :
    Meets guard history := fun other member => meets other (List.mem_cons_of_mem _ member)

theorem Meets.head {guard : State → Action → Prop} (meets : Meets guard (entry :: history)) :
    guard entry.1 entry.2 := meets entry (List.mem_cons_self ..)

/-- The states a run goes through, its last one first. -/
def visited (history : List (State × Action)) (state : State) : List State :=
  state :: history.map Prod.fst

def Reachable (step : State → Action → Option State) (initial state : State) : Prop :=
  ∃ history, Run step initial history state

theorem Reachable.refl (step : State → Action → Option State) (initial : State) :
    Reachable step initial initial := ⟨[], .start⟩

theorem Reachable.next (reached : Reachable step initial state)
    (taken : step state action = some after) : Reachable step initial after := by
  obtain ⟨history, run⟩ := reached
  exact ⟨_, run.next taken⟩

theorem Reachable.trans (reached : Reachable step initial middle) (run : Run step middle history state) :
    Reachable step initial state := by
  induction run with
  | start => exact reached
  | next _ taken ih => exact ih.next taken

/-- What holds at the start and is kept by every step taken under the guard
holds at the end of every guarded run. -/
theorem Run.invariant {guard : State → Action → Prop} {Good : State → Prop}
    (initially : Good initial)
    (kept : ∀ {state action after}, Good state → guard state action →
      step state action = some after → Good after)
    (run : Run step initial history state) (meets : Meets guard history) : Good state := by
  induction run with
  | start => exact initially
  | next earlier taken ih => exact kept (ih meets.tail) meets.head taken

theorem Reachable.invariant {Good : State → Prop} (initially : Good initial)
    (kept : ∀ {state action after}, Good state → step state action = some after → Good after)
    (reached : Reachable step initial state) : Good state := by
  obtain ⟨history, run⟩ := reached
  have meets : Meets (fun _ _ => True) history := fun _ _ => trivial
  exact run.invariant initially (fun good _ taken => kept good taken) meets

theorem visited_tail {history : List (State × Action)} :
    seen ∈ visited history state → seen ∈ visited ((state, action) :: history) after :=
  fun member => List.mem_cons_of_mem _ (by simpa [visited] using member)

theorem visited_of_mem {history : List (State × Action)} (member : (seen, action) ∈ history) :
    seen ∈ visited history state := List.mem_cons_of_mem _ (List.mem_map.mpr ⟨_, member, rfl⟩)

/-- What every guarded step keeps holds of all states of a guarded run. -/
theorem Run.always {guard : State → Action → Prop} {Good : State → Prop} (initially : Good initial)
    (kept : ∀ {state action after}, Reachable step initial state → Good state → guard state action →
      step state action = some after → Good after)
    (run : Run step initial history state) (meets : Meets guard history) :
    ∀ seen ∈ visited history state, Good seen := by
  induction run with
  | start => simpa [visited] using initially
  | @next history state action after earlier taken ih =>
    have before := ih meets.tail
    intro seen member
    rcases List.mem_cons.mp member with same | older
    · subst seen
      exact kept ⟨_, earlier⟩ (before state (List.mem_cons_self ..)) meets.head taken
    · exact before seen (by simpa [visited] using older)

/-- A guard that every step between good states meets is met all along a run of good states. -/
theorem Run.meets_of_always {guard : State → Action → Prop} {Good : State → Prop}
    (forced : ∀ {state action after}, Reachable step initial state → Good state →
      step state action = some after → Good after → guard state action)
    (run : Run step initial history state) (always : ∀ seen ∈ visited history state, Good seen) :
    Meets guard history := by
  induction run with
  | start => simp [Meets]
  | @next history state action after earlier taken ih =>
    have before : ∀ seen ∈ visited history state, Good seen :=
      fun seen older => always seen (visited_tail older)
    intro entry member
    rcases List.mem_cons.mp member with same | older
    · subst entry
      exact forced ⟨_, earlier⟩ (before state (List.mem_cons_self ..)) taken
        (always after (List.mem_cons_self ..))
    · exact ih before entry older

/-- A property that a step keeps exactly when it meets a guard holds all along a
run exactly when every step meets it. `Sound` is what is known of any state. -/
theorem Run.always_iff {guard : State → Action → Prop} {Sound Good : State → Prop}
    (sound : ∀ {state}, Reachable step initial state → Sound state) (initially : Good initial)
    (exactly : ∀ {state action after}, Sound state → Good state → step state action = some after →
      (Good after ↔ guard state action))
    (run : Run step initial history state) :
    (∀ seen ∈ visited history state, Good seen) ↔ Meets guard history :=
  ⟨run.meets_of_always fun reached good taken good' => (exactly (sound reached) good taken).mp good',
    run.always initially fun reached good met taken => (exactly (sound reached) good taken).mpr met⟩
/-- As `Run.always_iff`, where the guard is needed only behind steps that have met it. -/
theorem Run.always_iff_kept {guard : State → Action → Prop} {Kept Good : State → Prop}
    (initially : Kept initial)
    (kept : ∀ {state action after}, Kept state → guard state action → step state action = some after →
      Kept after)
    (good : ∀ {state}, Kept state → Good state)
    (forced : ∀ {state action after}, Kept state → step state action = some after → Good after →
      guard state action)
    (run : Run step initial history state) :
    (∀ seen ∈ visited history state, Good seen) ↔ Meets guard history := by
  constructor
  · intro always
    induction run with
    | start => simp [Meets]
    | @next history state action after earlier taken ih =>
      have before := ih fun seen older => always seen (visited_tail older)
      have met := forced (earlier.invariant initially kept before) taken
        (always after (List.mem_cons_self ..))
      intro entry member
      rcases List.mem_cons.mp member with same | older
      · subst entry
        exact met
      · exact before entry older
  · intro meets seen member
    exact good (run.always initially (fun _ => kept) meets seen member)

theorem Run.split {later earlier : List (State × Action)}
    (run : Run step initial (later ++ earlier) state) :
    ∃ middle, Run step initial earlier middle ∧ Run step middle later state := by
  induction later generalizing state with
  | nil => exact ⟨state, run, .start⟩
  | cons entry later ih =>
    cases run with
    | next before taken =>
      obtain ⟨middle, first, second⟩ := ih before
      exact ⟨middle, first, second.next taken⟩

/-- What every step orders, a run orders. -/
theorem Run.pairwise {Order : State → State → Prop} (trans : ∀ {a b c}, Order a b → Order b c → Order a c)
    (run : Run step initial history state)
    (ordered : ∀ {state action after}, (state, action) ∈ history → step state action = some after →
      Order after state) : (visited history state).Pairwise Order := by
  induction run with
  | start => exact List.pairwise_singleton ..
  | @next history state action after earlier taken ih =>
    have before := ih fun member => ordered (List.mem_cons_of_mem _ member)
    have last := ordered (List.mem_cons_self ..) taken
    refine List.pairwise_cons.mpr ⟨fun seen member => ?_, before⟩
    rcases List.mem_cons.mp member with same | older
    · subst same
      exact last
    · exact trans last ((List.pairwise_cons.mp before).1 seen older)

/-- Execute a list of actions, oldest first. -/
def execute (step : State → Action → Option State) : State → List Action → Option State
  | state, [] => some state
  | state, action :: rest => (step state action).bind fun after => execute step after rest

theorem Run.execute (run : Run step initial history state)
    (success : execute step state actions = some final) :
    ∃ longer, Run step initial longer final := by
  induction actions generalizing history state with
  | nil =>
    cases Option.some.inj success
    exact ⟨history, run⟩
  | cons action rest ih =>
    obtain ⟨after, taken, remaining⟩ := Option.bind_eq_some_iff.mp success
    exact ih (run.next taken) remaining

theorem reachable_of_execute (success : execute step initial actions = some final) :
    Reachable step initial final := Run.start.execute success

theorem execute_one {step : State → Action → Option State} (taken : step state action = some after) :
    execute step state [action] = some after := by
  rw [Library.execute, taken]
  rfl

theorem execute_append (step : State → Action → Option State) (state : State) (actions others : List Action) :
    execute step state (actions ++ others) =
      (execute step state actions).bind fun after => execute step after others := by
  induction actions generalizing state with
  | nil => rfl
  | cons action rest ih =>
    simp only [List.cons_append, Library.execute]
    cases step state action with
    | none => rfl
    | some after => exact ih after

/-- What holds with no action done and is kept, as the actions go on, holds of every execution. -/
theorem execute_invariant {step : State → Action → Option State} (Good : List Action → State → Prop)
    (initially : Good [] initial)
    (kept : ∀ {earlier state action after}, Good earlier state → step state action = some after →
      Good (earlier ++ [action]) after)
    (success : execute step initial actions = some final) : Good actions final := by
  have onward : ∀ {earlier state}, Good earlier state → execute step state actions = some final →
      Good (earlier ++ actions) final := by
    clear success
    induction actions with
    | nil =>
      intro earlier state good executed
      cases executed
      simpa using good
    | cons action rest ih =>
      intro earlier state good executed
      obtain ⟨after, taken, remaining⟩ := Option.bind_eq_some_iff.mp executed
      have later := ih (kept good taken) remaining
      simpa using later
  exact onward initially success

/-- A decided property of the state a list of actions leads to holds of some
reachable state. -/
theorem exists_reachable {Holds : State → Prop} [DecidablePred Holds]
    (success : (execute step initial actions).map (fun state => decide (Holds state)) = some true) :
    ∃ state, Reachable step initial state ∧ Holds state := by
  obtain ⟨state, executed, checked⟩ := Option.map_eq_some_iff.mp success
  exact ⟨state, reachable_of_execute executed, of_decide_eq_true checked⟩

/-- Steps that go together keep whole executions together, failures included. -/
theorem execute_simulates {State' : Type u} {step : State → Action → Option State}
    {step' : State' → Action → Option State'} {Related : State → State' → Prop} {Allowed : Action → Prop}
    {state : State} {state' : State'} {actions : List Action}
    (simulates : ∀ state state' action, Related state state' → Allowed action →
      Option.Rel Related (step state action) (step' state' action))
    (related : Related state state') (allowed : ∀ action ∈ actions, Allowed action) :
    Option.Rel Related (execute step state actions) (execute step' state' actions) := by
  induction actions generalizing state state' with
  | nil => exact .some related
  | cons action rest ih =>
    obtain ⟨here, later⟩ := List.forall_mem_cons.mp allowed
    have both := simulates state state' action related here
    rw [Library.execute, Library.execute]
    generalize step state action = one, step' state' action = other at both
    cases both with
    | none => exact .none
    | some after => exact ih after later

/-- Execute a list of actions and keep the history. -/
def record (step : State → Action → Option State) :
    List (State × Action) → State → List Action → Option (List (State × Action) × State)
  | history, state, [] => some (history, state)
  | history, state, action :: rest =>
    (step state action).bind fun after => record step ((state, action) :: history) after rest

theorem Run.record (run : Run step initial history state)
    (success : record step history state actions = some (longer, final)) :
    Run step initial longer final := by
  induction actions generalizing history state with
  | nil =>
    cases Option.some.inj success
    exact run
  | cons action rest ih =>
    obtain ⟨after, taken, remaining⟩ := Option.bind_eq_some_iff.mp success
    exact ih (run.next taken) remaining

/-- A decided property of a list of actions as a run holds of some run. -/
theorem exists_run {Holds : List (State × Action) × State → Prop} [DecidablePred Holds]
    (success : (record step [] initial actions).map (fun recorded => decide (Holds recorded)) =
      some true) :
    ∃ history state, Run step initial history state ∧ Holds (history, state) := by
  obtain ⟨⟨history, state⟩, recorded, checked⟩ := Option.map_eq_some_iff.mp success
  exact ⟨history, state, Run.start.record recorded, of_decide_eq_true checked⟩

/-- Only the steps that meet a guard. -/
def guarded (step : State → Action → Option State) (guard : State → Action → Prop)
    [∀ state action, Decidable (guard state action)] (state : State) (action : Action) : Option State :=
  if guard state action then step state action else none

theorem guarded_eq_some {step : State → Action → Option State} {guard : State → Action → Prop}
    [∀ state action, Decidable (guard state action)] {state after : State} {action : Action} :
    guarded step guard state action = some after ↔
      guard state action ∧ step state action = some after := by
  unfold guarded
  split <;> simp [*]

theorem Run.of_guarded {step : State → Action → Option State} {guard : State → Action → Prop}
    [∀ state action, Decidable (guard state action)]
    (run : Run (guarded step guard) initial history state) :
    Run step initial history state ∧ Meets guard history := by
  induction run with
  | start => exact ⟨.start, by simp [Meets]⟩
  | next earlier taken ih =>
    obtain ⟨met, moved⟩ := guarded_eq_some.mp taken
    refine ⟨ih.1.next moved, ?_⟩
    intro entry member
    rcases List.mem_cons.mp member with same | older
    · subst entry
      exact met
    · exact ih.2 entry older

theorem execute_of_guarded {step : State → Action → Option State} {guard : State → Action → Prop}
    [∀ state action, Decidable (guard state action)] {state : State} {actions : List Action}
    (success : execute (guarded step guard) state actions = some final) :
    execute step state actions = some final := by
  induction actions generalizing state with
  | nil => exact success
  | cons action rest ih =>
    obtain ⟨after, taken, remaining⟩ := Option.bind_eq_some_iff.mp success
    exact Option.bind_eq_some_iff.mpr ⟨after, (guarded_eq_some.mp taken).2, ih remaining⟩

/-- A list of actions that executes under the guard, to a state with a decided
property, is such a run. -/
theorem exists_guarded {step : State → Action → Option State} {guard : State → Action → Prop}
    [∀ state action, Decidable (guard state action)] {Holds : State → Prop} [DecidablePred Holds]
    (success : (execute (guarded step guard) initial actions).map (fun state => decide (Holds state)) =
      some true) :
    ∃ history state, Run step initial history state ∧ Meets guard history ∧ Holds state := by
  obtain ⟨state, executed, checked⟩ := Option.map_eq_some_iff.mp success
  obtain ⟨history, run⟩ := reachable_of_execute executed
  exact ⟨history, state, run.of_guarded.1, run.of_guarded.2, of_decide_eq_true checked⟩

end ProcessAsThread.Library
