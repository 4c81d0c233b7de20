import ProcessAsThread.HashMap.Progress

/-! Calls of several threads as calls of one multimap. They take effect in the order of
the log, which never contradicts the order in which they are made and return. -/

namespace ProcessAsThread.HashMap

open Library

variable {Key Value : Type}

/-- What a call makes of a multimap. -/
def Operation.apply (functions : KeyFunctions Key) (values : Multimap (FullKey Key) Value) :
    Operation Key Value → Multimap (FullKey Key) Value
  | .insert key keylen value _ => values.insert (equalKeys functions) (key, keylen) value
  | .insertIfAbsent key keylen value _ =>
    if (values (key, keylen)).isEmpty then values.insert (equalKeys functions) (key, keylen) value else values
  | .find _ _ => values
  | .erase key keylen => values.erase (equalKeys functions) (key, keylen)

/-- The multimap after the calls of a log. -/
def meaning (functions : KeyFunctions Key) :
    List (Nat × Operation Key Value × Result Value) → Multimap (FullKey Key) Value
  | [] => .empty
  | (_, operation, _) :: earlier => operation.apply functions (meaning functions earlier)

/-- Lengths fit, and every erase names a key that is stored when its turn comes. -/
def AllowedIn (functions : KeyFunctions Key) : List (Nat × Operation Key Value × Result Value) → Prop
  | [] => True
  | (_, operation, _) :: earlier => AllowedIn functions earlier ∧ Allowed (meaning functions earlier) operation

/-- Every call has the result a multimap gives. -/
def Legal (functions : KeyFunctions Key) : List (Nat × Operation Key Value × Result Value) → Prop
  | [] => True
  | (_, operation, result) :: earlier =>
    Legal functions earlier ∧ result = answer (meaning functions earlier) operation

instance decidableAllowedIn (functions : KeyFunctions Key) :
    (log : List (Nat × Operation Key Value × Result Value)) → Decidable (AllowedIn functions log)
  | [] => .isTrue trivial
  | (_, _, _) :: earlier =>
    have := decidableAllowedIn functions earlier
    inferInstanceAs (Decidable (_ ∧ _))

section

variable {functions : KeyFunctions Key} {shared after : Shared Key Value} {map map' : HashMap Key Value}
variable {chain chain' : Nat → List Nat} {first size : Nat} {operation : Operation Key Value}
variable {history : List (HashMap Key Value × Operation Key Value)}

private theorem replay_cons : replay functions ((map, operation) :: history) =
    operation.apply functions (replay functions history) := by
  cases operation <;> rfl

theorem Represents.answers {result : Result Value} (lawful : functions.Lawful) (positive : 0 < size)
    (good : Represents functions size map chain (stored functions history))
    (small : ∀ index < size, (stored functions history).countP (inBucket functions size index) < 2 ^ 31)
    (performed : perform functions map operation = some (result, map')) :
    result = answer (replay functions history) operation := by
  have searching := good.search lawful positive small
  cases operation with
  | insert key keylen value address =>
    obtain ⟨_, performs⟩ := perform_cases good.chains performed
    cases performs
    rfl
  | insertIfAbsent key keylen value address =>
    obtain ⟨first, _, first_, _, found, searched, _, present⟩ := searching key keylen
    rw [answer, replay_isEmpty lawful, ← present]
    obtain ⟨_, performs⟩ := perform_cases good.chains performed
    cases performs with
    | absent first' missing =>
      cases first_.symm.trans first'
      cases searched.symm.trans missing
      rfl
    | present first' found' =>
      cases first_.symm.trans first'
      cases searched.symm.trans found'
      rfl
  | find key keylen =>
    obtain ⟨first, _, first_, _, found, searched, oldest, _⟩ := searching key keylen
    rw [find_of_getEntry first_ searched] at performed
    cases performed
    rw [answer, replay_head? lawful, ← oldest, Option.map_bind]
    rfl
  | erase key keylen =>
    obtain ⟨first, _, first_, _, found, searched, _, present⟩ := searching key keylen
    rw [answer, replay_isEmpty lawful, ← present]
    cases found with
    | none =>
      rw [erase_of_missing first_ searched] at performed
      cases performed
      rfl
    | some address =>
      rw [erase_of_found first_ searched] at performed
      cases performed
      rfl

private theorem legal_of_serial {counts : Nat → Nat} {links : ListMemory Node}
    {log : List (Nat × Operation Key Value × Result Value)} (lawful : functions.Lawful) (positive : 0 < size)
    (serial : Serial functions (setup (new counts links) size) log map) (allowed : AllowedIn functions log)
    (few : log.length < 2 ^ 31) :
    Legal functions log ∧ ∃ history, Run (step functions) (setup (new counts links) size) history map ∧
      Permitted functions size history ∧ replay functions history = meaning functions log ∧
      history.length = log.length := by
  induction serial with
  | start => exact ⟨trivial, [], .start, trivial, rfl, rfl⟩
  | @next log map operation result after thread earlier performed ih =>
    obtain ⟨legal, history, run, permitted, replayed, length⟩ := ih allowed.1 (Nat.lt_of_succ_lt few)
    obtain ⟨chain, good⟩ := represents_of_run lawful positive run permitted
    have answered := good.answers lawful positive permitted.small performed
    have taken : step functions map operation = some after := Option.map_eq_some_iff.mpr ⟨_, performed, rfl⟩
    rw [replayed] at answered
    refine ⟨⟨legal, answered⟩, _, run.next taken, ⟨permitted, ?_, fun index _ => ?_⟩, ?_, ?_⟩
    · rw [replayed]
      exact allowed.2
    · have counted := stored_countP functions ((map, operation) :: history) (inBucket functions size index)
      rw [List.length_cons, length] at counted
      rw [List.length_cons] at few
      omega
    · rw [replay_cons, replayed, meaning]
    · rw [List.length_cons, List.length_cons, length]

/-- A bucket whose lock nobody has is searched as in the map of the log. -/
theorem Shadowed.getEntry (shadowed : Shadowed functions shared map chain chain') (inside : first < map.buckets)
    (free : shared.holders first = none) (key : Key) (keylen : Nat) :
    getEntry functions shared.map first key keylen = getEntry functions map first key keylen := by
  obtain ⟨same, count⟩ := shadowed.unlocked first inside free
  have held : holds functions shared.map key keylen = holds functions map key keylen := by
    funext address
    rw [holds, holds, shadowed.entries]
  rw [shadowed.chains.getEntry inside, ← same, ← count, ← held]
  refine getEntryLoop_eq (shadowed.rings first inside).linked fun address member => ?_
  rw [shadowed.entries]
  exact (shadowed.chains.held address).mpr ⟨first, inside, same ▸ member⟩

/-- The calls of any number of threads are calls of one multimap. Each takes effect once between
its call and its return, the log being the order in which they do; if every erase in it names
a stored key, all results are those of the multimap, and so is what `find` returns in a bucket
whose lock nobody has. -/
theorem calls_linearize {threads : Nat} {counts : Nat → Nat} {links : ListMemory Node}
    {history : List (Shared Key Value × Action Key Value)} (lawful : functions.Lawful) (positive : 0 < size)
    (run : Run (act functions) (.start (setup (new counts links) size) threads) history shared)
    (allowed : AllowedIn functions shared.log) (few : shared.log.length < 2 ^ 31) :
    Legal functions shared.log ∧
      (∀ seen ∈ visited history shared, seen.log <:+ shared.log ∧
        ∀ thread stage, seen.stages[thread]? = some stage →
          stage.pending ++ returned thread seen.returns = logged thread seen.log) ∧
      ∀ key keylen first, bucket functions shared.map key keylen = some first → shared.holders first = none →
        find functions shared.map key keylen = some (meaning functions shared.log (key, keylen)).head? := by
  obtain ⟨map, chain, chain', serial, shadowed⟩ := serial_of_run run
  obtain ⟨legal, calls, called, permitted, replayed, _⟩ :=
    legal_of_serial lawful positive serial allowed few
  obtain ⟨represented, good⟩ := represents_of_run lawful positive called permitted
  refine ⟨legal, fun seen member => ⟨?_, ?_⟩, fun key keylen first first_ free => ?_⟩
  · have ordered : (visited history shared).Pairwise fun after before => before.log <:+ after.log :=
      run.pairwise (fun later earlier => earlier.trans later) fun _ taken => act_suffix taken
    rcases List.mem_cons.mp member with rfl | earlier
    · exact List.suffix_refl _
    · exact (List.pairwise_cons.mp ordered).1 seen earlier
  · have meets : Meets (fun _ _ => True) history := fun _ _ => trivial
    exact run.always (answered_start _ threads) (fun _ answered _ taken => answered_act answered taken) meets
      seen member
  · have same := @bucket_congr _ _ functions map shared.map
      (shadowed.initialized.trans shadowed.chains.initialized.symm) shadowed.buckets key keylen
    obtain ⟨_, _, found_, _, found, searched, oldest, _⟩ :=
      good.search lawful positive permitted.small key keylen
    cases first_.symm.trans (same.trans found_)
    rw [← shadowed.getEntry (bucket_lt found_) free] at searched
    rw [← replayed, replay_head? lawful, ← oldest, Option.map_bind, ← shadowed.entries]
    exact Option.bind_eq_some_iff.mpr ⟨first, first_, Option.bind_eq_some_iff.mpr ⟨found, searched, rfl⟩⟩

/-- A key is inserted by two threads at once and erased by one of them, while the other inserts another key. -/
theorem calls_linearize_two : ∃ history shared,
    Run (act HashFuncs.intKeys) (.start twoBuckets 2) history shared ∧ Legal HashFuncs.intKeys shared.log ∧
      find HashFuncs.intKeys shared.map 1 4 = some (some 20) ∧
      find HashFuncs.intKeys shared.map 2 4 = some (some 30) := by
  have executed : ((record (act HashFuncs.intKeys) [] (.start twoBuckets 2)
      [.call 0 (.insert 1 4 10), .call 1 (.insert 1 4 20), .proceed 0 0, .proceed 0 16, .proceed 0 0,
        .proceed 0 0, .proceed 0 0, .call 0 (.erase 1 4), .proceed 1 0, .proceed 1 32, .proceed 1 0, .proceed 1 0,
        .proceed 1 0, .proceed 0 0, .call 1 (.insertIfAbsent 2 4 30), .proceed 0 0, .proceed 1 0, .proceed 0 0,
        .proceed 1 0, .proceed 0 0, .proceed 1 16, .proceed 0 0, .proceed 1 0, .proceed 0 0, .proceed 1 0,
        .proceed 1 0]).map fun recorded => Decidable.decide
          (AllowedIn HashFuncs.intKeys recorded.2.log ∧ recorded.2.log.length = 4 ∧
            recorded.2.holders 0 = none ∧ recorded.2.holders 1 = none ∧
            bucket HashFuncs.intKeys recorded.2.map 1 4 = some 1 ∧
            bucket HashFuncs.intKeys recorded.2.map 2 4 = some 0 ∧
            (meaning HashFuncs.intKeys recorded.2.log (1, 4)).head? = some 20 ∧
            (meaning HashFuncs.intKeys recorded.2.log (2, 4)).head? = some 30)) = some true := by
    decide +kernel
  obtain ⟨history, shared, run, allowed, length, even, odd, first, second, twenty, thirty⟩ := exists_run executed
  obtain ⟨legal, _, finds⟩ :=
    calls_linearize HashFuncs.intKeys_lawful (by decide) run allowed (by rw [length]; decide)
  refine ⟨history, shared, run, legal, ?_, ?_⟩
  · rw [finds 1 4 1 first odd, twenty]
  · rw [finds 2 4 0 second even, thirty]

end

end ProcessAsThread.HashMap
