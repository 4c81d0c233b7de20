import Mathlib.Logic.Function.Basic

/-! One flag and one condition variable between callers and the callees they
spawn, used by one caller at a time. A caller names its callee by a token; it
passes when the flag is set, else it waits for a signal. -/

namespace ProcessAsThread.Library

universe u v

namespace Handshake

/-- Where a party stands. A caller waits for its callee in the last three forms
that carry a token. -/
inductive Phase (Token : Type v) where
  | idle
  | calling (token : Token)
  | awaiting (token : Token)
  | blocked (token : Token)
  | woken (token : Token)
  | unannounced

def Phase.waits : Phase Token → Bool
  | .awaiting _ | .blocked _ | .woken _ => true
  | _ => false

/-- A party with the token it was spawned under. -/
structure Party (Token : Type v) where
  phase : Phase Token
  token : Option Token

def Party.goto (party : Party Token) (phase : Phase Token) : Party Token := { party with phase := phase }

@[simp] theorem Party.goto_phase (party : Party Token) (phase : Phase Token) :
    (party.goto phase).phase = phase := rfl

end Handshake

/-- `returned` are the tokens whose caller has passed. -/
structure Handshake (Name : Type u) (Token : Type v) where
  flag : Bool
  parties : Name → Option (Handshake.Party Token)
  returned : List Token

namespace Handshake

variable {Name : Type u} {Token : Type v}

/-- No caller waits for its callee. -/
def Quiet (parties : Name → Option (Party Token)) : Prop :=
  ∀ {name party}, parties name = some party → party.phase.waits = false

/-- The callee of a token has announced itself. -/
def Announced (parties : Name → Option (Party Token)) (token : Token) : Prop :=
  ∃ name party, parties name = some party ∧ party.token = some token ∧ party.phase ≠ .unannounced

/-- The steps of the handshake, in which a callee is spawned only while no caller waits. -/
inductive Step [DecidableEq Name] (before : Handshake Name Token) : Handshake Name Token → Prop where
  | prepare (found : before.parties name = some party) (phase : party.phase = .idle)
      (fresh : ∀ {other party}, before.parties other = some party →
        party.token ≠ some token ∧ party.phase ≠ .calling token) :
      Step before { before with
        parties := Function.update before.parties name (some (party.goto (.calling token))) }
  | spawn (found : before.parties name = some party) (phase : party.phase = .calling token)
      (quiet : Quiet before.parties) (free : before.parties callee = none) :
      Step before { before with
        parties := Function.update (Function.update before.parties name
          (some (party.goto (.awaiting token)))) callee (some ⟨.unannounced, some token⟩) }
  | spawnFails (found : before.parties name = some party) (phase : party.phase = .calling token)
      (quiet : Quiet before.parties) :
      Step before { before with
        parties := Function.update before.parties name (some (party.goto (.awaiting token))) }
  | pass (found : before.parties name = some party) (phase : party.phase = .awaiting token)
      (flag : before.flag = true) :
      Step before
        { flag := false
          parties := Function.update before.parties name (some (party.goto .idle))
          returned := token :: before.returned }
  | block (found : before.parties name = some party) (phase : party.phase = .awaiting token)
      (flag : before.flag = false) :
      Step before { before with
        parties := Function.update before.parties name (some (party.goto (.blocked token))) }
  | leave (found : before.parties name = some party) (phase : party.phase = .woken token) :
      Step before
        { flag := false
          parties := Function.update before.parties name (some (party.goto .idle))
          returned := token :: before.returned }
  | announce (found : before.parties name = some party) (phase : party.phase = .unannounced)
      (nobody : ∀ {other party}, before.parties other = some party → ∀ token, party.phase ≠ .blocked token) :
      Step before { before with
        flag := true
        parties := Function.update before.parties name (some (party.goto .idle)) }
  | signal (found : before.parties name = some party) (phase : party.phase = .unannounced)
      (waiting : before.parties other = some waiter) (blocked : waiter.phase = .blocked token) :
      Step before { before with
        flag := true
        parties := Function.update (Function.update before.parties name (some (party.goto .idle)))
          other (some (waiter.goto (.woken token))) }

/-- No two parties stand for one token. -/
structure Tokens (parties : Name → Option (Party Token)) : Prop where
  own : ∀ {i j party other token}, parties i = some party → parties j = some other →
    party.token = some token → other.token = some token → i = j
  unspawned : ∀ {i j party other token}, parties i = some party → parties j = some other →
    party.phase = .calling token → other.token ≠ some token
  call : ∀ {i j party other token}, parties i = some party → parties j = some other →
    party.phase = .calling token → other.phase = .calling token → i = j

/-- One caller waits at a time, and the flag and the signals are for it. -/
structure Turns (flag : Bool) (parties : Name → Option (Party Token)) (returned : List Token) : Prop where
  oneWaiter : ∀ {i j party other}, parties i = some party → parties j = some other →
    party.phase.waits = true → other.phase.waits = true → i = j
  consumed : Quiet parties → flag = false
  awaited : ∀ {i party}, parties i = some party → party.phase = .unannounced →
    ∃ token j caller, party.token = some token ∧ parties j = some caller ∧
      (caller.phase = .awaiting token ∨ caller.phase = .blocked token)
  awaiting : ∀ {i party token}, parties i = some party → party.phase = .awaiting token →
    (flag = true ↔ Announced parties token)
  blocked : ∀ {i party token}, parties i = some party → party.phase = .blocked token →
    ¬ Announced parties token
  woken : ∀ {i party token}, parties i = some party → party.phase = .woken token →
    Announced parties token
  passed : ∀ token ∈ returned, Announced parties token

variable {flag : Bool} {parties : Name → Option (Party Token)} {returned : List Token}

/-- While nobody waits every callee has announced itself. -/
theorem Turns.announced_of_quiet (good : Turns flag parties returned)
    (quiet : Quiet parties) (present : parties name = some party) :
    party.phase ≠ .unannounced := by
  intro phase
  obtain ⟨_, _, caller, _, found, waits⟩ := good.awaited present phase
  have idle := quiet found
  rcases waits with waits | waits <;> simp [waits, Phase.waits] at idle

theorem Turns.oneCallee (good : Turns flag parties returned)
    (tokens : Tokens parties) (found : parties name = some party)
    (phase : party.phase = .unannounced) (found' : parties name' = some party')
    (phase' : party'.phase = .unannounced) : name = name' := by
  obtain ⟨token, j, caller, own, present, waits⟩ := good.awaited found phase
  obtain ⟨token', j', caller', own', present', waits'⟩ := good.awaited found' phase'
  have same : j = j' := by
    refine good.oneWaiter present present' ?_ ?_
    · rcases waits with waits | waits <;> simp [waits, Phase.waits]
    · rcases waits' with waits' | waits' <;> simp [waits', Phase.waits]
  subst same
  cases Option.some.inj (present.symm.trans present')
  have equal : token = token' := by
    rcases waits with waits | waits <;> rcases waits' with waits' | waits' <;>
      rw [waits] at waits' <;> cases waits' <;> rfl
  subst equal
  exact tokens.own found found' own own'

/-- An unannounced callee is the one the waiting caller waits for. -/
theorem Turns.awaitedBy (good : Turns flag parties returned) (found : parties name = some caller)
    (waits : caller.phase.waits = true) (present : parties callee = some party)
    (unannounced : party.phase = .unannounced) :
    ∃ token, party.token = some token ∧ (caller.phase = .awaiting token ∨ caller.phase = .blocked token) := by
  obtain ⟨token, j, caller', own, held, waiting⟩ := good.awaited present unannounced
  have one : j = name := by
    refine good.oneWaiter held found ?_ waits
    rcases waiting with waiting | waiting <;> simp [waiting, Phase.waits]
  subst one
  cases Option.some.inj (held.symm.trans found)
  exact ⟨token, own, waiting⟩

/-- The token a caller is about to spawn under has not been announced. -/
theorem Tokens.notAnnounced (tokens : Tokens parties) (found : parties name = some party)
    (phase : party.phase = .calling token) : ¬ Announced parties token :=
  fun ⟨_, _, present, own, _⟩ => tokens.unspawned found present phase own

theorem Turns.of_quiet (quiet : Quiet parties)
    (down : flag = false)
    (announced : ∀ {name party}, parties name = some party → party.phase ≠ .unannounced)
    (passed : ∀ token ∈ returned, Announced parties token) : Turns flag parties returned where
  oneWaiter := fun present _ waits => by simp [quiet present] at waits
  consumed := fun _ => down
  awaited := fun present phase => (announced present phase).elim
  awaiting := fun present phase => by
    have idle := quiet present
    simp [phase, Phase.waits] at idle
  blocked := fun present phase => by
    have idle := quiet present
    simp [phase, Phase.waits] at idle
  woken := fun present phase => by
    have idle := quiet present
    simp [phase, Phase.waits] at idle
  passed := passed

/-- The states in which exactly one caller waits. -/
theorem Turns.of_caller (found : parties name = some caller)
    (waits : caller.phase.waits = true)
    (others : ∀ {other party}, other ≠ name → parties other = some party → party.phase.waits = false)
    (awaited : ∀ {i party}, parties i = some party → party.phase = .unannounced →
      ∃ token, party.token = some token ∧ (caller.phase = .awaiting token ∨ caller.phase = .blocked token))
    (awaiting : ∀ token, caller.phase = .awaiting token →
      (flag = true ↔ Announced parties token))
    (blocked : ∀ token, caller.phase = .blocked token → ¬ Announced parties token)
    (woken : ∀ token, caller.phase = .woken token → Announced parties token)
    (passed : ∀ token ∈ returned, Announced parties token) : Turns flag parties returned := by
  have sole : ∀ {other party}, parties other = some party → party.phase.waits = true →
      other = name ∧ party = caller := by
    intro other party present waiting
    by_cases same : other = name
    · subst same
      exact ⟨rfl, Option.some.inj (present.symm.trans found)⟩
    · simp [others same present] at waiting
  constructor
  case oneWaiter =>
    intro i j party other present present' waiting waiting'
    rw [(sole present waiting).1, (sole present' waiting').1]
  case consumed =>
    intro quiet
    simp [quiet found] at waits
  case awaited =>
    intro i party present unannounced
    obtain ⟨token, own, phase⟩ := awaited present unannounced
    exact ⟨token, name, caller, own, found, phase⟩
  case awaiting =>
    intro i party token present phase
    obtain ⟨_, same⟩ := sole present (by simp [phase, Phase.waits])
    exact awaiting token (by rw [← same, phase])
  case blocked =>
    intro i party token present phase
    obtain ⟨_, same⟩ := sole present (by simp [phase, Phase.waits])
    exact blocked token (by rw [← same, phase])
  case woken =>
    intro i party token present phase
    obtain ⟨_, same⟩ := sole present (by simp [phase, Phase.waits])
    exact woken token (by rw [← same, phase])
  case passed => exact passed

variable [DecidableEq Name]

theorem lookup_update {party seen : Party Token}
    {phase : Phase Token}
    (present : Function.update parties name (some (party.goto phase)) other = some seen) :
    other = name ∧ seen = party.goto phase ∨ other ≠ name ∧ parties other = some seen := by
  by_cases same : other = name
  · subst same
    rw [Function.update_self] at present
    exact .inl ⟨rfl, (Option.some.inj present).symm⟩
  · rw [Function.update_of_ne same] at present
    exact .inr ⟨same, present⟩

/-- A party that goes on, to anything but a call, takes no token. -/
theorem Tokens.goto {party : Party Token} {phase : Phase Token} (good : Tokens parties)
    (found : parties name = some party) (aside : ∀ token, phase ≠ .calling token) :
    Tokens (Function.update parties name (some (party.goto phase))) := by
  have earlier : ∀ {i seen}, Function.update parties name (some (party.goto phase)) i = some seen →
      ∃ before, parties i = some before ∧ seen.token = before.token ∧
        ∀ token, seen.phase = .calling token → before.phase = .calling token := by
    intro i seen present
    rcases lookup_update present with ⟨same, same'⟩ | ⟨_, present⟩
    · subst same same'
      exact ⟨party, found, rfl, fun token call => (aside token call).elim⟩
    · exact ⟨seen, present, rfl, fun _ call => call⟩
  constructor
  case own =>
    intro i j first second token present present' own own'
    obtain ⟨_, before, same, _⟩ := earlier present
    obtain ⟨_, before', same', _⟩ := earlier present'
    exact good.own before before' (same ▸ own) (same' ▸ own')
  case unspawned =>
    intro i j first second token present present' call
    obtain ⟨_, before, _, called⟩ := earlier present
    obtain ⟨_, before', same', _⟩ := earlier present'
    rw [same']
    exact good.unspawned before before' (called token call)
  case call =>
    intro i j first second token present present' call call'
    obtain ⟨_, before, _, called⟩ := earlier present
    obtain ⟨_, before', _, called'⟩ := earlier present'
    exact good.call before before' (called token call) (called' token call')

/-- A caller takes a token that nobody stands for. -/
theorem Tokens.prepare {party : Party Token} (good : Tokens parties) (found : parties name = some party)
    (fresh : ∀ {other party}, parties other = some party →
      party.token ≠ some token ∧ party.phase ≠ .calling token) :
    Tokens (Function.update parties name (some (party.goto (.calling token)))) := by
  have earlier : ∀ {i seen},
      Function.update parties name (some (party.goto (.calling token))) i = some seen →
      ∃ before, parties i = some before ∧ seen.token = before.token ∧ ∀ token',
        seen.phase = .calling token' → i = name ∧ token' = token ∨ before.phase = .calling token' := by
    intro i seen present
    rcases lookup_update present with ⟨same, same'⟩ | ⟨_, present⟩
    · subst same same'
      exact ⟨party, found, rfl, fun _ call => .inl ⟨rfl, (Phase.calling.inj call).symm⟩⟩
    · exact ⟨seen, present, rfl, fun _ call => .inr call⟩
  constructor
  case own =>
    intro i j first second token' present present' own own'
    obtain ⟨_, before, same, _⟩ := earlier present
    obtain ⟨_, before', same', _⟩ := earlier present'
    exact good.own before before' (same ▸ own) (same' ▸ own')
  case unspawned =>
    intro i j first second token' present present' call
    obtain ⟨_, before, _, called⟩ := earlier present
    obtain ⟨_, before', same', _⟩ := earlier present'
    rw [same']
    rcases called token' call with ⟨_, same⟩ | called
    · rw [same]
      exact (fresh before').1
    · exact good.unspawned before before' called
  case call =>
    intro i j first second token' present present' call call'
    obtain ⟨_, before, _, called⟩ := earlier present
    obtain ⟨_, before', _, called'⟩ := earlier present'
    rcases called token' call with ⟨here, same⟩ | called
    · rcases called' token' call' with ⟨here', _⟩ | called'
      · rw [here, here']
      · exact ((fresh before').2 (same ▸ called')).elim
    · rcases called' token' call' with ⟨_, same'⟩ | called'
      · exact ((fresh before).2 (same' ▸ called)).elim
      · exact good.call before before' called called'

/-- A callee is spawned under a token that nobody else stands for. -/
theorem Tokens.spawn (good : Tokens parties)
    (fresh : ∀ {other party}, other ≠ callee → parties other = some party →
      party.token ≠ some token ∧ party.phase ≠ .calling token) :
    Tokens (Function.update parties callee (some ⟨.unannounced, some token⟩)) := by
  have earlier : ∀ {i seen}, Function.update parties callee (some ⟨.unannounced, some token⟩) i = some seen →
      i = callee ∧ seen = ⟨.unannounced, some token⟩ ∨ i ≠ callee ∧ parties i = some seen := by
    intro i seen present
    by_cases same : i = callee
    · subst same
      rw [Function.update_self] at present
      exact .inl ⟨rfl, (Option.some.inj present).symm⟩
    · rw [Function.update_of_ne same] at present
      exact .inr ⟨same, present⟩
  constructor
  case own =>
    intro i j first second token' present present' own own'
    rcases earlier present with ⟨here, same⟩ | ⟨other, before⟩
    · subst same
      cases own
      rcases earlier present' with ⟨here', _⟩ | ⟨other', before'⟩
      · rw [here, here']
      · exact ((fresh other' before').1 own').elim
    · rcases earlier present' with ⟨here', same'⟩ | ⟨_, before'⟩
      · subst same'
        cases own'
        exact ((fresh other before).1 own).elim
      · exact good.own before before' own own'
  case unspawned =>
    intro i j first second token' present present' call
    rcases earlier present with ⟨_, same⟩ | ⟨other, before⟩
    · subst same
      cases call
    · rcases earlier present' with ⟨_, same'⟩ | ⟨_, before'⟩
      · subst same'
        intro own
        cases own
        exact (fresh other before).2 call
      · exact good.unspawned before before' call
  case call =>
    intro i j first second token' present present' call call'
    rcases earlier present with ⟨_, same⟩ | ⟨_, before⟩
    · subst same
      cases call
    · rcases earlier present' with ⟨_, same'⟩ | ⟨_, before'⟩
      · subst same'
        cases call'
      · exact good.call before before' call call'

theorem Tokens.step {state after : Handshake Name Token} (good : Tokens state.parties)
    (taken : Step state after) : Tokens after.parties := by
  cases taken with
  | prepare found _ fresh => exact good.prepare found fresh
  | @spawn name party token callee found phase _ _ =>
    refine (good.goto found (by simp)).spawn ?_
    intro other seen _ present
    rcases lookup_update present with ⟨_, same⟩ | ⟨different, present⟩
    · subst same
      have unowned : party.token ≠ some token := good.unspawned found found phase
      exact ⟨unowned, by simp⟩
    · exact ⟨good.unspawned found present phase, fun call => different (good.call present found call phase)⟩
  | spawnFails found | pass found | block found | leave found | announce found =>
    exact good.goto found (by simp)
  | @signal name party other waiter token found phase waiting blocked =>
    have different : other ≠ name := by
      intro same
      subst same
      cases Option.some.inj (found.symm.trans waiting)
      rw [phase] at blocked
      cases blocked
    refine (good.goto found (by simp)).goto ?_ (by simp)
    rw [Function.update_of_ne different]
    exact waiting

theorem Announced.update {party : Party Token}
    {phase : Phase Token} (found : parties name = some party) (announced : Announced parties token)
    (kept : phase ≠ .unannounced) :
    Announced (Function.update parties name (some (party.goto phase))) token := by
  obtain ⟨other, callee, present, own, done⟩ := announced
  by_cases same : other = name
  · subst same
    cases Option.some.inj (found.symm.trans present)
    exact ⟨other, party.goto phase, by simp, own, kept⟩
  · exact ⟨other, callee, by simp [same, present], own, done⟩

theorem Announced.of_update {party : Party Token}
    {phase : Phase Token} (found : parties name = some party) (before : party.phase ≠ .unannounced)
    (announced : Announced (Function.update parties name (some (party.goto phase))) token) :
    Announced parties token := by
  obtain ⟨other, callee, present, own, done⟩ := announced
  rcases lookup_update present with ⟨_, same⟩ | ⟨_, present⟩
  · subst same
    exact ⟨name, party, found, own, before⟩
  · exact ⟨other, callee, present, own, done⟩

/-- A party whose change of phase is no part of a handshake. -/
theorem Turns.aside {party : Party Token} {phase : Phase Token}
    (good : Turns flag parties returned) (found : parties name = some party)
    (idle : party.phase.waits = false) (known : party.phase ≠ .unannounced)
    (idle' : phase.waits = false) (known' : phase ≠ .unannounced) :
    Turns flag (Function.update parties name (some (party.goto phase))) returned := by
  have same : ∀ token, Announced (Function.update parties name (some (party.goto phase))) token ↔
      Announced parties token :=
    fun token => ⟨Announced.of_update found known, fun announced => announced.update found known'⟩
  -- a party that waits is not the one that has moved
  have older : ∀ {i seen}, Function.update parties name (some (party.goto phase)) i = some seen →
      seen.phase.waits = true → parties i = some seen := by
    intro i seen present waits
    rcases lookup_update present with ⟨_, moved⟩ | ⟨_, present⟩
    · subst moved
      rw [Party.goto_phase, idle'] at waits
      cases waits
    · exact present
  constructor
  case oneWaiter =>
    intro i j seen other present present' waits waits'
    exact good.oneWaiter (older present waits) (older present' waits') waits waits'
  case consumed =>
    intro quiet
    refine good.consumed ?_
    intro other seen present
    by_cases moved : other = name
    · subst moved
      cases Option.some.inj (found.symm.trans present)
      exact idle
    · exact @quiet other seen (by simpa [moved] using present)
  case awaited =>
    intro i seen present unannounced
    rcases lookup_update present with ⟨_, moved⟩ | ⟨_, present⟩
    · subst moved
      exact (known' unannounced).elim
    · obtain ⟨token, j, caller, own, held, waits⟩ := good.awaited present unannounced
      refine ⟨token, j, caller, own, ?_, waits⟩
      by_cases moved : j = name
      · subst moved
        cases Option.some.inj (found.symm.trans held)
        rcases waits with waits | waits <;> simp [waits, Phase.waits] at idle
      · rw [Function.update_of_ne moved]
        exact held
  case awaiting =>
    intro i seen token present waits
    rw [same]
    exact good.awaiting (older present (by rw [waits]; rfl)) waits
  case blocked =>
    intro i seen token present waits
    rw [same]
    exact good.blocked (older present (by rw [waits]; rfl)) waits
  case woken =>
    intro i seen token present waits
    rw [same]
    exact good.woken (older present (by rw [waits]; rfl)) waits
  case passed => exact fun token member => (same token).mpr (good.passed token member)

/-- A caller starts to wait for a callee nobody has spawned before. -/
theorem Turns.start {party : Party Token} (good : Turns flag parties returned)
    (quiet : Quiet parties) (found : parties name = some party)
    (phase : party.phase = .calling token) (unannounced : ¬ Announced parties token) :
    Turns flag (Function.update parties name (some (party.goto (.awaiting token)))) returned := by
  have known : party.phase ≠ .unannounced := by simp [phase]
  refine Turns.of_caller (Function.update_self ..) rfl ?_ ?_ ?_ nofun nofun ?_
  · intro other seen different present
    rw [Function.update_of_ne different] at present
    exact quiet present
  · intro i seen present callee
    rcases lookup_update present with ⟨_, moved⟩ | ⟨_, present⟩
    · subst moved
      cases callee
    · exact (good.announced_of_quiet quiet present callee).elim
  · intro token' same
    cases same
    simp only [good.consumed quiet, Bool.false_eq_true, false_iff]
    exact fun announced => unannounced (announced.of_update found known)
  · exact fun other member => (good.passed other member).update found (by simp)

/-- The one caller that waits passes, after its callee has announced itself. -/
theorem Turns.finish {party : Party Token} (good : Turns flag parties returned)
    (found : parties name = some party) (waits : party.phase.waits = true)
    (announced : Announced parties token)
    (done : ∀ {other callee}, parties other = some callee → callee.phase ≠ .unannounced) :
    Turns false (Function.update parties name (some (party.goto .idle))) (token :: returned) := by
  refine Turns.of_quiet ?_ rfl ?_ ?_
  · intro other seen present
    rcases lookup_update present with ⟨_, same⟩ | ⟨different, present⟩
    · subst same
      rfl
    · by_contra waiting
      exact different (good.oneWaiter present found (by simpa using waiting) waits)
  · intro other seen present
    rcases lookup_update present with ⟨_, same⟩ | ⟨_, present⟩
    · subst same
      simp
    · exact done present
  · intro other member
    rcases List.mem_cons.mp member with same | older
    · subst same
      exact announced.update found (by simp)
    · exact (good.passed other older).update found (by simp)

theorem Turns.addCallee {caller : Party Token} (good : Turns flag parties returned)
    (found : parties name = some caller) (phase : caller.phase = .awaiting token)
    (free : parties callee = none) :
    Turns flag (Function.update parties callee (some ⟨.unannounced, some token⟩)) returned := by
  have waits : caller.phase.waits = true := by simp [phase, Phase.waits]
  have different : name ≠ callee := by
    intro same
    subst same
    rw [free] at found
    cases found
  have same : ∀ token', Announced (Function.update parties callee
      (some ⟨.unannounced, some token⟩)) token' ↔ Announced parties token' := by
    intro token'
    constructor
    · intro ⟨other, party, present, own, done⟩
      by_cases new : other = callee
      · subst new
        rw [Function.update_self] at present
        cases present
        exact (done rfl).elim
      · rw [Function.update_of_ne new] at present
        exact ⟨other, party, present, own, done⟩
    · intro ⟨other, party, present, own, done⟩
      by_cases new : other = callee
      · subst new
        rw [free] at present
        cases present
      · exact ⟨other, party, by rw [Function.update_of_ne new]; exact present, own, done⟩
  have there : Function.update parties callee (some ⟨.unannounced, some token⟩) name = some caller := by
    rw [Function.update_of_ne different]
    exact found
  refine Turns.of_caller there waits ?_ ?_ ?_ ?_ ?_ ?_
  · intro other party elsewhere present
    by_cases new : other = callee
    · subst new
      rw [Function.update_self] at present
      cases present
      rfl
    · rw [Function.update_of_ne new] at present
      by_contra waiting
      exact elsewhere (good.oneWaiter present found (by simpa using waiting) waits)
  · intro i party present unannounced
    by_cases new : i = callee
    · subst new
      rw [Function.update_self] at present
      cases present
      exact ⟨token, rfl, .inl phase⟩
    · rw [Function.update_of_ne new] at present
      exact good.awaitedBy found waits present unannounced
  · intro token' held
    rw [same]
    exact good.awaiting found held
  · intro token' held
    rw [same]
    exact good.blocked found held
  · intro token' held
    rw [same]
    exact good.woken found held
  · exact fun token' member => (same token').mpr (good.passed token' member)

/-- The caller that waits finds the flag down, so its callee has not announced itself. -/
theorem Turns.block {caller : Party Token} (good : Turns flag parties returned)
    (found : parties name = some caller) (phase : caller.phase = .awaiting token)
    (down : flag = false) :
    Turns flag (Function.update parties name (some (caller.goto (.blocked token)))) returned := by
  have waits : caller.phase.waits = true := by simp [phase, Phase.waits]
  have known : caller.phase ≠ .unannounced := by simp [phase]
  refine Turns.of_caller (Function.update_self ..) rfl ?_ ?_ nofun ?_ nofun ?_
  · intro other seen different present
    rw [Function.update_of_ne different] at present
    by_contra waiting
    exact different (good.oneWaiter present found (by simpa using waiting) waits)
  · intro i seen present unannounced
    rcases lookup_update present with ⟨_, moved⟩ | ⟨_, present⟩
    · subst moved
      cases unannounced
    · obtain ⟨token', own, waiting⟩ := good.awaitedBy found waits present unannounced
      rcases waiting with waiting | waiting <;> rw [phase] at waiting <;> cases waiting
      exact ⟨token, own, .inr rfl⟩
  · intro token' same announced
    cases same
    have set := (good.awaiting found phase).mpr (announced.of_update found known)
    rw [down] at set
    cases set
  · exact fun other member => (good.passed other member).update found (by simp)

/-- A callee announces itself: its caller waits, and is the only one that does. -/
theorem Turns.announce {party : Party Token} (good : Turns flag parties returned)
    (tokens : Tokens parties) (found : parties name = some party)
    (phase : party.phase = .unannounced) :
    ∃ token j caller, party.token = some token ∧ parties j = some caller ∧ j ≠ name ∧
      (caller.phase = .awaiting token ∨ caller.phase = .blocked token) ∧
      (∀ {other seen}, other ≠ j → parties other = some seen → seen.phase.waits = false) ∧
      (∀ {other seen}, other ≠ name → parties other = some seen → seen.phase ≠ .unannounced) ∧
      Announced (Function.update parties name (some (party.goto .idle))) token := by
  obtain ⟨token, j, caller, own, held, waiting⟩ := good.awaited found phase
  have waits : caller.phase.waits = true := by
    rcases waiting with waiting | waiting <;> simp [waiting, Phase.waits]
  refine ⟨token, j, caller, own, held, ?_, waiting, ?_, ?_, ?_⟩
  · intro same
    subst same
    cases Option.some.inj (held.symm.trans found)
    simp [phase, Phase.waits] at waits
  · intro other seen different present
    by_contra waiting
    exact different (good.oneWaiter present held (by simpa using waiting) waits)
  · intro other seen different present unannounced
    exact different (good.oneCallee tokens present unannounced found phase)
  · exact ⟨name, party.goto .idle, Function.update_self .., own, by simp⟩

/-- The flag meets the caller before it waits. -/
theorem Turns.announceFlag {party : Party Token} (good : Turns flag parties returned)
    (tokens : Tokens parties) (found : parties name = some party)
    (phase : party.phase = .unannounced)
    (nobody : ∀ {other party}, parties other = some party → ∀ token, party.phase ≠ .blocked token) :
    Turns true (Function.update parties name (some (party.goto .idle))) returned := by
  obtain ⟨token, j, caller, own, held, elsewhere, waiting, sole, known, announced⟩ :=
    good.announce tokens found phase
  have awaiting : caller.phase = .awaiting token := by
    rcases waiting with awaiting | blocked
    · exact awaiting
    · exact (nobody held token blocked).elim
  have there : Function.update parties name (some (party.goto .idle)) j = some caller := by
    rw [Function.update_of_ne elsewhere]
    exact held
  refine Turns.of_caller there (by simp [awaiting, Phase.waits]) ?_ ?_ ?_ ?_ ?_ ?_
  · intro other seen different present
    rcases lookup_update present with ⟨_, moved⟩ | ⟨_, present⟩
    · subst moved
      rfl
    · exact sole different present
  · intro i seen present unannounced
    rcases lookup_update present with ⟨_, moved⟩ | ⟨different, present⟩
    · subst moved
      cases unannounced
    · exact (known different present unannounced).elim
  · intro token' same
    rw [awaiting] at same
    cases same
    simp only [announced]
  · exact fun token' same => (nobody held token' same).elim
  · intro token' same
    rw [awaiting] at same
    cases same
  · exact fun other member => (good.passed other member).update found (by simp)

/-- The signal meets the caller in its wait. -/
theorem Turns.announceSignal {party waiter : Party Token} (good : Turns flag parties returned)
    (tokens : Tokens parties) (found : parties name = some party)
    (phase : party.phase = .unannounced) (waiting : parties other = some waiter)
    (blocked : waiter.phase = .blocked token) :
    Turns true (Function.update (Function.update parties name (some (party.goto .idle)))
      other (some (waiter.goto (.woken token)))) returned := by
  obtain ⟨token', j, caller, own, held, elsewhere, _, sole, known, announced⟩ :=
    good.announce tokens found phase
  have own' : other = j := by
    by_contra different
    have idle := sole different waiting
    simp [blocked, Phase.waits] at idle
  subst own'
  cases Option.some.inj (waiting.symm.trans held)
  have same : token' = token := by
    obtain ⟨token'', own', waits⟩ :=
      good.awaitedBy held (by simp [blocked, Phase.waits]) found phase
    rw [blocked] at waits
    rcases waits with waits | waits <;> cases waits
    exact Option.some.inj (own.symm.trans own')
  subst same
  have there : Function.update parties name (some (party.goto .idle)) other = some waiter := by
    rw [Function.update_of_ne elsewhere]
    exact held
  refine Turns.of_caller (Function.update_self ..) rfl ?_ ?_ nofun nofun ?_ ?_
  · intro i seen different present
    rw [Function.update_of_ne different] at present
    rcases lookup_update present with ⟨_, moved⟩ | ⟨_, present⟩
    · subst moved
      rfl
    · exact sole different present
  · intro i seen present unannounced
    rcases lookup_update present with ⟨_, moved⟩ | ⟨_, present⟩
    · subst moved
      cases unannounced
    · rcases lookup_update present with ⟨_, moved⟩ | ⟨different, present⟩
      · subst moved
        cases unannounced
      · exact (known different present unannounced).elim
  · intro token'' same
    cases same
    exact announced.update there (by simp)
  · exact fun token'' member =>
      ((good.passed token'' member).update found (by simp)).update there (by simp)

theorem Turns.step {before after : Handshake Name Token} (tokens : Tokens before.parties)
    (good : Turns before.flag before.parties before.returned) (taken : Step before after) :
    Turns after.flag after.parties after.returned := by
  cases taken with
  | prepare found phase fresh =>
    exact good.aside found (by simp [phase, Phase.waits]) (by simp [phase]) rfl nofun
  | spawn found phase quiet free =>
    have started := good.start quiet found phase (tokens.notAnnounced found phase)
    refine started.addCallee (Function.update_self ..) rfl ?_
    rw [Function.update_of_ne]
    · exact free
    · intro same
      rw [same, found] at free
      cases free
  | spawnFails found phase quiet => exact good.start quiet found phase (tokens.notAnnounced found phase)
  | @pass name party token found phase flag =>
    have announced := (good.awaiting found phase).mp flag
    refine good.finish found (by simp [phase, Phase.waits]) announced ?_
    intro other callee present unannounced
    obtain ⟨token', own, waits⟩ :=
      good.awaitedBy found (by simp [phase, Phase.waits]) present unannounced
    rw [phase] at waits
    rcases waits with waits | waits <;> cases waits
    obtain ⟨other', callee', present', own', done⟩ := announced
    have same := tokens.own present present' own own'
    subst same
    cases Option.some.inj (present.symm.trans present')
    exact done unannounced
  | block found phase flag => exact good.block found phase flag
  | @leave name party token found phase =>
    refine good.finish found (by simp [phase, Phase.waits]) (good.woken found phase) ?_
    intro other callee present unannounced
    obtain ⟨token', own, waits⟩ :=
      good.awaitedBy found (by simp [phase, Phase.waits]) present unannounced
    rw [phase] at waits
    rcases waits with waits | waits <;> cases waits
  | announce found phase nobody => exact good.announceFlag tokens found phase nobody
  | signal found phase waiting blocked => exact good.announceSignal tokens found phase waiting blocked

end Handshake

end ProcessAsThread.Library
