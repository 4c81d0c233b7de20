import Mathlib.Data.List.Basic
import ProcessAsThread.Globals.Pmparser

/-! `_pmparser_split_line` held to the first characters of its buffer. A text is
scanned inside these exactly if it consists of seven fields that fit their arrays. -/

namespace ProcessAsThread.Mapparser

open Library

def nextFieldWithin (limit : Nat) (buf : Memory) (stop : UInt8 → Bool) (size i : Nat) (field : Memory) :
    Option (Nat × Memory) := do
  let i ← skipBlanks buf (limit - i) i
  copyField buf stop size (limit - i) i 0 field

/-- `splitLine`, with `none` for a read from `buf[limit]` on. -/
def splitWithin (limit : Nat) (buf : Memory) (fields : Fields) : Option Fields := do
  let (i, addr1) ← copyField buf (· == byte '-') 20 limit 0 0 fields.addr1
  let i := i + 1
  let (i, addr2) ← copyField buf isBlank 20 (limit - i) i 0 fields.addr2
  let (i, perm) ← nextFieldWithin limit buf isBlank 8 i fields.perm
  let (i, offset) ← nextFieldWithin limit buf isBlank 20 i fields.offset
  let (i, dev) ← nextFieldWithin limit buf isBlank 10 i fields.dev
  let (i, inode) ← nextFieldWithin limit buf isBlank 30 i fields.inode
  let pathname := Function.update fields.pathname 0 0
  let (_, pathname) ← nextFieldWithin limit buf (fun char => isBlank char || isNewline char) 600 i pathname
  return ⟨addr1, addr2, perm, offset, dev, inode, pathname⟩

theorem splitLine_eq (buf : Memory) (fields : Fields) :
    splitLine buf fields = splitWithin bufSize buf fields := rfl

/-- A field that fits its array with its NUL. -/
structure Field (stop : UInt8 → Bool) (size : Nat) (token : List UInt8) : Prop where
  inside : ∀ char ∈ token, stop char = false
  fits : token.length < size

/-- A field between blanks. -/
structure Word (size : Nat) (token : List UInt8) : Prop extends Field isBlank size token where
  present : token ≠ []

structure Gap (blanks : List UInt8) : Prop where
  blank : ∀ char ∈ blanks, isBlank char = true
  present : blanks ≠ []

def endsName (char : UInt8) : Bool := isBlank char || isNewline char

/-- The part of a text that is scanned, up to the character after the pathname. -/
structure LineParts where
  addr1 : List UInt8
  addr2 : List UInt8
  gap1 : List UInt8
  perm : List UInt8
  gap2 : List UInt8
  offset : List UInt8
  gap3 : List UInt8
  dev : List UInt8
  gap4 : List UInt8
  inode : List UInt8
  gap5 : List UInt8
  pathname : List UInt8
  last : UInt8
  addr1_field : Field (· == byte '-') 20 addr1
  addr2_field : Field isBlank 20 addr2
  gap1_gap : Gap gap1
  perm_word : Word 8 perm
  gap2_gap : Gap gap2
  offset_word : Word 20 offset
  gap3_gap : Gap gap3
  dev_word : Word 10 dev
  gap4_gap : Gap gap4
  inode_word : Word 30 inode
  gap5_gap : Gap gap5
  pathname_field : Field endsName 600 pathname
  pathname_starts : ∀ char ∈ (pathname ++ [last]).head?, isBlank char = false
  ends : endsName last = true

def LineParts.text (parts : LineParts) : List UInt8 :=
  parts.addr1 ++ byte '-' :: (parts.addr2 ++ (parts.gap1 ++ (parts.perm ++ (parts.gap2 ++
    (parts.offset ++ (parts.gap3 ++ (parts.dev ++ (parts.gap4 ++ (parts.inode ++ (parts.gap5 ++
      (parts.pathname ++ [parts.last])))))))))))

/-- The arrays after the scan: each field and its NUL over what was there. -/
def LineParts.fill (parts : LineParts) (fields : Fields) : Fields where
  addr1 := fields.addr1.spell 0 (parts.addr1 ++ [0])
  addr2 := fields.addr2.spell 0 (parts.addr2 ++ [0])
  perm := fields.perm.spell 0 (parts.perm ++ [0])
  offset := fields.offset.spell 0 (parts.offset ++ [0])
  dev := fields.dev.spell 0 (parts.dev ++ [0])
  inode := fields.inode.spell 0 (parts.inode ++ [0])
  pathname := Memory.spell (Function.update fields.pathname 0 0) 0 (parts.pathname ++ [0])

variable {buf field : Memory} {token blanks text rest : List UInt8} {stop : UInt8 → Bool} {last : UInt8}
variable {limit size i place : Nat}

private theorem copyField_field {left : Nat} (spells : buf.Spells i (token ++ last :: rest))
    (inside : ∀ char ∈ token, stop char = false) (stops : stop last = true)
    (fits : place + token.length < size) (room : token.length < left) :
    copyField buf stop size left i place field =
      some (i + token.length, field.spell place (token ++ [0])) := by
  induction token generalizing left i place field with
  | nil =>
    cases left with
    | zero => simp at room
    | succ left =>
      have here : buf i = last := spells.1
      have fits : place < size := by simpa using fits
      simp [copyField, fits, here, stops, Memory.spell]
  | cons char token ih =>
    cases left with
    | zero => simp at room
    | succ left =>
      simp only [List.length_cons] at fits room
      have here : buf i = char := spells.1
      have goes := inside char (List.mem_cons_self ..)
      have others : ∀ char ∈ token, stop char = false :=
        fun char member => inside char (List.mem_cons_of_mem _ member)
      have rest : copyField buf stop size left (i + 1) (place + 1)
          (Function.update field place char) = some (i + 1 + token.length,
            Memory.spell (Function.update field place char) (place + 1) (token ++ [0])) :=
        ih spells.2 others (by omega) (by omega)
      rw [copyField, if_pos (by omega), here, if_neg (by simp [goes]), rest,
        Memory.spell_update (by omega)]
      simp only [List.length_cons, List.cons_append, Memory.spell]
      congr 2
      omega

private theorem skipBlanks_spells {left : Nat} (spells : buf.Spells i (blanks ++ last :: rest))
    (blank : ∀ char ∈ blanks, isBlank char = true) (solid : isBlank last = false)
    (room : blanks.length < left) : skipBlanks buf left i = some (i + blanks.length) := by
  induction blanks generalizing left i with
  | nil =>
    cases left with
    | zero => simp at room
    | succ left =>
      have here : buf i = last := spells.1
      simp [skipBlanks, here, solid]
  | cons char blanks ih =>
    cases left with
    | zero => simp at room
    | succ left =>
      simp only [List.length_cons] at room
      have here : buf i = char := spells.1
      have others : ∀ char ∈ blanks, isBlank char = true :=
        fun char member => blank char (List.mem_cons_of_mem _ member)
      rw [skipBlanks, here, if_pos (blank char (List.mem_cons_self ..)), ih spells.2 others (by omega)]
      simp only [List.length_cons]
      congr 1
      omega

/-- One blank-separated field: the blanks, and the field up to the first character
that stops it. -/
theorem nextFieldWithin_field (field : Memory)
    (spells : buf.Spells i (blanks ++ (token ++ last :: rest)))
    (blank : ∀ char ∈ blanks, isBlank char = true)
    (solid : ∀ char ∈ (token ++ [last]).head?, isBlank char = false)
    (fieldOf : Field stop size token) (stops : stop last = true)
    (room : i + blanks.length + token.length < limit) :
    nextFieldWithin limit buf stop size i field =
      some (i + blanks.length + token.length, field.spell 0 (token ++ [0])) := by
  have skips : skipBlanks buf (limit - i) i = some (i + blanks.length) := by
    cases token with
    | nil => exact skipBlanks_spells spells blank (solid last rfl) (by omega)
    | cons char token =>
      exact skipBlanks_spells spells blank (solid char rfl) (by simp at room; omega)
  simp only [nextFieldWithin, skips, Option.bind_eq_bind, Option.bind_some]
  exact copyField_field (Memory.spells_append.mp spells).2 fieldOf.inside stops
    (by simpa using fieldOf.fits) (by omega)

theorem Gap.cases (gap : Gap blanks) : ∃ first more, blanks = first :: more ∧ isBlank first = true := by
  cases blanks with
  | nil => exact (gap.present rfl).elim
  | cons first more => exact ⟨first, more, rfl, gap.blank first (List.mem_cons_self ..)⟩

/-- A word between two gaps. -/
theorem nextFieldWithin_word {behind : List UInt8} (field : Memory) (word : Word size token)
    (before : Gap blanks) (after : Gap behind)
    (spells : buf.Spells i (blanks ++ (token ++ (behind ++ rest))))
    (room : i + blanks.length + token.length < limit) :
    nextFieldWithin limit buf isBlank size i field =
      some (i + blanks.length + token.length, field.spell 0 (token ++ [0])) := by
  obtain ⟨first, more, same, stops⟩ := after.cases
  have starts : ∀ char ∈ (token ++ [first]).head?, isBlank char = false := by
    cases token with
    | nil => exact (word.present rfl).elim
    | cons char token =>
      intro char' head
      cases head
      exact word.inside char (List.mem_cons_self ..)
  subst same
  exact nextFieldWithin_field field spells before.blank starts word.toField stops room

/-- The scan of a text with such parts reads nothing behind them. -/
theorem LineParts.split (parts : LineParts) (spells : buf.Spells 0 (parts.text ++ rest))
    (room : parts.text.length ≤ limit) (fields : Fields) :
    splitWithin limit buf fields = some (parts.fill fields) := by
  simp only [LineParts.text, List.length_append, List.length_cons, List.length_nil] at room
  simp only [LineParts.text, List.append_assoc, List.cons_append, List.nil_append] at spells
  obtain ⟨first, more, gap1, stops⟩ := parts.gap1_gap.cases
  have atAddr2 := (Memory.spells_append.mp spells).2.2
  have atPerm := (Memory.spells_append.mp atAddr2).2
  have atOffset := (Memory.spells_append.mp (Memory.spells_append.mp atPerm).2).2
  have atDev := (Memory.spells_append.mp (Memory.spells_append.mp atOffset).2).2
  have atInode := (Memory.spells_append.mp (Memory.spells_append.mp atDev).2).2
  have atName := (Memory.spells_append.mp (Memory.spells_append.mp atInode).2).2
  have addr1 : copyField buf (· == byte '-') 20 limit 0 0 fields.addr1 = _ :=
    copyField_field spells parts.addr1_field.inside (by decide)
      (by simpa using parts.addr1_field.fits) (by omega)
  have addr2 : copyField buf isBlank 20 (limit - (0 + parts.addr1.length + 1))
      (0 + parts.addr1.length + 1) 0 fields.addr2 = _ :=
    copyField_field (by rw [gap1] at atAddr2; exact atAddr2) parts.addr2_field.inside stops
      (by simpa using parts.addr2_field.fits) (by omega)
  have perm : nextFieldWithin limit buf isBlank 8 _ fields.perm = _ :=
    nextFieldWithin_word _ parts.perm_word parts.gap1_gap parts.gap2_gap atPerm (by omega)
  have offset : nextFieldWithin limit buf isBlank 20 _ fields.offset = _ :=
    nextFieldWithin_word _ parts.offset_word parts.gap2_gap parts.gap3_gap atOffset (by omega)
  have dev : nextFieldWithin limit buf isBlank 10 _ fields.dev = _ :=
    nextFieldWithin_word _ parts.dev_word parts.gap3_gap parts.gap4_gap atDev (by omega)
  have inode : nextFieldWithin limit buf isBlank 30 _ fields.inode = _ :=
    nextFieldWithin_word _ parts.inode_word parts.gap4_gap parts.gap5_gap atInode (by omega)
  have pathname : nextFieldWithin limit buf (fun char => isBlank char || isNewline char) 600 _
      (Function.update fields.pathname 0 0) = _ :=
    nextFieldWithin_field _ atName parts.gap5_gap.blank parts.pathname_starts parts.pathname_field
      parts.ends (by omega)
  simp only [splitWithin, addr1, addr2, perm, offset, dev, inode, pathname, Option.bind_eq_bind,
    Option.bind_some, Option.pure_def, LineParts.fill]

/-! What a scan that stays inside says of the text. -/

private theorem copyField_cuts {left i' : Nat} {field' : Memory} (spells : buf.Spells i (text ++ [0]))
    (inside : left ≤ text.length + 1) (goesOn : stop 0 = false)
    (success : copyField buf stop size left i place field = some (i', field')) :
    ∃ token last rest, text = token ++ last :: rest ∧ (∀ char ∈ token, stop char = false) ∧
      stop last = true ∧ place + token.length < size ∧ i' = i + token.length := by
  induction text generalizing left i place field with
  | nil =>
    have nul : buf i = 0 := spells.1
    match left with
    | 0 => cases success
    | 1 => simp [copyField, nul, goesOn] at success
    | _ + 2 => simp at inside
  | cons char text ih =>
    cases left with
    | zero => cases success
    | succ left =>
      have here : buf i = char := spells.1
      rw [copyField, here] at success
      split at success
      · rename_i room
        split at success
        · rename_i stops
          cases success
          exact ⟨[], char, text, rfl, by simp, stops, by simpa using room, rfl⟩
        · rename_i goes
          obtain ⟨token, last, rest, same, others, stops, fits, reached⟩ :=
            ih spells.2 (by simpa using inside) success
          subst same reached
          refine ⟨char :: token, last, rest, rfl, ?_, stops, ?_, ?_⟩
          · exact List.forall_mem_cons.mpr ⟨by simpa using goes, others⟩
          · simp only [List.length_cons]
            omega
          · simp only [List.length_cons]
            omega
      · cases success

private theorem skipBlanks_cuts {left i' : Nat} (spells : buf.Spells i (text ++ [0]))
    (inside : left ≤ text.length + 1) (success : skipBlanks buf left i = some i') :
    ∃ blanks rest, text = blanks ++ rest ∧ (∀ char ∈ blanks, isBlank char = true) ∧
      (∀ char ∈ rest.head?, isBlank char = false) ∧ i' = i + blanks.length := by
  induction text generalizing left i with
  | nil =>
    have nul : buf i = 0 := spells.1
    have solid : isBlank 0 = false := by decide
    match left with
    | 0 => cases success
    | 1 =>
      simp only [skipBlanks, nul, solid, Bool.false_eq_true, if_false] at success
      cases success
      exact ⟨[], [], rfl, by simp, by simp, rfl⟩
    | _ + 2 => simp at inside
  | cons char text ih =>
    cases left with
    | zero => cases success
    | succ left =>
      have here : buf i = char := spells.1
      rw [skipBlanks, here] at success
      split at success
      · rename_i blank
        obtain ⟨blanks, rest, same, others, solid, reached⟩ :=
          ih spells.2 (by simpa using inside) success
        subst same reached
        refine ⟨char :: blanks, rest, rfl, List.forall_mem_cons.mpr ⟨blank, others⟩, solid, ?_⟩
        simp only [List.length_cons]
        omega
      · rename_i solid
        cases success
        exact ⟨[], char :: text, rfl, by simp, by simpa using solid, rfl⟩

/-- What is left of the buffer from a place on, up to its NUL. -/
structure Ahead (buf : Memory) (limit i : Nat) (text : List UInt8) : Prop where
  spells : buf.Spells i (text ++ [0])
  reach : limit = i + text.length + 1

theorem Ahead.drop (ahead : Ahead buf limit i (token ++ text)) : Ahead buf limit (i + token.length) text := by
  have spells := ahead.spells
  have reach := ahead.reach
  rw [List.append_assoc] at spells
  rw [List.length_append] at reach
  exact ⟨(Memory.spells_append.mp spells).2, by omega⟩

/-- A field that is found behind a blank: a gap, and the field with the character
that stops it. -/
theorem nextFieldWithin_cuts {i' : Nat} {field' : Memory} {blank : UInt8}
    (ahead : Ahead buf limit i (blank :: text)) (starts : isBlank blank = true) (goesOn : stop 0 = false)
    (success : nextFieldWithin limit buf stop size i field = some (i', field')) :
    ∃ gap token last rest, blank :: text = gap ++ (token ++ last :: rest) ∧ Gap gap ∧
      Field stop size token ∧ stop last = true ∧
      (∀ char ∈ (token ++ [last]).head?, isBlank char = false) ∧ Ahead buf limit i' (last :: rest) := by
  obtain ⟨i₀, skips, copies⟩ := Option.bind_eq_some_iff.mp success
  have reach := ahead.reach
  obtain ⟨gap, after, same, blanks, solid, reached⟩ := skipBlanks_cuts ahead.spells (by omega) skips
  subst reached
  rw [same] at ahead
  have present : gap ≠ [] := by
    intro none
    subst none
    have first := solid blank (by rw [← show blank :: text = after from same]; rfl)
    rw [starts] at first
    cases first
  have behind := ahead.drop
  have reach := behind.reach
  obtain ⟨token, last, rest, same', inside, stops, fits, reached⟩ :=
    copyField_cuts behind.spells (by omega) goesOn copies
  subst same' reached
  refine ⟨gap, token, last, rest, same, ⟨blanks, present⟩, ⟨inside, by simpa using fits⟩, stops, ?_,
    behind.drop⟩
  cases token <;> exact solid

theorem nextFieldWithin_cutsWord {i' : Nat} {field' : Memory} {blank : UInt8}
    (ahead : Ahead buf limit i (blank :: text)) (starts : isBlank blank = true)
    (success : nextFieldWithin limit buf isBlank size i field = some (i', field')) :
    ∃ gap token last rest, blank :: text = gap ++ (token ++ last :: rest) ∧ Gap gap ∧
      Word size token ∧ isBlank last = true ∧ Ahead buf limit i' (last :: rest) := by
  obtain ⟨gap, token, last, rest, same, isGap, isField, stops, solid, behind⟩ :=
    nextFieldWithin_cuts ahead starts (by decide) success
  refine ⟨gap, token, last, rest, same, isGap, ⟨isField, ?_⟩, stops, behind⟩
  intro none
  subst none
  have first := solid last rfl
  rw [stops] at first
  cases first

theorem exists_parts {fields after : Fields} (ahead : Ahead buf limit 0 text)
    (success : splitWithin limit buf fields = some after) :
    ∃ (parts : LineParts) (rest : List UInt8), text = parts.text ++ rest := by
  obtain ⟨⟨i₁, _⟩, addr1, success⟩ := Option.bind_eq_some_iff.mp success
  obtain ⟨⟨i₂, _⟩, addr2, success⟩ := Option.bind_eq_some_iff.mp success
  obtain ⟨⟨i₃, _⟩, perm, success⟩ := Option.bind_eq_some_iff.mp success
  obtain ⟨⟨i₄, _⟩, offset, success⟩ := Option.bind_eq_some_iff.mp success
  obtain ⟨⟨i₅, _⟩, dev, success⟩ := Option.bind_eq_some_iff.mp success
  obtain ⟨⟨i₆, _⟩, inode, success⟩ := Option.bind_eq_some_iff.mp success
  obtain ⟨⟨_, _⟩, pathname, _⟩ := Option.bind_eq_some_iff.mp success
  have reach := ahead.reach
  obtain ⟨addr1', dash, text₁, same, inside1, isDash, fits1, reached⟩ :=
    copyField_cuts ahead.spells (by omega) (by decide) addr1
  subst same reached
  cases (beq_iff_eq.mp isDash)
  have ahead₁ : Ahead buf limit (0 + addr1'.length + 1) text₁ :=
    Ahead.drop (show Ahead buf limit _ ([byte '-'] ++ text₁) from ahead.drop)
  have reach₁ := ahead₁.reach
  obtain ⟨addr2', blank, text₂, same, inside2, stops, fits2, reached⟩ :=
    copyField_cuts ahead₁.spells (by omega) (by decide) addr2
  subst same reached
  obtain ⟨gap1, perm', last, text₃, same₁, gap1_gap, perm_word, stops, ahead₃⟩ :=
    nextFieldWithin_cutsWord ahead₁.drop stops perm
  obtain ⟨gap2, offset', last, text₄, same₂, gap2_gap, offset_word, stops, ahead₄⟩ :=
    nextFieldWithin_cutsWord ahead₃ stops offset
  obtain ⟨gap3, dev', last, text₅, same₃, gap3_gap, dev_word, stops, ahead₅⟩ :=
    nextFieldWithin_cutsWord ahead₄ stops dev
  obtain ⟨gap4, inode', last, text₆, same₄, gap4_gap, inode_word, stops, ahead₆⟩ :=
    nextFieldWithin_cutsWord ahead₅ stops inode
  obtain ⟨gap5, pathname', last, rest, same₅, gap5_gap, pathname_field, ends, starts, _⟩ :=
    nextFieldWithin_cuts ahead₆ stops (by decide) pathname
  let parts : LineParts := {
    addr1 := addr1'
    addr2 := addr2'
    gap1 := gap1
    perm := perm'
    gap2 := gap2
    offset := offset'
    gap3 := gap3
    dev := dev'
    gap4 := gap4
    inode := inode'
    gap5 := gap5
    pathname := pathname'
    last := last
    addr1_field := ⟨inside1, by simpa using fits1⟩
    addr2_field := ⟨inside2, by simpa using fits2⟩
    gap1_gap, perm_word, gap2_gap, offset_word, gap3_gap, dev_word, gap4_gap, inode_word, gap5_gap
    pathname_field
    pathname_starts := starts
    ends }
  refine ⟨parts, rest, ?_⟩
  rw [same₁, same₂, same₃, same₄, same₅]
  simp [LineParts.text, parts]

/-- The scan stays inside a text exactly if the text begins with seven such parts. -/
theorem splitWithin_isSome_iff (ahead : Ahead buf limit 0 text) (fields : Fields) :
    (splitWithin limit buf fields).isSome = true ↔
      ∃ (parts : LineParts) (rest : List UInt8), text = parts.text ++ rest := by
  constructor
  · intro some
    obtain ⟨after, success⟩ := Option.isSome_iff_exists.mp some
    exact exists_parts ahead success
  · intro ⟨parts, rest, same⟩
    have spells := ahead.spells
    have reach := ahead.reach
    rw [same, List.append_assoc] at spells
    rw [same, List.length_append] at reach
    rw [parts.split spells (by omega)]
    rfl

/-! A longer buffer changes nothing. -/

private theorem copyField_mono {left more : Nat} (longer : left ≤ more)
    (success : copyField buf stop size left i place field = some found) :
    copyField buf stop size more i place field = some found := by
  induction left generalizing more i place field with
  | zero => cases success
  | succ left ih =>
    obtain ⟨more, rfl⟩ : ∃ less, more = less + 1 := ⟨more - 1, by omega⟩
    rw [copyField] at success ⊢
    split at success
    · rename_i room
      rw [if_pos room]
      split at success
      · rename_i stops
        rw [if_pos stops]
        exact success
      · rename_i goes
        rw [if_neg goes]
        exact ih (by omega) success
    · cases success

private theorem skipBlanks_mono {left more : Nat} (longer : left ≤ more)
    (success : skipBlanks buf left i = some found) : skipBlanks buf more i = some found := by
  induction left generalizing more i with
  | zero => cases success
  | succ left ih =>
    obtain ⟨more, rfl⟩ : ∃ less, more = less + 1 := ⟨more - 1, by omega⟩
    rw [skipBlanks] at success ⊢
    split at success
    · rename_i blank
      rw [if_pos blank]
      exact ih (by omega) success
    · rename_i solid
      rw [if_neg solid]
      exact success

theorem nextFieldWithin_mono {more : Nat} (longer : limit ≤ more)
    (success : nextFieldWithin limit buf stop size i field = some found) :
    nextFieldWithin more buf stop size i field = some found := by
  obtain ⟨after, skips, copies⟩ := Option.bind_eq_some_iff.mp success
  exact Option.bind_eq_some_iff.mpr ⟨after, skipBlanks_mono (by omega) skips,
    copyField_mono (by omega) copies⟩

theorem splitWithin_mono {more : Nat} {fields after : Fields} (longer : limit ≤ more)
    (success : splitWithin limit buf fields = some after) : splitWithin more buf fields = some after := by
  obtain ⟨⟨i₁, _⟩, addr1, success⟩ := Option.bind_eq_some_iff.mp success
  obtain ⟨⟨i₂, _⟩, addr2, success⟩ := Option.bind_eq_some_iff.mp success
  obtain ⟨⟨i₃, _⟩, perm, success⟩ := Option.bind_eq_some_iff.mp success
  obtain ⟨⟨i₄, _⟩, offset, success⟩ := Option.bind_eq_some_iff.mp success
  obtain ⟨⟨i₅, _⟩, dev, success⟩ := Option.bind_eq_some_iff.mp success
  obtain ⟨⟨i₆, _⟩, inode, success⟩ := Option.bind_eq_some_iff.mp success
  obtain ⟨⟨_, _⟩, pathname, result⟩ := Option.bind_eq_some_iff.mp success
  simp only [splitWithin, copyField_mono longer addr1, copyField_mono (Nat.sub_le_sub_right longer _) addr2,
    nextFieldWithin_mono longer perm, nextFieldWithin_mono longer offset, nextFieldWithin_mono longer dev,
    nextFieldWithin_mono longer inode, nextFieldWithin_mono longer pathname, Option.bind_eq_bind,
    Option.bind_some]
  exact result

end ProcessAsThread.Mapparser
