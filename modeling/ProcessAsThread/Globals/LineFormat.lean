import ProcessAsThread.Globals.Maps

/-! What `_pmparser_split_line` and the filter behind it make of any line of the
maps format, also of one whose permissions the kernel would not write. -/

namespace ProcessAsThread.Mapparser

open Library

def firstToken (text : List UInt8) : List UInt8 :=
  (text.dropWhile isBlank).takeWhile fun char => !isBlank char

/-- What the filter is to keep: the letters are r, w, not x and p, and the name of
the line is not [stack]. -/
def MapsLine.passes (line : MapsLine) : Bool :=
  line.perm[0]? == some (byte 'r') && line.perm[1]? == some (byte 'w') &&
    line.perm[2]? != some (byte 'x') && line.perm[3]? == some (byte 'p') &&
      firstToken (line.padding ++ line.pathname) != stack

/-- The scan of the line reads nothing behind it and leaves its tokens in the arrays. -/
structure Inverted (line : MapsLine) (buf : Memory) (fields after : Fields) : Prop where
  inside : splitWithin line.text.length buf fields = some after
  called : line.text.length ≤ bufSize → splitLine buf fields = some after
  addr1 : after.addr1.Spells 0 (line.addr1 ++ [0])
  addr2 : after.addr2.Spells 0 (line.addr2 ++ [0])
  perm : after.perm.Spells 0 (line.perm ++ [0])
  offset : after.offset.Spells 0 (line.offset ++ [0])
  dev : after.dev.Spells 0 (line.dev ++ [0])
  inode : after.inode.Spells 0 (line.inode ++ [0])
  pathname : after.pathname.Spells 0 (firstToken (line.padding ++ line.pathname) ++ [0])

private theorem MapsLine.firstToken_eq (line : MapsLine) :
    firstToken (line.padding ++ line.pathname) = line.name := by
  have starts : line.pathname.dropWhile isBlank = line.pathname := by
    cases path : line.pathname with
    | nil => rfl
    | cons first rest =>
      have solid := line.pathname_starts first (by rw [path]; rfl)
      simp [solid]
  rw [firstToken, List.dropWhile_append_of_pos line.padding_blank, starts]
  rfl

theorem MapsLine.inverted (line : MapsLine) {buf : Memory} (spells : buf.Spells 0 line.text)
    (fits : line.name.length < 600) (fields : Fields) : Inverted line buf fields (line.fill fields) := by
  have inside := splitWithin_line spells (Nat.le_refl _) fits fields
  constructor
  case inside => exact inside
  case called => exact fun room => splitWithin_mono room inside
  case pathname =>
    rw [line.firstToken_eq]
    exact Memory.spells_spell
  all_goals exact Memory.spells_spell

private theorem MapsLine.fill_perm (line : MapsLine) (fields : Fields) (place : Nat) :
    (line.fill fields).perm place = (line.perm ++ [0])[place]?.getD (fields.perm place) := by
  have written : fields.perm.spell 0 (line.perm ++ [0]) (0 + place) = _ := Memory.spell_apply place
  rw [Nat.zero_add] at written
  exact written

/-- The filter decides on the letters of the line, except that behind `rw` it looks
at what an earlier line has left. -/
theorem MapsLine.filter_iff (line : MapsLine) (fits : line.name.length < 600) (fields : Fields) :
    skipped (line.fill fields) = !line.passes ↔
      ¬ (line.perm = chars "rw" ∧ fields.perm 3 = byte 'p' ∧ line.name ≠ stack) := by
  have name : (line.fill fields).pathname.cString 600 0 = line.name :=
    cString_spell line.name_noNul fits
  have present := line.perm_token.present
  simp only [skipped, line.fill_perm, name, MapsLine.passes, line.firstToken_eq]
  generalize line.perm = perm at present ⊢
  rcases perm with _ | ⟨first, _ | ⟨second, _ | ⟨third, _ | ⟨fourth, rest⟩⟩⟩⟩
  · exact (present rfl).elim
  · have short : [first] ≠ chars "rw" := by intro same; cases same
    have noWrite : (0 != byte 'w') = true := by decide
    simp [short, noWrite]
  · have both : [first, second] = chars "rw" ↔ first = byte 'r' ∧ second = byte 'w' := by
      simp [chars]
    have noExecute : (0 == byte 'x') = false := by decide
    rw [both]
    simp only [List.cons_append, List.nil_append, List.getElem?_cons_zero, List.getElem?_cons_succ,
      List.getElem?_nil, Option.getD_some, Option.getD_none, noExecute]
    grind
  · have long : [first, second, third] ≠ chars "rw" := by intro same; cases same
    have notPrivate : (0 != byte 'p') = true := by decide
    simp [long, notPrivate]
  · have long : first :: second :: third :: fourth :: rest ≠ chars "rw" := by intro same; cases same
    simp [long, bne]

/-- A line of the format is read to its newline at most, its tokens are in the
arrays, and the filter is right about it except behind `rw`. -/
theorem splitLine_inverts {line : MapsLine} {buf : Memory} (spells : buf.Spells 0 line.text)
    (fits : (firstToken (line.padding ++ line.pathname)).length < 600) (fields : Fields) :
    ∃ after, Inverted line buf fields after ∧ (skipped after = !line.passes ↔
      ¬ (line.perm = chars "rw" ∧ fields.perm 3 = byte 'p' ∧
        firstToken (line.padding ++ line.pathname) ≠ stack)) := by
  rw [line.firstToken_eq] at fits ⊢
  exact ⟨line.fill fields, line.inverted spells fits fields, line.filter_iff fits fields⟩

/-- The line of the heap, after one with other permissions. -/
theorem splitLine_inverts_heap : ∃ after,
    Inverted heapLine.toMapsLine (zeros.spell 0 heapLine.text) zeroFields after ∧
      skipped after = !heapLine.passes := by
  have spells : (zeros.spell 0 heapLine.text).Spells 0 heapLine.text := Memory.spells_spell
  obtain ⟨after, inverted, filter⟩ := splitLine_inverts spells (by decide) zeroFields
  exact ⟨after, inverted, filter.mpr fun same => absurd same.1 (by decide)⟩

def twoLetters : MapsLine :=
  { heapLine.toMapsLine with
    perm := chars "rw"
    perm_token := by decide }

def heapFields : Fields := heapLine.fill zeroFields

/-- Behind a line that passes the filter, two letters pass it as well. -/
theorem filter_stale : ¬ ∀ (line : MapsLine) (buf : Memory) (fields : Fields),
    buf.Spells 0 line.text → (firstToken (line.padding ++ line.pathname)).length < 600 →
      ∃ after, Inverted line buf fields after ∧ skipped after = !line.passes := by
  intro always
  have spells : (zeros.spell 0 twoLetters.text).Spells 0 twoLetters.text := Memory.spells_spell
  have fits : twoLetters.name.length < 600 := by decide
  obtain ⟨after, inverted, right⟩ := always twoLetters _ heapFields spells (by decide)
  have filled := splitWithin_line spells (Nat.le_refl _) fits heapFields
  cases Option.some.inj (inverted.inside.symm.trans filled)
  refine (twoLetters.filter_iff fits heapFields).mp right ⟨rfl, ?_, by decide⟩
  rw [heapFields, heapLine.fill_perm]
  decide

end ProcessAsThread.Mapparser
