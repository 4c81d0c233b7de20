import ProcessAsThread.Globals.Maps

/-! How far `_pmparser_split_line` reads in the buffers `pmparser_parse` hands it.
A buffer holds one character, the text `fgets` has read behind it, and a NUL. -/

namespace ProcessAsThread.Mapparser

open Library

/-- A call of `_pmparser_split_line`. The NUL that `fgets` has stored is the last
character before `limit`. -/
structure SplitCall where
  buf : Memory
  limit : Nat
  fields : Fields

/-- The scan reads nothing behind the NUL and writes nothing outside the arrays. -/
def SplitCall.Inside (call : SplitCall) : Prop :=
  (splitWithin call.limit call.buf call.fields).isSome = true

/-- The calls the loop of `pmparser_parse` makes. When `fgets` reads nothing, the
text it has read before is still there; before its first call nothing is. -/
def splitCalls : Nat → List UInt8 → Memory → Nat → Fields → List SplitCall
  | _, [], _, _, _ => []
  | 0, _ :: _, _, _, _ => []
  | turns + 1, char :: file, buf, limit, fields =>
    if char = 255 then []
    else
      let (text, file) := fgets 258 file
      let limit := if text.isEmpty then limit else text.length + 2
      let buf := if text.isEmpty then buf else buf.spell 1 (text ++ [0])
      let buf := Function.update buf 0 char
      ⟨buf, limit, fields⟩ :: match splitLine buf fields with
        | none => []
        | some fields => splitCalls turns file buf limit fields

/-- The texts in these buffers, read off the stream. -/
def bufferTexts : Nat → List UInt8 → List UInt8 → List (List UInt8)
  | _, [], _ => []
  | 0, _ :: _, _ => []
  | turns + 1, char :: file, tail =>
    if char = 255 then []
    else
      let (text, file) := fgets 258 file
      let tail := if text.isEmpty then tail else text
      (char :: tail) :: bufferTexts turns file tail

/-- The text begins with seven fields that fit their arrays: the first one up to a
dash, the others up to a blank, the last one up to a blank or a newline. -/
def Splits (text : List UInt8) : Prop := ∃ (parts : LineParts) (rest : List UInt8), text = parts.text ++ rest

/-- What is behind the first character of the buffer. -/
inductive Holds (buf : Memory) : Nat → List UInt8 → Prop where
  | nothing : Holds buf 1 []
  | text (spells : buf.Spells 1 (tail ++ [0])) (short : tail.length ≤ 258) : Holds buf (tail.length + 2) tail

theorem fgets_length (size : Nat) (file : List UInt8) : (fgets size file).1.length ≤ size := by
  induction size generalizing file with
  | zero => exact Nat.le_refl _
  | succ size ih =>
    cases file with
    | nil => exact Nat.zero_le _
    | cons char file =>
      rw [fgets]
      split
      · exact Nat.le_add_left ..
      · exact Nat.succ_le_succ (ih file)

variable {buf : Memory} {limit : Nat} {tail : List UInt8}

theorem Holds.first (holds : Holds buf limit tail) (char : UInt8) :
    Holds (Function.update buf 0 char) limit tail := by
  cases holds with
  | nothing => exact .nothing
  | text spells short =>
    exact .text (spells.congr fun place low _ => Function.update_of_ne (by omega) ..) short

private theorem inside_iff (holds : Holds buf limit tail) (fields : Fields) :
    SplitCall.Inside ⟨buf, limit, fields⟩ ↔ Splits (buf 0 :: tail) := by
  cases holds with
  | text spells short =>
    have ahead : Ahead buf (tail.length + 2) 0 (buf 0 :: tail) := ⟨⟨rfl, spells⟩, by simp⟩
    exact splitWithin_isSome_iff ahead fields
  | nothing =>
    constructor
    · intro inside
      obtain ⟨after, success⟩ := Option.isSome_iff_exists.mp inside
      obtain ⟨⟨i, _⟩, addr1, success⟩ := Option.bind_eq_some_iff.mp success
      obtain ⟨_, addr2, _⟩ := Option.bind_eq_some_iff.mp success
      have nothing : 1 - (i + 1) = 0 := by omega
      simp only [nothing] at addr2
      cases addr2
    · intro ⟨parts, rest, same⟩
      have length := congrArg List.length same
      simp only [LineParts.text, List.length_append, List.length_cons, List.length_nil] at length
      omega

theorem Holds.read (holds : Holds buf limit tail) (file : List UInt8) :
    let text := (fgets 258 file).1
    Holds (if text.isEmpty then buf else buf.spell 1 (text ++ [0]))
      (if text.isEmpty then limit else text.length + 2) (if text.isEmpty then tail else text) := by
  intro text
  cases empty : text.isEmpty with
  | true => exact holds
  | false => exact .text Memory.spells_spell (fgets_length 258 file)

private theorem Holds.inBuf (holds : Holds buf limit tail) : limit ≤ bufSize := by
  have room : 260 ≤ bufSize := by decide
  cases holds with
  | nothing => omega
  | text spells short => omega

private theorem splitCalls_inside_iff {turns : Nat} {file : List UInt8} (holds : Holds buf limit tail)
    (fields : Fields) : (∀ call ∈ splitCalls turns file buf limit fields, call.Inside) ↔
      ∀ text ∈ bufferTexts turns file tail, Splits text := by
  induction turns generalizing file buf limit tail fields with
  | zero => cases file <;> simp [splitCalls, bufferTexts]
  | succ turns ih =>
    cases file with
    | nil => simp [splitCalls, bufferTexts]
    | cons char file =>
      rw [splitCalls, bufferTexts]
      split
      · simp
      · have read := (holds.read file).first char
        simp only [List.forall_mem_cons]
        generalize (if (fgets 258 file).1.isEmpty then limit else (fgets 258 file).1.length + 2) = limit at read ⊢
        generalize (if (fgets 258 file).1.isEmpty then tail else (fgets 258 file).1) = tail at read ⊢
        generalize (if (fgets 258 file).1.isEmpty then buf else buf.spell 1 ((fgets 258 file).1 ++ [0])) = text
          at read ⊢
        have first := inside_iff read fields
        rw [Function.update_self] at first
        refine Iff.trans (and_congr_right fun inside => ?_) (and_congr_left fun _ => first)
        obtain ⟨after, success⟩ := Option.isSome_iff_exists.mp inside
        rw [splitLine_eq, splitWithin_mono read.inBuf success]
        exact ih read after

/-- These are the calls of the parser: it comes to its end only through them. -/
theorem splitCalls_return {turns : Nat} {file : List UInt8} {fields : Fields} {ind : Nat}
    {map : Nat → Procmaps} (limit : Nat) (parsed : parseLoop turns file buf fields ind map = some result) :
    ∀ call ∈ splitCalls turns file buf limit fields, (splitLine call.buf call.fields).isSome = true := by
  induction turns generalizing file buf fields ind map limit with
  | zero => cases file <;> simp [splitCalls]
  | succ turns ih =>
    cases file with
    | nil => simp [splitCalls]
    | cons char file =>
      rw [parseLoop] at parsed
      rw [splitCalls]
      split at parsed
      · rename_i eof
        simp [eof]
      · rename_i more
        obtain ⟨after, splits, rest⟩ := Option.bind_eq_some_iff.mp parsed
        simp only [if_neg more, splits, List.forall_mem_cons, Option.isSome_some, true_and]
        split at rest
        · exact ih _ rest
        · split at rest
          · obtain ⟨entry, _, rest⟩ := Option.bind_eq_some_iff.mp rest
            exact ih _ rest
          · cases rest

/-- For every stream: the scans all stay inside exactly if every buffer text splits. -/
theorem scans_inside_iff (stream : List UInt8) (buf : Memory) (fields : Fields) :
    (∀ call ∈ splitCalls stream.length stream buf 1 fields, call.Inside) ↔
      ∀ text ∈ bufferTexts stream.length stream [], Splits text :=
  splitCalls_inside_iff .nothing fields

def KernelLine.withPathname (line : KernelLine) (pathname : List UInt8)
    (starts : ∀ char ∈ pathname.head?, isBlank char = false)
    (plain : ∀ char ∈ pathname, isNewline char = false ∧ char ≠ 0) : KernelLine :=
  { line with
    pathname := pathname
    pathname_starts := starts
    pathname_plain := plain }

private theorem replicate_plain (length : Nat) :
    ∀ char ∈ List.replicate length (byte 'a'), isBlank char = false ∧ isNewline char = false ∧ char ≠ 0 := by
  intro char member
  rw [List.eq_of_mem_replicate member]
  decide

def longLine : KernelLine :=
  heapLine.withPathname (List.replicate 300 (byte 'a'))
    (fun char first => (replicate_plain 300 char (List.mem_of_mem_head? first)).1)
    (fun char member => (replicate_plain 300 char member).2)

/-- The first part of the line has no end in its buffer. -/
theorem scan_leaves : ¬ ∀ (stream : List UInt8) (buf : Memory) (fields : Fields),
    ∀ call ∈ splitCalls stream.length stream buf 1 fields, call.Inside := by
  have outside : ((splitCalls (contents [longLine]).length (contents [longLine]) zeros 1 zeroFields).head?.map
      fun call => (splitWithin call.limit call.buf call.fields).isSome) = some false := by
    decide +kernel
  intro always
  obtain ⟨call, first, leaves⟩ := Option.map_eq_some_iff.mp outside
  have inside := always (contents [longLine]) zeros zeroFields call (List.mem_of_mem_head? first)
  rw [SplitCall.Inside, leaves] at inside
  cases inside

end ProcessAsThread.Mapparser
