import Mathlib.Data.List.Basic
import Mathlib.Data.List.TakeWhile
import ProcessAsThread.Globals.Scan

/-! The lines of /proc/self/maps as the kernel writes them, and what the parser
makes of them. -/

namespace ProcessAsThread.Mapparser

open Library

-- `decide` is to go through what a bounded quantifier ranges over, not through all bytes
local instance (priority := 1100) decidableForallList {Item : Type} {check : Item → Prop}
    [DecidablePred check] (items : List Item) : Decidable (∀ item ∈ items, check item) :=
  List.decidableBAll check items

local instance (priority := 1100) decidableForallOption {Item : Type} {check : Item → Prop}
    [DecidablePred check] (item? : Option Item) : Decidable (∀ item ∈ item?, check item) :=
  Option.decidableForallMem item?

/-- A token that fits an array with its NUL. -/
structure Token (size : Nat) (text : List UInt8) : Prop where
  present : text ≠ []
  fits : text.length < size
  solid : ∀ char ∈ text, isBlank char = false
  noNul : ∀ char ∈ text, char ≠ 0

instance (size : Nat) (text : List UInt8) : Decidable (Token size text) :=
  decidable_of_iff (text ≠ [] ∧ text.length < size ∧ (∀ char ∈ text, isBlank char = false) ∧
      ∀ char ∈ text, char ≠ 0)
    ⟨fun ⟨present, fits, solid, noNul⟩ => ⟨present, fits, solid, noNul⟩,
      fun token => ⟨token.present, token.fits, token.solid, token.noNul⟩⟩

/-- Six tokens, blanks, and a pathname that may be missing. -/
structure MapsLine where
  addr1 : List UInt8
  addr2 : List UInt8
  perm : List UInt8
  offset : List UInt8
  dev : List UInt8
  inode : List UInt8
  padding : List UInt8
  pathname : List UInt8
  addr1_token : Token 20 addr1
  addr1_dash : ∀ char ∈ addr1, char ≠ byte '-'
  addr2_token : Token 20 addr2
  perm_token : Token 8 perm
  offset_token : Token 20 offset
  dev_token : Token 10 dev
  inode_token : Token 30 inode
  padding_blank : ∀ char ∈ padding, isBlank char = true
  pathname_starts : ∀ char ∈ pathname.head?, isBlank char = false
  pathname_plain : ∀ char ∈ pathname, isNewline char = false ∧ char ≠ 0

def space : UInt8 := byte ' '

def newline : UInt8 := byte '\n'

def MapsLine.body (line : MapsLine) : List UInt8 :=
  line.addr1 ++ byte '-' :: line.addr2 ++ space :: line.perm ++ space :: line.offset ++
    space :: line.dev ++ space :: line.inode ++ space :: line.padding ++ line.pathname

def MapsLine.text (line : MapsLine) : List UInt8 := line.body ++ [newline]

/-- The part of the pathname up to its first blank. -/
def MapsLine.name (line : MapsLine) : List UInt8 := line.pathname.takeWhile fun char => !isBlank char

variable {buf : Memory} {limit : Nat}

private theorem MapsLine.name_prefix (line : MapsLine) :
    ∃ last rest, line.pathname ++ [newline] = line.name ++ last :: rest ∧
      (isBlank last || isNewline last) = true ∧
      (∀ char ∈ line.name, (isBlank char || isNewline char) = false ∧ char ≠ 0) ∧
      ∀ char ∈ (line.name ++ [last]).head?, isBlank char = false := by
  have plain : ∀ char ∈ line.name, (isBlank char || isNewline char) = false ∧ char ≠ 0 := by
    intro char member
    have solid : isBlank char = false := by simpa using List.mem_takeWhile_imp member
    obtain ⟨noNewline, noNul⟩ := line.pathname_plain char (List.takeWhile_subset _ member)
    exact ⟨by simp [solid, noNewline], noNul⟩
  have whole : line.name ++ line.pathname.dropWhile (fun char => !isBlank char) = line.pathname :=
    List.takeWhile_append_dropWhile
  cases rest : line.pathname.dropWhile (fun char => !isBlank char) with
  | nil =>
    rw [rest, List.append_nil] at whole
    refine ⟨newline, [], by rw [whole], by decide, plain, ?_⟩
    rw [whole]
    intro char first
    cases path : line.pathname with
    | nil =>
      rw [path] at first
      cases first
      decide
    | cons head tail =>
      rw [path] at first
      exact line.pathname_starts char (by rw [path]; exact first)
  | cons last rest' =>
    rw [rest] at whole
    have blank : isBlank last = true := by
      have stopped := List.head_dropWhile_not (fun char => !isBlank char) (by rw [rest]; simp)
      simpa [rest] using stopped
    refine ⟨last, rest' ++ [newline], by rw [← whole]; simp, by simp [blank], plain, ?_⟩
    intro char first
    refine line.pathname_starts char ?_
    rw [← whole]
    cases name : line.name with
    | nil => rw [name] at first; exact first
    | cons head tail => rw [name] at first; exact first

/-- The arrays after a scan of the line: the tokens, and the pathname up to its
first blank. -/
def MapsLine.fill (line : MapsLine) (fields : Fields) : Fields where
  addr1 := fields.addr1.spell 0 (line.addr1 ++ [0])
  addr2 := fields.addr2.spell 0 (line.addr2 ++ [0])
  perm := fields.perm.spell 0 (line.perm ++ [0])
  offset := fields.offset.spell 0 (line.offset ++ [0])
  dev := fields.dev.spell 0 (line.dev ++ [0])
  inode := fields.inode.spell 0 (line.inode ++ [0])
  pathname := Memory.spell (Function.update fields.pathname 0 0) 0 (line.name ++ [0])

theorem Token.word {size : Nat} {text : List UInt8} (token : Token size text) : Word size text :=
  ⟨⟨token.solid, token.fits⟩, token.present⟩

theorem space_gap : Gap [space] := ⟨by simp; decide, by simp⟩

theorem MapsLine.exists_parts (line : MapsLine) (fits : line.name.length < 600) :
    ∃ (parts : LineParts) (rest : List UInt8), line.text = parts.text ++ rest ∧
      ∀ fields, parts.fill fields = line.fill fields := by
  obtain ⟨last, rest, ends, stops, plain, starts⟩ := line.name_prefix
  have blanks : ∀ char ∈ space :: line.padding, isBlank char = true :=
    List.forall_mem_cons.mpr ⟨by decide, line.padding_blank⟩
  let parts : LineParts := {
    addr1 := line.addr1
    addr2 := line.addr2
    gap1 := [space]
    perm := line.perm
    gap2 := [space]
    offset := line.offset
    gap3 := [space]
    dev := line.dev
    gap4 := [space]
    inode := line.inode
    gap5 := space :: line.padding
    pathname := line.name
    last := last
    addr1_field := ⟨fun char member => by simpa using line.addr1_dash char member, line.addr1_token.fits⟩
    addr2_field := line.addr2_token.word.toField
    gap1_gap := space_gap
    perm_word := line.perm_token.word
    gap2_gap := space_gap
    offset_word := line.offset_token.word
    gap3_gap := space_gap
    dev_word := line.dev_token.word
    gap4_gap := space_gap
    inode_word := line.inode_token.word
    gap5_gap := ⟨blanks, by simp⟩
    pathname_field := ⟨fun char member => (plain char member).1, fits⟩
    pathname_starts := starts
    ends := stops }
  refine ⟨parts, rest, ?_, fun _ => rfl⟩
  have whole : line.text = line.addr1 ++ byte '-' :: line.addr2 ++ space :: line.perm ++
      space :: line.offset ++ space :: line.dev ++ space :: line.inode ++ space :: line.padding ++
        (line.pathname ++ [newline]) := by
    simp [MapsLine.text, MapsLine.body]
  rw [whole, ends]
  simp [LineParts.text, parts]

/-- `_pmparser_split_line` on a line of the format, read no further than the line. -/
theorem splitWithin_line {line : MapsLine} (spells : buf.Spells 0 line.text)
    (room : line.text.length ≤ limit) (fits : line.name.length < 600) (fields : Fields) :
    splitWithin limit buf fields = some (line.fill fields) := by
  obtain ⟨parts, rest, same, fill⟩ := line.exists_parts fits
  rw [same] at spells
  rw [same, List.length_append] at room
  rw [parts.split spells (by omega), fill]

/-! Lines as the kernel writes them. -/

def hexDigits : List UInt8 :=
  (List.range 10).map (fun digit => UInt8.ofNat (48 + digit)) ++
    (List.range 6).map fun digit => UInt8.ofNat (97 + digit)

def decimalDigits : List UInt8 := hexDigits.take 10

theorem hexDigits_plain : ∀ char ∈ hexDigits, isNewline char = false ∧ isSpace char = false ∧
    char ≠ 255 ∧ char ≠ byte '-' ∧ char ≠ byte '+' ∧ char ≠ byte 'x' ∧ char ≠ byte 'X' ∧
    digitValue char < 16 := by decide

private theorem decimalDigits_plain : ∀ char ∈ decimalDigits, char ∈ hexDigits ∧ digitValue char < 10 := by
  decide

def permissions (read write execute share : Char) : List UInt8 :=
  [byte read, byte write, byte execute, byte share]

/-- Addresses and offset are 64-bit numbers in hexadecimal, the inode is decimal. -/
structure KernelLine extends MapsLine where
  addr1_hex : ∀ char ∈ addr1, char ∈ hexDigits
  addr2_hex : ∀ char ∈ addr2, char ∈ hexDigits
  offset_hex : ∀ char ∈ offset, char ∈ hexDigits
  words : addr1.length ≤ 16 ∧ addr2.length ≤ 16 ∧ offset.length ≤ 16
  ordered : digits 16 addr1 < digits 16 addr2
  perm_letters : ∃ read ∈ ['r', '-'], ∃ write ∈ ['w', '-'], ∃ execute ∈ ['x', '-'],
    ∃ share ∈ ['s', 'p'], perm = permissions read write execute share
  dev_digits : ∀ char ∈ dev, char ∈ hexDigits ∨ char = byte ':'
  inode_digits : ∀ char ∈ inode, char ∈ decimalDigits

/-- The permissions are rw-p and the pathname is not [stack]. -/
def KernelLine.selected (line : KernelLine) : Bool :=
  line.perm == permissions 'r' 'w' '-' 'p' && line.pathname != stack

/-- What an entry of the table is to hold of a line. -/
structure Records (entry : Procmaps) (line : KernelLine) : Prop where
  addrStart : entry.addrStart = digits 16 line.addr1
  addrEnd : entry.addrEnd = digits 16 line.addr2
  length : entry.length = digits 16 line.addr2 - digits 16 line.addr1
  offset : entry.offset = digits 16 line.offset
  inode : entry.inode = digits 10 line.inode
  pathname : entry.pathname = line.pathname

/-- The table holds the selected lines in file order, and nothing else has been written. -/
structure Selects (lines : List KernelLine) (before after : Mapparser) : Prop where
  length : after.length = (lines.filter KernelLine.selected).length
  entries : ∀ k line, (lines.filter KernelLine.selected)[k]? = some line → Records (after.map k) line
  outside : ∀ k, 64 ≤ k → after.map k = before.map k

def contents (lines : List KernelLine) : List UInt8 := lines.flatMap fun line => line.text

/-- The parser has stayed inside its arrays and found what the file, if it can be
opened, holds. -/
def ParsesExactly (file : Option (List KernelLine)) (before : Mapparser) (result : Option Mapparser) :
    Prop :=
  ∃ after, result = some after ∧ match file with
    | none => after.length = 0
    | some lines => Selects lines before after

/-- At most 64 lines are selected, their pathnames are free of blanks and their
inodes are ints; a table that is not filled has been empty before. -/
def Parsable (before : Mapparser) : Option (List KernelLine) → Prop
  | none => before.length = 0
  | some lines => (lines.filter KernelLine.selected).length ≤ 64 ∧
      ∀ line ∈ lines.filter KernelLine.selected,
        (∀ char ∈ line.pathname, isBlank char = false) ∧ digits 10 line.inode < 2 ^ 31

private theorem digits_foldl {base value : Nat} {text : List UInt8}
    (small : ∀ char ∈ text, digitValue char < base) :
    text.foldl (fun value char => base * value + digitValue char) value <
      (value + 1) * base ^ text.length := by
  induction text generalizing value with
  | nil => simp
  | cons char text ih =>
    have first := small char (List.mem_cons_self ..)
    have rest : text.foldl (fun value char => base * value + digitValue char)
        (base * value + digitValue char) < (base * value + digitValue char + 1) * base ^ text.length :=
      ih fun char member => small char (List.mem_cons_of_mem _ member)
    have grows : (base * value + digitValue char + 1) * base ^ text.length ≤
        ((value + 1) * base) * base ^ text.length := by
      refine Nat.mul_le_mul_right _ ?_
      rw [Nat.add_mul, Nat.one_mul, Nat.mul_comm value]
      omega
    rw [List.foldl_cons, List.length_cons, Nat.pow_succ', ← Nat.mul_assoc]
    exact Nat.lt_of_lt_of_le rest grows

/-- A row of hexadecimal digits is the number `sscanf` reads. -/
theorem sscanfLx_hex {text : List UInt8} (present : text ≠ [])
    (hex : ∀ char ∈ text, char ∈ hexDigits) (word : text.length ≤ 16) :
    sscanfLx text = some (digits 16 text) ∧ digits 16 text < 2 ^ 64 := by
  have small : ∀ char ∈ text, digitValue char < 16 :=
    fun char member => (hexDigits_plain char (hex char member)).2.2.2.2.2.2.2
  have bound : digits 16 text < 2 ^ 64 := by
    have below : digits 16 text < (0 + 1) * 16 ^ text.length := digits_foldl small
    have fits : 16 ^ text.length ≤ 16 ^ 16 := Nat.pow_le_pow_right (by decide) word
    rw [Nat.zero_add, Nat.one_mul] at below
    exact Nat.lt_of_lt_of_le below fits
  refine ⟨?_, bound⟩
  have row : text.takeWhile (fun char => decide (digitValue char < 16)) = text :=
    List.takeWhile_eq_self_iff.mpr (by simpa using small)
  cases text with
  | nil => exact (present rfl).elim
  | cons first text =>
    have plain := hexDigits_plain first (hex first (List.mem_cons_self ..))
    have prefixed : hexPrefix (first :: text) = first :: text := by
      cases text with
      | nil => rfl
      | cons second text =>
        have plain := hexDigits_plain second (hex second (by simp))
        simp [hexPrefix, plain]
    simp [sscanfLx, sign, plain, prefixed, row]
    omega

/-- `atoi` reads a row of decimal digits right exactly if the number is an int. -/
theorem atoi_decimal {text : List UInt8} (present : text ≠ [])
    (decimal : ∀ char ∈ text, char ∈ decimalDigits) :
    atoi text = digits 10 text ↔ digits 10 text < 2 ^ 31 := by
  have row : text.takeWhile (fun char => decide (digitValue char < 10)) = text :=
    List.takeWhile_eq_self_iff.mpr
      (by simpa using fun char member => (decimalDigits_plain char (decimal char member)).2)
  have value : atoi text = (min (digits 10 text : Int) (2 ^ 63 - 1)).bmod (2 ^ 32) := by
    cases text with
    | nil => exact (present rfl).elim
    | cons first text =>
      have hex := (decimalDigits_plain first (decimal first (List.mem_cons_self ..))).1
      have plain := hexDigits_plain first hex
      simp [atoi, sign, plain, row]
  have below : (min (digits 10 text : Int) (2 ^ 63 - 1)).bmod (2 ^ 32) < 2 ^ 31 :=
    Int.bmod_lt (by decide)
  rw [value]
  constructor
  · intro same
    omega
  · intro small
    have least : min (digits 10 text : Int) (2 ^ 63 - 1) = digits 10 text := by omega
    rw [least, Int.bmod_eq_of_le] <;> omega

theorem fgets_line {text rest : List UInt8} {size : Nat}
    (plain : ∀ char ∈ text, isNewline char = false) (fits : text.length < size) :
    fgets size (text ++ newline :: rest) = (text ++ [newline], rest) := by
  induction text generalizing size with
  | nil =>
    cases size with
    | zero => simp at fits
    | succ size => rfl
  | cons char text ih =>
    cases size with
    | zero => simp at fits
    | succ size =>
      have others := ih (fun char member => plain char (List.mem_cons_of_mem _ member))
        (Nat.lt_of_succ_lt_succ fits)
      simp [fgets, plain char (List.mem_cons_self ..), others]

/-- What the filter keeps: it sees the pathname up to its first blank. -/
def KernelLine.kept (line : KernelLine) : Bool :=
  line.perm == permissions 'r' 'w' '-' 'p' && line.name != stack

def KernelLine.entry (line : KernelLine) : Procmaps where
  addrStart := digits 16 line.addr1
  addrEnd := digits 16 line.addr2
  length := digits 16 line.addr2 - digits 16 line.addr1
  perm := line.perm
  offset := digits 16 line.offset
  dev := line.dev
  inode := atoi line.inode
  pathname := line.name

theorem cString_spell {memory : Memory} {text : List UInt8} {size : Nat}
    (noNul : ∀ char ∈ text, char ≠ 0) (fits : text.length < size) :
    (memory.spell 0 (text ++ [0])).cString size 0 = text :=
  Memory.cString_of_spells Memory.spells_spell noNul fits

theorem Token.cString {memory : Memory} {text : List UInt8} {size : Nat} (token : Token size text) :
    (memory.spell 0 (text ++ [0])).cString size 0 = text := cString_spell token.noNul token.fits

/-- Among the letters the kernel writes the filter passes rw-p only. -/
theorem permissions_flags : ∀ read ∈ ['r', '-'], ∀ write ∈ ['w', '-'], ∀ execute ∈ ['x', '-'],
    ∀ share ∈ ['s', 'p'],
      (byte read != byte 'r' || byte write != byte 'w' || byte execute == byte 'x' ||
        byte share != byte 'p') =
      !(permissions read write execute share == permissions 'r' 'w' '-' 'p') := by decide

/-- The letters the filter looks at are those of the line. -/
theorem KernelLine.skipped (line : KernelLine) (perm : Memory) {fields : Fields}
    (letters : fields.perm = perm.spell 0 (line.perm ++ [0]))
    (name : fields.pathname.cString 600 0 = line.name) :
    Mapparser.skipped fields = !line.kept := by
  obtain ⟨read, reads, write, writes, execute, executes, share, shares, same⟩ := line.perm_letters
  have first : fields.perm 0 = byte read := by simp [letters, same, permissions, Memory.spell]
  have second : fields.perm 1 = byte write := by simp [letters, same, permissions, Memory.spell]
  have third : fields.perm 2 = byte execute := by simp [letters, same, permissions, Memory.spell]
  have fourth : fields.perm 3 = byte share := by simp [letters, same, permissions, Memory.spell]
  have flags := permissions_flags read reads write writes execute executes share shares
  rw [Mapparser.skipped, first, second, third, fourth, name, flags, KernelLine.kept, same]
  simp only [bne, Bool.not_and, Bool.not_not]

private theorem MapsLine.name_length (line : MapsLine) : line.name.length + 1 ≤ line.text.length := by
  have shorter : line.name.length ≤ line.pathname.length := (List.takeWhile_prefix _).length_le
  simp only [MapsLine.text, MapsLine.body, List.length_append, List.length_cons, List.length_nil]
  omega

theorem MapsLine.name_noNul (line : MapsLine) : ∀ char ∈ line.name, char ≠ 0 :=
  fun char member => (line.pathname_plain char (List.takeWhile_subset _ member)).2

/-- A line that fits the reader is skipped or makes its entry, whatever was in the arrays. -/
theorem splitLine_kernel {line : KernelLine} (spells : buf.Spells 0 line.text)
    (short : line.text.length ≤ 259) (fields : Fields) :
    ∃ after, splitLine buf fields = some after ∧ skipped after = !line.kept ∧
      ∀ old, node after old = some line.entry := by
  have name := line.name_length
  have fits : line.name.length < 600 := by omega
  refine ⟨_, (splitLine_eq ..).trans (splitWithin_line spells (by unfold bufSize; omega) fits fields), ?_, ?_⟩
  · exact line.skipped fields.perm rfl (cString_spell line.name_noNul fits)
  · intro old
    obtain ⟨start, startBound⟩ :=
      sscanfLx_hex line.addr1_token.present line.addr1_hex line.words.1
    obtain ⟨stop, stopBound⟩ :=
      sscanfLx_hex line.addr2_token.present line.addr2_hex line.words.2.1
    obtain ⟨offset, _⟩ := sscanfLx_hex line.offset_token.present line.offset_hex line.words.2.2
    have ordered := line.ordered
    have length : (digits 16 line.addr2 + (2 ^ 64 - digits 16 line.addr1)) % 2 ^ 64 =
        digits 16 line.addr2 - digits 16 line.addr1 := by omega
    have four : line.perm.length < 5 := by
      obtain ⟨read, _, write, _, execute, _, share, _, same⟩ := line.perm_letters
      rw [same]
      simp [permissions]
    have pathname : (Memory.spell (Function.update fields.pathname 0 0) 0
        (line.name ++ [0])).cString 600 0 = line.name := cString_spell line.name_noNul fits
    simp only [node, MapsLine.fill, line.addr1_token.cString, line.addr2_token.cString, line.perm_token.cString,
      line.offset_token.cString, line.dev_token.cString, line.inode_token.cString, pathname, start,
      stop, offset, Option.getD_some, if_pos four, length, KernelLine.entry]

private theorem isNewline_of_isBlank {char : UInt8} (blank : isBlank char = true) : isNewline char = false := by
  simp only [isBlank, Bool.or_eq_true, beq_iff_eq] at blank
  rcases blank with same | same <;> rw [same] <;> decide

theorem KernelLine.plain (line : KernelLine) : ∀ char ∈ line.body, isNewline char = false := by
  have hex : ∀ char ∈ hexDigits, isNewline char = false :=
    fun char member => (hexDigits_plain char member).1
  have space : isNewline space = false := by decide
  intro char member
  simp only [MapsLine.body, List.append_assoc, List.cons_append, List.mem_append,
    List.mem_cons] at member
  rcases member with member | same | member | same | member | same | member | same | member |
    same | member | same | member | member
  · exact hex char (line.addr1_hex char member)
  · rw [same]
    decide
  · exact hex char (line.addr2_hex char member)
  · rw [same, space]
  · obtain ⟨read, reads, write, writes, execute, executes, share, shares, same⟩ := line.perm_letters
    have letters : ∀ read ∈ ['r', '-'], ∀ write ∈ ['w', '-'], ∀ execute ∈ ['x', '-'],
        ∀ share ∈ ['s', 'p'], ∀ char ∈ permissions read write execute share,
          isNewline char = false := by decide
    rw [same] at member
    exact letters read reads write writes execute executes share shares char member
  · rw [same, space]
  · exact hex char (line.offset_hex char member)
  · rw [same, space]
  · rcases line.dev_digits char member with digit | colon
    · exact hex char digit
    · rw [colon]
      decide
  · rw [same, space]
  · exact hex char (decimalDigits_plain char (line.inode_digits char member)).1
  · rw [same, space]
  · exact isNewline_of_isBlank (line.padding_blank char member)
  · exact (line.pathname_plain char member).1

theorem KernelLine.starts (line : KernelLine) : ∃ first rest, line.body = first :: rest ∧ first ≠ 255 := by
  cases addr1 : line.addr1 with
  | nil => exact (line.addr1_token.present addr1).elim
  | cons first rest =>
    have hex := line.addr1_hex first (by simp [addr1])
    exact ⟨first, line.body.tail, by simp [MapsLine.body, addr1], (hexDigits_plain first hex).2.2.1⟩

/-- The table after the entries of some lines have been put in from a place on. -/
def recordLines : List KernelLine → Nat → (Nat → Procmaps) → Option (Nat × (Nat → Procmaps))
  | [], ind, map => some (ind, map)
  | line :: rest, ind, map =>
    if line.kept then
      if ind < 64 then recordLines rest (ind + 1) (Function.update map ind line.entry) else none
    else recordLines rest ind map

private theorem parseLoop_line {line : KernelLine} (short : line.text.length ≤ 259) (turns : Nat)
    (file : List UInt8) (buf : Memory) (fields : Fields) (ind : Nat) (map : Nat → Procmaps) :
    ∃ buf' fields', parseLoop (turns + 1) (line.text ++ file) buf fields ind map =
      if line.kept then
        if ind < 64 then
          parseLoop turns file buf' fields' (ind + 1) (Function.update map ind line.entry)
        else none
      else parseLoop turns file buf' fields' ind map := by
  obtain ⟨first, rest, body, noEof⟩ := line.starts
  have text : line.text = first :: (rest ++ [newline]) := by simp [MapsLine.text, body]
  have plain : ∀ char ∈ rest, isNewline char = false :=
    fun char member => line.plain char (by simp [body, member])
  have fits : rest.length < 258 := by
    rw [text] at short
    simp only [List.length_cons, List.length_append, List.length_nil] at short
    omega
  have reads : fgets 258 (rest ++ newline :: file) = (rest ++ [newline], file) :=
    fgets_line plain fits
  let filled : Memory := Function.update (buf.spell 1 ((rest ++ [newline]) ++ [0])) 0 first
  have spells : filled.Spells 0 line.text := by
    rw [text]
    refine ⟨by simp [filled], ?_⟩
    have written : (buf.spell 1 ((rest ++ [newline]) ++ [0])).Spells 1 ((rest ++ [newline]) ++ [0]) :=
      Memory.spells_spell
    refine (Memory.spells_append.mp written).1.congr fun place low _ => ?_
    simp only [filled]
    rw [Function.update_of_ne (by omega)]
  obtain ⟨after, splits, skips, entry⟩ := splitLine_kernel spells short fields
  refine ⟨filled, after, ?_⟩
  have whole : line.text ++ file = first :: (rest ++ newline :: file) := by simp [text]
  have nonempty : (rest ++ [newline]).isEmpty = false := by simp
  rw [whole, parseLoop, if_neg noEof, reads]
  simp only [nonempty, Bool.false_eq_true, if_false, Option.bind_eq_bind]
  rw [splits, Option.bind_some, skips]
  cases line.kept with
  | true =>
    simp only [Bool.not_true, Bool.false_eq_true, if_false, if_true, entry, Option.bind_some]
    rfl
  | false =>
    simp only [Bool.not_false, Bool.false_eq_true, if_false, if_true]
    rfl

theorem parseLoop_lines {lines : List KernelLine} {turns : Nat}
    (short : ∀ line ∈ lines, line.text.length ≤ 259) (enough : lines.length ≤ turns)
    (buf : Memory) (fields : Fields) (ind : Nat) (map : Nat → Procmaps) :
    parseLoop turns (contents lines) buf fields ind map = recordLines lines ind map := by
  induction lines generalizing turns buf fields ind map with
  | nil => cases turns <;> rfl
  | cons line lines ih =>
    cases turns with
    | zero => simp at enough
    | succ turns =>
      obtain ⟨buf', fields', turn⟩ := parseLoop_line (short line (List.mem_cons_self ..)) turns
        (contents lines) buf fields ind map
      have rest := fun ind map => ih (fun line member => short line (List.mem_cons_of_mem _ member))
        (Nat.le_of_succ_le_succ enough) buf' fields' ind map
      rw [contents, List.flatMap_cons, ← contents, turn, recordLines]
      simp only [rest]

/-- The table after some lines, as long as their entries fit it. -/
def filled (lines : List KernelLine) (ind : Nat) (map : Nat → Procmaps) (place : Nat) : Procmaps :=
  if ind ≤ place then ((lines.filter KernelLine.kept)[place - ind]?.map KernelLine.entry).getD (map place)
  else map place

private theorem recordLines_eq {lines : List KernelLine} {ind : Nat} (inside : ind ≤ 64)
    (map : Nat → Procmaps) :
    recordLines lines ind map =
      if ind + (lines.filter KernelLine.kept).length ≤ 64 then
        some (ind + (lines.filter KernelLine.kept).length, filled lines ind map)
      else none := by
  induction lines generalizing ind map with
  | nil =>
    have same : filled [] ind map = map := by
      funext place
      simp [filled]
    simp [recordLines, inside, same]
  | cons line lines ih =>
    cases kept : line.kept with
    | false =>
      have same : filled (line :: lines) ind map = filled lines ind map := by
        funext place
        simp [filled, kept]
      simp [recordLines, kept, ih inside, same]
    | true =>
      have same : filled (line :: lines) ind map =
          filled lines (ind + 1) (Function.update map ind line.entry) := by
        funext place
        rcases Nat.lt_trichotomy place ind with below | here | above
        · have low : ¬ ind ≤ place := by omega
          have low' : ¬ ind + 1 ≤ place := by omega
          simp [filled, low, low', Function.update_of_ne (show place ≠ ind by omega)]
        · subst here
          have low : ¬ place + 1 ≤ place := by omega
          simp [filled, kept, low]
        · obtain ⟨more, rfl⟩ : ∃ more, place = ind + 1 + more := ⟨place - (ind + 1), by omega⟩
          have next : ind + 1 + more - ind = more + 1 := by omega
          have low : ind ≤ ind + 1 + more := by omega
          simp [filled, kept, next, low, Function.update_of_ne (show ind + 1 + more ≠ ind by omega)]
      rw [recordLines, if_pos kept, List.filter_cons_of_pos kept, List.length_cons, same]
      by_cases room : ind < 64
      · rw [if_pos room, ih (by omega)]
        have count : ind + 1 + (lines.filter KernelLine.kept).length =
            ind + ((lines.filter KernelLine.kept).length + 1) := by omega
        rw [count]
      · rw [if_neg room, if_neg (by omega)]

private theorem contents_length (lines : List KernelLine) : lines.length ≤ (contents lines).length := by
  induction lines with
  | nil => exact Nat.le_refl _
  | cons line lines ih =>
    have nonempty := line.name_length
    simp only [contents, List.flatMap_cons, List.length_append, List.length_cons] at ih ⊢
    omega

/-- The parser on a file whose lines fit the reader. -/
theorem pmparserParse_lines {lines : List KernelLine} (short : ∀ line ∈ lines, line.text.length ≤ 259)
    (parser : Mapparser) (buf : Memory) (fields : Fields) :
    pmparserParse parser buf fields (some (contents lines)) =
      if (lines.filter KernelLine.kept).length ≤ 64 then
        some ⟨filled lines 0 parser.map, (lines.filter KernelLine.kept).length⟩
      else none := by
  simp only [pmparserParse, parseLoop_lines short (contents_length lines),
    recordLines_eq (Nat.zero_le 64), Nat.zero_add]
  split <;> rfl

private theorem KernelLine.selected_of_kept {line : KernelLine} (kept : line.kept = true) :
    line.selected = true := by
  simp only [KernelLine.kept, KernelLine.selected, Bool.and_eq_true, bne_iff_ne] at kept ⊢
  refine ⟨kept.1, ?_⟩
  intro same
  refine kept.2 ?_
  rw [MapsLine.name, same]
  decide

private theorem MapsLine.name_eq (line : MapsLine) :
    line.name = line.pathname ↔ ∀ char ∈ line.pathname, isBlank char = false := by
  simp [MapsLine.name, List.takeWhile_eq_self_iff]

private theorem entry_records (line : KernelLine) : Records line.entry line ↔
    (∀ char ∈ line.pathname, isBlank char = false) ∧ digits 10 line.inode < 2 ^ 31 := by
  rw [← line.name_eq, ← atoi_decimal line.inode_token.present line.inode_digits]
  constructor
  · exact fun records => ⟨records.pathname, records.inode⟩
  · exact fun ⟨pathname, inode⟩ => ⟨rfl, rfl, rfl, rfl, inode, pathname⟩

private theorem filter_kept {lines : List KernelLine}
    (blankFree : ∀ line ∈ lines.filter KernelLine.selected, ∀ char ∈ line.pathname, isBlank char = false) :
    lines.filter KernelLine.kept = lines.filter KernelLine.selected := by
  refine List.filter_congr fun line member => Bool.eq_iff_iff.mpr ⟨line.selected_of_kept, ?_⟩
  intro selected
  have name := line.name_eq.mpr (blankFree line (List.mem_filter.mpr ⟨member, selected⟩))
  rw [KernelLine.kept, name]
  exact selected

/-- For files whose lines have at most 259 characters: the parser finds exactly
what it should if and only if the file is parsable. -/
theorem parsesExactly_iff {file : Option (List KernelLine)}
    (short : ∀ lines ∈ file, ∀ line ∈ lines, line.text.length ≤ 259) (parser : Mapparser)
    (buf : Memory) (fields : Fields) :
    ParsesExactly file parser (pmparserParse parser buf fields (file.map contents)) ↔
      Parsable parser file := by
  cases file with
  | none =>
    constructor
    · intro ⟨after, same, zero⟩
      cases same
      exact zero
    · exact fun zero => ⟨parser, rfl, zero⟩
  | some lines =>
    rw [Option.map_some, pmparserParse_lines (short lines rfl)]
    constructor
    · intro ⟨after, result, selects⟩
      split at result
      · rename_i room
        cases result
        have sublist : (lines.filter KernelLine.kept).Sublist (lines.filter KernelLine.selected) :=
          List.monotone_filter_right lines fun line => line.selected_of_kept
        have count := Int.ofNat.inj selects.length
        have same := sublist.eq_of_length count
        refine ⟨by rw [← same]; exact room, ?_⟩
        intro line member
        obtain ⟨place, found⟩ := List.mem_iff_getElem?.mp member
        have records : Records (filled lines 0 parser.map place) line :=
          selects.entries place line found
        rw [← same] at found
        have entry : filled lines 0 parser.map place = line.entry := by simp [filled, found]
        rw [entry] at records
        exact (entry_records line).mp records
      · cases result
    · intro ⟨room, right⟩
      have same := filter_kept fun line member => (right line member).1
      refine ⟨⟨filled lines 0 parser.map, (lines.filter KernelLine.kept).length⟩, ?_, ?_, ?_, ?_⟩
      · rw [same, if_pos room]
      · rw [same]
      · intro place line found
        have entry : filled lines 0 parser.map place = line.entry := by simp [filled, same, found]
        have records := (entry_records line).mpr (right line (List.mem_of_getElem? found))
        rw [← entry] at records
        exact records
      · intro place outside
        have beyond : (lines.filter KernelLine.selected)[place]? = none :=
          List.getElem?_eq_none_iff.mpr (by omega)
        simp [filled, same, beyond]

def heapLine : KernelLine where
  addr1 := chars "00400000"
  addr2 := chars "00401000"
  perm := chars "rw-p"
  offset := chars "00000000"
  dev := chars "00:00"
  inode := chars "0"
  padding := chars "   "
  pathname := chars "[heap]"
  addr1_token := by decide
  addr1_dash := by decide
  addr2_token := by decide
  perm_token := by decide
  offset_token := by decide
  dev_token := by decide
  inode_token := by decide
  padding_blank := by decide
  pathname_starts := by decide
  pathname_plain := by decide
  addr1_hex := by decide
  addr2_hex := by decide
  offset_hex := by decide
  words := by decide
  ordered := by decide
  perm_letters := ⟨'r', by decide, 'w', by decide, '-', by decide, 'p', by decide, by decide⟩
  dev_digits := by decide
  inode_digits := by decide

def stackLine : KernelLine :=
  { heapLine with
    addr1 := chars "7ffd0000"
    addr2 := chars "7ffd1000"
    pathname := stack
    addr1_token := by decide
    addr1_dash := by decide
    addr2_token := by decide
    addr1_hex := by decide
    addr2_hex := by decide
    words := by decide
    ordered := by decide
    pathname_starts := by decide
    pathname_plain := by decide }

def codeLine : KernelLine :=
  { heapLine with
    addr1 := chars "00300000"
    addr2 := chars "00301000"
    perm := chars "r-xp"
    dev := chars "08:02"
    inode := chars "173521"
    pathname := chars "/bin/a"
    addr1_token := by decide
    addr1_dash := by decide
    addr2_token := by decide
    perm_token := by decide
    dev_token := by decide
    inode_token := by decide
    pathname_starts := by decide
    pathname_plain := by decide
    addr1_hex := by decide
    addr2_hex := by decide
    words := by decide
    ordered := by decide
    perm_letters := ⟨'r', by decide, '-', by decide, 'x', by decide, 'p', by decide, by decide⟩
    dev_digits := by decide
    inode_digits := by decide }

def anonymousLine : KernelLine :=
  { heapLine with
    addr1 := chars "00500000"
    addr2 := chars "00501000"
    padding := []
    pathname := []
    addr1_token := by decide
    addr1_dash := by decide
    addr2_token := by decide
    padding_blank := by decide
    pathname_starts := by decide
    pathname_plain := by decide
    addr1_hex := by decide
    addr2_hex := by decide
    words := by decide
    ordered := by decide }

def deletedLine : KernelLine :=
  { heapLine with
    pathname := chars "/memfd:x (deleted)"
    pathname_starts := by decide
    pathname_plain := by decide }

def zeros : Memory := fun _ => 0

def zeroFields : Fields := ⟨zeros, zeros, zeros, zeros, zeros, zeros, zeros⟩

def zeroParser : Mapparser := ⟨fun _ => ⟨0, 0, 0, [], 0, [], 0, []⟩, 0⟩

/-- Four lines, of which the second and the third are selected. -/
theorem parsesExactly_four :
    ParsesExactly (some [codeLine, heapLine, anonymousLine, stackLine]) zeroParser
      (pmparserParse zeroParser zeros zeroFields
        (some (contents [codeLine, heapLine, anonymousLine, stackLine]))) ∧
      [codeLine, heapLine, anonymousLine, stackLine].map KernelLine.selected =
        [false, true, true, false] := by
  refine ⟨(parsesExactly_iff ?_ zeroParser zeros zeroFields).mpr ⟨by decide, by decide⟩, by decide⟩
  intro lines same
  cases same
  decide

/-- The pathname of a deleted file is cut at its blank. -/
theorem pathname_cut : ¬ ∀ file parser buf fields,
    ParsesExactly file parser (pmparserParse parser buf fields (file.map contents)) := by
  intro always
  obtain ⟨after, result, selects⟩ := always (some [deletedLine]) zeroParser zeros zeroFields
  have short : ∀ line ∈ [deletedLine], line.text.length ≤ 259 := by
    intro line member
    rw [List.mem_singleton.mp member]
    decide
  rw [Option.map_some, pmparserParse_lines short] at result
  have kept : [deletedLine].filter KernelLine.kept = [deletedLine] :=
    List.filter_cons_of_pos (by decide)
  have selected : [deletedLine].filter KernelLine.selected = [deletedLine] :=
    List.filter_cons_of_pos (by decide)
  rw [kept, if_pos (by decide)] at result
  cases result
  have records := selects.entries 0 deletedLine (by rw [selected]; rfl)
  have entry := (entry_records deletedLine).mp (by simpa [filled, kept] using records)
  exact absurd (entry.1 (byte ' ') (by decide)) (by decide)

end ProcessAsThread.Mapparser
