import Mathlib.Algebra.Ring.Int.Defs
import ProcessAsThread.Library.CString

/-! The parser of /proc/self/maps in map_parse/pmparser.c. The local arrays keep
what the last line, or nobody, has put there. `none` is a read or a write outside
an array. -/

namespace ProcessAsThread

open Library

def byte (char : Char) : UInt8 := char.toUInt8

def chars (text : String) : List UInt8 := text.toList.map byte

/-- `'\t'` or `' '`. -/
def isBlank (char : UInt8) : Bool := char == byte '\t' || char == byte ' '

def isNewline (char : UInt8) : Bool := char == byte '\n'

namespace Mapparser

def bufSize : Nat := 3000

/-- `while(!stop(buf[i])) { field[i-orig] = buf[i]; i++; } field[i-orig] = '\0'`, for
a field of a given size; `place` is `i-orig`. The first argument is what is left
of `buf`. -/
def copyField (buf : Memory) (stop : UInt8 → Bool) (size : Nat) :
    Nat → Nat → Nat → Memory → Option (Nat × Memory)
  | 0, _, _, _ => none
  | left + 1, i, place, field =>
    if place < size then
      if stop (buf i) then some (i, Function.update field place 0)
      else copyField buf stop size left (i + 1) (place + 1) (Function.update field place (buf i))
    else none

/-- `while(buf[i]=='\t' || buf[i]==' ') i++`. -/
def skipBlanks (buf : Memory) : Nat → Nat → Option Nat
  | 0, _ => none
  | left + 1, i => if isBlank (buf i) then skipBlanks buf left (i + 1) else some i

/-- The arrays of `pmparser_parse` that `_pmparser_split_line` fills. -/
structure Fields where
  addr1 : Memory
  addr2 : Memory
  perm : Memory
  offset : Memory
  dev : Memory
  inode : Memory
  pathname : Memory

/-- The blanks before a field and the field itself. -/
def nextField (buf : Memory) (stop : UInt8 → Bool) (size i : Nat) (field : Memory) :
    Option (Nat × Memory) := do
  let i ← skipBlanks buf (bufSize - i) i
  copyField buf stop size (bufSize - i) i 0 field

/-- `_pmparser_split_line`, with the sizes of the arrays it is called with. -/
def splitLine (buf : Memory) (fields : Fields) : Option Fields := do
  let (i, addr1) ← copyField buf (· == byte '-') 20 bufSize 0 0 fields.addr1
  let i := i + 1
  let (i, addr2) ← copyField buf isBlank 20 (bufSize - i) i 0 fields.addr2
  let (i, perm) ← nextField buf isBlank 8 i fields.perm
  let (i, offset) ← nextField buf isBlank 20 i fields.offset
  let (i, dev) ← nextField buf isBlank 10 i fields.dev
  let (i, inode) ← nextField buf isBlank 30 i fields.inode
  let pathname := Function.update fields.pathname 0 0
  let (_, pathname) ← nextField buf (fun char => isBlank char || isNewline char) 600 i pathname
  return ⟨addr1, addr2, perm, offset, dev, inode, pathname⟩

/-- `fgets` with room for `size` characters: what it reads and what is left. -/
def fgets : Nat → List UInt8 → List UInt8 × List UInt8
  | 0, file => ([], file)
  | _, [] => ([], [])
  | size + 1, char :: file =>
    if isNewline char then ([char], file)
    else
      let (text, rest) := fgets size file
      (char :: text, rest)

def digitValue (char : UInt8) : Nat :=
  if byte '0' ≤ char ∧ char ≤ byte '9' then char.toNat - 48
  else if byte 'a' ≤ char ∧ char ≤ byte 'f' then char.toNat - 87
  else if byte 'A' ≤ char ∧ char ≤ byte 'F' then char.toNat - 55
  else 16

def digits (base : Nat) (text : List UInt8) : Nat :=
  text.foldl (fun value char => base * value + digitValue char) 0

def isSpace (char : UInt8) : Bool := isBlank char || (9 ≤ char && char ≤ 13)

/-- An optional sign: whether it is a minus, and the rest. -/
def sign : List UInt8 → Bool × List UInt8
  | char :: text =>
    if char = byte '-' then (true, text)
    else if char = byte '+' then (false, text)
    else (false, char :: text)
  | [] => (false, [])

/-- An optional `0x`. -/
def hexPrefix : List UInt8 → List UInt8
  | zero :: x :: text =>
    if zero = byte '0' ∧ (x = byte 'x' ∨ x = byte 'X') then text else zero :: x :: text
  | text => text

/-- The number `sscanf` reads with `%lx`, if there is one; it saturates. -/
def sscanfLx (text : List UInt8) : Option Nat :=
  let (negative, text) := sign (text.dropWhile isSpace)
  let row := (hexPrefix text).takeWhile fun char => digitValue char < 16
  let value := digits 16 row
  if row.isEmpty then none
  else if value ≥ 2 ^ 64 then some (2 ^ 64 - 1)
  else some (if negative then (2 ^ 64 - value) % 2 ^ 64 else value)

/-- `atoi`: `strtol`, which saturates, cut down to an `int`. -/
def atoi (text : List UInt8) : Int :=
  let (negative, text) := sign (text.dropWhile isSpace)
  let value : Int := digits 10 (text.takeWhile fun char => digitValue char < 10)
  let long := if negative then max (-value) (-2 ^ 63) else min value (2 ^ 63 - 1)
  long.bmod (2 ^ 32)

/-- `procmaps_struct` without the short flags, `next` and `addr_map`, which nothing
reads. Strings are without their NUL; `offset` is its 64 bits. -/
structure Procmaps where
  addrStart : Nat
  addrEnd : Nat
  length : Nat
  perm : List UInt8
  offset : Nat
  dev : List UInt8
  inode : Int
  pathname : List UInt8
  deriving DecidableEq, Repr

def stack : List UInt8 := chars "[stack]"

/-- The test by which a line is left out. -/
def skipped (fields : Fields) : Bool :=
  fields.perm 0 != byte 'r' || fields.perm 1 != byte 'w' || fields.perm 2 == byte 'x' ||
    fields.perm 3 != byte 'p' || fields.pathname.cString 600 0 == stack

/-- The node of a line; a number that cannot be read leaves what was there. The
copy of `perm` must fit its five bytes. -/
def node (fields : Fields) (old : Procmaps) : Option Procmaps :=
  let addrStart := (sscanfLx (fields.addr1.cString 20 0)).getD old.addrStart
  let addrEnd := (sscanfLx (fields.addr2.cString 20 0)).getD old.addrEnd
  let perm := fields.perm.cString 8 0
  if perm.length < 5 then
    some {
      addrStart := addrStart
      addrEnd := addrEnd
      length := (addrEnd + (2 ^ 64 - addrStart)) % 2 ^ 64
      perm := perm
      offset := (sscanfLx (fields.offset.cString 20 0)).getD old.offset
      dev := fields.dev.cString 10 0
      inode := atoi (fields.inode.cString 30 0)
      pathname := fields.pathname.cString 600 0 }
  else none

/-- The loop of `pmparser_parse`; each turn reads at least one character. A
character 255 is taken for the end of the file. -/
def parseLoop : Nat → List UInt8 → Memory → Fields → Nat → (Nat → Procmaps) →
    Option (Nat × (Nat → Procmaps))
  | _, [], _, _, ind, map => some (ind, map)
  | 0, _ :: _, _, _, _, _ => none
  | turns + 1, char :: file, buf, fields, ind, map =>
    if char = 255 then some (ind, map)
    else do
      let (text, file) := fgets 258 file
      let buf := if text.isEmpty then buf else buf.spell 1 (text ++ [0])
      let buf := Function.update buf 0 char
      let fields ← splitLine buf fields
      if skipped fields then parseLoop turns file buf fields ind map
      else if ind < 64 then
        let entry ← node fields (map ind)
        parseLoop turns file buf fields (ind + 1) (Function.update map ind entry)
      else none

end Mapparser

/-- `mapparser`; `map` has 64 entries. -/
structure Mapparser where
  map : Nat → Mapparser.Procmaps
  length : Int

/-- `pmparser_parse` on the contents of the maps file, `none` if it cannot be
opened, with what is on the stack in `buf` and the local arrays. -/
def pmparserParse (parser : Mapparser) (buf : Memory) (fields : Mapparser.Fields)
    (file : Option (List UInt8)) : Option Mapparser :=
  match file with
  | none => some parser
  | some file => do
    let (ind, map) ← Mapparser.parseLoop file.length file buf fields 0 parser.map
    return ⟨map, ind⟩

end ProcessAsThread
