import Mathlib.Algebra.Ring.Nat
import Mathlib.Algebra.Ring.Int.Defs
import ProcessAsThread.IntrusiveList
import ProcessAsThread.Library.Run

/-! The hash map of hashmap.h: an array of buckets, each with a circular list of
its entries and a counter of its own. `none` is a division by zero or an access
to what is no entry. The locks play no part when calls do not overlap. -/

namespace ProcessAsThread

open Library

/-- `_hashfunc` and `_keycmp`. -/
structure KeyFunctions (Key : Type) where
  hashfunc : Key → Nat → Nat
  keycmp : Key → Key → Nat → Bool

namespace HashMap

/-- A `list_t`: that of the `HashEntry` at an index, or of the `Entry` at an address. -/
inductive Node where
  | head (index : Nat)
  | entry (address : Nat)
  deriving DecidableEq, Repr

structure Entry (Key Value : Type) where
  key : Key
  keylen : Nat
  value : Value
  deriving DecidableEq, Repr

end HashMap

/-- `entries` are the allocated ones, by address; `links` are the `list_t` of both
`HashEntry` and `Entry`, and `counts` is `count` of the former. -/
structure HashMap (Key Value : Type) where
  initialized : Bool
  buckets : Nat
  counts : Nat → Nat
  links : ListMemory HashMap.Node
  entries : Nat → Option (HashMap.Entry Key Value)

namespace HashMap

variable {Key Value : Type}

/-- The constructor; `_entries` will be memory that holds anything. -/
def new (counts : Nat → Nat) (links : ListMemory Node) : HashMap Key Value where
  initialized := false
  buckets := 0
  counts := counts
  links := links
  entries := fun _ => none

/-- `HashEntry::initialize`. -/
def initializeEntry (map : HashMap Key Value) (index : Nat) : HashMap Key Value :=
  { map with
    counts := Function.update map.counts index 0
    links := nodeInit map.links (some (.head index)) }

/-- `initialize`, once `_entries` has been allocated. -/
def setup (map : HashMap Key Value) (size : Nat) : HashMap Key Value :=
  let map := (List.range size).foldl initializeEntry { map with buckets := size }
  { map with initialized := true }

def getHashEntry (map : HashMap Key Value) (index : Nat) : Option Nat :=
  if index < map.buckets then some index else none

def hashIndex (functions : KeyFunctions Key) (map : HashMap Key Value) (key : Key) (keylen : Nat) :
    Option Nat :=
  if map.buckets = 0 then none else some (functions.hashfunc key keylen % map.buckets)

/-- The bucket of a key, at the start of each operation. -/
def bucket (functions : KeyFunctions Key) (map : HashMap Key Value) (key : Key) (keylen : Nat) :
    Option Nat :=
  if map.initialized then (hashIndex functions map key keylen).bind map.getHashEntry else none

/-- `entry->keylen == keylen && _keycmp(entry->key, key, keylen)`. -/
def Entry.matches (functions : KeyFunctions Key) (key : Key) (keylen : Nat) (entry : Entry Key Value) :
    Bool :=
  entry.keylen == keylen && functions.keycmp entry.key key keylen

/-- `while(count > 0)` of `getEntry`: the entry that is found, or NULL. -/
def getEntryLoop (functions : KeyFunctions Key) (map : HashMap Key Value) (key : Key) (keylen : Nat) :
    Nat → Option Node → Option (Option Nat)
  | 0, _ => some none
  | count + 1, some (.entry address) =>
    match map.entries address with
    | none => none
    | some entry =>
      if entry.matches functions key keylen then some (some address)
      else getEntryLoop functions map key keylen count (map.links (some (.entry address))).next
  | _ + 1, _ => none

/-- How often `getEntry` looks: its counter is an `int`. -/
def turns (count : Nat) : Nat := ((count : Int).bmod (2 ^ 32)).toNat

def getEntry (functions : KeyFunctions Key) (map : HashMap Key Value) (first : Nat) (key : Key)
    (keylen : Nat) : Option (Option Nat) :=
  getEntryLoop functions map key keylen (turns (map.counts first)) (map.links (some (.head first))).next

/-- A `size_t` that is handed on in an `int`, as `keylen` is to `Entry::initialize`. -/
def intParameter (size : Nat) : Nat := ((size : Int).bmod (2 ^ 32) % 2 ^ 64).toNat

/-- `insertEntry`, with the address `SourceHeap::malloc` returns: of a block that
is not in use. -/
def insertEntry (map : HashMap Key Value) (first : Nat) (key : Key) (keylen : Nat) (value : Value)
    (address : Nat) : Option (HashMap Key Value) :=
  if address = 0 ∨ 2 ^ 64 ≤ address ∨ (map.entries address).isSome then none
  else
    let links := nodeInit map.links (some (.entry address))
    some { map with
      entries := Function.update map.entries address (some ⟨key, intParameter keylen, value⟩)
      links := listInsertTail links (some (.entry address)) (some (.head first))
      counts := Function.update map.counts first ((map.counts first + 1) % 2 ^ 64) }

def find (functions : KeyFunctions Key) (map : HashMap Key Value) (key : Key) (keylen : Nat) :
    Option (Option Value) := do
  let first ← bucket functions map key keylen
  let entry ← getEntry functions map first key keylen
  return entry.bind fun address => (map.entries address).map Entry.value

def insert (functions : KeyFunctions Key) (map : HashMap Key Value) (key : Key) (keylen : Nat)
    (value : Value) (address : Nat) : Option (HashMap Key Value) := do
  let first ← bucket functions map key keylen
  map.insertEntry first key keylen value address

def insertIfAbsent (functions : KeyFunctions Key) (map : HashMap Key Value) (key : Key) (keylen : Nat)
    (value : Value) (address : Nat) : Option (Bool × HashMap Key Value) := do
  let first ← bucket functions map key keylen
  let entry ← getEntry functions map first key keylen
  match entry with
  | some _ => return (true, map)
  | none => do
    let map ← map.insertEntry first key keylen value address
    return (false, map)

/-- `entry->erase()` and `SourceHeap::free(entry)`. -/
def freeEntry (map : HashMap Key Value) (address : Nat) : HashMap Key Value :=
  { map with
    links := listRemoveNode map.links (some (.entry address))
    entries := Function.update map.entries address none }

/-- `first->count--`, of a `size_t`. -/
def decrement (map : HashMap Key Value) (first : Nat) : HashMap Key Value :=
  { map with counts := Function.update map.counts first ((map.counts first + (2 ^ 64 - 1)) % 2 ^ 64) }

def erase (functions : KeyFunctions Key) (map : HashMap Key Value) (key : Key) (keylen : Nat) :
    Option (Bool × HashMap Key Value) := do
  let first ← bucket functions map key keylen
  let entry ← getEntry functions map first key keylen
  match entry with
  | some address => return (true, (map.freeEntry address).decrement first)
  | none => return (false, map.decrement first)

/-- A call, with the address `SourceHeap::malloc` returns if it is called. -/
inductive Operation (Key Value : Type) where
  | insert (key : Key) (keylen : Nat) (value : Value) (address : Nat)
  | insertIfAbsent (key : Key) (keylen : Nat) (value : Value) (address : Nat)
  | find (key : Key) (keylen : Nat)
  | erase (key : Key) (keylen : Nat)
  deriving DecidableEq, Repr

/-- What a call returns; `find` also stores the value it has found. -/
inductive Result (Value : Type) where
  | done
  | isFound (found : Bool)
  | value (found : Option Value)
  deriving DecidableEq, Repr

def perform (functions : KeyFunctions Key) (map : HashMap Key Value) :
    Operation Key Value → Option (Result Value × HashMap Key Value)
  | .insert key keylen value address =>
    (insert functions map key keylen value address).map fun map => (.done, map)
  | .insertIfAbsent key keylen value address =>
    (insertIfAbsent functions map key keylen value address).map fun (found, map) => (.isFound found, map)
  | .find key keylen => (find functions map key keylen).map fun found => (.value found, map)
  | .erase key keylen => (erase functions map key keylen).map fun (found, map) => (.isFound found, map)

def step (functions : KeyFunctions Key) (map : HashMap Key Value) (operation : Operation Key Value) :
    Option (HashMap Key Value) := (perform functions map operation).map Prod.snd

end HashMap

end ProcessAsThread
