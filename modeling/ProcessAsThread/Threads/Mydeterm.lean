import ProcessAsThread.IntrusiveList

/-! The thread registry of mydeterm.h. It lives in one MAP_SHARED mapping, so
every thread-process works on the same copy. Each definition is one critical
section of `_mutex`, or the unlocked code before one. -/

namespace ProcessAsThread

/-- `MAX_THREADS` of mydeterm.h, the length of `_entries`. -/
def maxThreads : Int := 1024

namespace Mydeterm

/-- `enum threadStatus`. -/
inductive ThreadStatus where
  | condWaiting
  | barrWaiting
  | ready
  | exit
  | joining
  deriving DecidableEq, Repr

/-- `ThreadEntry` without its two links and its sync pointers, which nothing reads. -/
structure ThreadEntry where
  tid : Int
  threadindex : Int
  status : ThreadStatus
  tidParent : Int
  wait : Nat
  joineeThreadIndex : Int
  deriving DecidableEq, Repr

end Mydeterm

/-- The shared registry. `entries` and `links` are `_entries` split into its
fields and its list links; both are read at any `int`, since the code checks no
index. A cell outside `[0, MAX_THREADS)` is memory the registry does not own. -/
structure Mydeterm where
  childregistered : Bool
  activeList : Option Int
  links : ListMemory Int
  entries : Int → Mydeterm.ThreadEntry
  alivethreads : Nat

namespace Mydeterm

/-- `_entries[threadindex]` is inside the table. -/
def InTable (threadindex : Int) : Prop := 0 ≤ threadindex ∧ threadindex < maxThreads

instance (threadindex : Int) : Decidable (InTable threadindex) :=
  inferInstanceAs (Decidable (_ ∧ _))

/-- The constructor, run on zero-filled pages. -/
def new : Mydeterm where
  childregistered := false
  activeList := none
  links := fun _ => ⟨none, none⟩
  entries := fun _ => ⟨0, 0, .condWaiting, 0, 0, 0⟩
  alivethreads := 0

def setEntry (determ : Mydeterm) (threadindex : Int) (entry : ThreadEntry) : Mydeterm :=
  { determ with entries := Function.update determ.entries threadindex entry }

/-- `registerThread` up to `lock()`: the entry is built in place and marked
ready before the lock is taken. -/
def registerThread (determ : Mydeterm) (threadindex pid parentindex : Int) : Mydeterm :=
  let entry := { determ.entries threadindex with
    tid := pid, threadindex := threadindex, wait := 0, tidParent := parentindex, status := .ready }
  let links := Function.update determ.links (some threadindex) ⟨none, none⟩
  { determ with links := links }.setEntry threadindex entry

/-- The critical section of `registerThread`. -/
def insertActive (determ : Mydeterm) (threadindex : Int) : Mydeterm :=
  { determ with links := listInsertTail determ.links (some threadindex) determ.activeList }

def freeThreadEntry (determ : Mydeterm) (threadindex : Int) : Mydeterm :=
  determ.setEntry threadindex { determ.entries threadindex with status := .exit }

/-- The critical section of `deleteRegisterThread`, after its broadcast on
`_cond_join`. `none` is the failed assertion on `_activeList`. -/
def deleteRegisterThread (determ : Mydeterm) (threadindex : Int) : Option Mydeterm :=
  let entry := some threadindex
  let determ := { determ with
    alivethreads := if determ.alivethreads > 0 then determ.alivethreads - 1 else determ.alivethreads }
  if determ.activeList.isSome then none
  else
    let determ := if (determ.links entry).next = (determ.links entry).prev
      then { determ with activeList := none }
      else { determ with links := listRemoveNode determ.links entry }
    some (determ.freeThreadEntry threadindex)

/-- The critical section of `waitParentNotify`, before its signal on `_cond_parent`. -/
def waitParentNotify (determ : Mydeterm) : Mydeterm := { determ with childregistered := true }

/-- `waitChildRegistered` up to its wait: whether it passes, and the registry then. -/
def waitChildRegistered (determ : Mydeterm) : Bool × Mydeterm :=
  if determ.childregistered then (true, { determ with childregistered := false })
  else (false, determ)

/-- `waitChildRegistered` after its wait has returned; the flag is not read again. -/
def childRegisteredWoken (determ : Mydeterm) : Mydeterm := { determ with childregistered := false }

/-- `join` up to its wait: whether it waits, and the registry then. The second
test of the joinee's status reads it after `myentry` has been written. -/
def join (determ : Mydeterm) (guestindex myindex : Int) : Bool × Mydeterm :=
  let myentry := { determ.entries myindex with status := .joining, joineeThreadIndex := guestindex }
  let marked := if (determ.entries guestindex).status ≠ .exit then determ.setEntry myindex myentry
    else determ
  (decide ((marked.entries guestindex).status ≠ .exit), marked)

end Mydeterm

end ProcessAsThread
