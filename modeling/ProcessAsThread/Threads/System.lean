import Mathlib.Algebra.Ring.Nat
import Mathlib.Algebra.Ring.Int.Defs
import ProcessAsThread.Library.Run
import ProcessAsThread.Threads.Mydeterm

/-! The thread-processes of mythread.cpp, myrun.h and the pthread entry points of
libmythread.cpp as one step function. A step is one access to shared memory or
one critical section of `_mutex`; a wait on a condition variable lies between
two steps. The condition variables wake nobody spuriously. -/

namespace ProcessAsThread

open Library

abbrev Pid := Nat
abbrev Page := Nat
abbrev Address := Nat
abbrev Value := Nat

def toInt (value : Nat) : Int := (value : Int).bmod (2 ^ 32)

def toUnsignedLong (value : Int) : Nat := (value % 2 ^ 64).toNat

def IsInt (value : Int) : Prop := -2 ^ 31 ≤ value ∧ value < 2 ^ 31

instance (value : Int) : Decidable (IsInt value) := inferInstanceAs (Decidable (_ ∧ _))

/-- `mythread::ThreadStatus`, on a page of its own. `releases` counts the calls
of `freeSharedObject` on the page. -/
structure Mythread.ThreadStatus where
  tid : Int
  threadIndex : Int
  retval : Value
  releases : Nat
  deriving DecidableEq, Repr

/-- A page as mmap hands it out: the constructor of `ThreadStatus` sets nothing. -/
def Mythread.ThreadStatus.fresh : Mythread.ThreadStatus := ⟨0, 0, 0, 0⟩

/-- The `pthread_t` of a thread: the address of its page in the creator, and the
page itself, which a process only finds through its own address space. -/
structure Handle where
  page : Page
  address : Address
  deriving DecidableEq, Repr

/-- Where a process is. The states of one call are listed together. -/
inductive Pc where
  | running
  -- pthread_create, up to the clone
  | counting
  | spawning
  | allocating (parentIndex : Int)
  | cloning (parentIndex : Int) (handle : Handle)
  -- waitChildRegistered in the parent
  | awaiting (handle : Handle)
  | awaitingCond (handle : Handle)
  | awaitingWoken (handle : Handle)
  -- the child branch of forkSpawn
  | starting
  | incremented (old : Nat)
  | indexed
  | entered (threadindex : Int)
  | inserted
  | recorded (threadindex : Int)
  | overwritten
  | notified
  -- pthread_join
  | joinCalled (handle : Handle) (val : Option Value)
  | joinRead (page : Page) (guestindex : Int) (val : Option Value)
  | joinCond (page : Page) (val : Option Value)
  | joinWoken (page : Page) (val : Option Value)
  -- the two ways to end
  | returned (result : Value)
  | deregistered (result : Value)
  | stored
  | exiting
  | exitCalled
  | quitting
  | exited
  | crashed
  deriving DecidableEq, Repr

/-- A thread-process. The last five fields are history the code does not keep:
the value its increment returned, the index `registerThread` was called with,
the result of `childRegister`, the result of its start routine, and whether it
has executed `deleteChildRegister`. -/
structure Proc where
  pc : Pc
  pid : Int
  /-- `*(global_data->current_index)`, in a MAP_PRIVATE page. -/
  currentIndex : Int
  /-- The `ThreadStatus` pages mapped in this address space. -/
  space : List (Address × Page)
  /-- The page `forkSpawn` gave this process; the main thread has none. -/
  status : Option Page
  parentIndex : Int
  allocated : Option Nat
  registered : Option Int
  childRegister : Option Int
  result : Option Value
  deleted : Bool
  deriving DecidableEq, Repr

def Proc.goto (proc : Proc) (pc : Pc) : Proc := { proc with pc := pc }

/-- The static members of `myrun`, one copy for all processes. -/
structure Myrun where
  threadIndex : Nat
  childrenThreadsCount : Nat
  lockCount : Nat
  deriving DecidableEq, Repr

/-- A returned `pthread_join`: the page of the thread whose handle it was called
with, and what the caller's result variable holds, `none` for a NULL pointer. -/
structure JoinRecord where
  page : Page
  val : Option Value
  deriving DecidableEq, Repr

/-- What all processes share. `spawned` and `joins` are history: the handles
`forkSpawn` has returned and the joins that have returned. -/
structure Shared where
  initialized : Bool
  /-- `global_data->thread_index`. -/
  threadIndex : Nat
  myrun : Myrun
  nestingLevel : Nat
  determ : Mydeterm
  pages : List Mythread.ThreadStatus
  spawned : List Handle
  joins : List JoinRecord

def Shared.setPage (shared : Shared) (page : Option Page)
    (change : Mythread.ThreadStatus → Mythread.ThreadStatus) : Shared :=
  match page with
  | none => shared
  | some page => { shared with pages := shared.pages.modify page change }

/-- A process forked by `SYS_clone` without CLONE_VM: a copy of the private page
and of the mappings. -/
def Proc.forked (parent : Proc) (parentIndex : Int) (page : Page) (pid : Int) : Proc where
  pc := .starting
  pid := pid
  currentIndex := parent.currentIndex
  space := parent.space
  status := some page
  parentIndex := parentIndex
  allocated := none
  registered := none
  childRegister := none
  result := none
  deleted := false

/-- A step of one process, with the choices the code or the kernel makes in it. -/
inductive Op where
  -- calls made by client code
  | create
  | join (handle : Handle) (val : Option Value)
  | exitThread
  | returnRoutine (result : Value)
  | callExit
  | callAbort
  -- inside pthread_create
  | countChild
  | readIndex
  | allocate (address : Address)
  | clone (child : Option Int)
  | waitChild
  | wakeChild
  -- inside the child branch of forkSpawn
  | increment
  | storeIndex
  | enter
  | insert
  | record (childRegister : Int)
  | overwrite
  | notify (woken : Option Pid)
  | nest
  -- inside pthread_join
  | readHandle
  | enterJoin
  | leaveJoin
  -- inside the two endings
  | deleteRegister
  | storeRetval
  | unnest
  | exit
  | quit
  deriving DecidableEq, Repr

/-- What a step does to the other processes. -/
inductive Effect where
  | quiet
  | broadcastJoin
  | signalParent (woken : Option Pid)
  | fork (child : Proc)

def localStep (shared : Shared) (proc : Proc) : Op → Option (Shared × Proc × Effect)
  | .create => match proc.pc with
    | .running => some (shared, proc.goto (if shared.initialized then .counting else .running), .quiet)
    | _ => none
  -- the `++` and `--` of the static counters, which nothing reads, are one step
  -- each, though two processes that race in one of them may lose a count
  | .countChild => match proc.pc with
    | .counting =>
      let count := (shared.myrun.childrenThreadsCount + 1) % 2 ^ 64
      some ({ shared with myrun := { shared.myrun with childrenThreadsCount := count } },
        proc.goto .spawning, .quiet)
    | _ => none
  | .readIndex => match proc.pc with
    | .spawning => some (shared, proc.goto (.allocating (toInt shared.myrun.threadIndex)), .quiet)
    | _ => none
  | .allocate address => match proc.pc with
    | .allocating parentIndex =>
      if (proc.space.lookup address).isSome then none
      else
        let page := shared.pages.length
        some ({ shared with pages := shared.pages ++ [.fresh] },
          { proc with pc := .cloning parentIndex ⟨page, address⟩, space := (address, page) :: proc.space },
          .quiet)
    | _ => none
  -- a clone that fails returns -1, which forkSpawn sends to the parent branch
  | .clone child => match proc.pc with
    | .cloning parentIndex handle =>
      some (shared, proc.goto (.awaiting handle), match child with
        | none => .quiet
        | some pid => .fork (proc.forked parentIndex handle.page pid))
    | _ => none
  | .waitChild => match proc.pc with
    | .awaiting handle =>
      let (passes, determ) := shared.determ.waitChildRegistered
      if passes then
        some ({ shared with determ := determ, spawned := handle :: shared.spawned },
          proc.goto .running, .quiet)
      else some ({ shared with determ := determ }, proc.goto (.awaitingCond handle), .quiet)
    | _ => none
  | .wakeChild => match proc.pc with
    | .awaitingWoken handle =>
      some ({ shared with
          determ := shared.determ.childRegisteredWoken
          spawned := handle :: shared.spawned }, proc.goto .running, .quiet)
    | _ => none
  -- childRegister: the atomic increment, the store of its result, and the read
  -- of the static again as the argument of registerThread
  | .increment => match proc.pc with
    | .starting =>
      some ({ shared with threadIndex := (shared.threadIndex + 1) % 2 ^ 64 },
        { proc with pc := .incremented shared.threadIndex, allocated := some shared.threadIndex }, .quiet)
    | _ => none
  | .storeIndex => match proc.pc with
    | .incremented old =>
      some ({ shared with myrun := { shared.myrun with threadIndex := old, lockCount := 0 } },
        proc.goto .indexed, .quiet)
    | _ => none
  | .enter => match proc.pc with
    | .indexed =>
      let threadindex := toInt shared.myrun.threadIndex
      some ({ shared with determ := shared.determ.registerThread threadindex proc.pid proc.parentIndex },
        { proc with pc := .entered threadindex, registered := some threadindex }, .quiet)
    | _ => none
  | .insert => match proc.pc with
    | .entered threadindex =>
      some ({ shared with determ := shared.determ.insertActive threadindex }, proc.goto .inserted, .quiet)
    | _ => none
  -- childRegister has no return statement: its result is any int
  | .record childRegister => match proc.pc with
    | .inserted =>
      if IsInt childRegister then
        some (shared.setPage proc.status fun status =>
            { status with threadIndex := childRegister, tid := proc.pid },
          { proc with pc := .recorded childRegister, childRegister := some childRegister }, .quiet)
      else none
    | _ => none
  | .overwrite => match proc.pc with
    | .recorded threadindex =>
      some ({ shared with threadIndex := toUnsignedLong threadindex }, proc.goto .overwritten, .quiet)
    | _ => none
  | .notify woken => match proc.pc with
    | .overwritten =>
      some ({ shared with determ := shared.determ.waitParentNotify }, proc.goto .notified,
        .signalParent woken)
    | _ => none
  | .nest => match proc.pc with
    | .notified =>
      some ({ shared with nestingLevel := (shared.nestingLevel + 1) % 2 ^ 32 }, proc.goto .running, .quiet)
    | _ => none
  -- client code has the handles that pthread_create has returned, to any process
  | .join handle val => match proc.pc with
    | .running =>
      if handle ∉ shared.spawned then none
      else if shared.initialized then some (shared, proc.goto (.joinCalled handle val), .quiet)
      else some ({ shared with joins := ⟨handle.page, val⟩ :: shared.joins }, proc, .quiet)
    | _ => none
  | .readHandle => match proc.pc with
    | .joinCalled handle val => match proc.space.lookup handle.address with
      | none => some (shared, proc.goto .crashed, .quiet)
      | some mapped =>
        let guestindex := (shared.pages.getD mapped .fresh).threadIndex
        some (shared, proc.goto (.joinRead handle.page guestindex val), .quiet)
    | _ => none
  | .enterJoin => match proc.pc with
    | .joinRead page guestindex val =>
      let (waits, determ) := shared.determ.join guestindex proc.currentIndex
      if waits then some ({ shared with determ := determ }, proc.goto (.joinCond page val), .quiet)
      else some ({ shared with determ := determ, joins := ⟨page, val⟩ :: shared.joins },
        proc.goto .running, .quiet)
    | _ => none
  | .leaveJoin => match proc.pc with
    | .joinWoken page val =>
      some ({ shared with joins := ⟨page, val⟩ :: shared.joins }, proc.goto .running, .quiet)
    | _ => none
  | .exitThread => match proc.pc with
    | .running => some (shared, proc.goto (if shared.initialized then .exitCalled else .quitting), .quiet)
    | _ => none
  | .returnRoutine result => match proc.pc, proc.status with
    | .running, some _ => some (shared, { proc with pc := .returned result, result := some result }, .quiet)
    | _, _ => none
  -- exit in client code, where main ends so, and in xheap::malloc out of memory
  | .callExit => match proc.pc with
    | .running => some (shared, proc.goto .exiting, .quiet)
    | _ => none
  -- abort in client code or in an allocation, which runs no destructor
  | .callAbort => match proc.pc with
    | .running => some (shared, proc.goto .crashed, .quiet)
    | _ => none
  -- deleteChildRegister, from run_thread or from pthread_exit
  | .deleteRegister => match proc.pc with
    | .returned result => do
      let determ ← shared.determ.deleteRegisterThread proc.currentIndex
      return ({ shared with determ := determ },
        { proc with pc := .deregistered result, deleted := true }, .broadcastJoin)
    | .exitCalled => do
      let determ ← shared.determ.deleteRegisterThread proc.currentIndex
      return ({ shared with determ := determ },
        { proc with pc := .quitting, deleted := true }, .broadcastJoin)
    | _ => none
  | .storeRetval => match proc.pc with
    | .deregistered result =>
      some (shared.setPage proc.status fun status => { status with retval := result },
        proc.goto .stored, .quiet)
    | _ => none
  | .unnest => match proc.pc with
    | .stored =>
      some ({ shared with nestingLevel := (shared.nestingLevel + (2 ^ 32 - 1)) % 2 ^ 32 },
        proc.goto .exiting, .quiet)
    | _ => none
  -- exit runs the destructor finalize
  | .exit => match proc.pc with
    | .exiting => some ({ shared with initialized := false }, proc.goto .exited, .quiet)
    | _ => none
  | .quit => match proc.pc with
    | .quitting => some (shared, proc.goto .exited, .quiet)
    | _ => none

/-- `pthread_cond_broadcast(&_cond_join)` for one process. -/
def Proc.wakeJoin (proc : Proc) : Proc :=
  match proc.pc with
  | .joinCond page val => proc.goto (.joinWoken page val)
  | _ => proc

/-- `pthread_cond_signal(&_cond_parent)` for the process it wakes. -/
def Proc.wakeParent (proc : Proc) : Proc :=
  match proc.pc with
  | .awaitingCond handle => proc.goto (.awaitingWoken handle)
  | _ => proc

def Pc.waitsParent : Pc → Bool
  | .awaitingCond _ => true
  | _ => false

/-- A signal wakes one waiter if there is any. -/
def Effect.apply (procs : List Proc) : Effect → Option (List Proc)
  | .quiet => some procs
  | .broadcastJoin => some (procs.map Proc.wakeJoin)
  | .signalParent none => if procs.any (·.pc.waitsParent) then none else some procs
  | .signalParent (some woken) =>
    if (procs[woken]?.map (·.pc.waitsParent)) = some true then some (procs.modify woken Proc.wakeParent)
    else none
  | .fork child => some (procs ++ [child])

/-- A process is named by its place in the table; the main thread is process 0. -/
structure State where
  shared : Shared
  procs : List Proc

/-- A step of a process, or a write by anybody to memory outside `_entries`. -/
inductive Action where
  | act (pid : Pid) (op : Op)
  | foreign (threadindex : Int) (entry : Mydeterm.ThreadEntry)
  deriving DecidableEq, Repr

def step (state : State) : Action → Option State
  | .act pid op => do
    let proc ← state.procs[pid]?
    let (shared, proc, effect) ← localStep state.shared proc op
    let procs ← effect.apply (state.procs.set pid proc)
    return ⟨shared, procs⟩
  | .foreign threadindex entry =>
    if Mydeterm.InTable threadindex then none
    else
      let determ := state.shared.determ.setEntry threadindex entry
      some { state with shared := { state.shared with determ := determ } }

def mainProc : Proc where
  pc := .running
  pid := 0
  currentIndex := 0
  space := []
  status := none
  parentIndex := 0
  allocated := none
  registered := none
  childRegister := none
  result := none
  deleted := false

/-- The state at the end of the constructor. -/
def initialState : State where
  shared :=
    { initialized := true
      threadIndex := 1
      myrun := ⟨0, 0, 0⟩
      nestingLevel := 0
      determ := .new
      pages := []
      spawned := []
      joins := [] }
  procs := [mainProc]

/-- A `pthread_create` with which nothing interleaves, to its return in the
parent and to the start routine in the child. -/
def createActions (parent child : Pid) (address : Address) (childRegister : Int) : List Action :=
  [.create, .countChild, .readIndex, .allocate address, .clone (some 0)].map (.act parent) ++
  [.increment, .storeIndex, .enter, .insert, .record childRegister, .overwrite, .notify none].map
    (.act child) ++
  [.act parent .waitChild, .act child .nest]

/-- A start routine that returns, to the exit of its process. -/
def returnActions (child : Pid) (result : Value) : List Action :=
  [.returnRoutine result, .deleteRegister, .storeRetval, .unnest, .exit].map (.act child)

/-- A thread that calls `pthread_exit`, to the exit of its process. -/
def exitActions (child : Pid) : List Action :=
  [.exitThread, .deleteRegister, .quit].map (.act child)

/-- A `pthread_join` up to its wait or its return. -/
def joinActions (joiner : Pid) (handle : Handle) (val : Option Value) : List Action :=
  [.join handle val, .readHandle, .enterJoin].map (.act joiner)

end ProcessAsThread
