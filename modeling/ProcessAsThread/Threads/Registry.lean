import Mathlib.Data.List.Perm.Basic
import ProcessAsThread.Threads.Moves

/-! The list of active threads. `listInsertTail` sets its own copy of a NULL
head, so `_activeList` stays NULL and every entry is linked to itself alone. -/

namespace ProcessAsThread

open Library

/-- Following `next` from the head goes once through these nodes and back to the
first one, and `prev` goes the other way. -/
structure Ring {Node : Type} (memory : ListMemory Node) (head : Option Node) (nodes : List Node) :
    Prop where
  head : head = nodes.head?
  next : ∀ place < nodes.length, (memory nodes[place]?).next = nodes[(place + 1) % nodes.length]?
  prev : ∀ place < nodes.length, (memory nodes[(place + 1) % nodes.length]?).prev = nodes[place]?
  once : nodes.Nodup

/-- The entry of a thread that has executed `registerThread`, its critical
section included, and not yet `deleteRegisterThread`. -/
def Proc.activeEntry (proc : Proc) : Option Int :=
  match proc.pc with
  | .entered _ => none
  | _ => if proc.deleted then none else proc.registered

def activeEntries (state : State) : List Int := state.procs.filterMap Proc.activeEntry

/-- The registry lists the active threads, each once, and counts them. -/
structure RegistryExact (state : State) : Prop where
  lists : ∃ nodes, Ring state.shared.determ.links state.shared.determ.activeList nodes ∧
    nodes.Perm (activeEntries state)
  counts : state.shared.determ.alivethreads = (activeEntries state).length

/-- What every state of the registry has in common: an unset head and no thread counted. -/
structure Mydeterm.Unlinked (determ : Mydeterm) : Prop where
  head : determ.activeList = none
  count : determ.alivethreads = 0

theorem Mydeterm.Unlinked.setEntry {determ : Mydeterm} (unlinked : determ.Unlinked) (index : Int)
    (entry : Mydeterm.ThreadEntry) : (determ.setEntry index entry).Unlinked :=
  ⟨unlinked.head, unlinked.count⟩

/-- The assertion of `deleteRegisterThread` holds because the head is never set. -/
theorem Mydeterm.Unlinked.deletes {determ : Mydeterm} (unlinked : determ.Unlinked) (index : Int) :
    ∃ after, determ.deleteRegisterThread index = some after ∧ after.Unlinked := by
  refine ⟨_, by simp only [Mydeterm.deleteRegisterThread, unlinked.head]; rfl, ?_⟩
  unfold Mydeterm.freeThreadEntry
  refine Mydeterm.Unlinked.setEntry ?_ _ _
  split <;> exact ⟨rfl, by simp [unlinked.count]⟩

theorem Mydeterm.Unlinked.join {determ : Mydeterm} (unlinked : determ.Unlinked)
    (guestindex myindex : Int) : (determ.join guestindex myindex).2.Unlinked := by
  simp only [Mydeterm.join]
  split
  · exact unlinked.setEntry _ _
  · exact unlinked

theorem Moves.unlinked (moves : Moves shared proc op shared' proc' effect)
    (unlinked : shared.determ.Unlinked) : shared'.determ.Unlinked := by
  cases moves with
  | waitPasses | wakeChild | notify | insert | enter => exact ⟨unlinked.head, unlinked.count⟩
  | joinBlocks => exact unlinked.join _ _
  | record | storeRetval => cases status : proc.status <;> exact unlinked
  | deleteReturned pc deleted | deleteCalled pc deleted =>
    obtain ⟨after, succeeds, kept⟩ := unlinked.deletes proc.currentIndex
    cases deleted.symm.trans succeeds
    exact kept
  | _ => exact unlinked

theorem unlinked_of_reachable (reached : Reachable step initialState state) :
    state.shared.determ.Unlinked := by
  obtain ⟨history, run⟩ := reached
  induction run with
  | start => exact ⟨rfl, rfl⟩
  | next earlier taken unlinked =>
    cases step_cases taken with
    | foreign outside => exact unlinked.setEntry _ _
    | act found moves applied => exact moves.unlinked unlinked

end ProcessAsThread
