import Mathlib.Logic.Function.Basic

/-! The circular intrusive lists of list.h. A pointer is `none` for NULL; a
memory gives every node its two links. -/

namespace ProcessAsThread

/-- `list_t`. -/
structure ListNode (Node : Type) where
  prev : Option Node
  next : Option Node
  deriving DecidableEq, Repr

abbrev ListMemory (Node : Type) := Option Node → ListNode Node

variable {Node : Type} [DecidableEq Node]

def ListMemory.setNext (memory : ListMemory Node) (node value : Option Node) : ListMemory Node :=
  Function.update memory node { memory node with next := value }

def ListMemory.setPrev (memory : ListMemory Node) (node value : Option Node) : ListMemory Node :=
  Function.update memory node { memory node with prev := value }

/-- `node->next = node->prev = node`. -/
def nodeInit (memory : ListMemory Node) (node : Option Node) : ListMemory Node :=
  (memory.setPrev node node).setNext node node

def isListEmpty (memory : ListMemory Node) (head : Option Node) : Bool := (memory head).next == head

/-- `__insert_between`. -/
def insertBetween (memory : ListMemory Node) (node prev next : Option Node) : ListMemory Node :=
  (((memory.setNext node next).setPrev node prev).setNext prev node).setPrev next node

def listInsertNode (memory : ListMemory Node) (node prev : Option Node) : ListMemory Node :=
  insertBetween memory node prev (memory prev).next

/-- With a NULL head the node becomes a ring of its own; the head is passed by
value, so the caller's pointer stays NULL. -/
def listInsertTail (memory : ListMemory Node) (node head : Option Node) : ListMemory Node :=
  match head with
  | none => (memory.setNext node node).setPrev node node
  | some _ => insertBetween memory node (memory head).prev head

def listInsertHead (memory : ListMemory Node) (node head : Option Node) : ListMemory Node :=
  insertBetween memory node head (memory head).next

/-- `__list_link`. -/
def listLink (memory : ListMemory Node) (prev next : Option Node) : ListMemory Node :=
  (memory.setNext prev next).setPrev next prev

/-- The second link reads what the first one has written. -/
def listInsertList (memory : ListMemory Node) (list where_ : Option Node) : ListMemory Node :=
  let memory := listLink memory where_ list
  listLink memory (memory list).prev (memory where_).next

def listInsertListTail (memory : ListMemory Node) (list where_ : Option Node) : ListMemory Node :=
  let memory := listLink memory (memory where_).prev (memory list).next
  listLink memory (memory list).prev where_

def listRemoveNode (memory : ListMemory Node) (node : Option Node) : ListMemory Node :=
  nodeInit (listLink memory (memory node).prev (memory node).next) node

def isListTail (memory : ListMemory Node) (node head : Option Node) : Bool := (memory node).next == head

/-- The item, or NULL. -/
def listRetrieveItem (memory : ListMemory Node) (list : Option Node) : Option Node × ListMemory Node :=
  if isListEmpty memory list then (none, memory)
  else
    let first := (memory list).next
    (first, listRemoveNode memory first)

def listRetrieveAllItems (memory : ListMemory Node) (dest src : Option Node) : ListMemory Node :=
  let first := (memory src).next
  let last := (memory src).prev
  let memory := (((memory.setPrev first dest).setNext last dest).setNext dest first).setPrev dest last
  nodeInit memory src

end ProcessAsThread
