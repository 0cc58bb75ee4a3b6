import Beemu.Command
import Beemu.Lib.Segment

/-!
# The linked command queue

The heap gives each live block its contents. The queue is a record of two pointers in it, a
chain of nodes, and for every node a command of its own. What `malloc` returns is an argument
of the functions that call it.
-/

namespace Beemu

/-- A pointer, 0 is the null pointer. -/
abbrev Address := Nat

/-- A node of the chain, with the addresses of its command and of the next node. -/
structure QueueNode where
  current : Address
  next : Address
  deriving DecidableEq, Repr

/-- The ends of the chain, both null when it is empty. -/
structure QueueRecord where
  first : Address
  last : Address
  deriving DecidableEq, Repr

/-- The contents of a block, `raw` before anything is stored in it. -/
inductive Block where
  | raw : Block
  | command : MachineCommand → Block
  | node : QueueNode → Block
  | queue : QueueRecord → Block
  deriving DecidableEq, Repr

/-- The blocks that are live. Nothing lies at the null pointer. -/
structure Heap where
  blocks : Address → Option Block
  null_free : blocks 0 = none

namespace Heap

def empty : Heap := ⟨fun _ => none, rfl⟩

/-- Another content of the block at `a`, or none. -/
def update (heap : Heap) (a : Address) (b : Option Block) : Heap where
  blocks x := if x = a ∧ x ≠ 0 then b else heap.blocks x
  null_free := by
    rw [if_neg (by simp), heap.null_free]

variable (heap : Heap) (a : Address)

def commandAt : Option MachineCommand :=
  match heap.blocks a with
  | some (.command c) => some c
  | _ => none

def nodeAt : Option QueueNode :=
  match heap.blocks a with
  | some (.node n) => some n
  | _ => none

def queueAt : Option QueueRecord :=
  match heap.blocks a with
  | some (.queue r) => some r
  | _ => none

/-- The next pointer of the node at an address. -/
def next? : Option Address := (heap.nodeAt a).map QueueNode.next

/-- `malloc` that returns `a`. -/
def malloc : Heap := heap.update a (some .raw)

def free : Checked Heap :=
  match heap.blocks a with
  | some _ => .ok (heap.update a none)
  | none => .error .badPointer

def store (b : Block) : Checked Heap :=
  match heap.blocks a with
  | some _ => .ok (heap.update a (some b))
  | none => .error .badPointer

def readCommand : Checked MachineCommand :=
  match heap.commandAt a with
  | some c => .ok c
  | none => .error .badPointer

def readNode : Checked QueueNode :=
  match heap.nodeAt a with
  | some n => .ok n
  | none => .error .badPointer

def readQueue : Checked QueueRecord :=
  match heap.queueAt a with
  | some r => .ok r
  | none => .error .badPointer

/-- A block that `malloc` may return. -/
def Fresh : Prop := a ≠ 0 ∧ heap.blocks a = none

section Lemmas

variable {heap : Heap} {a x : Address} {b : Option Block} {old new : Block}

@[simp] theorem update_self (h : a ≠ 0) : (heap.update a b).blocks a = b :=
  if_pos ⟨rfl, h⟩

@[simp] theorem update_of_ne (h : x ≠ a) : (heap.update a b).blocks x = heap.blocks x :=
  if_neg fun hx => h hx.1

theorem ne_zero_of_live (h : heap.blocks a = some old) : a ≠ 0 := by
  rintro rfl
  rw [heap.null_free] at h
  cases h

theorem ne_of_blocks {u v : Option Block} (hx : heap.blocks x = u) (ha : heap.blocks a = v)
    (h : u ≠ v) : x ≠ a := by
  rintro rfl
  exact h (hx.symm.trans ha)

theorem commandAt_eq_some_iff {c : MachineCommand} :
    heap.commandAt a = some c ↔ heap.blocks a = some (.command c) := by
  unfold commandAt
  split <;> simp_all

theorem nodeAt_eq_some_iff {n : QueueNode} :
    heap.nodeAt a = some n ↔ heap.blocks a = some (.node n) := by
  unfold nodeAt
  split <;> simp_all

theorem queueAt_eq_some_iff {r : QueueRecord} :
    heap.queueAt a = some r ↔ heap.blocks a = some (.queue r) := by
  unfold queueAt
  split <;> simp_all

theorem store_live (h : heap.blocks a = some old) :
    heap.store a new = .ok (heap.update a (some new)) := by
  rw [store, h]

theorem free_live (h : heap.blocks a = some old) : heap.free a = .ok (heap.update a none) := by
  rw [free, h]

theorem readCommand_live {c : MachineCommand} (h : heap.blocks a = some (.command c)) :
    heap.readCommand a = .ok c := by
  rw [readCommand, commandAt_eq_some_iff.2 h]

theorem readNode_live {n : QueueNode} (h : heap.blocks a = some (.node n)) :
    heap.readNode a = .ok n := by
  rw [readNode, nodeAt_eq_some_iff.2 h]

theorem readQueue_live {r : QueueRecord} (h : heap.blocks a = some (.queue r)) :
    heap.readQueue a = .ok r := by
  rw [readQueue, queueAt_eq_some_iff.2 h]

theorem next?_eq_some {n : QueueNode} (h : heap.blocks a = some (.node n)) :
    heap.next? a = some n.next := by
  rw [next?, nodeAt_eq_some_iff.2 h]
  rfl

theorem next?_congr {other : Heap} (h : other.blocks a = heap.blocks a) :
    other.next? a = heap.next? a := by
  rw [next?, next?, nodeAt, nodeAt, h]

end Lemmas

end Heap

section Functions

variable (heap : Heap) (queue : Address)

/-- `beemu_command_queue_new`, where `malloc` returns `queue`. -/
def commandQueueNew : Checked Heap :=
  (heap.malloc queue).store queue (.queue ⟨0, 0⟩)

/-- A queue is empty when it has no first node. -/
def commandQueueIsEmpty : Checked Bool := do
  let record ← heap.readQueue queue
  .ok (record.first = 0)

/-- The last part of an enqueue, which puts the new node behind the last one. -/
def linkNode (node : Address) : Checked Heap := do
  let empty ← commandQueueIsEmpty heap queue
  let record ← heap.readQueue queue
  if empty then
    heap.store queue (.queue { record with first := node, last := node })
  else do
    let lastNode ← heap.readNode record.last
    let heap ← heap.store record.last (.node { lastNode with next := node })
    let record ← heap.readQueue queue
    heap.store queue (.queue { record with last := node })

/-- Both blocks are allocated before anything is stored. The queue keeps a copy of the command, made
at the time of the call. -/
def commandQueueEnqueue (command commandCpy node : Address) : Checked Heap := do
  let heap := (heap.malloc commandCpy).malloc node
  -- both fields of `node`, next and current
  let heap ← heap.store node (.node ⟨commandCpy, 0⟩)
  let value ← heap.readCommand command
  let heap ← heap.store commandCpy (.command value)
  linkNode heap queue node

/-- The first node is freed and its command handed to the caller. The last pointer is cleared with
the last node. -/
def commandQueueDequeue : Checked (Heap × Address) := do
  let record ← heap.readQueue queue
  if record.first = 0 then .ok (heap, 0)
  else do
    let firstNode ← heap.readNode record.first
    let firstCommand := firstNode.current
    let heap ← heap.store queue (.queue { record with first := firstNode.next })
    let heap ← heap.free record.first
    let empty ← commandQueueIsEmpty heap queue
    if empty then do
      let record ← heap.readQueue queue
      let heap ← heap.store queue (.queue { record with last := 0 })
      .ok (heap, firstCommand)
    else .ok (heap, firstCommand)

/-- The first command, which stays the property of the queue. -/
def commandQueuePeek : Checked Address := do
  let record ← heap.readQueue queue
  if record.first = 0 then .ok 0
  else do
    let firstNode ← heap.readNode record.first
    .ok firstNode.current

end Functions

end Beemu
