import Beemu.Queue.Chain

/-!
# The linked queue is a list of commands

Every call of the queue does to the commands on its chain what a first in, first out list
does. Between the calls the heap may change in any way that leaves the queue's own blocks
alone.
-/

namespace Beemu

open Linked (Segment)

/-- The representation invariant of a queue that holds a list of commands. -/
def ChainHolds (heap : Heap) (queue : Address) (items : CommandQueue) : Prop :=
  ∃ first last nodes, heap.queueAt queue = some ⟨first, last⟩ ∧ (first = 0 ↔ last = 0) ∧
    Segment heap.next? first nodes 0 ∧
    nodes.map (fun a => (heap.nodeAt a).bind fun n => heap.commandAt n.current) =
      items.map some ∧
    nodes.getLastD 0 = last ∧ (last ≠ 0 → heap.next? last = some 0)

theorem Represents.chainHolds {heap : Heap} {queue : Address} {nodes copies : List Address}
    {items : CommandQueue} (h : Represents heap queue nodes copies items) :
    ChainHolds heap queue items := by
  refine ⟨_, _, nodes, Heap.queueAt_eq_some_iff.2 h.record, ?_, h.chain, ?_, rfl, ?_⟩
  · rw [h.first_eq_zero_iff, h.last_eq_zero_iff]
  · calc nodes.map (fun a => (heap.nodeAt a).bind fun n => heap.commandAt n.current)
        = (nodes.map fun a => (heap.nodeAt a).map QueueNode.current).map
            (·.bind heap.commandAt) := by
          simp [Option.bind_map, Function.comp_def]
      _ = items.map some := by
          rw [h.currents, ← h.commands]
          simp
  · intro h0
    rcases List.eq_nil_or_concat nodes with rfl | ⟨ns, l, rfl⟩
    · exact absurd rfl h0
    · have hs := h.chain
      rw [List.concat_eq_append] at hs ⊢
      rw [List.getLastD_concat]
      exact (Segment.concat_iff.1 hs).2

/-- A call of the queue, or what the rest of the program does to the heap in between. An
enqueue comes with the two pointers that `malloc` returns in it. -/
inductive QueueCall where
  | isEmpty : QueueCall
  | enqueue : Address → Address → Address → QueueCall
  | dequeue : QueueCall
  | peek : QueueCall
  | outside : Heap → QueueCall

inductive Reply where
  | void : Reply
  | bool : Bool → Reply
  | pointer : Address → Reply
  deriving DecidableEq, Repr

namespace QueueCall

def exec (queue : Address) (heap : Heap) : QueueCall → Checked (Heap × Reply)
  | .isEmpty => do
    let empty ← commandQueueIsEmpty heap queue
    .ok (heap, .bool empty)
  | .enqueue command commandCpy node => do
    let heap ← commandQueueEnqueue heap queue command commandCpy node
    .ok (heap, .void)
  | .dequeue => do
    let (heap, p) ← commandQueueDequeue heap queue
    .ok (heap, .pointer p)
  | .peek => do
    let p ← commandQueuePeek heap queue
    .ok (heap, .pointer p)
  | .outside next => .ok (next, .void)

/-- `malloc` returns two new blocks, an enqueue is given a command, and the rest of the
program keeps away from the blocks of the queue. -/
def Allowed (queue : Address) (heap : Heap) : QueueCall → Prop
  | .enqueue command commandCpy node => heap.commandAt command ≠ none ∧
      heap.Fresh commandCpy ∧ heap.Fresh node ∧ commandCpy ≠ node
  | .outside next => ∀ a, Owns heap queue a → next.blocks a = heap.blocks a
  | _ => True

/-- A pointer to the oldest command of a list, null exactly when there is none. -/
def PointsToOldest (heap : Heap) (items : CommandQueue) (p : Address) : Prop :=
  heap.commandAt p = items.head? ∧ (p = 0 ↔ items = [])

/-- What a call returns and leaves, as a first in, first out list has it. -/
def Answers (queue : Address) (heap heap' : Heap) (reply : Reply)
    (items items' : CommandQueue) : QueueCall → Prop
  | .isEmpty => reply = .bool (decide (items = [])) ∧ heap' = heap ∧ items' = items
  | .enqueue command _ _ => reply = .void ∧
      ∃ c, heap.commandAt command = some c ∧ items' = Beemu.enqueue items c
  | .dequeue => (∃ p, reply = .pointer p ∧ PointsToOldest heap' items p ∧
      ¬ Owns heap' queue p) ∧ items' = items.tail
  | .peek => (∃ p, reply = .pointer p ∧ PointsToOldest heap items p) ∧
      heap' = heap ∧ items' = items
  | .outside next => reply = .void ∧ heap' = next ∧ items' = items

end QueueCall

/-- Each call of a list is allowed in the heap that the calls before it leave. -/
def Legal (queue : Address) : Heap → List QueueCall → Prop
  | _, [] => True
  | heap, call :: calls => call.Allowed queue heap ∧
      ∀ heap' reply, call.exec queue heap = .ok (heap', reply) → Legal queue heap' calls

/-- Calls made in turn all return, answer as the list of commands does, and keep the chain. -/
def FollowsFifo (queue : Address) : Heap → CommandQueue → List QueueCall → Prop
  | heap, items, [] => ChainHolds heap queue items
  | heap, items, call :: calls => ChainHolds heap queue items ∧ ∃ heap' reply items',
      call.exec queue heap = .ok (heap', reply) ∧
      call.Answers queue heap heap' reply items items' ∧
      FollowsFifo queue heap' items' calls

theorem QueueCall.exec_spec {heap : Heap} {queue : Address} {nodes copies : List Address}
    {items : CommandQueue} (h : Represents heap queue nodes copies items) (call : QueueCall)
    (ha : call.Allowed queue heap) :
    ∃ heap' reply nodes' copies' items', call.exec queue heap = .ok (heap', reply) ∧
      call.Answers queue heap heap' reply items items' ∧
      Represents heap' queue nodes' copies' items' := by
  cases call with
  | isEmpty =>
    refine ⟨heap, _, nodes, copies, items, ?_, ⟨rfl, rfl, rfl⟩, h⟩
    rw [exec, h.isEmpty_eq, ok_bind]
  | enqueue command commandCpy node =>
    obtain ⟨hcommand, h₁, h₂, hne⟩ := ha
    obtain ⟨c, hc⟩ := Option.ne_none_iff_exists'.1 hcommand
    obtain ⟨heap', he, hr⟩ := h.enqueue_spec hc h₁ h₂ hne
    refine ⟨heap', .void, _, _, _, ?_, ⟨rfl, c, hc, rfl⟩, hr⟩
    rw [exec, he, ok_bind]
  | dequeue =>
    obtain ⟨heap', he, hc, hr⟩ := h.dequeue_spec
    refine ⟨heap', .pointer (copies.headD 0), _, _, _, ?_,
      ⟨⟨_, rfl, ⟨hc, h.oldest.2⟩, h.tail_disowns hr hc⟩, rfl⟩, hr⟩
    rw [exec, he, ok_bind]
  | peek =>
    refine ⟨heap, _, nodes, copies, items, ?_, ⟨⟨_, rfl, h.oldest⟩, rfl, rfl⟩, h⟩
    rw [exec, h.peek_eq, ok_bind]
  | outside next =>
    refine ⟨next, .void, nodes, copies, items, rfl, ⟨rfl, rfl, rfl⟩, h.congr ?_ ?_ ?_⟩
    · exact ha queue .record
    · exact fun a hn => ha a (h.owns_iff.2 (.inr (.inl hn)))
    · exact fun a hc => ha a (h.owns_iff.2 (.inr (.inr hc)))

theorem Represents.followsFifo {queue : Address} (calls : List QueueCall) {heap : Heap}
    {nodes copies : List Address} {items : CommandQueue}
    (h : Represents heap queue nodes copies items) (hl : Legal queue heap calls) :
    FollowsFifo queue heap items calls := by
  induction calls generalizing heap nodes copies items with
  | nil => exact h.chainHolds
  | cons call calls ih =>
    obtain ⟨heap', reply, nodes', copies', items', he, ha, hr⟩ := call.exec_spec h hl.1
    exact ⟨h.chainHolds, heap', reply, items', he, ha, ih hr (hl.2 heap' reply he)⟩

/-- A queue made by `beemu_command_queue_new` is a first in, first out list of commands
under any calls. -/
theorem command_queue_fifo (heap : Heap) (queue : Address) (calls : List QueueCall)
    (hq : heap.Fresh queue)
    (hl : ∀ made, commandQueueNew heap queue = .ok made → Legal queue made calls) :
    ∃ made, commandQueueNew heap queue = .ok made ∧ FollowsFifo queue made [] calls := by
  obtain ⟨made, hm, hr, -⟩ := commandQueueNew_spec hq
  exact ⟨made, hm, hr.followsFifo calls (hl made hm)⟩

/-- A queue at 1 that holds one command, and another command of the caller at 9. -/
def oneQueued (command : MachineCommand) : Heap where
  blocks
    | 1 => some (.queue ⟨3, 3⟩)
    | 2 => some (.command .haltCycle)
    | 3 => some (.node ⟨2, 0⟩)
    | 9 => some (.command command)
    | _ => none
  null_free := rfl

theorem oneQueued_allowed (command : MachineCommand) {heap : Heap}
    (h₁ : heap.blocks 1 = (oneQueued command).blocks 1)
    (h₂ : heap.blocks 2 = (oneQueued command).blocks 2)
    (h₃ : heap.blocks 3 = (oneQueued command).blocks 3) :
    (QueueCall.outside (oneQueued command)).Allowed 1 heap := by
  intro a ha
  have hr : Represents (oneQueued command) 1 [3] [2] [.haltCycle] :=
    ⟨rfl, .cons rfl (.nil 0), rfl, rfl, by decide, by decide⟩
  have hh : Represents heap 1 [3] [2] [.haltCycle] :=
    hr.congr h₁ (by simpa using h₃) (by simpa using h₂)
  rcases hh.owns_iff.1 ha with rfl | ha | ha
  · exact h₁.symm
  · rw [List.mem_singleton.1 ha, h₃]
  · rw [List.mem_singleton.1 ha, h₂]

theorem command_queue_fifo_drained :
    ∃ made, commandQueueNew (Heap.empty.update 9 (some (.command .haltCycle))) 1 = .ok made ∧
      FollowsFifo 1 made [] [.enqueue 9 2 3, .outside (oneQueued (.writeIr 0)), .dequeue,
        .isEmpty, .enqueue 9 4 3, .peek] := by
  refine command_queue_fifo _ 1 _ ⟨nofun, rfl⟩ ?_
  rintro made ⟨⟩
  refine ⟨⟨nofun, ⟨nofun, rfl⟩, ⟨nofun, rfl⟩, nofun⟩, ?_⟩
  rintro heap reply ⟨⟩
  refine ⟨oneQueued_allowed _ rfl rfl rfl, ?_⟩
  rintro heap reply ⟨⟩
  refine ⟨trivial, ?_⟩
  rintro heap reply ⟨⟩
  refine ⟨trivial, ?_⟩
  rintro heap reply ⟨⟩
  refine ⟨⟨nofun, ⟨nofun, rfl⟩, ⟨nofun, rfl⟩, nofun⟩, ?_⟩
  rintro heap reply ⟨⟩
  refine ⟨trivial, ?_⟩
  rintro heap reply ⟨⟩
  trivial

end Beemu
