import Mathlib.Data.Finset.Insert
import Beemu.Lib.Channels
import Beemu.Queue.Accounting

/-!
# Several queues on one heap

A program makes queues, fills, empties and frees them in any order, hands commands on from one to
another, and does as it likes with the blocks that no queue is made of. Each queue answers as a
list of its own.
-/

namespace Beemu

open Channels (Event Turn)
open Tracing (Trace)

/-! ## Calls -/

/-- The command that a pointer is to, if it is not null. -/
def Heap.readOptional (heap : Heap) (p : Address) : Checked (Option MachineCommand) :=
  if p = 0 then .ok none
  else do
    let c ← heap.readCommand p
    .ok (some c)

/-- A call on a queue. For a new one `malloc` returns the address of the queue. -/
inductive SharedCall where
  | new : SharedCall
  | isEmpty : SharedCall
  | peek : SharedCall
  | enqueue : Address → Address → Address → SharedCall
  | dequeue : SharedCall
  | free : SharedCall

namespace SharedCall

/-- A call, and what the program sees of it once it has followed the pointer that is returned. -/
def exec (heap : Heap) (queue : Address) : SharedCall → Checked (Heap × Event MachineCommand)
  | .new => do
    let heap ← commandQueueNew heap queue
    .ok (heap, .opened)
  | .isEmpty => do
    let empty ← commandQueueIsEmpty heap queue
    .ok (heap, .told empty)
  | .peek => do
    let p ← commandQueuePeek heap queue
    let c ← heap.readOptional p
    .ok (heap, .looked c)
  | .enqueue command commandCpy node => do
    let c ← heap.readCommand command
    let heap ← commandQueueEnqueue heap queue command commandCpy node
    .ok (heap, .put c)
  | .dequeue => do
    let (heap, p) ← commandQueueDequeue heap queue
    let c ← heap.readOptional p
    .ok (heap, .took c)
  | .free => do
    let heap ← commandQueueFree heap queue
    .ok (heap, .closed)

/-- `malloc` returns new blocks, and the other calls are on a queue that is there. -/
def Allowed (heap : Heap) (queues : Finset Address) (queue : Address) : SharedCall → Prop
  | .new => heap.Fresh queue
  | .enqueue command commandCpy node => queue ∈ queues ∧ heap.commandAt command ≠ none ∧
      heap.Fresh commandCpy ∧ heap.Fresh node ∧ commandCpy ≠ node
  | _ => queue ∈ queues

/-- The queues that are there after a call. -/
def queuesAfter (queues : Finset Address) (queue : Address) : SharedCall → Finset Address
  | .new => insert queue queues
  | .free => queues.erase queue
  | _ => queues

end SharedCall

/-- The heap, and the queues that were made and not freed. -/
structure Shared where
  heap : Heap
  queues : Finset Address

/-- Another heap that the program may make of its own, which has the blocks of all queues. -/
def Shared.Spares (s : Shared) (heap : Heap) : Prop :=
  ∀ q ∈ s.queues, ∀ a, Owns s.heap q a → heap.blocks a = s.heap.blocks a

/-- The program changes what is its own, and makes a call. -/
def Shared.Step (s : Shared) (call : Address × Event MachineCommand) (s' : Shared) : Prop :=
  ∃ heap c, s.Spares heap ∧ SharedCall.Allowed heap s.queues call.1 c ∧
    c.exec heap call.1 = .ok (s'.heap, call.2) ∧ s'.queues = c.queuesAfter s.queues call.1

/-! ## What a call reaches -/

theorem Represents.live {heap : Heap} {queue a : Address} {nodes copies : List Address}
    {items : CommandQueue} (h : Represents heap queue nodes copies items)
    (ha : Owns heap queue a) : heap.blocks a ≠ none := by
  rcases h.owns_iff.mp ha with rfl | ha | ha
  · rw [h.record]
    nofun
  · obtain ⟨n, hn, -⟩ := h.node_live ha
    rw [hn]
    nofun
  · obtain ⟨c, hc⟩ := h.copy_live ha
    rw [hc]
    nofun

/-- The queue is as it was where the blocks it owns are. -/
theorem Represents.spared {heap other : Heap} {queue : Address} {nodes copies : List Address}
    {items : CommandQueue} (h : Represents heap queue nodes copies items)
    (hk : ∀ a, Owns heap queue a → other.blocks a = heap.blocks a) :
    Represents other queue nodes copies items ∧ ∀ a, Owns other queue a ↔ Owns heap queue a := by
  have h' : Represents other queue nodes copies items := by
    refine h.congr (hk queue .record) (fun a ha => hk a ?_) fun a ha => hk a ?_
    · exact h.owns_iff.mpr (.inr (.inl ha))
    · exact h.owns_iff.mpr (.inr (.inr ha))
  exact ⟨h', fun a => by rw [h'.owns_iff, h.owns_iff]⟩

/-- A block that is free leads nowhere. -/
theorem owns_of_free {heap : Heap} {queue a : Address} (hq : heap.blocks queue = none)
    (ha : Owns heap queue a) : a = queue := by
  induction ha with
  | record => rfl
  | first hr _ =>
    rw [Heap.queueAt_eq_some_iff, hq] at hr
    cases hr
  | next _ hn _ ih | current _ hn ih =>
    rw [ih, Heap.nodeAt_eq_some_iff, hq] at hn
    cases hn

/-- A call on a queue changes no block of others, and takes none that was not free. -/
structure Local (queue : Address) (heap heap' : Heap) : Prop where
  keeps : ∀ a, heap.blocks a ≠ none → ¬ Owns heap queue a → heap'.blocks a = heap.blocks a
  grows : ∀ a, Owns heap' queue a → Owns heap queue a ∨ heap.blocks a = none

theorem Local.refl (queue : Address) (heap : Heap) : Local queue heap heap :=
  ⟨fun _ _ _ => rfl, fun _ => .inl⟩

section Calls

variable {heap : Heap} {queue p : Address} {nodes copies : List Address} {items : CommandQueue}

theorem readOptional_oldest {heap' : Heap} (hc : heap'.commandAt p = items.head?)
    (h0 : p = 0 ↔ items = []) : heap'.readOptional p = .ok items.head? := by
  rw [Heap.readOptional]
  cases items with
  | nil =>
    rw [if_pos (h0.mpr rfl)]
    rfl
  | cons c cs =>
    have hp : p ≠ 0 := fun hp => nomatch h0.mp hp
    rw [if_neg hp, Heap.readCommand_live (Heap.commandAt_eq_some_iff.mp hc), ok_bind]
    rfl

/-- Where a call takes a queue, which stays or is freed. -/
def Becomes (heap' : Heap) (queue : Address) (after : Option CommandQueue) : Prop :=
  ∀ items, after = some items → ∃ nodes copies, Represents heap' queue nodes copies items

theorem Represents.becomes (h : Represents heap queue nodes copies items) :
    Becomes heap queue (some items) := by
  rintro items' ⟨⟩
  exact ⟨nodes, copies, h⟩

theorem new_local (hq : heap.Fresh queue) :
    ∃ heap', commandQueueNew heap queue = .ok heap' ∧ Local queue heap heap' ∧
      Becomes heap' queue (some []) := by
  obtain ⟨made, hm, hr, hkeep⟩ := commandQueueNew_spec hq
  refine ⟨made, hm, ⟨fun a ha _ => hkeep a ?_, fun a ha => ?_⟩, hr.becomes⟩
  · rintro rfl
    exact ha hq.2
  · rcases hr.owns_iff.mp ha with rfl | ha | ha
    · exact .inl .record
    · cases ha
    · cases ha

theorem Represents.enqueue_local (h : Represents heap queue nodes copies items)
    {command commandCpy node : Address} {c : MachineCommand}
    (hc : heap.commandAt command = some c) (h₁ : heap.Fresh commandCpy) (h₂ : heap.Fresh node)
    (hne : commandCpy ≠ node) :
    ∃ heap', commandQueueEnqueue heap queue command commandCpy node = .ok heap' ∧
      Local queue heap heap' ∧ Becomes heap' queue (some (items ++ [c])) := by
  obtain ⟨heap', he, hr⟩ := h.enqueue_spec hc h₁ h₂ hne
  refine ⟨heap', he, ⟨fun a ha ho => ?_, fun a ha => ?_⟩, hr.becomes⟩
  · rw [h.owns_iff, not_or, not_or] at ho
    refine h.enqueue_keeps he h₁ h₂ ho.1 ho.2.1 ?_ ?_
    · rintro rfl
      exact ha h₁.2
    · rintro rfl
      exact ha h₂.2
  · rw [hr.owns_iff, List.mem_append, List.mem_append, List.mem_singleton,
      List.mem_singleton] at ha
    rw [h.owns_iff]
    rcases ha with ha | (ha | rfl) | ha | rfl
    · exact .inl (.inl ha)
    · exact .inl (.inr (.inl ha))
    · exact .inr h₂.2
    · exact .inl (.inr (.inr ha))
    · exact .inr h₁.2

theorem Represents.dequeue_local (h : Represents heap queue nodes copies items) :
    ∃ heap' p, commandQueueDequeue heap queue = .ok (heap', p) ∧
      heap'.readOptional p = .ok items.head? ∧ Local queue heap heap' ∧
      Becomes heap' queue (some items.tail) := by
  obtain ⟨heap', he, hc, hr⟩ := h.dequeue_spec
  refine ⟨heap', copies.headD 0, he, readOptional_oldest hc h.oldest.2,
    ⟨fun a _ ho => ?_, fun a ha => .inl ?_⟩, hr.becomes⟩
  · rw [h.owns_iff, not_or, not_or] at ho
    cases nodes with
    | nil =>
      have hn := h.first_eq_zero_iff.mpr (h.nodes_eq_nil_iff.mp rfl)
      rw [commandQueueDequeue, Heap.readQueue_live h.record, ok_bind, if_pos hn] at he
      rw [← (Prod.mk.inj (Except.ok.inj he)).1]
    | cons x nodes =>
      obtain ⟨other, he', -, hkeep⟩ := h.dequeue_eq
      obtain ⟨rfl, -⟩ := Prod.mk.inj (Except.ok.inj (he.symm.trans he'))
      exact hkeep a ho.1 fun hx => ho.2.1 (hx ▸ List.mem_cons_self)
  · rw [hr.owns_iff] at ha
    rw [h.owns_iff]
    exact ha.imp id (Or.imp List.mem_of_mem_tail List.mem_of_mem_tail)

theorem Represents.free_local (h : Represents heap queue nodes copies items) :
    ∃ heap', commandQueueFree heap queue = .ok heap' ∧ Local queue heap heap' ∧
      Becomes heap' queue none := by
  obtain ⟨heap', hf, hnone, hkeep⟩ := free_spec h.record
  refine ⟨heap', hf, ⟨fun a _ ho => hkeep a ?_, fun a ha => .inl ?_⟩, nofun⟩
  · rintro rfl
    exact ho .record
  · rw [owns_of_free hnone ha]
    exact .record

end Calls

/-! ## Queues that have no block in common -/

/-- The queues are of blocks of their own, and hold the lists of a family. -/
structure Separate (s : Shared) (contents : Address → Option CommandQueue) : Prop where
  opened : ∀ q ∈ s.queues, ∃ nodes copies items, contents q = some items ∧
    Represents s.heap q nodes copies items
  closed : ∀ q ∉ s.queues, contents q = none
  apart : ∀ q ∈ s.queues, ∀ r ∈ s.queues, q ≠ r → ∀ a, Owns s.heap q a → ¬ Owns s.heap r a

namespace Separate

variable {s : Shared} {contents : Address → Option CommandQueue} {heap : Heap} {q r a : Address}
  {after : Option CommandQueue}

theorem none_made (base : Heap) : Separate ⟨base, ∅⟩ (fun _ => none) where
  opened q hq := absurd hq (Finset.notMem_empty q)
  closed _ _ := rfl
  apart q hq := absurd hq (Finset.notMem_empty q)

theorem spared (h : Separate s contents) (hk : s.Spares heap) :
    Separate ⟨heap, s.queues⟩ contents := by
  have howns : ∀ q ∈ s.queues, ∀ a, Owns heap q a ↔ Owns s.heap q a := by
    intro q hq
    obtain ⟨nodes, copies, items, -, hr⟩ := h.opened q hq
    exact (hr.spared (hk q hq)).2
  refine ⟨fun q hq => ?_, h.closed, fun q hq r hr hne a ha ho => ?_⟩
  · obtain ⟨nodes, copies, items, hc, hr⟩ := h.opened q hq
    exact ⟨nodes, copies, items, hc, (hr.spared (hk q hq)).1⟩
  · exact h.apart q hq r hr hne a ((howns q hq a).mp ha) ((howns r hr a).mp ho)

/-- A queue that is there shares no block with another one, which may be about to be made. -/
theorem not_owned (h : Separate s contents) (hq : q ∈ s.queues ∨ s.heap.blocks q = none)
    (hr : r ∈ s.queues) (hne : q ≠ r) (ha : Owns s.heap q a) : ¬ Owns s.heap r a := by
  rcases hq with hq | hq
  · exact h.apart q hq r hr hne a ha
  · obtain rfl := owns_of_free hq ha
    obtain ⟨nodes, copies, items, -, hrep⟩ := h.opened r hr
    exact fun ho => hrep.live ho hq

/-- A call on one queue keeps the blocks of the others. -/
theorem kept (h : Separate s contents) (hq : q ∈ s.queues ∨ s.heap.blocks q = none)
    (hl : Local q s.heap heap) (hr : r ∈ s.queues) (hne : q ≠ r) (ha : Owns s.heap r a) :
    heap.blocks a = s.heap.blocks a := by
  obtain ⟨nodes, copies, items, -, hrep⟩ := h.opened r hr
  exact hl.keeps a (hrep.live ha) fun ho => h.not_owned hq hr hne ho ha

/-- What a call on one queue may do to all of them. -/
theorem update (h : Separate s contents) (hq : q ∈ s.queues ∨ s.heap.blocks q = none)
    (hl : Local q s.heap heap) (hb : Becomes heap q after) {queues : Finset Address}
    (hqs : ∀ r, r ∈ queues ↔ if r = q then after ≠ none else r ∈ s.queues) :
    Separate ⟨heap, queues⟩ (Function.update contents q after) := by
  have hother : ∀ r ∈ queues, r ≠ q → r ∈ s.queues := by
    intro r hr hne
    have hr := (hqs r).mp hr
    rwa [if_neg hne] at hr
  have hspared : ∀ r ∈ queues, r ≠ q → ∃ nodes copies items, contents r = some items ∧
      Represents heap r nodes copies items ∧ ∀ a, Owns heap r a ↔ Owns s.heap r a := by
    intro r hr hne
    obtain ⟨nodes, copies, items, hc, hrep⟩ := h.opened r (hother r hr hne)
    exact ⟨nodes, copies, items, hc,
      hrep.spared fun a ha => h.kept hq hl (hother r hr hne) hne.symm ha⟩
  have hapart : ∀ r ∈ queues, r ≠ q → ∀ a, Owns heap q a → ¬ Owns heap r a := by
    intro r hr hne a ha ho
    obtain ⟨nodes, copies, items, -, hrep, howns⟩ := hspared r hr hne
    -- a block that the call took was free, and one of another queue is not
    rcases hl.grows a ha with ha | ha
    · exact h.not_owned hq (hother r hr hne) hne.symm ha ((howns a).mp ho)
    · obtain ⟨nodes, copies, items, -, hold⟩ := h.opened r (hother r hr hne)
      exact hold.live ((howns a).mp ho) ha
  refine ⟨fun r hr => ?_, fun r hr => ?_, fun r hr t ht hne a ha ho => ?_⟩
  · by_cases hrq : r = q
    · subst hrq
      have hsome := (hqs r).mp hr
      rw [if_pos rfl] at hsome
      obtain ⟨items, hi⟩ := Option.ne_none_iff_exists'.mp hsome
      obtain ⟨nodes, copies, hrep⟩ := hb items hi
      exact ⟨nodes, copies, items, by rw [Function.update_self, hi], hrep⟩
    · obtain ⟨nodes, copies, items, hc, hrep, -⟩ := hspared r hr hrq
      exact ⟨nodes, copies, items, by rw [Function.update_of_ne hrq, hc], hrep⟩
  · rw [hqs r] at hr
    by_cases hrq : r = q
    · subst hrq
      rw [if_pos rfl, not_not] at hr
      rw [Function.update_self, hr]
    · rw [if_neg hrq] at hr
      rw [Function.update_of_ne hrq, h.closed r hr]
  · by_cases hrq : r = q
    · subst hrq
      exact hapart t ht hne.symm a ha ho
    · by_cases htq : t = q
      · subst htq
        exact hapart r hr hrq a ho ha
      · obtain ⟨-, -, -, -, -, hr'⟩ := hspared r hr hrq
        obtain ⟨-, -, -, -, -, ht'⟩ := hspared t ht htq
        exact h.apart r (hother r hr hrq) t (hother t ht htq) hne a ((hr' a).mp ha)
          ((ht' a).mp ho)

/-- A call on a queue that stays. -/
theorem update_some (h : Separate s contents) (hq : q ∈ s.queues) (hl : Local q s.heap heap)
    {items : CommandQueue} (hb : Becomes heap q (some items)) :
    Separate ⟨heap, s.queues⟩ (Function.update contents q (some items)) := by
  refine h.update (.inl hq) hl hb fun r => ?_
  split
  · next hr => simpa [hr] using hq
  · rfl

/-- An allowed call answers as the list of its queue does, and keeps the queues apart. -/
theorem exec (h : Separate s contents) (c : SharedCall) (ha : c.Allowed s.heap s.queues q) :
    ∃ heap event after, c.exec s.heap q = .ok (heap, event) ∧ Turn (contents q) event after ∧
      Separate ⟨heap, c.queuesAfter s.queues q⟩ (Function.update contents q after) := by
  cases c with
  | new =>
    obtain ⟨heap, he, hl, hb⟩ := new_local ha
    have hnot : q ∉ s.queues := by
      intro hq
      obtain ⟨nodes, copies, items, -, hr⟩ := h.opened q hq
      exact hr.live .record ha.2
    refine ⟨heap, .opened, some [], ?_, ?_, h.update (.inr ha.2) hl hb fun r => ?_⟩
    · rw [SharedCall.exec, he, ok_bind]
    · rw [h.closed q hnot]
      exact .opened
    · rw [SharedCall.queuesAfter, Finset.mem_insert]
      by_cases hr : r = q <;> simp [hr]
  | isEmpty =>
    obtain ⟨nodes, copies, items, hc, hr⟩ := h.opened q ha
    refine ⟨s.heap, .told items.isEmpty, some items, ?_, hc ▸ .told items,
      h.update_some ha (.refl q s.heap) hr.becomes⟩
    rw [SharedCall.exec, hr.isEmpty_eq, ok_bind]
    cases items <;> rfl
  | peek =>
    obtain ⟨nodes, copies, items, hc, hr⟩ := h.opened q ha
    refine ⟨s.heap, .looked items.head?, some items, ?_, hc ▸ .looked items,
      h.update_some ha (.refl q s.heap) hr.becomes⟩
    rw [SharedCall.exec, hr.peek_eq, ok_bind, readOptional_oldest hr.oldest.1 hr.oldest.2, ok_bind]
  | enqueue command commandCpy node =>
    obtain ⟨hq, hcommand, h₁, h₂, hne⟩ := ha
    obtain ⟨nodes, copies, items, hc, hr⟩ := h.opened q hq
    obtain ⟨c, hv⟩ := Option.ne_none_iff_exists'.mp hcommand
    obtain ⟨heap, he, hl, hb⟩ := hr.enqueue_local hv h₁ h₂ hne
    refine ⟨heap, .put c, some (items ++ [c]), ?_, hc ▸ .put items c, h.update_some hq hl hb⟩
    rw [SharedCall.exec, Heap.readCommand_live (Heap.commandAt_eq_some_iff.mp hv), ok_bind, he,
      ok_bind]
  | dequeue =>
    obtain ⟨nodes, copies, items, hc, hr⟩ := h.opened q ha
    obtain ⟨heap, p, he, hp, hl, hb⟩ := hr.dequeue_local
    refine ⟨heap, .took items.head?, some items.tail, ?_, hc ▸ .took items,
      h.update_some ha hl hb⟩
    rw [SharedCall.exec, he, ok_bind]
    exact congrArg (· >>= _) hp
  | free =>
    obtain ⟨nodes, copies, items, hc, hr⟩ := h.opened q ha
    obtain ⟨heap, he, hl, hb⟩ := hr.free_local
    refine ⟨heap, .closed, none, ?_, hc ▸ .closed items, h.update (.inl ha) hl hb fun r => ?_⟩
    · rw [SharedCall.exec, he, ok_bind]
    · rw [SharedCall.queuesAfter, Finset.mem_erase]
      by_cases hr : r = q <;> simp [hr]

theorem step (h : Separate s contents) {call : Address × Event MachineCommand} {s' : Shared}
    (hs : s.Step call s') :
    ∃ contents', Channels.Step contents call contents' ∧ Separate s' contents' := by
  obtain ⟨heap, c, hk, ha, he, hq⟩ := hs
  obtain ⟨heap', event, after, he', ht, hsep⟩ := (h.spared hk).exec c ha
  obtain ⟨hheap, hevent⟩ := Prod.mk.inj (Except.ok.inj (he.symm.trans he'))
  refine ⟨_, ⟨after, ?_, rfl⟩, ?_⟩
  · rw [hevent]
    exact ht
  · rwa [← hheap, ← hq] at hsep

theorem trace {calls : List (Address × Event MachineCommand)} {ss : List Shared}
    (h : Trace Shared.Step s calls ss) (hs : Separate s contents) :
    ∃ contents', Trace Channels.Step contents calls contents' ∧
      Separate (ss.getLastD s) (contents'.getLastD contents) := by
  induction h generalizing contents with
  | nil s => exact ⟨[], .nil contents, hs⟩
  | @cons s s' call calls ss hst _ ih =>
    obtain ⟨next, hc, hnext⟩ := hs.step hst
    obtain ⟨contents', ht, hlast⟩ := ih hnext
    refine ⟨next :: contents', .cons hc ht, ?_⟩
    rw [List.getLastD_cons, List.getLastD_cons]
    exact hlast

end Separate

/-! ## Any order of calls on any queues -/

/-- Each queue that is there holds its list, and the others have none. -/
def HoldsLists (s : Shared) (contents : Address → Option CommandQueue) : Prop :=
  ∀ q, (q ∈ s.queues → ∃ items, contents q = some items ∧ ChainHolds s.heap q items) ∧
    (q ∉ s.queues → contents q = none)

/-- Every call that the program may make completes, also once it has changed what is its own. -/
def GoesOn (s : Shared) : Prop :=
  ∀ heap, s.Spares heap → ∀ q (c : SharedCall), c.Allowed heap s.queues q →
    ∃ heap' event, c.exec heap q = .ok (heap', event)

theorem Separate.holdsLists {s : Shared} {contents : Address → Option CommandQueue}
    (h : Separate s contents) : HoldsLists s contents := by
  refine fun q => ⟨fun hq => ?_, h.closed q⟩
  obtain ⟨nodes, copies, items, hc, hr⟩ := h.opened q hq
  exact ⟨items, hc, hr.chainHolds⟩

theorem Separate.goesOn {s : Shared} {contents : Address → Option CommandQueue}
    (h : Separate s contents) : GoesOn s := by
  intro heap hk q c ha
  obtain ⟨heap', event, -, he, -⟩ := (h.spared hk).exec c ha
  exact ⟨heap', event, he⟩

/-- A program that uses several queues in any order sees what a family of lists shows it. -/
theorem queues_interleaved (base : Heap) (calls : List (Address × Event MachineCommand))
    (ss : List Shared) (h : Trace Shared.Step ⟨base, ∅⟩ calls ss) :
    (∃ contents, Trace Channels.Step (fun _ => none) calls contents ∧
      HoldsLists (ss.getLastD ⟨base, ∅⟩) (contents.getLastD fun _ => none)) ∧
        GoesOn (ss.getLastD ⟨base, ∅⟩) := by
  obtain ⟨contents, ht, hs⟩ := Separate.trace h (.none_made base)
  exact ⟨⟨contents, ht, hs.holdsLists⟩, hs.goesOn⟩

/-- Two queues, one command. -/
def twoQueueCalls : List (Address × Event MachineCommand) :=
  [(1, .opened), (2, .opened), (1, .put .haltCycle), (2, .took none),
    (1, .took (some .haltCycle))]

theorem twoQueueCalls_trace :
    ∃ ss, Trace Shared.Step ⟨oneCommand .haltCycle, ∅⟩ twoQueueCalls ss ∧
      (ss.getLastD ⟨oneCommand .haltCycle, ∅⟩).queues = {2, 1} := by
  have h₁ : (1 : Address) ∈ ({2, 1} : Finset Address) := by decide
  have h₂ : (2 : Address) ∈ ({2, 1} : Finset Address) := by decide
  exact ⟨[⟨_, {1}⟩, ⟨_, {2, 1}⟩, ⟨_, {2, 1}⟩, ⟨_, {2, 1}⟩, ⟨_, {2, 1}⟩],
    .cons ⟨_, .new, fun _ _ _ _ => rfl, ⟨nofun, rfl⟩, rfl, rfl⟩ <|
    .cons ⟨_, .new, fun _ _ _ _ => rfl, ⟨nofun, rfl⟩, rfl, rfl⟩ <|
    .cons ⟨_, .enqueue 9 3 4, fun _ _ _ _ => rfl,
      ⟨h₁, nofun, ⟨nofun, rfl⟩, ⟨nofun, rfl⟩, nofun⟩, rfl, rfl⟩ <|
    .cons ⟨_, .dequeue, fun _ _ _ _ => rfl, h₂, rfl, rfl⟩ <|
    .cons ⟨_, .dequeue, fun _ _ _ _ => rfl, h₁, rfl, rfl⟩ (.nil _), rfl⟩

theorem queues_interleaved_two :
    ∃ ss : List Shared,
      (∃ contents, Trace Channels.Step (fun _ => none) twoQueueCalls contents ∧
        HoldsLists (ss.getLastD ⟨oneCommand .haltCycle, ∅⟩)
          (contents.getLastD fun _ => none)) ∧
      GoesOn (ss.getLastD ⟨oneCommand .haltCycle, ∅⟩) := by
  obtain ⟨ss, h, -⟩ := twoQueueCalls_trace
  exact ⟨ss, queues_interleaved _ twoQueueCalls ss h⟩

/-- Queues have no block in common, and what was put into each since it was made is what was taken
out of it, and then what is on it. -/
theorem queues_conserve (base : Heap) (calls : List (Address × Event MachineCommand))
    (ss : List Shared) (h : Trace Shared.Step ⟨base, ∅⟩ calls ss) (q : Address)
    (hq : q ∈ (ss.getLastD ⟨base, ∅⟩).queues) :
    ∃ l items, Channels.ledger (Channels.callsOn q calls) = some l ∧
      ChainHolds (ss.getLastD ⟨base, ∅⟩).heap q items ∧ l.put = l.taken ++ items ∧
      ∀ r ∈ (ss.getLastD ⟨base, ∅⟩).queues, q ≠ r → ∀ a,
        Owns (ss.getLastD ⟨base, ∅⟩).heap q a → ¬ Owns (ss.getLastD ⟨base, ∅⟩).heap r a := by
  obtain ⟨contents, ht, hs⟩ := Separate.trace h (.none_made base)
  have hb := Channels.ledger_balances ht q
  obtain ⟨nodes, copies, items, hc, hr⟩ := hs.opened q hq
  rw [hc] at hb
  cases hl : Channels.ledger (Channels.callsOn q calls) with
  | none =>
    rw [hl] at hb
    exact hb.elim
  | some l =>
    rw [hl] at hb
    exact ⟨l, items, rfl, hr.chainHolds, hb, fun r => hs.apart q hq r⟩

theorem queues_conserve_two :
    ∃ ss : List Shared, ∃ l items,
      Channels.ledger (Channels.callsOn 1 twoQueueCalls) = some l ∧
      ChainHolds (ss.getLastD ⟨oneCommand .haltCycle, ∅⟩).heap 1 items ∧
      l.put = l.taken ++ items ∧
      ∀ r ∈ (ss.getLastD ⟨oneCommand .haltCycle, ∅⟩).queues, 1 ≠ r → ∀ a,
        Owns (ss.getLastD ⟨oneCommand .haltCycle, ∅⟩).heap 1 a →
          ¬ Owns (ss.getLastD ⟨oneCommand .haltCycle, ∅⟩).heap r a := by
  obtain ⟨ss, h, hq⟩ := twoQueueCalls_trace
  exact ⟨ss, queues_conserve _ twoQueueCalls ss h 1 (hq ▸ by decide)⟩

end Beemu
