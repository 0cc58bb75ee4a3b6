import Beemu.Lib.Trace
import Beemu.Queue.Fifo

/-!
# What a queue leaves behind

A program that uses a queue holds the commands that dequeues handed to it until it frees them. In
between it writes commands into blocks of its own. All other blocks that the queue ever made are
its record, its nodes and its copies, and nobody frees the last two with the record.
-/

namespace Beemu

open Tracing (Trace)

def commandQueueFree (heap : Heap) (queue : Address) : Checked Heap := do
  let heap ← heap.store queue (.queue ⟨0, 0⟩)
  heap.free queue

/-! ## What the calls leave alone -/

section Frames

variable {heap heap' : Heap} {a x p queue command commandCpy node : Address} {b : Block}
  {r : QueueRecord}

theorem Heap.store_frame (h : heap.store a b = .ok heap') (hx : x ≠ a) :
    heap'.blocks x = heap.blocks x := by
  unfold Heap.store at h
  split at h
  · obtain rfl := Except.ok.inj h
    exact Heap.update_of_ne hx
  · cases h

theorem Heap.free_self (h : heap.free a = .ok heap') : heap'.blocks a = none := by
  unfold Heap.free at h
  split at h
  · next hb =>
    obtain rfl := Except.ok.inj h
    exact Heap.update_self (Heap.ne_zero_of_live hb)
  · cases h

theorem linkNode_frame (hr : heap.blocks queue = some (.queue r))
    (he : linkNode heap queue node = .ok heap') (hq : x ≠ queue)
    (hx : r.first ≠ 0 → x ≠ r.last) : heap'.blocks x = heap.blocks x := by
  rw [linkNode, commandQueueIsEmpty, Heap.readQueue_live hr, ok_bind, ok_bind, ok_bind] at he
  by_cases hf : r.first = 0
  · rw [if_pos (by simpa using hf)] at he
    exact Heap.store_frame he hq
  · rw [if_neg (by simpa using hf)] at he
    obtain ⟨lastNode, -, he⟩ := bind_eq_ok_iff.mp he
    obtain ⟨linked, hl, he⟩ := bind_eq_ok_iff.mp he
    obtain ⟨record, -, he⟩ := bind_eq_ok_iff.mp he
    rw [Heap.store_frame he hq, Heap.store_frame hl (hx hf)]

/-- An enqueue writes the record, the last node and its two new blocks. -/
theorem enqueue_frame (hr : heap.blocks queue = some (.queue r))
    (he : commandQueueEnqueue heap queue command commandCpy node = .ok heap')
    (hqc : queue ≠ commandCpy) (hqn : queue ≠ node) (hq : x ≠ queue)
    (hx : r.first ≠ 0 → x ≠ r.last) (hc : x ≠ commandCpy) (hn : x ≠ node) :
    heap'.blocks x = heap.blocks x := by
  rw [commandQueueEnqueue] at he
  obtain ⟨made, hm, he⟩ := bind_eq_ok_iff.mp he
  obtain ⟨value, -, he⟩ := bind_eq_ok_iff.mp he
  obtain ⟨copied, hp, he⟩ := bind_eq_ok_iff.mp he
  have hkeep : ∀ y, y ≠ commandCpy → y ≠ node → copied.blocks y = heap.blocks y := by
    intro y hyc hyn
    rw [Heap.store_frame hp hyc, Heap.store_frame hm hyn, Heap.malloc, Heap.update_of_ne hyn,
      Heap.malloc, Heap.update_of_ne hyc]
  rw [linkNode_frame ((hkeep queue hqc hqn).trans hr) he hq hx, hkeep x hc hn]

theorem Represents.enqueue_keeps {nodes copies : List Address} {items : CommandQueue}
    (h : Represents heap queue nodes copies items)
    (he : commandQueueEnqueue heap queue command commandCpy node = .ok heap')
    (h₁ : heap.Fresh commandCpy) (h₂ : heap.Fresh node) (hq : x ≠ queue) (hx : x ∉ nodes)
    (hc : x ≠ commandCpy) (hn : x ≠ node) : heap'.blocks x = heap.blocks x := by
  have hlast : nodes.headD 0 ≠ 0 → x ≠ nodes.getLastD 0 := by
    rintro hh rfl
    cases nodes with
    | nil => exact hh rfl
    | cons y ys =>
      rw [List.getLastD_cons] at hx
      exact hx List.getLastD_mem_cons
  exact enqueue_frame h.record he (h.fresh_ne_queue h₁).symm (h.fresh_ne_queue h₂).symm hq hlast
    hc hn

/-- A dequeue frees the first node. -/
theorem dequeue_frees (hr : heap.blocks queue = some (.queue r)) (hf : r.first ≠ 0)
    (he : commandQueueDequeue heap queue = .ok (heap', p)) (hq : r.first ≠ queue) :
    heap'.blocks r.first = none := by
  rw [commandQueueDequeue, Heap.readQueue_live hr, ok_bind, if_neg hf] at he
  obtain ⟨firstNode, -, he⟩ := bind_eq_ok_iff.mp he
  obtain ⟨moved, -, he⟩ := bind_eq_ok_iff.mp he
  obtain ⟨freed, hd, he⟩ := bind_eq_ok_iff.mp he
  obtain ⟨empty, -, he⟩ := bind_eq_ok_iff.mp he
  have hnone := Heap.free_self hd
  cases empty with
  | false =>
    obtain ⟨rfl, -⟩ := Prod.mk.inj (Except.ok.inj he)
    exact hnone
  | true =>
    obtain ⟨record, -, he⟩ := bind_eq_ok_iff.mp he
    obtain ⟨cleared, hs, he⟩ := bind_eq_ok_iff.mp he
    obtain ⟨rfl, -⟩ := Prod.mk.inj (Except.ok.inj he)
    rw [Heap.store_frame hs hq, hnone]

theorem free_spec (hr : heap.blocks queue = some (.queue r)) :
    ∃ freed, commandQueueFree heap queue = .ok freed ∧ freed.blocks queue = none ∧
      ∀ x, x ≠ queue → freed.blocks x = heap.blocks x := by
  have hs : (heap.update queue (some (.queue ⟨0, 0⟩))).blocks queue = some (.queue ⟨0, 0⟩) :=
    Heap.update_self (Heap.ne_zero_of_live hr)
  have hf : commandQueueFree heap queue =
      .ok ((heap.update queue (some (.queue ⟨0, 0⟩))).update queue none) := by
    rw [commandQueueFree, Heap.store_live hr, ok_bind, Heap.free_live hs]
  refine ⟨_, hf, Heap.update_self (Heap.ne_zero_of_live hr), fun x hx => ?_⟩
  rw [Heap.update_of_ne hx, Heap.update_of_ne hx]

end Frames

/-! ## Programs that use a queue -/

/-- The heap and the commands that were handed out and not freed, oldest first. -/
structure Holding where
  heap : Heap
  handed : List Address

inductive Act where
  | isEmpty : Act
  | peek : Act
  | enqueue : Address → Address → Address → Act
  | dequeue : Act
  | release : Address → Act
  | write : Address → MachineCommand → Act

namespace Act

def exec (queue : Address) (s : Holding) : Act → Checked Holding
  | .isEmpty => do
    let _ ← commandQueueIsEmpty s.heap queue
    .ok s
  | .peek => do
    let _ ← commandQueuePeek s.heap queue
    .ok s
  | .enqueue command commandCpy node => do
    let heap ← commandQueueEnqueue s.heap queue command commandCpy node
    .ok { s with heap }
  | .dequeue => do
    let (heap, p) ← commandQueueDequeue s.heap queue
    .ok ⟨heap, if p = 0 then s.handed else s.handed ++ [p]⟩
  | .release p => do
    let heap ← s.heap.free p
    .ok ⟨heap, s.handed.erase p⟩
  | .write a c => do
    let heap ← s.heap.store a (.command c)
    .ok { s with heap }

/-- A program frees what it was handed and writes what is its own. -/
def Allowed (queue : Address) (s : Holding) : Act → Prop
  | .enqueue command commandCpy node => s.heap.commandAt command ≠ none ∧
      s.heap.Fresh commandCpy ∧ s.heap.Fresh node ∧ commandCpy ≠ node
  | .release p => p ∈ s.handed
  | .write a _ => s.heap.blocks a ≠ none ∧ ¬ Owns s.heap queue a ∧ a ∉ s.handed
  | _ => True

def Step (queue : Address) (s : Holding) (act : Act) (s' : Holding) : Prop :=
  act.Allowed queue s ∧ act.exec queue s = .ok s'

/-- What is queued after an act: an enqueue puts the command in that its pointer is to, a dequeue
takes the oldest one out. -/
def queuedAfter (s : Holding) (items : CommandQueue) : Act → CommandQueue
  | .enqueue command _ _ => items ++ (s.heap.commandAt command).toList
  | .dequeue => items.tail
  | .isEmpty | .peek | .release _ | .write _ _ => items

/-- What is queued after the acts of a trace, each in the state that it finds. -/
def queued (items : CommandQueue) (s : Holding) : List Act → List Holding → CommandQueue
  | act :: acts, t :: ss => queued (act.queuedAfter s items) t acts ss
  | _, _ => items

/-- What an act does to the blocks of the program. -/
def outside (outer : Heap) : Act → Heap
  | .write a c => outer.update a (some (.command c))
  | _ => outer

end Act

/-- The heap is the one that the program would have without the queue, and the blocks that the
queue has made. -/
structure Accounted (outer : Heap) (queue : Address) (nodes copies : List Address)
    (items : CommandQueue) (s : Holding) : Prop where
  chain : Represents s.heap queue nodes copies items
  live : ∀ p ∈ s.handed, ∃ c, s.heap.blocks p = some (.command c)
  nodup : (s.handed ++ copies).Nodup
  unknown : ∀ a, a = queue ∨ a ∈ nodes ∨ a ∈ s.handed ++ copies → outer.blocks a = none
  frame : ∀ a, a ≠ queue → a ∉ nodes → a ∉ s.handed ++ copies →
    s.heap.blocks a = outer.blocks a

namespace Accounted

variable {outer : Heap} {queue a : Address} {nodes copies : List Address} {items : CommandQueue}
  {s : Holding}

theorem command_live (h : Accounted outer queue nodes copies items s)
    (ha : a ∈ s.handed ++ copies) : ∃ c, s.heap.blocks a = some (.command c) :=
  (List.mem_append.mp ha).elim (h.live a) h.chain.copy_live

theorem made_live (h : Accounted outer queue nodes copies items s)
    (ha : a = queue ∨ a ∈ nodes ∨ a ∈ s.handed ++ copies) : s.heap.blocks a ≠ none := by
  rcases ha with rfl | ha | ha
  · rw [h.chain.record]
    nofun
  · obtain ⟨n, hn, -⟩ := h.chain.node_live ha
    rw [hn]
    nofun
  · obtain ⟨c, hc⟩ := h.command_live ha
    rw [hc]
    nofun

/-- A block that is free is free outside of the queue. -/
theorem free_outside (h : Accounted outer queue nodes copies items s)
    (ha : s.heap.blocks a = none) : outer.blocks a = none := by
  by_cases hm : a = queue ∨ a ∈ nodes ∨ a ∈ s.handed ++ copies
  · exact h.unknown a hm
  · simp only [not_or] at hm
    rw [← h.frame a hm.1 hm.2.1 hm.2.2, ha]

theorem command_notMem_nodes (h : Accounted outer queue nodes copies items s) {c : MachineCommand}
    (ha : s.heap.blocks a = some (.command c)) : a ∉ nodes := by
  intro hm
  obtain ⟨n, hn, -⟩ := h.chain.node_live hm
  cases hn.symm.trans ha

theorem new {base : Heap} (hq : base.Fresh queue) :
    ∃ made, commandQueueNew base queue = .ok made ∧
      Accounted base queue [] [] [] ⟨made, []⟩ := by
  obtain ⟨made, hm, hr, hf⟩ := commandQueueNew_spec hq
  refine ⟨made, hm, hr, nofun, List.nodup_nil, ?_, fun a ha _ _ => hf a ha⟩
  rintro a (rfl | ha | ha)
  · exact hq.2
  · cases ha
  · cases ha

theorem write (h : Accounted outer queue nodes copies items s) {c : MachineCommand}
    (ha : s.heap.blocks a ≠ none) (hq : a ≠ queue) (hn : a ∉ nodes)
    (hc : a ∉ s.handed ++ copies) :
    ∃ heap, s.heap.store a (.command c) = .ok heap ∧
      Accounted (outer.update a (some (.command c))) queue nodes copies items
        ⟨heap, s.handed⟩ := by
  obtain ⟨b, hb⟩ := Option.ne_none_iff_exists'.mp ha
  have hcc : ∀ x, x ∈ s.handed ++ copies → x ≠ a := fun x hx e => hc (e ▸ hx)
  refine ⟨_, Heap.store_live hb, h.chain.congr ?_ ?_ ?_, ?_, h.nodup, ?_, ?_⟩
  · exact Heap.update_of_ne hq.symm
  · exact fun x hx => Heap.update_of_ne fun e => hn (e ▸ hx)
  · exact fun x hx => Heap.update_of_ne (hcc x (List.mem_append_right _ hx))
  · intro p hp
    rw [Heap.update_of_ne (hcc p (List.mem_append_left _ hp))]
    exact h.live p hp
  · intro x hx
    rw [Heap.update_of_ne, h.unknown x hx]
    rintro rfl
    exact hx.elim hq (Or.elim · hn hc)
  · intro x hxq hxn hxc
    by_cases he : x = a
    · rw [he, Heap.update_self (Heap.ne_zero_of_live hb),
        Heap.update_self (Heap.ne_zero_of_live hb)]
    · rw [Heap.update_of_ne he, Heap.update_of_ne he, h.frame x hxq hxn hxc]

theorem release (h : Accounted outer queue nodes copies items s) (ha : a ∈ s.handed) :
    ∃ heap, s.heap.free a = .ok heap ∧
      Accounted outer queue nodes copies items ⟨heap, s.handed.erase a⟩ := by
  obtain ⟨c, hc⟩ := h.live a ha
  have herase : s.handed.erase a ++ copies = (s.handed ++ copies).erase a :=
    (List.erase_append_left copies ha).symm
  have hmem : ∀ x, x ∈ s.handed.erase a ++ copies ↔ x ≠ a ∧ x ∈ s.handed ++ copies := by
    intro x
    rw [herase, h.nodup.mem_erase_iff]
  have hkeep : ∀ x, x ∈ s.handed.erase a ++ copies →
      (s.heap.update a none).blocks x = s.heap.blocks x := fun x hx =>
    Heap.update_of_ne ((hmem x).mp hx).1
  refine ⟨_, Heap.free_live hc, h.chain.congr ?_ ?_ ?_, ?_, ?_, ?_, ?_⟩
  · exact Heap.update_of_ne (h.chain.command_ne_queue hc).symm
  · exact fun x hx => Heap.update_of_ne fun e => h.command_notMem_nodes hc (e ▸ hx)
  · exact fun x hx => hkeep x (List.mem_append_right _ hx)
  · intro p hp
    rw [hkeep p (List.mem_append_left _ hp)]
    exact h.live p (List.mem_of_mem_erase hp)
  · rw [herase]
    exact h.nodup.erase a
  · exact fun x hx => h.unknown x (hx.imp id (Or.imp id fun hx => ((hmem x).mp hx).2))
  · intro x hq hn hx
    by_cases he : x = a
    · rw [he, Heap.update_self (Heap.ne_zero_of_live hc),
        h.unknown a (.inr (.inr (List.mem_append_left _ ha)))]
    · rw [Heap.update_of_ne he, h.frame x hq hn fun hm => hx ((hmem x).mpr ⟨he, hm⟩)]

theorem enqueue (h : Accounted outer queue nodes copies items s)
    {command commandCpy node : Address} {c : MachineCommand}
    (hc : s.heap.commandAt command = some c) (h₁ : s.heap.Fresh commandCpy)
    (h₂ : s.heap.Fresh node) (hne : commandCpy ≠ node) :
    ∃ heap, commandQueueEnqueue s.heap queue command commandCpy node = .ok heap ∧
      Accounted outer queue (nodes ++ [node]) (copies ++ [commandCpy]) (Beemu.enqueue items c)
        ⟨heap, s.handed⟩ := by
  obtain ⟨heap, he, hr⟩ := h.chain.enqueue_spec hc h₁ h₂ hne
  have hnew : ∀ x, x = queue ∨ x ∈ nodes ∨ x ∈ s.handed ++ copies → x ≠ commandCpy ∧ x ≠ node := by
    intro x hx
    exact ⟨fun e => h.made_live hx (e ▸ h₁.2), fun e => h.made_live hx (e ▸ h₂.2)⟩
  have hkeep : ∀ x, x ≠ queue → x ∉ nodes → x ≠ commandCpy → x ≠ node →
      heap.blocks x = s.heap.blocks x := fun x => h.chain.enqueue_keeps he h₁ h₂
  refine ⟨heap, he, hr, ?_, ?_, ?_, ?_⟩
  · intro p hp
    obtain ⟨d, hd⟩ := h.live p hp
    obtain ⟨hpc, hpn⟩ := hnew p (.inr (.inr (List.mem_append_left _ hp)))
    exact ⟨d, (hkeep p (h.chain.command_ne_queue hd) (h.command_notMem_nodes hd) hpc hpn).trans hd⟩
  · rw [← List.append_assoc, ← List.concat_eq_append]
    exact h.nodup.concat fun hm => (hnew commandCpy (.inr (.inr hm))).1 rfl
  · intro x hx
    rw [← List.append_assoc] at hx
    rcases hx with hx | hx | hx
    · exact h.unknown x (.inl hx)
    · rcases List.mem_append.mp hx with hx | hx
      · exact h.unknown x (.inr (.inl hx))
      · exact List.mem_singleton.mp hx ▸ h.free_outside h₂.2
    · rcases List.mem_append.mp hx with hx | hx
      · exact h.unknown x (.inr (.inr hx))
      · exact List.mem_singleton.mp hx ▸ h.free_outside h₁.2
  · intro x hxq hxn hxc
    rw [← List.append_assoc, List.mem_append, not_or, List.mem_singleton] at hxc
    rw [List.mem_append, not_or, List.mem_singleton] at hxn
    exact (hkeep x hxq hxn.1 hxc.2 hxn.2).trans (h.frame x hxq hxn.1 hxc.1)

/-- A dequeue hands the oldest copy out and frees its node. -/
theorem dequeue {p : Address} (h : Accounted outer queue nodes (p :: copies) items s) :
    ∃ heap, commandQueueDequeue s.heap queue = .ok (heap, p) ∧ p ≠ 0 ∧
      heap.commandAt p = items.head? ∧
      Accounted outer queue nodes.tail copies items.tail ⟨heap, s.handed ++ [p]⟩ := by
  cases nodes with
  | nil => exact absurd (h.chain.copies_eq_nil_iff.mpr (h.chain.nodes_eq_nil_iff.mp rfl)) nofun
  | cons x nodes =>
    obtain ⟨heap, he, -, hkeep⟩ := h.chain.dequeue_eq
    obtain ⟨heap', he', hp, hr⟩ := h.chain.dequeue_spec
    obtain ⟨rfl, -⟩ := Prod.mk.inj (Except.ok.inj (he.symm.trans he'))
    obtain ⟨n, hx, -⟩ := h.chain.node_live List.mem_cons_self
    have hx0 := Heap.ne_zero_of_live hx
    have hxq := h.chain.node_ne_queue hx
    have hgone : heap.blocks x = none := dequeue_frees h.chain.record hx0 he hxq
    have hlist : (s.handed ++ [p]) ++ copies = s.handed ++ p :: copies :=
      (List.append_cons s.handed p copies).symm
    refine ⟨heap, he, ?_, hp, hr, ?_, ?_, ?_, ?_⟩
    · obtain ⟨c, hc⟩ := h.chain.copy_live List.mem_cons_self
      exact Heap.ne_zero_of_live hc
    · intro q hq
      have hq' : q ∈ s.handed ++ p :: copies := by
        rw [← hlist]
        exact List.mem_append_left _ hq
      obtain ⟨c, hc⟩ := h.command_live hq'
      refine ⟨c, (hkeep q (h.chain.command_ne_queue hc) ?_).trans hc⟩
      exact Heap.ne_of_blocks hc hx nofun
    · rw [hlist]
      exact h.nodup
    · rw [hlist]
      exact fun y hy => h.unknown y (hy.imp id (Or.imp (List.mem_cons_of_mem x) id))
    · rw [hlist]
      intro y hyq hyn hyc
      by_cases hyx : y = x
      · rw [hyx, hgone, h.unknown x (.inr (.inl List.mem_cons_self))]
      · refine (hkeep y hyq hyx).trans (h.frame y hyq ?_ hyc)
        exact List.not_mem_cons_of_ne_of_not_mem hyx hyn

theorem dequeue_nil (h : Accounted outer queue nodes [] items s) :
    commandQueueDequeue s.heap queue = .ok (s.heap, 0) := by
  have hn := h.chain.first_eq_zero_iff.mpr (h.chain.copies_eq_nil_iff.mp rfl)
  rw [commandQueueDequeue, Heap.readQueue_live h.chain.record, ok_bind, if_pos hn]

/-- Freed with the record, a queue leaves two blocks for each of its commands, and what was handed
out. -/
theorem freed (h : Accounted outer queue nodes copies items s) :
    ∃ freed, commandQueueFree s.heap queue = .ok freed ∧
      (nodes ++ (s.handed ++ copies)).Nodup ∧
      (∀ a ∈ nodes ++ (s.handed ++ copies), outer.blocks a = none ∧ freed.blocks a ≠ none) ∧
      ∀ a ∉ nodes ++ (s.handed ++ copies), freed.blocks a = outer.blocks a := by
  obtain ⟨freed, hf, hnone, hkeep⟩ := free_spec h.chain.record
  refine ⟨freed, hf, ?_, fun a ha => ?_, fun a ha => ?_⟩
  · refine List.nodup_append.mpr ⟨h.chain.nodup_nodes, h.nodup, ?_⟩
    rintro a ha b hb rfl
    obtain ⟨c, hc⟩ := h.command_live hb
    exact h.command_notMem_nodes hc ha
  · have hm := List.mem_append.mp ha
    have hq : a ≠ queue := by
      rintro rfl
      rcases hm with hm | hm
      · obtain ⟨n, hn, -⟩ := h.chain.node_live hm
        exact h.chain.node_ne_queue hn rfl
      · obtain ⟨c, hc⟩ := h.command_live hm
        exact h.chain.command_ne_queue hc rfl
    rw [hkeep a hq]
    exact ⟨h.unknown a (.inr hm), h.made_live (.inr hm)⟩
  · rw [List.mem_append, not_or] at ha
    by_cases hq : a = queue
    · rw [hq, hnone, h.unknown queue (.inl rfl)]
    · rw [hkeep a hq, h.frame a hq ha.1 ha.2]

/-- What is allowed succeeds, and leaves all blocks and all commands accounted for. -/
theorem exec (h : Accounted outer queue nodes copies items s) (act : Act)
    (ha : act.Allowed queue s) :
    ∃ s' nodes' copies', act.exec queue s = .ok s' ∧
      Accounted (act.outside outer) queue nodes' copies' (act.queuedAfter s items) s' := by
  cases act with
  | isEmpty =>
    refine ⟨s, _, _, ?_, h⟩
    rw [Act.exec, h.chain.isEmpty_eq, ok_bind]
  | peek =>
    refine ⟨s, _, _, ?_, h⟩
    rw [Act.exec, h.chain.peek_eq, ok_bind]
  | enqueue command commandCpy node =>
    obtain ⟨hcommand, h₁, h₂, hne⟩ := ha
    obtain ⟨c, hc⟩ := Option.ne_none_iff_exists'.mp hcommand
    obtain ⟨heap, he, h'⟩ := h.enqueue hc h₁ h₂ hne
    refine ⟨⟨heap, s.handed⟩, nodes ++ [node], copies ++ [commandCpy], ?_, ?_⟩
    · rw [Act.exec, he, ok_bind]
    · rw [Act.queuedAfter, hc]
      exact h'
  | dequeue =>
    cases copies with
    | nil =>
      obtain rfl := h.chain.copies_eq_nil_iff.mp rfl
      obtain rfl := h.chain.nodes_eq_nil_iff.mpr rfl
      refine ⟨s, _, _, ?_, h⟩
      rw [Act.exec, h.dequeue_nil, ok_bind]
      rfl
    | cons p copies =>
      obtain ⟨heap, he, hp, -, h'⟩ := h.dequeue
      refine ⟨⟨heap, s.handed ++ [p]⟩, _, _, ?_, h'⟩
      rw [Act.exec, he, ok_bind]
      simp only [if_neg hp]
  | release p =>
    obtain ⟨heap, he, h'⟩ := h.release ha
    refine ⟨⟨heap, s.handed.erase p⟩, _, _, ?_, h'⟩
    rw [Act.exec, he, ok_bind]
  | write a c =>
    obtain ⟨hlive, howns, hhanded⟩ := ha
    rw [h.chain.owns_iff, not_or, not_or] at howns
    obtain ⟨heap, he, h'⟩ := h.write hlive howns.1 howns.2.1 fun hm =>
      (List.mem_append.mp hm).elim hhanded howns.2.2
    refine ⟨⟨heap, s.handed⟩, _, _, ?_, h'⟩
    rw [Act.exec, he, ok_bind]

theorem trace {acts : List Act} {ss : List Holding} (h : Trace (Act.Step queue) s acts ss)
    (hs : Accounted outer queue nodes copies items s) :
    ∃ nodes' copies', Accounted (acts.foldl Act.outside outer) queue nodes' copies'
      (Act.queued items s acts ss) (ss.getLastD s) := by
  induction h generalizing outer nodes copies items with
  | nil s => exact ⟨nodes, copies, hs⟩
  | @cons s t act acts ss hst _ ih =>
    obtain ⟨s', nodes', copies', he, h'⟩ := hs.exec act hst.1
    obtain rfl := Except.ok.inj (he.symm.trans hst.2)
    rw [List.foldl_cons, List.getLastD_cons]
    exact ih h'

end Accounted

/-- A program goes on without a fault, the chain of the queue holds `items`, and the blocks that are
left once the program frees the queue are its own, the commands it was handed, and two for each
item. -/
def Balanced (outer : Heap) (queue : Address) (items : CommandQueue) (s : Holding) : Prop :=
  (∀ act : Act, act.Allowed queue s → ∃ s', act.exec queue s = .ok s') ∧
    ChainHolds s.heap queue items ∧
    ∃ freed, ∃ left : Finset Address, commandQueueFree s.heap queue = .ok freed ∧
      left.card = 2 * items.length + s.handed.length ∧
      (∀ a ∈ left, outer.blocks a = none ∧ freed.blocks a ≠ none) ∧
      ∀ a ∉ left, freed.blocks a = outer.blocks a

theorem Accounted.balanced {outer : Heap} {queue : Address} {nodes copies : List Address}
    {items : CommandQueue} {s : Holding} (h : Accounted outer queue nodes copies items s) :
    Balanced outer queue items s := by
  obtain ⟨freed, hf, hn, hlive, hkeep⟩ := h.freed
  refine ⟨fun act ha => ?_, h.chain.chainHolds, freed, (nodes ++ (s.handed ++ copies)).toFinset,
    hf, ?_, ?_, ?_⟩
  · obtain ⟨s', -, -, he, -⟩ := h.exec act ha
    exact ⟨s', he⟩
  · have hc : copies.length = items.length := by
      simpa using congrArg List.length h.chain.commands
    rw [List.toFinset_card_of_nodup hn, List.length_append, List.length_append, hc,
      h.chain.length_eq]
    omega
  · exact fun a ha => hlive a (List.mem_toFinset.mp ha)
  · exact fun a ha => hkeep a fun hm => ha (List.mem_toFinset.mpr hm)

/-- In every run of a program that uses a queue the blocks balance, with what the enqueues of the
run put in and its dequeues did not take out. -/
theorem queue_balance (base made : Heap) (queue : Address) (acts : List Act)
    (ss : List Holding) (hq : base.Fresh queue) (hm : commandQueueNew base queue = .ok made)
    (h : Trace (Act.Step queue) ⟨made, []⟩ acts ss) :
    Balanced (acts.foldl Act.outside base) queue (Act.queued [] ⟨made, []⟩ acts ss)
      (ss.getLastD ⟨made, []⟩) := by
  obtain ⟨made', hm', hn⟩ := Accounted.new hq
  obtain rfl := Except.ok.inj (hm.symm.trans hm')
  obtain ⟨nodes, copies, hl⟩ := hn.trace h
  exact hl.balanced

theorem Represents.not_owns_of_empty {heap : Heap} {queue a : Address}
    (h : heap.blocks queue = some (.queue ⟨0, 0⟩)) (ha : a ≠ queue) : ¬ Owns heap queue a := by
  have hr : Represents heap queue [] [] [] :=
    ⟨h, .nil 0, rfl, rfl, List.nodup_nil, List.nodup_nil⟩
  rw [hr.owns_iff]
  simpa using ha

/-- A heap with one command of the program at 9. -/
def oneCommand (command : MachineCommand) : Heap := Heap.empty.update 9 (some (.command command))

/-- The command at 9 goes through a queue, is changed, and is queued again. -/
theorem queue_balance_reuse :
    ∃ made, ∃ ss : List Holding, commandQueueNew (oneCommand .haltCycle) 1 = .ok made ∧
      Balanced ((oneCommand .haltCycle).update 9 (some (.command (.writeIr 0)))) 1 [.writeIr 0]
        (ss.getLastD ⟨made, []⟩) := by
  exact ⟨_, _, rfl, queue_balance (oneCommand .haltCycle) _ 1 [.enqueue 9 2 3, .dequeue,
    .release 2, .write 9 (.writeIr 0), .enqueue 9 3 2] _ ⟨nofun, rfl⟩ rfl
    (.cons ⟨⟨nofun, ⟨nofun, rfl⟩, ⟨nofun, rfl⟩, nofun⟩, rfl⟩
      (.cons ⟨trivial, rfl⟩ (.cons ⟨List.mem_cons_self, rfl⟩
        (.cons ⟨⟨nofun, Represents.not_owns_of_empty rfl nofun, nofun⟩, rfl⟩
          (.cons ⟨⟨nofun, ⟨nofun, rfl⟩, ⟨nofun, rfl⟩, nofun⟩, rfl⟩ (.nil _))))))⟩

end Beemu
