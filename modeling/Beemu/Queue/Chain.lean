import Beemu.Queue.CommandQueue

/-!
# The chain of a queue

A queue is a chain of nodes, each with a command of its own, between the two pointers of its
record. Every call keeps such a chain: an enqueue puts a node behind the last one, a dequeue
takes the first one away.
-/

namespace Beemu

open Linked (Segment)

/-- The blocks a queue is made of: its record, the nodes behind `first`, their commands. -/
inductive Owns (heap : Heap) (queue : Address) : Address → Prop where
  | record : Owns heap queue queue
  | first {r : QueueRecord} :
      heap.queueAt queue = some r → r.first ≠ 0 → Owns heap queue r.first
  | next {a : Address} {n : QueueNode} :
      Owns heap queue a → heap.nodeAt a = some n → n.next ≠ 0 → Owns heap queue n.next
  | current {a : Address} {n : QueueNode} :
      Owns heap queue a → heap.nodeAt a = some n → Owns heap queue n.current

/-- A chain of nodes, each with its own copy of the command that stands at its place. -/
structure Represents (heap : Heap) (queue : Address) (nodes copies : List Address)
    (items : CommandQueue) : Prop where
  record : heap.blocks queue = some (.queue ⟨nodes.headD 0, nodes.getLastD 0⟩)
  chain : Segment heap.next? (nodes.headD 0) nodes 0
  currents : nodes.map (fun a => (heap.nodeAt a).map QueueNode.current) = copies.map some
  commands : copies.map heap.commandAt = items.map some
  nodup_nodes : nodes.Nodup
  nodup_copies : copies.Nodup

namespace Represents

variable {heap : Heap} {queue a : Address} {nodes copies : List Address} {items : CommandQueue}

theorem node_live (h : Represents heap queue nodes copies items) (ha : a ∈ nodes) :
    ∃ n, heap.blocks a = some (.node n) ∧ n.current ∈ copies := by
  have hc : (heap.nodeAt a).map QueueNode.current ∈ copies.map some := by
    rw [← h.currents]
    exact List.mem_map_of_mem ha
  obtain ⟨c, hc, hn⟩ := List.mem_map.1 hc
  obtain ⟨n, ha, rfl⟩ := Option.map_eq_some_iff.1 hn.symm
  exact ⟨n, Heap.nodeAt_eq_some_iff.1 ha, hc⟩

theorem copy_live (h : Represents heap queue nodes copies items) (ha : a ∈ copies) :
    ∃ c, heap.blocks a = some (.command c) := by
  have hc : heap.commandAt a ∈ items.map some := by
    rw [← h.commands]
    exact List.mem_map_of_mem ha
  obtain ⟨c, -, hc⟩ := List.mem_map.1 hc
  exact ⟨c, Heap.commandAt_eq_some_iff.1 hc.symm⟩

theorem node_ne_queue (h : Represents heap queue nodes copies items) {n : QueueNode}
    (ha : heap.blocks a = some (.node n)) : a ≠ queue :=
  Heap.ne_of_blocks ha h.record (by simp)

theorem command_ne_queue (h : Represents heap queue nodes copies items) {c : MachineCommand}
    (ha : heap.blocks a = some (.command c)) : a ≠ queue :=
  Heap.ne_of_blocks ha h.record (by simp)

theorem zero_notMem (h : Represents heap queue nodes copies items) : 0 ∉ nodes := by
  intro h0
  obtain ⟨n, hn, -⟩ := h.node_live h0
  exact Heap.ne_zero_of_live hn rfl

theorem length_eq (h : Represents heap queue nodes copies items) :
    nodes.length = items.length := by
  have h₁ := congrArg List.length h.currents
  have h₂ := congrArg List.length h.commands
  simp only [List.length_map] at h₁ h₂
  omega

theorem nodes_eq_nil_iff (h : Represents heap queue nodes copies items) :
    nodes = [] ↔ items = [] := by
  rw [← List.length_eq_zero_iff, h.length_eq, List.length_eq_zero_iff]

theorem first_eq_zero_iff (h : Represents heap queue nodes copies items) :
    nodes.headD 0 = 0 ↔ items = [] := by
  rw [← h.nodes_eq_nil_iff]
  cases nodes with
  | nil => simp
  | cons a nodes =>
    have h0 := h.zero_notMem
    rw [List.mem_cons] at h0
    simp only [List.headD_cons, reduceCtorEq, iff_false]
    exact fun ha => h0 (.inl ha.symm)

theorem last_eq_zero_iff (h : Represents heap queue nodes copies items) :
    nodes.getLastD 0 = 0 ↔ items = [] := by
  rw [← h.nodes_eq_nil_iff]
  rcases List.eq_nil_or_concat nodes with rfl | ⟨ns, a, rfl⟩
  · simp
  · have h0 := h.zero_notMem
    rw [List.concat_eq_append, List.mem_append, List.mem_singleton] at h0
    simp only [List.concat_eq_append, List.getLastD_concat, List.append_eq_nil_iff,
      List.cons_ne_nil, and_false, iff_false]
    exact fun ha => h0 (.inr ha.symm)

/-- A change of the heap that keeps the blocks of the queue keeps the queue. -/
theorem congr (h : Represents heap queue nodes copies items) {other : Heap}
    (hq : other.blocks queue = heap.blocks queue)
    (hn : ∀ a ∈ nodes, other.blocks a = heap.blocks a)
    (hc : ∀ a ∈ copies, other.blocks a = heap.blocks a) :
    Represents other queue nodes copies items where
  record := hq.trans h.record
  chain := h.chain.congr fun a ha => Heap.next?_congr (hn a ha)
  currents := by
    rw [← h.currents]
    refine List.map_congr_left fun a ha => ?_
    rw [Heap.nodeAt, Heap.nodeAt, hn a ha]
  commands := by
    rw [← h.commands]
    refine List.map_congr_left fun a ha => ?_
    rw [Heap.commandAt, Heap.commandAt, hc a ha]
  nodup_nodes := h.nodup_nodes
  nodup_copies := h.nodup_copies

theorem mem_nodes_of_read (h : Represents heap queue nodes copies items) {n : QueueNode}
    (ha : a = queue ∨ a ∈ nodes ∨ a ∈ copies) (hn : heap.nodeAt a = some n) : a ∈ nodes := by
  rw [Heap.nodeAt_eq_some_iff] at hn
  rcases ha with rfl | ha | ha
  · rw [h.record] at hn
    cases hn
  · exact ha
  · obtain ⟨c, hc⟩ := h.copy_live ha
    rw [hc] at hn
    cases hn

theorem owns_of_segment {places : List Address} (hs : Segment heap.next? a places 0)
    (h0 : 0 ∉ places) (ha : a ≠ 0 → Owns heap queue a) : ∀ x ∈ places, Owns heap queue x := by
  induction places generalizing a with
  | nil => simp
  | cons y places ih =>
    obtain ⟨rfl, b, hb, hs⟩ := Segment.cons_iff.1 hs
    rw [List.mem_cons, not_or] at h0
    obtain ⟨n, hn, rfl⟩ := Option.map_eq_some_iff.1 hb
    have hy := ha (Ne.symm h0.1)
    rw [List.forall_mem_cons]
    exact ⟨hy, ih hs h0.2 fun hx => .next hy hn hx⟩

/-- What the queue reaches is its record, its nodes and its copies. -/
theorem owns_iff (h : Represents heap queue nodes copies items) :
    Owns heap queue a ↔ a = queue ∨ a ∈ nodes ∨ a ∈ copies := by
  have hr := Heap.queueAt_eq_some_iff.2 h.record
  constructor
  · intro ho
    induction ho with
    | record => exact .inl rfl
    | @first r hq h0 =>
      obtain rfl := Option.some.inj (hr.symm.trans hq)
      cases nodes with
      | nil => exact absurd rfl h0
      | cons a nodes => exact .inr (.inl List.mem_cons_self)
    | @next a n _ hn h0 ih =>
      have hx : heap.next? a = some n.next := by rw [Heap.next?, hn]; rfl
      exact .inr (.inl ((h.chain.next_mem (h.mem_nodes_of_read ih hn) hx).resolve_right h0))
    | @current a n _ hn ih =>
      obtain ⟨m, hm, hc⟩ := h.node_live (h.mem_nodes_of_read ih hn)
      obtain rfl := Option.some.inj (hn.symm.trans (Heap.nodeAt_eq_some_iff.2 hm))
      exact .inr (.inr hc)
  · have hnodes : ∀ x ∈ nodes, Owns heap queue x :=
      owns_of_segment h.chain h.zero_notMem fun h0 => .first hr h0
    rintro (rfl | ha | ha)
    · exact .record
    · exact hnodes a ha
    · have hc : some a ∈ nodes.map fun x => (heap.nodeAt x).map QueueNode.current := by
        rw [h.currents]
        exact List.mem_map_of_mem ha
      obtain ⟨x, hx, hn⟩ := List.mem_map.1 hc
      obtain ⟨n, hr, rfl⟩ := Option.map_eq_some_iff.1 hn
      exact .current (hnodes x hx) hr

/-- Without its first node, once the record points past it. -/
theorem tail {x p : Address} {c : MachineCommand}
    (h : Represents heap queue (x :: nodes) (p :: copies) (c :: items)) {other : Heap}
    (hq : other.blocks queue = some (.queue ⟨nodes.headD 0, nodes.getLastD 0⟩))
    (hn : ∀ a ∈ nodes, other.blocks a = heap.blocks a)
    (hc : ∀ a ∈ copies, other.blocks a = heap.blocks a) :
    Represents other queue nodes copies items := by
  obtain ⟨-, b, -, hs⟩ := Segment.cons_iff.1 h.chain
  obtain rfl := hs.start_eq
  refine ⟨hq, hs.congr fun a ha => Heap.next?_congr (hn a ha), ?_, ?_,
    h.nodup_nodes.of_cons, h.nodup_copies.of_cons⟩
  · have ht := (List.cons.inj h.currents).2
    rw [← ht]
    refine List.map_congr_left fun a ha => ?_
    rw [Heap.nodeAt, Heap.nodeAt, hn a ha]
  · have ht := (List.cons.inj h.commands).2
    rw [← ht]
    refine List.map_congr_left fun a ha => ?_
    rw [Heap.commandAt, Heap.commandAt, hc a ha]

theorem isEmpty_eq (h : Represents heap queue nodes copies items) :
    commandQueueIsEmpty heap queue = .ok (decide (items = [])) := by
  rw [commandQueueIsEmpty, Heap.readQueue_live h.record, ok_bind]
  simp only [h.first_eq_zero_iff]

/-- The first node of a queue points to the oldest command and to the node behind it. -/
theorem first_node {x : Address} (h : Represents heap queue (x :: nodes) copies items) :
    ∃ p ps c cs, copies = p :: ps ∧ items = c :: cs ∧
      heap.blocks x = some (.node ⟨p, nodes.headD 0⟩) ∧ heap.blocks p = some (.command c) := by
  obtain ⟨⟨p, b⟩, hx, hp⟩ := h.node_live List.mem_cons_self
  obtain ⟨-, b', hb, hs⟩ := Segment.cons_iff.1 h.chain
  obtain rfl := hs.start_eq
  obtain rfl := Option.some.inj ((Heap.next?_eq_some hx).symm.trans hb)
  have hc := h.currents
  rw [List.map_cons, Heap.nodeAt_eq_some_iff.2 hx] at hc
  cases copies with
  | nil => cases hc
  | cons q ps =>
    obtain rfl := Option.some.inj (List.cons.inj hc).1
    have hi := h.commands
    cases items with
    | nil => cases hi
    | cons c cs =>
      exact ⟨_, _, _, _, rfl, rfl, hx, Heap.commandAt_eq_some_iff.1 (List.cons.inj hi).1⟩

theorem copies_eq_nil_iff (h : Represents heap queue nodes copies items) :
    copies = [] ↔ items = [] := by
  have hl := congrArg List.length h.commands
  simp only [List.length_map] at hl
  rw [← List.length_eq_zero_iff, hl, List.length_eq_zero_iff]

/-- A peek sees the first copy, or the null pointer. -/
theorem peek_eq (h : Represents heap queue nodes copies items) :
    commandQueuePeek heap queue = .ok (copies.headD 0) := by
  rw [commandQueuePeek, Heap.readQueue_live h.record, ok_bind]
  cases nodes with
  | nil =>
    have hc := h.copies_eq_nil_iff.2 (h.nodes_eq_nil_iff.1 rfl)
    simp [hc]
  | cons x nodes =>
    obtain ⟨p, ps, c, cs, rfl, rfl, hx, -⟩ := h.first_node
    simp [Heap.ne_zero_of_live hx, Heap.readNode_live hx]

/-- The first copy holds the oldest command, there is none exactly when it is null. -/
theorem oldest (h : Represents heap queue nodes copies items) :
    heap.commandAt (copies.headD 0) = items.head? ∧ (copies.headD 0 = 0 ↔ items = []) := by
  cases nodes with
  | nil =>
    obtain rfl := h.nodes_eq_nil_iff.1 rfl
    obtain rfl := h.copies_eq_nil_iff.2 rfl
    simp [Heap.commandAt, heap.null_free]
  | cons x nodes =>
    obtain ⟨p, ps, c, cs, rfl, rfl, -, hp⟩ := h.first_node
    exact ⟨Heap.commandAt_eq_some_iff.2 hp, by simp [Heap.ne_zero_of_live hp]⟩

/-- A dequeue frees the first node and moves the record past it, and that is all. -/
theorem dequeue_eq {x : Address} (h : Represents heap queue (x :: nodes) copies items) :
    ∃ heap', commandQueueDequeue heap queue = .ok (heap', copies.headD 0) ∧
      heap'.blocks queue = some (.queue ⟨nodes.headD 0, nodes.getLastD 0⟩) ∧
      ∀ a, a ≠ queue → a ≠ x → heap'.blocks a = heap.blocks a := by
  obtain ⟨p, ps, c, cs, rfl, rfl, hx, -⟩ := h.first_node
  have hx0 : x ≠ 0 := Heap.ne_zero_of_live hx
  have hq0 : queue ≠ 0 := Heap.ne_zero_of_live h.record
  have hqx : queue ≠ x := (h.node_ne_queue hx).symm
  have hr := h.record
  rw [commandQueueDequeue, Heap.readQueue_live hr, ok_bind, List.headD_cons, if_neg hx0,
    Heap.readNode_live hx, ok_bind, Heap.store_live hr, ok_bind]
  set moved := heap.update queue
    (some (.queue ⟨nodes.headD 0, (x :: nodes).getLastD 0⟩)) with hmoved
  have hfirst : moved.blocks x = some (.node ⟨p, nodes.headD 0⟩) := by
    rw [hmoved, Heap.update_of_ne hqx.symm, hx]
  rw [Heap.free_live hfirst, ok_bind]
  set freed := moved.update x none with hfreed
  have hrec : freed.blocks queue =
      some (.queue ⟨nodes.headD 0, (x :: nodes).getLastD 0⟩) := by
    rw [hfreed, Heap.update_of_ne hqx, hmoved, Heap.update_self hq0]
  have hkeep : ∀ a, a ≠ queue → a ≠ x → freed.blocks a = heap.blocks a := by
    intro a haq hax
    rw [hfreed, Heap.update_of_ne hax, hmoved, Heap.update_of_ne haq]
  rw [commandQueueIsEmpty, Heap.readQueue_live hrec, ok_bind, ok_bind]
  cases nodes with
  | nil =>
    rw [ok_bind, Heap.store_live hrec]
    refine ⟨_, rfl, Heap.update_self hq0, fun a haq hax => ?_⟩
    rw [Heap.update_of_ne haq, hkeep a haq hax]
  | cons y nodes =>
    have hy : y ≠ 0 := fun hy => h.zero_notMem (by simp [hy])
    refine ⟨freed, ?_, hrec, hkeep⟩
    simp [hy]

/-- A dequeue returns the copy of the first item and leaves a chain of the others. -/
theorem dequeue_spec (h : Represents heap queue nodes copies items) :
    ∃ heap', commandQueueDequeue heap queue = .ok (heap', copies.headD 0) ∧
      heap'.commandAt (copies.headD 0) = items.head? ∧
      Represents heap' queue nodes.tail copies.tail items.tail := by
  cases nodes with
  | nil =>
    obtain rfl := h.nodes_eq_nil_iff.1 rfl
    obtain rfl := h.copies_eq_nil_iff.2 rfl
    refine ⟨heap, ?_, h.oldest.1, h⟩
    rw [commandQueueDequeue, Heap.readQueue_live h.record, ok_bind]
    rfl
  | cons x nodes =>
    obtain ⟨heap', he, hr, hkeep⟩ := h.dequeue_eq
    obtain ⟨p, ps, c, cs, rfl, rfl, hx, hp⟩ := h.first_node
    have hn : ∀ a ∈ nodes, heap'.blocks a = heap.blocks a := by
      intro a ha
      obtain ⟨n, hn, -⟩ := h.node_live (List.mem_cons_of_mem x ha)
      refine hkeep a (h.node_ne_queue hn) ?_
      rintro rfl
      exact (List.nodup_cons.1 h.nodup_nodes).1 ha
    have hc : ∀ a ∈ p :: ps, heap'.blocks a = heap.blocks a := by
      intro a ha
      obtain ⟨d, hd⟩ := h.copy_live ha
      exact hkeep a (h.command_ne_queue hd) (Heap.ne_of_blocks hd hx (by simp))
    rw [List.forall_mem_cons] at hc
    refine ⟨heap', he, ?_, h.tail hr hn hc.2⟩
    exact Heap.commandAt_eq_some_iff.2 (hc.1.trans hp)

/-- With a new node behind the last one, which now points to it. -/
theorem snoc {node copy : Address} {c : MachineCommand} {other : Heap}
    (h : Represents heap queue nodes copies items)
    (hq : other.blocks queue = some (.queue ⟨(nodes ++ [node]).headD 0, node⟩))
    (hnode : other.blocks node = some (.node ⟨copy, 0⟩))
    (hcopy : other.blocks copy = some (.command c))
    (hlast : ∀ n, heap.blocks (nodes.getLastD 0) = some (.node n) →
      other.blocks (nodes.getLastD 0) = some (.node { n with next := node }))
    (hnodes : ∀ a ∈ nodes, a ≠ nodes.getLastD 0 → other.blocks a = heap.blocks a)
    (hcopies : ∀ a ∈ copies, other.blocks a = heap.blocks a)
    (hn : node ∉ nodes) (hc : copy ∉ copies) :
    Represents other queue (nodes ++ [node]) (copies ++ [copy]) (enqueue items c) := by
  have hnext : other.next? node = some 0 := Heap.next?_eq_some hnode
  refine ⟨by rw [hq, List.getLastD_concat], ?_, ?_, ?_, ?_, ?_⟩
  · rcases List.eq_nil_or_concat nodes with rfl | ⟨ns, l, rfl⟩
    · exact .cons hnext (.nil 0)
    · rw [List.concat_eq_append] at h hlast hnodes ⊢
      rw [List.getLastD_concat] at hlast hnodes
      obtain ⟨n, hl, -⟩ := h.node_live (List.mem_append_right ns List.mem_cons_self)
      have hhead : (ns ++ [l] ++ [node]).headD 0 = (ns ++ [l]).headD 0 := by
        cases ns <;> rfl
      rw [hhead]
      refine h.chain.extend (fun w hw => ?_) (Heap.next?_eq_some (hlast n hl)) hnext
      refine Heap.next?_congr (hnodes w (List.mem_append_left [l] hw) ?_)
      rintro rfl
      exact (List.nodup_append.1 h.nodup_nodes).2.2 w hw w List.mem_cons_self rfl
  · rw [List.map_append, List.map_append, ← h.currents, List.map_singleton, List.map_singleton,
      Heap.nodeAt_eq_some_iff.2 hnode]
    congr 1
    refine List.map_congr_left fun a ha => ?_
    by_cases hl : a = nodes.getLastD 0
    · subst hl
      obtain ⟨n, hn, -⟩ := h.node_live ha
      rw [Heap.nodeAt_eq_some_iff.2 hn, Heap.nodeAt_eq_some_iff.2 (hlast n hn)]
      rfl
    · rw [Heap.nodeAt, Heap.nodeAt, hnodes a ha hl]
  · rw [enqueue, List.map_append, List.map_append, ← h.commands, List.map_singleton,
      List.map_singleton, Heap.commandAt_eq_some_iff.2 hcopy]
    congr 1
    refine List.map_congr_left fun a ha => ?_
    rw [Heap.commandAt, Heap.commandAt, hcopies a ha]
  · rw [← List.concat_eq_append]
    exact h.nodup_nodes.concat hn
  · rw [← List.concat_eq_append]
    exact h.nodup_copies.concat hc

theorem fresh_notMem_nodes (h : Represents heap queue nodes copies items)
    (ha : heap.Fresh a) : a ∉ nodes := by
  intro hm
  obtain ⟨n, hn, -⟩ := h.node_live hm
  cases hn.symm.trans ha.2

theorem fresh_notMem_copies (h : Represents heap queue nodes copies items)
    (ha : heap.Fresh a) : a ∉ copies := by
  intro hm
  obtain ⟨c, hc⟩ := h.copy_live hm
  cases hc.symm.trans ha.2

theorem fresh_ne_queue (h : Represents heap queue nodes copies items)
    (ha : heap.Fresh a) : a ≠ queue :=
  Heap.ne_of_blocks ha.2 h.record (by simp)

/-- The new node is the last one of the chain. -/
theorem linkNode_spec (h : Represents heap queue nodes copies items) {copy node : Address}
    {c : MachineCommand} (hnode : heap.blocks node = some (.node ⟨copy, 0⟩))
    (hcopy : heap.blocks copy = some (.command c)) (hn : node ∉ nodes) (hc : copy ∉ copies) :
    ∃ heap', linkNode heap queue node = .ok heap' ∧
      Represents heap' queue (nodes ++ [node]) (copies ++ [copy]) (enqueue items c) := by
  have hq0 : queue ≠ 0 := Heap.ne_zero_of_live h.record
  have hnq : node ≠ queue := h.node_ne_queue hnode
  rw [linkNode, h.isEmpty_eq, ok_bind, Heap.readQueue_live h.record, ok_bind]
  by_cases he : items = []
  · subst he
    obtain rfl := h.nodes_eq_nil_iff.2 rfl
    obtain rfl := h.copies_eq_nil_iff.2 rfl
    rw [if_pos (by simp), Heap.store_live h.record]
    refine ⟨_, rfl, h.snoc (Heap.update_self hq0) ?_ ?_ ?_ nofun nofun hn hc⟩
    · rw [Heap.update_of_ne hnq, hnode]
    · rw [Heap.update_of_ne (h.command_ne_queue hcopy), hcopy]
    · intro n hl
      rw [List.getLastD_nil, heap.null_free] at hl
      cases hl
  · rw [if_neg (by simpa using he)]
    have hne : nodes ≠ [] := fun hn => he (h.nodes_eq_nil_iff.1 hn)
    have hmem : nodes.getLastD 0 ∈ nodes := by
      rw [List.getLastD_eq_getLast?, List.getLast?_eq_some_getLast hne]
      exact List.getLast_mem hne
    obtain ⟨n, hl, -⟩ := h.node_live hmem
    generalize hlast : nodes.getLastD 0 = last at hmem hl
    have hlq : last ≠ queue := h.node_ne_queue hl
    have hlc : ∀ {a d}, heap.blocks a = some (.command d) → a ≠ last := fun ha =>
      Heap.ne_of_blocks ha hl (by simp)
    have hnl : node ≠ last := fun hx => hn (hx ▸ hmem)
    rw [Heap.readNode_live hl, ok_bind, Heap.store_live hl, ok_bind]
    have hrec : (heap.update last (some (.node { n with next := node }))).blocks queue =
        some (.queue ⟨nodes.headD 0, last⟩) := by
      rw [Heap.update_of_ne hlq.symm, h.record, hlast]
    rw [Heap.readQueue_live hrec, ok_bind, Heap.store_live hrec]
    refine ⟨_, rfl, h.snoc ?_ ?_ ?_ ?_ ?_ ?_ hn hc⟩
    · rw [Heap.update_self hq0]
      cases nodes with
      | nil => exact absurd rfl hne
      | cons x nodes => rfl
    · rw [Heap.update_of_ne hnq, Heap.update_of_ne hnl, hnode]
    · rw [Heap.update_of_ne (h.command_ne_queue hcopy), Heap.update_of_ne (hlc hcopy), hcopy]
    · intro m hm
      rw [hlast] at hm ⊢
      obtain rfl := Block.node.inj (Option.some.inj (hl.symm.trans hm))
      rw [Heap.update_of_ne hlq, Heap.update_self (Heap.ne_zero_of_live hl)]
    · intro a ha hal
      rw [hlast] at hal
      obtain ⟨m, hm, -⟩ := h.node_live ha
      rw [Heap.update_of_ne (h.node_ne_queue hm), Heap.update_of_ne hal]
    · intro a ha
      obtain ⟨d, hd⟩ := h.copy_live ha
      rw [Heap.update_of_ne (h.command_ne_queue hd), Heap.update_of_ne (hlc hd)]

/-- An enqueue into two fresh blocks puts the command behind the others. -/
theorem enqueue_spec (h : Represents heap queue nodes copies items)
    {command commandCpy node : Address} {c : MachineCommand}
    (hc : heap.commandAt command = some c) (h₁ : heap.Fresh commandCpy) (h₂ : heap.Fresh node)
    (hne : commandCpy ≠ node) :
    ∃ heap', commandQueueEnqueue heap queue command commandCpy node = .ok heap' ∧
      Represents heap' queue (nodes ++ [node]) (copies ++ [commandCpy]) (enqueue items c) := by
  rw [Heap.commandAt_eq_some_iff] at hc
  have hcc : command ≠ commandCpy := Heap.ne_of_blocks hc h₁.2 (by simp)
  have hcn : command ≠ node := Heap.ne_of_blocks hc h₂.2 (by simp)
  have hraw : ((heap.malloc commandCpy).malloc node).blocks node = some .raw :=
    Heap.update_self h₂.1
  rw [commandQueueEnqueue, Heap.store_live hraw, ok_bind]
  set made := ((heap.malloc commandCpy).malloc node).update node
    (some (.node ⟨commandCpy, 0⟩)) with hmade
  have hother : ∀ a, a ≠ node → a ≠ commandCpy → made.blocks a = heap.blocks a := by
    intro a han hac
    rw [hmade, Heap.update_of_ne han, Heap.malloc, Heap.update_of_ne han, Heap.malloc,
      Heap.update_of_ne hac]
  have hcpy : made.blocks commandCpy = some .raw := by
    rw [hmade, Heap.update_of_ne hne, Heap.malloc, Heap.update_of_ne hne, Heap.malloc,
      Heap.update_self h₁.1]
  rw [Heap.readCommand_live ((hother command hcn hcc).trans hc), ok_bind,
    Heap.store_live hcpy, ok_bind]
  have hkeep : ∀ a, a ≠ node → a ≠ commandCpy →
      (made.update commandCpy (some (.command c))).blocks a = heap.blocks a := by
    intro a han hac
    rw [Heap.update_of_ne hac, hother a han hac]
  have hn := h.fresh_notMem_nodes h₂
  have hp := h.fresh_notMem_copies h₁
  refine linkNode_spec (h.congr ?_ ?_ ?_) ?_ (Heap.update_self h₁.1) hn hp
  · exact hkeep queue (h.fresh_ne_queue h₂).symm (h.fresh_ne_queue h₁).symm
  · exact fun a ha => hkeep a (fun e => hn (e ▸ ha)) fun e => h.fresh_notMem_nodes h₁ (e ▸ ha)
  · exact fun a ha => hkeep a (fun e => h.fresh_notMem_copies h₂ (e ▸ ha)) fun e => hp (e ▸ ha)
  · rw [Heap.update_of_ne hne.symm, hmade, Heap.update_self h₂.1]

/-- The copy that a dequeue returns is not the queue's any more. -/
theorem tail_disowns {heap' : Heap} (h : Represents heap queue nodes copies items)
    (h' : Represents heap' queue nodes.tail copies.tail items.tail)
    (hc : heap'.commandAt (copies.headD 0) = items.head?) :
    ¬ Owns heap' queue (copies.headD 0) := by
  rw [h'.owns_iff]
  cases copies with
  | nil =>
    obtain rfl := h.copies_eq_nil_iff.1 rfl
    obtain rfl := h.nodes_eq_nil_iff.2 rfl
    simpa using (Heap.ne_zero_of_live h'.record).symm
  | cons p ps =>
    cases items with
    | nil => exact absurd (h.copies_eq_nil_iff.2 rfl) nofun
    | cons c cs =>
      have hp := Heap.commandAt_eq_some_iff.1 hc
      rintro (rfl | hm | hm)
      · cases hp.symm.trans h'.record
      · obtain ⟨n, hn, -⟩ := h'.node_live hm
        cases hp.symm.trans hn
      · exact (List.nodup_cons.1 h.nodup_copies).1 hm

end Represents

/-- A new queue has no items. -/
theorem commandQueueNew_spec {heap : Heap} {queue : Address} (hq : heap.Fresh queue) :
    ∃ heap', commandQueueNew heap queue = .ok heap' ∧ Represents heap' queue [] [] [] ∧
      ∀ a, a ≠ queue → heap'.blocks a = heap.blocks a := by
  have hm : (heap.malloc queue).blocks queue = some .raw := Heap.update_self hq.1
  refine ⟨_, Heap.store_live hm, ?_, fun a ha => ?_⟩
  · exact ⟨Heap.update_self hq.1, .nil 0, rfl, rfl, List.nodup_nil, List.nodup_nil⟩
  · rw [Heap.update_of_ne ha, Heap.malloc, Heap.update_of_ne ha]

end Beemu
