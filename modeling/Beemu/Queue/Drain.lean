import Beemu.Effect.Run
import Beemu.Queue.Accounting

/-!
# Instructions through a linked queue

The tokenizer puts each token in a block of its own. The parser fills a local command and enqueues
it, over and over. Whoever runs the commands takes them out one at a time, frees each, and frees the
queue and the token in the end. What comes out is the list that went in, and the heap is as it was.
-/

namespace Beemu

section Functions

variable (queue command : Address) (fresh : Nat → Address)

/-- The calls of the `beemu_cq` functions in turn, which store into a local variable at `command`
and enqueue that. What `malloc` returns is `fresh i`, `fresh (i + 1)` and so on. -/
def emit : Nat → Heap → CommandQueue → Checked Heap
  | _, heap, [] => .ok heap
  | i, heap, c :: cs => do
    let heap ← heap.store command (.command c)
    let heap ← commandQueueEnqueue heap queue command (fresh i) (fresh (i + 1))
    emit (i + 2) heap cs

/-- The loop that takes the commands out while there is one. -/
def takeAll : Nat → Heap → Checked (CommandQueue × Heap)
  | 0, heap => .ok ([], heap)
  | rounds + 1, heap => do
    let empty ← commandQueueIsEmpty heap queue
    if empty then .ok ([], heap)
    else do
      let (heap, p) ← commandQueueDequeue heap queue
      let c ← heap.readCommand p
      let heap ← heap.free p
      let (cs, heap) ← takeAll rounds heap
      .ok (c :: cs, heap)

def throughQueue (heap : Heap) (cs : CommandQueue) : Checked (CommandQueue × Heap) := do
  let heap ← commandQueueNew heap (fresh 0)
  let heap ← emit (fresh 0) command fresh 1 heap cs
  -- one round for each command, and the one that finds none
  let (taken, heap) ← takeAll (fresh 0) (cs.length + 1) heap
  let heap ← commandQueueFree heap (fresh 0)
  .ok (taken, heap)

/-- `beemu_tokenizer_free_token` -/
def tokenizerFreeToken (heap : Heap) (token : Address) : Checked Heap := heap.free token

/-- A step whose commands go through a linked queue. The token is the first block that is made and
the last one that is freed; what is in it is `t`. -/
def linkedStep (m : Machine) (w : CodeWord) (heap : Heap) : Checked (Executed × Heap) := do
  let heap := heap.malloc (fresh 0)
  let t ← tokenizerTokenize (w.setWidth 32)
  let cs ← parserParse m.processor t
  let (taken, heap) ← throughQueue command (fun i => fresh (i + 1)) heap cs
  let heap ← tokenizerFreeToken heap (fresh 0)
  .ok (⟨taken, applyQueue m taken⟩, heap)

end Functions

/-- One step after the other, each with its own pointers from `malloc`. -/
def linkedRun (command : Address) :
    (Nat → Nat → Address) → Machine → List CodeWord → Heap → Checked (List Executed × Heap)
  | _, _, [], heap => .ok ([], heap)
  | supply, m, w :: ws, heap => do
    let (e, heap) ← linkedStep command (supply 0) m w heap
    let (es, heap) ← linkedRun command (fun k => supply (k + 1)) e.machine ws heap
    .ok (e :: es, heap)

/-- Pointers that `malloc` may return one after the other. -/
structure Supplied (heap : Heap) (fresh : Nat → Address) : Prop where
  distinct : Function.Injective fresh
  fresh : ∀ i, heap.Fresh (fresh i)

/-- The blocks that a heap and another one have in common are all but one. -/
def SameBut (command : Address) (heap heap' : Heap) : Prop :=
  heap'.blocks command ≠ none ∧ ∀ a, a ≠ command → heap'.blocks a = heap.blocks a

section Session

variable {outer heap heap' : Heap} {queue command : Address} {nodes copies : List Address}
  {items : CommandQueue} {fresh : Nat → Address} {i k : Nat}

theorem SameBut.update {b : Block} (hc : heap.blocks command ≠ none) :
    SameBut command heap (heap.update command (some b)) := by
  obtain ⟨old, ho⟩ := Option.ne_none_iff_exists'.mp hc
  refine ⟨?_, fun a ha => Heap.update_of_ne ha⟩
  rw [Heap.update_self (Heap.ne_zero_of_live ho)]
  nofun

theorem SameBut.trans {heap'' : Heap} (h : SameBut command heap heap')
    (h' : SameBut command heap' heap'') : SameBut command heap heap'' :=
  ⟨h'.1, fun a ha => (h'.2 a ha).trans (h.2 a ha)⟩

theorem Supplied.ne_command (hs : Supplied heap fresh) (hc : heap.blocks command ≠ none) (i : Nat) :
    fresh i ≠ command := by
  rintro rfl
  exact hc (hs.fresh i).2

theorem Supplied.of_sameBut (h : Supplied heap fresh) (hs : SameBut command heap heap')
    (hc : heap.blocks command ≠ none) : Supplied heap' fresh := by
  refine ⟨h.distinct, fun i => ⟨(h.fresh i).1, ?_⟩⟩
  rw [hs.2 _ (h.ne_command hc i), (h.fresh i).2]

/-- The blocks that a queue has made are the first ones that were supplied. -/
def MadeBefore (fresh : Nat → Address) (i : Nat) (queue : Address)
    (nodes copies : List Address) : Prop :=
  ∀ a, a = queue ∨ a ∈ nodes ∨ a ∈ copies → ∃ j < i, a = fresh j

theorem MadeBefore.enqueue (h : MadeBefore fresh i queue nodes copies) :
    MadeBefore fresh (i + 2) queue (nodes ++ [fresh (i + 1)]) (copies ++ [fresh i]) := by
  intro a ha
  rw [List.mem_append, List.mem_append, List.mem_singleton, List.mem_singleton] at ha
  have hold : a = queue ∨ a ∈ nodes ∨ a ∈ copies → ∃ j < i + 2, a = fresh j := by
    intro ha
    obtain ⟨j, hj, he⟩ := h a ha
    exact ⟨j, by omega, he⟩
  rcases ha with ha | (ha | ha) | ha | ha
  · exact hold (.inl ha)
  · exact hold (.inr (.inl ha))
  · exact ⟨i + 1, by omega, ha⟩
  · exact hold (.inr (.inr ha))
  · exact ⟨i, by omega, ha⟩

/-- A pointer that was not used yet is still free. -/
theorem Accounted.fresh_of_le (h : Accounted outer queue nodes copies items ⟨heap, []⟩)
    (hs : Supplied outer fresh) (hm : MadeBefore fresh i queue nodes copies) (hk : i ≤ k) :
    heap.Fresh (fresh k) := by
  have hn : ¬ (fresh k = queue ∨ fresh k ∈ nodes ∨ fresh k ∈ copies) := by
    intro ha
    obtain ⟨j, hj, he⟩ := hm _ ha
    have hjk := hs.distinct he
    omega
  simp only [not_or] at hn
  refine ⟨(hs.fresh k).1, ?_⟩
  rw [h.frame _ hn.1 hn.2.1 hn.2.2, (hs.fresh k).2]

theorem emit_spec (cs : CommandQueue) {i : Nat} {outer heap : Heap} {nodes copies : List Address}
    {items : CommandQueue} (h : Accounted outer queue nodes copies items ⟨heap, []⟩)
    (hs : Supplied outer fresh) (hc : outer.blocks command ≠ none)
    (hm : MadeBefore fresh i queue nodes copies) :
    ∃ outer' heap' nodes' copies', emit queue command fresh i heap cs = .ok heap' ∧
      SameBut command outer outer' ∧
      Accounted outer' queue nodes' copies' (items ++ cs) ⟨heap', []⟩ := by
  induction cs generalizing i outer heap nodes copies items with
  | nil =>
    refine ⟨outer, heap, nodes, copies, rfl, ⟨hc, fun _ _ => rfl⟩, ?_⟩
    rwa [List.append_nil]
  | cons c cs ih =>
    have hcq : ¬ (command = queue ∨ command ∈ nodes ∨ command ∈ copies) := fun hx =>
      hc (h.unknown command hx)
    simp only [not_or] at hcq
    obtain ⟨hq, hn, hp⟩ := hcq
    have hframe : heap.blocks command = outer.blocks command := h.frame command hq hn hp
    obtain ⟨stored, hst, h₁⟩ := h.write (c := c) (hframe ▸ hc) hq hn hp
    have hsame : SameBut command outer (outer.update command (some (.command c))) := .update hc
    have hs₁ := hs.of_sameBut hsame hc
    have hcommand : stored.commandAt command = some c := by
      rw [Heap.commandAt_eq_some_iff, h₁.frame command hq hn hp]
      obtain ⟨old, ho⟩ := Option.ne_none_iff_exists'.mp hc
      exact Heap.update_self (Heap.ne_zero_of_live ho)
    obtain ⟨linked, hl, h₂⟩ := h₁.enqueue hcommand (h₁.fresh_of_le hs₁ hm (Nat.le_refl i))
      (h₁.fresh_of_le hs₁ hm (Nat.le_succ i)) fun he => Nat.ne_add_one i (hs.distinct he)
    obtain ⟨outer', heap', nodes', copies', he, hsame', h₃⟩ := ih h₂ hs₁ hsame.1 hm.enqueue
    refine ⟨outer', heap', nodes', copies', ?_, hsame.trans hsame', ?_⟩
    · rw [emit, hst, ok_bind, hl, ok_bind, he]
    · rwa [Beemu.enqueue, List.append_assoc] at h₃

theorem takeAll_spec {items : CommandQueue} {rounds : Nat} {heap : Heap}
    {nodes copies : List Address} (h : Accounted outer queue nodes copies items ⟨heap, []⟩)
    (hr : items.length < rounds) :
    ∃ heap', takeAll queue rounds heap = .ok (items, heap') ∧
      Accounted outer queue [] [] [] ⟨heap', []⟩ := by
  induction rounds generalizing items heap nodes copies with
  | zero => omega
  | succ rounds ih =>
    cases items with
    | nil =>
      obtain rfl := h.chain.nodes_eq_nil_iff.mpr rfl
      obtain rfl := h.chain.copies_eq_nil_iff.mpr rfl
      refine ⟨heap, ?_, h⟩
      rw [takeAll, h.chain.isEmpty_eq, ok_bind]
      rfl
    | cons c cs =>
      cases copies with
      | nil => exact absurd (h.chain.copies_eq_nil_iff.mp rfl) nofun
      | cons p copies =>
        obtain ⟨taken, hd, -, hp, h₁⟩ := h.dequeue
        obtain ⟨freed, hf, h₂⟩ := h₁.release List.mem_cons_self
        rw [List.nil_append, List.erase_cons_head] at h₂
        obtain ⟨heap', he, h₃⟩ := ih h₂ (Nat.lt_of_succ_lt_succ hr)
        refine ⟨heap', ?_, h₃⟩
        rw [takeAll, h.chain.isEmpty_eq, ok_bind, if_neg nofun, hd, ok_bind]
        change (Heap.readCommand taken p >>= _) = _
        rw [Heap.readCommand_live (Heap.commandAt_eq_some_iff.mp hp), ok_bind, hf, ok_bind, he,
          ok_bind]
        rfl

/-- The commands come out as they went in, and nothing but the local variable is changed. -/
theorem throughQueue_spec (cs : CommandQueue) (hs : Supplied heap fresh)
    (hc : heap.blocks command ≠ none) :
    ∃ heap', throughQueue command fresh heap cs = .ok (cs, heap') ∧
      SameBut command heap heap' := by
  obtain ⟨made, hn, h₀⟩ := Accounted.new (hs.fresh 0)
  have hm : MadeBefore fresh 1 (fresh 0) [] [] := by
    rintro a (rfl | ha | ha)
    · exact ⟨0, Nat.one_pos, rfl⟩
    · cases ha
    · cases ha
  obtain ⟨outer', filled, nodes, copies, he, hsame, h₁⟩ := emit_spec cs h₀ hs hc hm
  obtain ⟨drained, ht, h₂⟩ := takeAll_spec h₁ (Nat.lt_succ_self _)
  obtain ⟨freed, hf, -, -, hkeep⟩ := h₂.freed
  refine ⟨freed, ?_, ?_, fun a ha => ?_⟩
  · rw [throughQueue, hn, ok_bind, he, ok_bind, ← List.nil_append cs, ht, ok_bind]
    change (commandQueueFree drained (fresh 0) >>= _) = _
    rw [hf, ok_bind]
  · rw [hkeep command List.not_mem_nil]
    exact hsame.1
  · rw [hkeep a List.not_mem_nil, hsame.2 a ha]

/-- With a block made at the first pointer, the others may still be returned. -/
theorem Supplied.malloc (hs : Supplied heap fresh) :
    Supplied (heap.malloc (fresh 0)) fun i => fresh (i + 1) := by
  refine ⟨fun i j h => Nat.succ.inj (hs.distinct h), fun i => ⟨(hs.fresh (i + 1)).1, ?_⟩⟩
  have hne : fresh (i + 1) ≠ fresh 0 := fun h => Nat.succ_ne_zero i (hs.distinct h)
  rw [Heap.malloc, Heap.update_of_ne hne, (hs.fresh (i + 1)).2]

/-- A block that is made, and freed after other things are done, leaves no trace. -/
theorem SameBut.of_malloc (h : SameBut command (heap.malloc (fresh 0)) heap')
    (hs : Supplied heap fresh) (hne : fresh 0 ≠ command) :
    ∃ freed, tokenizerFreeToken heap' (fresh 0) = .ok freed ∧ SameBut command heap freed := by
  have hlive : heap'.blocks (fresh 0) = some .raw := by
    rw [h.2 _ hne, Heap.malloc, Heap.update_self (hs.fresh 0).1]
  refine ⟨_, Heap.free_live hlive, ?_, fun a ha => ?_⟩
  · rw [Heap.update_of_ne hne.symm]
    exact h.1
  · by_cases ht : a = fresh 0
    · rw [ht, Heap.update_self (hs.fresh 0).1, (hs.fresh 0).2]
    · rw [Heap.update_of_ne ht, h.2 a ha, Heap.malloc, Heap.update_of_ne ht]

theorem linkedStep_eq (m : Machine) (w : CodeWord) (hs : Supplied heap fresh)
    (hc : heap.blocks command ≠ none) :
    ∃ heap', SameBut command heap heap' ∧ linkedStep command fresh m w heap =
      (step m w >>= fun e => .ok (e, heap')) := by
  rw [linkedStep, step, tokenizerTokenize_eq, ok_bind, ok_bind]
  cases hq : parserParse m.processor w.token with
  | error err => exact ⟨heap, ⟨hc, fun _ _ => rfl⟩, rfl⟩
  | ok cs =>
    have hne := hs.ne_command hc 0
    have hlive : (heap.malloc (fresh 0)).blocks command ≠ none := by
      rw [Heap.malloc, Heap.update_of_ne hne.symm]
      exact hc
    obtain ⟨drained, he, hsame⟩ := throughQueue_spec cs hs.malloc hlive
    obtain ⟨heap', hf, hsame'⟩ := hsame.of_malloc hs hne
    refine ⟨heap', hsame', ?_⟩
    rw [ok_bind, he, ok_bind]
    change (tokenizerFreeToken drained (fresh 0) >>= _) = _
    rw [hf, ok_bind]
    rfl

end Session

/-- Runs through linked queues are runs: they reach the same machines or the same fault, whatever
free blocks `malloc` returns, and in the end the heap has nothing more or less in it. -/
theorem linked_run (command : Address) (supply : Nat → Nat → Address) (m : Machine)
    (ws : List CodeWord) (heap : Heap) (hc : heap.blocks command ≠ none)
    (hs : ∀ k, Supplied heap (supply k)) :
    ∃ heap', SameBut command heap heap' ∧ linkedRun command supply m ws heap =
      (run m ws >>= fun es => .ok (es, heap')) := by
  induction ws generalizing supply m heap with
  | nil => exact ⟨heap, ⟨hc, fun _ _ => rfl⟩, rfl⟩
  | cons w ws ih =>
    obtain ⟨stepped, hsame, hl⟩ := linkedStep_eq m w (hs 0) hc
    rw [linkedRun, run, hl]
    cases hst : step m w with
    | error err => exact ⟨stepped, hsame, rfl⟩
    | ok e =>
      obtain ⟨heap', hsame', hr⟩ := ih (fun k => supply (k + 1)) e.machine stepped hsame.1
        fun k => (hs (k + 1)).of_sameBut hsame hc
      refine ⟨heap', hsame.trans hsame', ?_⟩
      rw [ok_bind, ok_bind, ok_bind]
      change (linkedRun command (fun k => supply (k + 1)) e.machine ws stepped >>= _) = _
      rw [hr]
      cases hrun : run e.machine ws with
      | error err => rfl
      | ok es => rfl

/-- `LD A, n` and `ADD A, B` with a local variable at 9 and new blocks from 10 on. -/
theorem linked_run_add :
    ∃ heap', SameBut 9 (oneCommand .haltCycle) heap' ∧
      linkedRun 9 (fun _ i => i + 10) machineAtZero [0x3E4200, 0x800000] (oneCommand .haltCycle) =
        (run machineAtZero [0x3E4200, 0x800000] >>= fun es => .ok (es, heap')) := by
  refine linked_run 9 _ machineAtZero _ _ nofun fun _ => ⟨add_left_injective 10, fun i => ?_⟩
  have h₉ : i + 10 ≠ 9 := by omega
  exact ⟨Nat.succ_ne_zero (i + 9), Heap.update_of_ne h₉⟩

end Beemu
