import Beemu.Effect.Load
import Beemu.Sm83.Stack

/-!
# Runs of PUSH and POP

PUSH writes a byte at a time on its way down, POP reads a word before SP moves. Over any run
that stays in its room the two keep one list of words.
-/

namespace Beemu

open Sm83 (StackOp HoldsStack depth)

/-- The addresses below `s0` that `count` words take. -/
def InRoom (s0 count : Nat) (a : U16) : Prop := s0 - 2 * count ≤ a.toNat ∧ a.toNat < s0

/-- A trace in which each step does to the registers what its operation does with the list of
words, SP is two bytes lower for each of the words, and no byte is written outside the room. -/
def FollowsStack (s0 room : Nat) :
    Machine → List U16 → List StackOp → List Executed → Prop
  | _, _, [], [] => True
  | m, items, op :: ops, e :: es => ∃ items', op.Acts m.abs e.machine.abs items items' ∧
      e.machine.abs.sp.toNat + 2 * items'.length = s0 ∧
      (∀ a, .memoryAddress a ∈ targets e.queue → InRoom s0 room a) ∧
      FollowsStack s0 room e.machine items' ops es
  | _, _, _, _ => False

section Step

variable {s0 : Nat} (m : Machine) (items : List U16) (w : CodeWord)

theorem applyQueue_load (l : Sm83.Load) (hl : l ≠ .hlSpOffset) :
    ∃ pc, (applyQueue m (fetchCommands m.abs.pc w.bytes ++ loadCommands m.abs w.firstOperand
      (Sm83.word w.secondOperand w.firstOperand) l)).abs =
        (l.exec w.firstOperand (Sm83.word w.secondOperand w.firstOperand) m.abs).setPc pc := by
  rw [applyQueue_append, w.bytes_eq]
  exact ⟨_, applyQueue_loadCommands l hl _ m.abs _ (applyQueue_fetchCommands _ _ _ _) _ _⟩

/-- A load takes one step, except for a POP at the last address. -/
theorem step_load (l : Sm83.Load) (hw : w.opcode = .load l)
    (hl : l ≠ .hlSpOffset) (hp : ∀ r, l = .pop r → m.abs.sp ≠ 0xFFFF) :
    ∃ e pc, step m w = .ok e ∧ e.machine.abs = (l.exec w.firstOperand
      (Sm83.word w.secondOperand w.firstOperand) m.abs).setPc pc := by
  obtain ⟨pc, he⟩ := applyQueue_load m w l hl
  exact ⟨_, pc, step_eq m w _ (parserParse_load w m.processor l hw hp), he⟩

/-- A push writes the two bytes below SP. -/
theorem written_push (s : Sm83.State) (n : U8) (nn : U16) (p : Sm83.StackPair) (a : U16) :
    .memoryAddress a ∈ targets (loadCommands s n nn (.push p)) ↔
      a = s.sp - 1 ∨ a = s.sp - 1 - 1 := by
  have ht : targets (loadCommands s n nn (.push p)) =
      [.register16 .SP, .memoryAddress (s.sp - 1), .register16 .SP,
        .memoryAddress (s.sp - 1 - 1)] := rfl
  rw [ht]
  simp

theorem not_written_pop (s : Sm83.State) (n : U8) (nn : U16) (p : Sm83.StackPair) (a : U16) :
    .memoryAddress a ∉ targets (loadCommands s n nn (.pop p)) := by
  have ht : targets (loadCommands s n nn (.pop p)) =
      [.register16 .SP, .register16 .SP, .register16 (stackRegister16Of p)] := rfl
  rw [ht]
  simp

theorem inRoom_push {s : Sm83.State} (h : HoldsStack s0 s items)
    (hr : 2 * (items.length + 1) ≤ s0) {a : U16} (ha : a = s.sp - 1 ∨ a = s.sp - 1 - 1) :
    InRoom s0 (items.length + 1) a := by
  have hsp := h.sp
  have h₁ : (s.sp - 1).toNat = s.sp.toNat - 1 := Sm83.toNat_sub_ofNat _ 1 (by omega)
  have h₂ : (s.sp - 1 - 1).toNat = (s.sp - 1).toNat - 1 := Sm83.toNat_sub_ofNat _ 1 (by omega)
  rcases ha with rfl | rfl
  · rw [InRoom, h₁]
    omega
  · rw [InRoom, h₂, h₁]
    omega

theorem step_push (p : Sm83.StackPair) (hw : w.opcode = .load (.push p))
    (h : HoldsStack s0 m.abs items) (hr : 2 * (items.length + 1) ≤ s0) (hs : s0 < 65536) :
    ∃ e, step m w = .ok e ∧ HoldsStack s0 e.machine.abs (m.abs.stackPair p :: items) ∧
      (StackOp.push p).Acts m.abs e.machine.abs items (m.abs.stackPair p :: items) ∧
      ∀ a, .memoryAddress a ∈ targets e.queue → InRoom s0 (items.length + 1) a := by
  obtain ⟨pc, he⟩ := applyQueue_load m w (.push p) nofun
  refine ⟨_, step_eq m w _ (parserParse_load w m.processor _ hw nofun), ?_, ?_, ?_⟩
  · rw [← Machine.abs, he]
    exact (h.push hr hs p _ _).setPc pc
  · rw [← Machine.abs, he]
    exact ⟨rfl, rfl, rfl⟩
  · intro a ha
    rw [mem_targets_fetch_append, written_push] at ha
    exact inRoom_push items h hr ha

theorem step_pop (p : Sm83.StackPair) (v : U16) (hw : w.opcode = .load (.pop p))
    (h : HoldsStack s0 m.abs (v :: items)) (hs : s0 < 65536) :
    ∃ e, step m w = .ok e ∧ HoldsStack s0 e.machine.abs items ∧
      (StackOp.pop p).Acts m.abs e.machine.abs (v :: items) items ∧
      ∀ a, .memoryAddress a ∉ targets e.queue := by
  obtain ⟨pc, he⟩ := applyQueue_load m w (.pop p) nofun
  have hq := parserParse_load w m.processor _ hw fun _ _ => h.sp_ne_last hs
  refine ⟨_, step_eq m w _ hq, ?_, ?_, ?_⟩
  · rw [← Machine.abs, he]
    exact (h.pop hs p _ _).setPc pc
  · rw [← Machine.abs, he]
    refine ⟨v, rfl, ?_, ?_⟩
    · rw [← h.popped]
      cases p <;> rfl
    · rw [← h.popped]
      cases p <;> rfl
  · intro a ha
    rw [mem_targets_fetch_append] at ha
    exact not_written_pop _ _ _ p a ha

end Step

theorem InRoom.mono {s0 k k' : Nat} {a : U16} (h : InRoom s0 k a) (hk : k ≤ k') :
    InRoom s0 k' a := by
  obtain ⟨h₁, h₂⟩ := h
  exact ⟨by omega, h₂⟩

/-- A word that is the operation. -/
def Encodes (w : CodeWord) (op : StackOp) : Prop := w.opcode = .load op.load

/-- From `items` on, no prefix pops an empty list, runs out of room or exceeds it. -/
def StaysInRoom (s0 room : Nat) (items : List U16) (ops : List StackOp) : Prop :=
  ∀ us, us <+: ops → 0 ≤ items.length + depth us ∧ 2 * (items.length + depth us) ≤ s0 ∧
    items.length + depth us ≤ room

theorem StaysInRoom.tail {s0 room : Nat} {items items' : List U16} {op : StackOp}
    {ops : List StackOp} (h : StaysInRoom s0 room items (op :: ops))
    (hl : (items'.length : Int) = items.length + op.delta) :
    StaysInRoom s0 room items' ops := by
  intro us hu
  have h := h (op :: us) (List.cons_prefix_cons.mpr ⟨rfl, hu⟩)
  rw [Sm83.depth_cons] at h
  omega

theorem run_from {s0 room : Nat} (hs : s0 < 65536) (ws : List CodeWord) (ops : List StackOp)
    (hw : List.Forall₂ Encodes ws ops) (m : Machine) (items : List U16)
    (hm : HoldsStack s0 m.abs items) (hb : StaysInRoom s0 room items ops) :
    ∃ es, run m ws = .ok es ∧ FollowsStack s0 room m items ops es := by
  induction hw generalizing m items with
  | nil => exact ⟨[], rfl, trivial⟩
  | @cons w op ws ops hop hw ih =>
    have h₁ := hb [op] (List.cons_prefix_cons.mpr ⟨rfl, List.nil_prefix⟩)
    rw [Sm83.depth_cons, Sm83.depth_nil] at h₁
    cases op with
    | push p =>
      rw [StackOp.delta] at h₁
      obtain ⟨e, he, hi, ha, ht⟩ := step_push m items w p hop hm (by omega) hs
      obtain ⟨es, hes, hf⟩ := ih e.machine _ hi (hb.tail (by simp [StackOp.delta]))
      exact ⟨_, run_cons_eq m w ws e es he hes, _, ha, hi.sp,
        fun a h => (ht a h).mono (by omega), hf⟩
    | pop p =>
      rw [StackOp.delta] at h₁
      cases items with
      | nil => simp at h₁
      | cons v items =>
        obtain ⟨e, he, hi, ha, ht⟩ := step_pop m items w p v hop hm hs
        obtain ⟨es, hes, hf⟩ := ih e.machine _ hi (hb.tail (by simp [StackOp.delta]))
        exact ⟨_, run_cons_eq m w ws e es he hes, _, ha, hi.sp,
          fun a h => absurd h (ht a), hf⟩

/-- Any run of PUSH and POP that keeps to its room runs to the end and is a list stack. -/
theorem stack_run (m : Machine) (ws : List CodeWord) (ops : List StackOp) (dmax : Nat)
    (hw : List.Forall₂ Encodes ws ops)
    (hb : ∀ us, us <+: ops → 0 ≤ depth us ∧ 2 * depth us ≤ m.abs.sp.toNat ∧ depth us ≤ dmax) :
    ∃ es, run m ws = .ok es ∧ FollowsStack m.abs.sp.toNat dmax m [] ops es := by
  refine run_from m.abs.sp.isLt ws ops hw m [] (HoldsStack.empty m.abs) fun us hu => ?_
  simpa using hb us hu

/-- A machine of zeros whose stack starts at 0xFFFE. -/
def machineWithStack : Machine := applyCommand machineAtZero (.writeReg16 .SP 0xFFFE)

/-- `PUSH BC` and `POP DE`. -/
theorem stack_run_push_pop :
    ∃ es, run machineWithStack [0xC50000, 0xD10000] = .ok es ∧
      FollowsStack machineWithStack.abs.sp.toNat 1 machineWithStack [] [.push .BC, .pop .DE] es :=
  stack_run machineWithStack [0xC50000, 0xD10000] [.push .BC, .pop .DE] 1
    (.cons rfl (.cons rfl .nil)) fun us hu => by
      have h : us ∈ [StackOp.push .BC, .pop .DE].inits := (List.mem_inits _ _).mpr hu
      have hs : machineWithStack.abs.sp.toNat = 0xFFFE := rfl
      rw [hs]
      simp only [List.inits, List.map_cons, List.map_nil, List.mem_cons, List.not_mem_nil,
        or_false] at h
      rcases h with rfl | rfl | rfl <;> decide

end Beemu
