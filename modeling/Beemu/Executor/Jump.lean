import Beemu.Executor.Executor

/-!
# Executing jumps

A jump is its condition and what it does when it is taken. A conditional jump has the parameters
of the unconditional one of its kind, the condition apart, and so it is that jump or nothing.
-/

namespace Beemu

theorem testCondition_conditionOf (p : Processor) (c : Sm83.Cond) :
    testCondition p.registers (conditionOf c) = c.holds p.abs := by
  have hz : registersFlagsGetFlag p.registers .Z = boolByte (p.abs.flag .Z) := flagsGetFlag_eq p .Z
  have hc : registersFlagsGetFlag p.registers .C = boolByte (p.abs.flag .C) := flagsGetFlag_eq p .C
  cases c with
  | NZ | Z =>
    simp only [testCondition, conditionOf, hz, Sm83.Cond.holds]
    cases p.abs.flag .Z <;> rfl
  | NC | C =>
    simp only [testCondition, conditionOf, hc, Sm83.Cond.holds]
    cases p.abs.flag .C <;> rfl

section Params

variable (n : U8) (nn : U16) (j : Sm83.Jump)

theorem jumpParamsOf_always :
    (jumpParamsOf n nn j.always).type = (jumpParamsOf n nn j).type ∧
      (jumpParamsOf n nn j.always).isRelative = (jumpParamsOf n nn j).isRelative ∧
      (jumpParamsOf n nn j.always).param = (jumpParamsOf n nn j).param := by
  cases j <;> exact ⟨rfl, rfl, rfl⟩

/-- The test that the source makes is whether the jump is taken. -/
theorem conditional_iff_taken (p : Processor) :
    ((jumpParamsOf n nn j).isConditional = true ∧
      ¬ testCondition p.registers (jumpParamsOf n nn j).condition = true) ↔
        j.taken p.abs = false := by
  cases j with
  | jrIf c | jpIf c | callIf c | retIf c =>
    change true = true ∧ ¬ testCondition p.registers (conditionOf c) = true ↔ c.holds p.abs = false
    rw [testCondition_conditionOf]
    simp
  | _ => exact ⟨fun h => Bool.noConfusion h.1, fun h => Bool.noConfusion h⟩

/-- Every parameter of a jump resolves: those in memory are one byte. -/
theorem resolveParam_jumpParam (p : Processor) :
    ∃ a, resolveParam p (jumpParamsOf n nn j).param = .ok a := by
  cases j with
  | jr | jrIf c => exact ⟨_, resolveParam_offsetParam p n⟩
  | jp | jpIf c | call | callIf c => exact ⟨_, resolveParam_wordParam p nn⟩
  | jpHL => exact ⟨_, resolveParam_pairParam p .HL _ (read_HL p)⟩
  | ret | retIf c | reti => exact ⟨_, resolveParam_pointerParam p .SP⟩
  | rst k => exact ⟨_, resolveParam_wordParam p _⟩

end Params

theorem takeJump_congr (p : Processor) (q q' : JumpParams) (a : U32) (ht : q'.type = q.type)
    (hr : q'.isRelative = q.isRelative) : takeJump p q' a = takeJump p q a := by
  rw [takeJump, takeJump, ht, hr]

/-- What executing a jump comes to. -/
theorem executeWord_jump (p : Processor) (w : CodeWord) (j : Sm83.Jump) (a : U32)
    (hw : w.opcode = .jump j)
    (ha : resolveParam p (jumpParamsOf w.firstOperand
      (Sm83.word w.secondOperand w.firstOperand) j).param = .ok a) :
    executeWord p w =
      if j.taken p.abs then
        takeJump p (jumpParamsOf w.firstOperand (Sm83.word w.secondOperand w.firstOperand) j) a
      else .ok p := by
  have hj : executeJump p w.token =
      if j.taken p.abs then
        takeJump p (jumpParamsOf w.firstOperand (Sm83.word w.secondOperand w.firstOperand) j) a
      else .ok p := by
    have hp : w.token.jumpParams = .ok (jumpParamsOf w.firstOperand
        (Sm83.word w.secondOperand w.firstOperand) j) := by
      rw [CodeWord.token, hw]
      rfl
    rw [executeJump, hp, ok_bind, ha, ok_bind]
    by_cases ht : j.taken p.abs = true
    · rw [if_neg, if_pos ht]
      rw [conditional_iff_taken, ht]
      decide
    · rw [if_pos, if_neg ht]
      rw [conditional_iff_taken]
      exact Bool.eq_false_iff.mpr ht
  have htype : w.token.type = .jump := by
    rw [CodeWord.token, hw]
    rfl
  rw [executeWord, tokenizerTokenize_eq, ok_bind, executeInstruction, htype, ← hj]
  cases executeJump p w.token <;> rfl

/-- A jump without a condition is taken. -/
theorem executeWord_unconditional (p : Processor) (w : CodeWord) (j : Sm83.Jump) (a : U32)
    (hw : w.opcode = .jump j) (hc : j.condition? = none)
    (ha : resolveParam p (jumpParamsOf w.firstOperand
      (Sm83.word w.secondOperand w.firstOperand) j).param = .ok a) :
    executeWord p w =
      takeJump p (jumpParamsOf w.firstOperand (Sm83.word w.secondOperand w.firstOperand) j) a := by
  rw [executeWord_jump p w j a hw ha, if_pos (j.taken_of_unconditional p.abs hc)]

/-! ## The stack -/

/-- A word pushed by the executor: it is written at SP, and SP moves below it. -/
def pushed (s : Sm83.State) (v : U16) : Sm83.State :=
  ((s.setMem s.sp (Sm83.lo v)).setMem (s.sp + 1) (Sm83.hi v)).setSp (s.sp - 2)

section Stack

variable (p : Processor)

theorem pushStack_of_ne (v : U16) (h : p.abs.sp ≠ 0xFFFF) :
    ∃ q, pushStack p v = .ok q ∧ q.abs = pushed p.abs v := by
  have hw := write_eq_store p.registers (.sixteenBit .SP) (p.abs.sp - 2) (by decide)
  rw [pushStack, read_SP, ok_bind, memoryWrite16_of_ne _ _ _ h, ok_bind, hw, ok_bind]
  refine ⟨_, rfl, ?_⟩
  have hl := writeMemory_abs p p.abs.sp (Sm83.lo v)
  have hh := writeMemory_abs (p.writeMemory p.abs.sp (Sm83.lo v)) (p.abs.sp + 1) (Sm83.hi v)
  have hs := write_register16_abs ((p.writeMemory p.abs.sp (Sm83.lo v)).writeMemory
    (p.abs.sp + 1) (Sm83.hi v)) .SP (p.abs.sp - 2)
  rw [hh, hl] at hs
  exact hs

theorem popStack_of_ne (h : p.abs.sp ≠ 0xFFFD) :
    ∃ q, popStack p = .ok (q, Sm83.word (p.abs.mem (p.abs.sp + 2 + 1)) (p.abs.mem (p.abs.sp + 2))) ∧
      q.abs = p.abs.setSp (p.abs.sp + 2) := by
  have hne : p.abs.sp + 2 ≠ 0xFFFF := by
    intro he
    apply h
    bv_omega
  have hw := write_eq_store p.registers (.sixteenBit .SP) (p.abs.sp + 2) (by decide)
  rw [popStack, read_SP, ok_bind, hw, ok_bind, memoryRead16_of_ne _ _ hne, ok_bind]
  exact ⟨_, rfl, write_register16_abs p .SP (p.abs.sp + 2)⟩

/-- A word pushed at the last address is lost, and SP moves all the same. -/
theorem pushStack_ok (v : U16) : ∃ q, pushStack p v = .ok q := by
  by_cases h : p.abs.sp = 0xFFFF
  · have hm : memoryWrite16 p.memory p.abs.sp v = .ok p.memory := by
      rw [h]
      exact memoryWrite16_last _ v
    rw [pushStack, read_SP, ok_bind, hm, ok_bind, write_eq_store _ _ _ (by decide), ok_bind]
    exact ⟨_, rfl⟩
  · obtain ⟨q, hq, -⟩ := pushStack_of_ne p v h
    exact ⟨q, hq⟩

end Stack

/-! ## Taking a jump -/

section Take

variable (p : Processor) (params : JumpParams) (a : U32)

/-- A restart is a jump to a fixed address. -/
theorem takeJump_jump (ht : params.type = .jump ∨ params.type = .rst)
    (hr : params.isRelative = false) :
    ∃ q, takeJump p params a = .ok q ∧ q.abs = p.abs.setPc (a.setWidth 16) := by
  rcases ht with ht | ht <;> rw [takeJump, ht, hr] <;> exact ⟨_, rfl, rfl⟩

/-- The sum is a C `int`, and PC keeps its low half. -/
theorem takeJump_relative (ht : params.type = .jump) (hr : params.isRelative = true) :
    ∃ q, takeJump p params a = .ok q ∧ q.abs = p.abs.setPc (p.abs.pc + a.setWidth 16) := by
  have hsum : (p.abs.pc.setWidth 32 + a).setWidth 16 = p.abs.pc + a.setWidth 16 := by
    rw [BitVec.setWidth_add _ _ (by decide), setWidth_int]
  rw [takeJump, ht, hr, ← hsum]
  exact ⟨_, rfl, rfl⟩

theorem takeJump_call (ht : params.type = .call) (hr : params.isRelative = false)
    (h : p.abs.sp ≠ 0xFFFF) :
    ∃ q, takeJump p params a = .ok q ∧
      q.abs = (pushed p.abs (p.abs.pc + 3)).setPc (a.setWidth 16) := by
  obtain ⟨q, hq, he⟩ := pushStack_of_ne p (p.abs.pc + 3) h
  rw [takeJump, ht, hr]
  simp only [abs_programCounter, reduceCtorEq, if_false, if_true, ok_bind, hq]
  exact ⟨_, rfl, congrArg (Sm83.State.setPc · (a.setWidth 16)) he⟩

theorem takeJump_ret (ht : params.type = .ret) (h : p.abs.sp ≠ 0xFFFD) :
    ∃ q, takeJump p params a = .ok q ∧ q.abs = (p.abs.setSp (p.abs.sp + 2)).setPc
      (Sm83.word (p.abs.mem (p.abs.sp + 2 + 1)) (p.abs.mem (p.abs.sp + 2))) := by
  obtain ⟨q, hq, he⟩ := popStack_of_ne p h
  rw [takeJump, ht]
  simp only [reduceCtorEq, if_false, if_true, ok_bind, hq]
  exact ⟨_, rfl, congrArg (Sm83.State.setPc · _) he⟩

/-- Only a return can fail, and only at one address. -/
theorem takeJump_ok (h : params.type = .ret → p.abs.sp ≠ 0xFFFD) :
    ∃ q, takeJump p params a = .ok q := by
  by_cases ht : params.type = .ret
  · obtain ⟨q, hq, -⟩ := takeJump_ret p params a ht (h ht)
    exact ⟨q, hq⟩
  · rw [takeJump, if_neg ht]
    obtain ⟨q, hq⟩ := pushStack_ok p (p.abs.pc + 3)
    by_cases hc : params.type = .call <;> by_cases hr : params.isRelative <;>
      simp only [hc, hr, if_true, if_false, ok_bind, abs_programCounter, hq] <;> exact ⟨_, rfl⟩

end Take

theorem executeWord_call (p : Processor) (w : CodeWord) (hw : w.opcode = .jump .call)
    (h : p.abs.sp ≠ 0xFFFF) :
    ∃ q, executeWord p w = .ok q ∧ q.abs = (pushed p.abs (p.abs.pc + 3)).setPc
      (Sm83.word w.secondOperand w.firstOperand) := by
  obtain ⟨q, hq, he⟩ := takeJump_call p (jumpParamsOf w.firstOperand
    (Sm83.word w.secondOperand w.firstOperand) .call) _ rfl rfl h
  rw [setWidth_int] at he
  exact ⟨q, (executeWord_unconditional p w _ _ hw rfl (resolveParam_wordParam p _)).trans hq, he⟩

theorem executeWord_ret (p : Processor) (w : CodeWord)
    (hw : w.opcode = .jump .ret ∨ w.opcode = .jump .reti) (h : p.abs.sp ≠ 0xFFFD) :
    ∃ q, executeWord p w = .ok q ∧ q.abs = (p.abs.setSp (p.abs.sp + 2)).setPc
      (Sm83.word (p.abs.mem (p.abs.sp + 2 + 1)) (p.abs.mem (p.abs.sp + 2))) := by
  rcases hw with hw | hw <;>
    rw [executeWord_unconditional p w _ _ hw rfl (resolveParam_pointerParam p .SP)] <;>
    exact takeJump_ret p _ _ rfl h

/-! ## Conditional jumps -/

/-- The word with another opcode and the same operand bytes. -/
def CodeWord.withOpcode (w : CodeWord) (b : U8) : CodeWord :=
  (b.setWidth 24 <<< 16) ||| (w &&& 0xFFFF)

theorem CodeWord.withOpcode_bytes (w : CodeWord) (b : U8) :
    (w.withOpcode b).opcodeByte = b ∧ (w.withOpcode b).firstOperand = w.firstOperand ∧
      (w.withOpcode b).secondOperand = w.secondOperand := by
  refine ⟨?_, ?_, ?_⟩ <;> ext i hi <;> interval_cases i <;>
    simp [CodeWord.withOpcode, CodeWord.opcodeByte, CodeWord.firstOperand, CodeWord.secondOperand]

/-- The bytes of the stack that a jump pushes or pops are in the memory. -/
def StackInRange (s : Sm83.State) : Sm83.Jump → Prop
  | .call | .callIf _ => s.sp ≠ 0xFFFF
  | .ret | .retIf _ | .reti => s.sp ≠ 0xFFFD
  | _ => True

theorem executeWord_always (p : Processor) (w : CodeWord) (j : Sm83.Jump)
    (hw : w.opcode = .jump j) (ht : j.taken p.abs = true) :
    executeWord p (w.withOpcode j.always.byte) = executeWord p w := by
  obtain ⟨hb, h₁, h₂⟩ := w.withOpcode_bytes j.always.byte
  obtain ⟨htype, hrel, hparam⟩ := jumpParamsOf_always w.firstOperand
    (Sm83.word w.secondOperand w.firstOperand) j
  obtain ⟨a, ha⟩ := resolveParam_jumpParam w.firstOperand
    (Sm83.word w.secondOperand w.firstOperand) j p
  have hw' : (w.withOpcode j.always.byte).opcode = .jump j.always := by
    rw [CodeWord.opcode, hb]
    exact Sm83.Jump.decode_byte _ _
  rw [executeWord_jump p w j a hw ha, if_pos ht,
    executeWord_unconditional p (w.withOpcode j.always.byte) j.always a hw' j.condition?_always
      (by rw [h₁, h₂, hparam, ha]), h₁, h₂]
  exact takeJump_congr p _ _ a htype hrel

theorem executeWord_taken_ok (p : Processor) (w : CodeWord) (j : Sm83.Jump)
    (hw : w.opcode = .jump j) (ht : j.taken p.abs = true) (hs : StackInRange p.abs j) :
    ∃ q, executeWord p w = .ok q := by
  obtain ⟨a, ha⟩ := resolveParam_jumpParam w.firstOperand
    (Sm83.word w.secondOperand w.firstOperand) j p
  rw [executeWord_jump p w j a hw ha, if_pos ht]
  apply takeJump_ok
  intro hret
  cases j with
  | ret | retIf c | reti => exact hs
  | _ => cases hret

theorem executeWord_jp (p : Processor) (w : CodeWord) (hw : w.opcode = .jump .jp) :
    ∃ q, executeWord p w = .ok q ∧
      q.abs = p.abs.setPc (Sm83.word w.secondOperand w.firstOperand) := by
  rw [executeWord_unconditional p w _ _ hw rfl (resolveParam_wordParam p _)]
  obtain ⟨q, hq, he⟩ := takeJump_jump p (jumpParamsOf w.firstOperand
    (Sm83.word w.secondOperand w.firstOperand) .jp) _ (.inl rfl) rfl
  exact ⟨q, hq, he.trans (congrArg p.abs.setPc (setWidth_int _))⟩

theorem executeWord_jpHL (p : Processor) (w : CodeWord) (hw : w.opcode = .jump .jpHL) :
    ∃ q, executeWord p w = .ok q ∧ q.abs = p.abs.setPc (p.abs.pair .HL) := by
  rw [executeWord_unconditional p w _ _ hw rfl (resolveParam_pairParam p .HL _ (read_HL p))]
  obtain ⟨q, hq, he⟩ := takeJump_jump p (jumpParamsOf w.firstOperand
    (Sm83.word w.secondOperand w.firstOperand) .jpHL) _ (.inl rfl) rfl
  exact ⟨q, hq, he.trans (congrArg p.abs.setPc (setWidth_int _))⟩

theorem executeWord_conditional (p : Processor) (w : CodeWord) (j : Sm83.Jump) (c : Sm83.Cond)
    (hw : w.opcode = .jump j) (hc : j.condition? = some c) :
    (c.holds p.abs = false → executeWord p w = .ok p) ∧
      (c.holds p.abs = true → StackInRange p.abs j → ∃ q, executeWord p w = .ok q ∧
        executeWord p (w.withOpcode j.always.byte) = .ok q) := by
  have ht : j.taken p.abs = c.holds p.abs := Sm83.Jump.taken_of_condition _ j c hc
  constructor
  · intro hn
    obtain ⟨a, ha⟩ := resolveParam_jumpParam w.firstOperand
      (Sm83.word w.secondOperand w.firstOperand) j p
    rw [executeWord_jump p w j a hw ha, ht, hn]
    exact if_neg Bool.false_ne_true
  · intro hh hs
    obtain ⟨q, hq⟩ := executeWord_taken_ok p w j hw (ht.trans hh) hs
    exact ⟨q, hq, (executeWord_always p w j hw (ht.trans hh)).trans hq⟩

/-- A conditional jump is nothing at all when its condition does not hold, and the unconditional
jump of its kind when it does. A plain jump moves PC and nothing else. -/
theorem conditional_jump (p : Processor) (w : CodeWord) :
    (∀ j, w.opcode = .jump j → j.condition? ≠ none →
      let c := Sm83.Cond.ofBits (w.opcodeByte.extractLsb' 3 2)
      (c.holds p.abs = false → executeWord p w = .ok p) ∧
      (c.holds p.abs = true → StackInRange p.abs j → ∃ q, executeWord p w = .ok q ∧
        executeWord p (w.withOpcode j.always.byte) = .ok q)) ∧
    (w.opcode = .jump .jp → ∃ q, executeWord p w = .ok q ∧
      q.abs = p.abs.setPc (Sm83.word w.secondOperand w.firstOperand)) ∧
    (w.opcode = .jump .jpHL → ∃ q, executeWord p w = .ok q ∧
      q.abs = p.abs.setPc (p.abs.pair .HL)) := by
  refine ⟨?_, executeWord_jp p w, executeWord_jpHL p w⟩
  intro j hw hc c
  have hby : j.byte = w.opcodeByte := by
    have h := w.opcode_byte
    rwa [hw] at h
  have hcond : j.condition? = some c := by
    rw [Sm83.Jump.condition?_eq_ofBits j hc, hby]
  exact executeWord_conditional p w j c hw hcond

/-- `JP NZ, 0x1234` on a machine of zeros. -/
theorem conditional_jump_nz :
    ∃ q, executeWord machineAtZero.processor 0xC23412 = .ok q ∧
      executeWord machineAtZero.processor (CodeWord.withOpcode 0xC23412 0xC3) = .ok q :=
  ((conditional_jump machineAtZero.processor 0xC23412).1 (.jpIf .NZ) rfl nofun).2 rfl trivial

/-! ## Relative jumps -/

/-- JR moves PC to its target, and changes nothing else. PC is the address of the JR itself, as
it is of a CALL. -/
def JrEffect (p : Processor) (w : CodeWord) : Prop :=
  ∃ q, executeWord p w = .ok q ∧
    q.abs = p.abs.setPc (Sm83.Jump.relativeTarget p.abs.pc w.firstOperand)

/-- The offset is added to the address of the instruction: the two bytes are left out. -/
theorem executeWord_jr (p : Processor) (w : CodeWord) (hw : w.opcode = .jump .jr) :
    ∃ q, executeWord p w = .ok q ∧
      q.abs = p.abs.setPc (Sm83.Jump.relativeTarget p.abs.pc w.firstOperand - 2) := by
  have htarget : Sm83.Jump.relativeTarget p.abs.pc w.firstOperand - 2 =
      p.abs.pc + w.firstOperand.signExtend 16 := by
    rw [Sm83.Jump.relativeTarget]
    bv_omega
  obtain ⟨q, hq, he⟩ := takeJump_relative p (jumpParamsOf w.firstOperand
    (Sm83.word w.secondOperand w.firstOperand) .jr) _ rfl rfl
  rw [setWidth_int, ← htarget] at he
  exact ⟨q, (executeWord_unconditional p w _ _ hw rfl (resolveParam_offsetParam p _)).trans hq, he⟩

theorem not_jrEffect (p : Processor) (w : CodeWord) (hw : w.opcode = .jump .jr) :
    ¬ JrEffect p w := by
  obtain ⟨q, hq, he⟩ := executeWord_jr p w hw
  rw [JrEffect, exists_ok_iff hq, he]
  intro h
  have hpc := congrArg Sm83.State.pc h
  simp only [Sm83.State.setPc_pc] at hpc
  bv_omega

/-- A relative jump ends two bytes before its target, wherever it is and wherever it goes. -/
theorem jr_effect_never (p : Processor) (w : CodeWord) (hw : w.opcodeByte = 0x18) :
    ¬ JrEffect p w ∧ ∃ q, executeWord p w = .ok q ∧
      q.abs = p.abs.setPc (Sm83.Jump.relativeTarget p.abs.pc w.firstOperand - 2) := by
  have ho : w.opcode = .jump .jr := by
    rw [CodeWord.opcode, hw]
    rfl
  exact ⟨not_jrEffect p w ho, executeWord_jr p w ho⟩

/-- `JR -2`, a loop of one instruction. -/
theorem jr_effect_never_loop : ¬ JrEffect machineAtZero.processor 0x18FE00 ∧
    ∃ q, executeWord machineAtZero.processor 0x18FE00 = .ok q ∧
      q.abs = machineAtZero.processor.abs.setPc (Sm83.Jump.relativeTarget 0 0xFE - 2) :=
  jr_effect_never machineAtZero.processor 0x18FE00 rfl

/-- `JR 5` at 0 goes to 5 and not to 7. -/
theorem jr_lands_short : ¬ JrEffect machineAtZero.processor 0x180500 :=
  not_jrEffect machineAtZero.processor 0x180500 rfl

end Beemu
