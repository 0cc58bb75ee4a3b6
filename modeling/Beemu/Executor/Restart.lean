import Beemu.Executor.Jump

/-!
# Restarts

A restart is meant to be a call of one byte. It has a jump type of its own, and the executor asks
for the type of a call before it pushes: a restart moves PC, leaves nothing on the stack, and the
next return takes what was there before.
-/

namespace Beemu

/-- An RST goes to the address in its opcode, and pushes the address after its one byte as a CALL
pushes the address after its three. -/
def RstPushes (p : Processor) (rst : CodeWord) : Prop :=
  ∃ q, executeWord p rst = .ok q ∧ q.abs =
    (pushed p.abs (p.abs.pc + 1)).setPc ((rst.opcodeByte &&& 0x38).setWidth 16)

/-- A RET goes back after the RST, and SP, the registers and the flags are as they were. -/
def RetReturns (p : Processor) (rst ret : CodeWord) : Prop :=
  ∃ q, executeWord p rst = .ok q ∧ ∃ r, executeWord q ret = .ok r ∧
    r.abs.pc = p.abs.pc + 1 ∧ r.abs.sp = p.abs.sp ∧ r.abs.reg = p.abs.reg ∧ r.abs.f = p.abs.f

section Restart

variable (p : Processor) (rst ret : CodeWord) (k : BitVec 3)

theorem executeWord_rst (hw : rst.opcode = .jump (.rst k)) :
    ∃ q, executeWord p rst = .ok q ∧
      q.abs = p.abs.setPc ((rst.opcodeByte &&& 0x38).setWidth 16) := by
  have hb : rst.opcodeByte = (Sm83.Jump.rst k).byte := by
    rw [← rst.opcode_byte, hw]
    rfl
  have hrun := executeWord_unconditional p rst _ _ hw rfl (resolveParam_wordParam p _)
  obtain ⟨q, hq, he⟩ := takeJump_jump p (jumpParamsOf rst.firstOperand
    (Sm83.word rst.secondOperand rst.firstOperand) (.rst k)) ((k.setWidth 16 * 8).setWidth 32)
    (.inr rfl) rfl
  rw [setWidth_int, Sm83.Jump.restart_address, ← hb] at he
  exact ⟨q, hrun.trans hq, he⟩

theorem popStack_last (h : p.abs.sp = 0xFFFD) : popStack p = .error .assertFailed := by
  have hw := write_eq_store p.registers (.sixteenBit .SP) (p.abs.sp + 2) (by decide)
  rw [popStack, read_SP, ok_bind, hw, ok_bind, h]
  exact congrArg (· >>= _) (memoryRead16_last p.memory)

/-- A return that ends moves SP up, whatever it finds on the stack. -/
theorem ret_sp {r : Processor} (hw : ret.opcode = .jump .ret) (h : executeWord p ret = .ok r) :
    r.abs.sp = p.abs.sp + 2 := by
  by_cases hs : p.abs.sp = 0xFFFD
  · rw [executeWord_unconditional p ret _ _ hw rfl (resolveParam_pointerParam p .SP), takeJump,
      if_pos (by rfl), popStack_last p hs] at h
    cases h
  · obtain ⟨q, hq, he⟩ := executeWord_ret p ret (.inl hw) hs
    rw [← Except.ok.inj (hq.symm.trans h), he]
    rfl

theorem not_rstPushes (hw : rst.opcode = .jump (.rst k)) : ¬ RstPushes p rst := by
  obtain ⟨q, hq, he⟩ := executeWord_rst p rst k hw
  rw [RstPushes, exists_ok_iff hq, he]
  intro h
  have hsp : p.abs.sp = p.abs.sp - 2 := congrArg Sm83.State.sp h
  bv_omega

theorem not_retReturns (hrst : rst.opcode = .jump (.rst k)) (hret : ret.opcode = .jump .ret) :
    ¬ RetReturns p rst ret := by
  obtain ⟨q, hq, he⟩ := executeWord_rst p rst k hrst
  rw [RetReturns, exists_ok_iff hq]
  rintro ⟨r, hr, -, hsp, -⟩
  have hq' : q.abs.sp = p.abs.sp := by
    rw [he]
    rfl
  rw [ret_sp q ret hret hr, hq'] at hsp
  bv_omega

end Restart

/-- A restart is no call, in whatever state: it is a jump, and a return does not undo it. -/
theorem rst_calls_never (p : Processor) (rst ret : CodeWord) (k : BitVec 3)
    (hrst : rst.opcode = .jump (.rst k)) (hret : ret.opcode = .jump .ret) :
    ¬ RstPushes p rst ∧ ¬ RetReturns p rst ret ∧ ∃ q, executeWord p rst = .ok q ∧
      q.abs = p.abs.setPc ((rst.opcodeByte &&& 0x38).setWidth 16) :=
  ⟨not_rstPushes p rst k hrst, not_retReturns p rst ret k hrst hret, executeWord_rst p rst k hrst⟩

/-- A processor at 0x0100 with an empty memory, and SP near its end. -/
def processorAtStart : Processor :=
  (machineAtZero.processor.write (.sixteenBit .SP) 0xFFF0).write (.sixteenBit .PC) 0x0100

theorem rst_calls_never_28 :
    ¬ RstPushes processorAtStart 0xEF0000 ∧ ¬ RetReturns processorAtStart 0xEF0000 0xC90000 ∧
      ∃ q, executeWord processorAtStart 0xEF0000 = .ok q ∧
        q.abs = processorAtStart.abs.setPc ((CodeWord.opcodeByte 0xEF0000 &&& 0x38).setWidth 16) :=
  rst_calls_never processorAtStart 0xEF0000 0xC90000 5 rfl rfl

/-- After `RST 0x28` nothing has been pushed, and a RET does not go back to 0x0101. -/
theorem rst_pushes_nothing :
    ¬ RstPushes processorAtStart 0xEF0000 ∧ ¬ RetReturns processorAtStart 0xEF0000 0xC90000 :=
  ⟨not_rstPushes processorAtStart 0xEF0000 5 rfl,
    not_retReturns processorAtStart 0xEF0000 0xC90000 5 rfl rfl⟩

end Beemu
