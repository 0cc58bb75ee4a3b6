import Beemu.Effect.Stack
import Beemu.Executor.Jump

/-!
# One stack, two layouts

For the parser SP points at the last byte pushed, for the executor at the word that the next
push will write. A word pushed by the one is therefore two bytes away from where the other one
looks for it, and what a mixed program gets is what happened to be in that place.
-/

namespace Beemu

open Sm83 (StackPair hi lo word)

/-- CALL by the executor and POP by the parser: the pair holds the address after the call, and
SP is back where it was. -/
def PopTakesReturnAddress (m : Machine) (call pop : CodeWord) (r : StackPair) : Prop :=
  ∃ q, executeWord m.processor call = .ok q ∧
    ∃ e, step { m with processor := q } pop = .ok e ∧
      e.machine.abs.stackPair r = m.abs.pc + 3 ∧ e.machine.abs.sp = m.abs.sp

/-- PUSH by the parser and RET by the executor: PC is what the pair held, and SP is back where
it was. -/
def RetTakesPushed (m : Machine) (push ret : CodeWord) (r : StackPair) : Prop :=
  ∃ e, step m push = .ok e ∧ ∃ q, executeWord e.machine.processor ret = .ok q ∧
    q.abs.pc = m.abs.stackPair r ∧ q.abs.sp = m.abs.sp

section Layout

variable (m : Machine) (r : StackPair)

theorem pop_after_call (call pop : CodeWord) (hc : call.opcode = .jump .call)
    (hp : pop.opcode = .load (.pop r)) (hs : 4 ≤ m.abs.sp.toNat ∧ m.abs.sp.toNat ≤ 0xFFFA) :
    PopTakesReturnAddress m call pop r ↔
      word (m.abs.mem (m.abs.sp - 1)) (m.abs.mem (m.abs.sp - 2)) = m.abs.pc + 3 := by
  have hne : m.abs.sp ≠ 0xFFFF := by bv_omega
  obtain ⟨q, hq, he⟩ := executeWord_call m.processor call hc hne
  have hqsp : q.abs.sp = m.abs.sp - 2 := by
    rw [he]
    rfl
  -- the word that the call wrote is at SP and SP + 1, above the one that the POP reads
  have hmem (a : U16) (h : a ≠ m.abs.sp) (h' : a ≠ m.abs.sp + 1) : q.abs.mem a = m.abs.mem a := by
    rw [he]
    exact (Function.update_of_ne h' _ _).trans (Function.update_of_ne h _ _)
  obtain ⟨e, pc, hstep, hee⟩ := step_load { m with processor := q } pop (.pop r) hp nofun
    fun _ _ => by
      change q.abs.sp ≠ 0xFFFF
      rw [hqsp]
      bv_omega
  change e.machine.abs = ((Sm83.Load.pop r).exec _ _ q.abs).setPc pc at hee
  have hval : e.machine.abs.stackPair r =
      word (m.abs.mem (m.abs.sp - 1)) (m.abs.mem (m.abs.sp - 2)) := by
    have h₁ : m.abs.sp - 2 + 1 = m.abs.sp - 1 := by bv_omega
    rw [hee, Sm83.State.stackPair_setPc, Sm83.Load.exec, Sm83.State.stackPair_setStackPair, hqsp,
      h₁, hmem _ (by bv_omega) (by bv_omega), hmem _ (by bv_omega) (by bv_omega)]
  have hsp : e.machine.abs.sp = m.abs.sp := by
    have h : e.machine.abs.sp = q.abs.sp + 2 := by
      rw [hee]
      cases r <;> rfl
    rw [h, hqsp]
    exact BitVec.sub_add_cancel _ _
  rw [PopTakesReturnAddress, exists_ok_iff hq, exists_ok_iff hstep, hval]
  exact and_iff_left hsp

theorem ret_after_push (push ret : CodeWord) (hp : push.opcode = .load (.push r))
    (hr : ret.opcode = .jump .ret) (hs : 4 ≤ m.abs.sp.toNat ∧ m.abs.sp.toNat ≤ 0xFFFA) :
    RetTakesPushed m push ret r ↔
      word (m.abs.mem (m.abs.sp + 1)) (m.abs.mem m.abs.sp) = m.abs.stackPair r := by
  obtain ⟨e, pc, hstep, he⟩ := step_load m push (.push r) hp nofun nofun
  have hesp : e.machine.abs.sp = m.abs.sp - 2 := by
    rw [he]
    rfl
  -- the PUSH wrote the two bytes below SP, and the return reads the two at SP
  have hmem (a : U16) (h : a ≠ m.abs.sp - 1) (h' : a ≠ m.abs.sp - 2) :
      e.machine.abs.mem a = m.abs.mem a := by
    rw [he]
    exact (Function.update_of_ne h' _ _).trans (Function.update_of_ne h _ _)
  obtain ⟨q, hq, hqe⟩ := executeWord_ret e.machine.processor ret (.inl hr) (by
    change e.machine.abs.sp ≠ 0xFFFD
    rw [hesp]
    bv_omega)
  have h₂ : e.machine.abs.sp + 2 = m.abs.sp := by
    rw [hesp]
    exact BitVec.sub_add_cancel _ _
  change q.abs = (e.machine.abs.setSp (e.machine.abs.sp + 2)).setPc
    (word (e.machine.abs.mem (e.machine.abs.sp + 2 + 1))
      (e.machine.abs.mem (e.machine.abs.sp + 2))) at hqe
  rw [h₂, hmem _ (by bv_omega) (by bv_omega), hmem _ (by bv_omega) (by bv_omega)] at hqe
  have hpc : q.abs.pc = word (m.abs.mem (m.abs.sp + 1)) (m.abs.mem m.abs.sp) := by
    rw [hqe]
    rfl
  have hsp : q.abs.sp = m.abs.sp := by
    rw [hqe]
    rfl
  rw [RetTakesPushed, exists_ok_iff hstep, exists_ok_iff hq, hpc]
  exact and_iff_left hsp

end Layout

/-- A mixed program gets the right word only where the memory next to the stack held it before. -/
theorem shared_stack_iff (m : Machine) (r : StackPair) (call ret push pop : CodeWord)
    (hcall : call.opcode = .jump .call) (hret : ret.opcode = .jump .ret)
    (hpush : push.opcode = .load (.push r)) (hpop : pop.opcode = .load (.pop r))
    (hs : 4 ≤ m.abs.sp.toNat ∧ m.abs.sp.toNat ≤ 0xFFFA) :
    (PopTakesReturnAddress m call pop r ↔
      word (m.abs.mem (m.abs.sp - 1)) (m.abs.mem (m.abs.sp - 2)) = m.abs.pc + 3) ∧
    (RetTakesPushed m push ret r ↔
      word (m.abs.mem (m.abs.sp + 1)) (m.abs.mem m.abs.sp) = m.abs.stackPair r) :=
  ⟨pop_after_call m r call pop hcall hpop hs, ret_after_push m r push ret hpush hret hs⟩

/-- A machine at 0x0100 with an empty memory. -/
def machineAtStart : Machine where
  processor :=
    (machineAtZero.processor.write (.sixteenBit .SP) 0xFFF0).write (.sixteenBit .PC) 0x0100
  ime := false
  addressBus := 0
  dataBus := 0
  instructionRegister := 0

theorem shared_stack_iff_BC :
    (PopTakesReturnAddress machineAtStart 0xCD3412 0xC10000 .BC ↔
      word (machineAtStart.abs.mem (machineAtStart.abs.sp - 1))
        (machineAtStart.abs.mem (machineAtStart.abs.sp - 2)) = machineAtStart.abs.pc + 3) ∧
    (RetTakesPushed machineAtStart 0xC50000 0xC90000 .BC ↔
      word (machineAtStart.abs.mem (machineAtStart.abs.sp + 1))
        (machineAtStart.abs.mem machineAtStart.abs.sp) = machineAtStart.abs.stackPair .BC) :=
  shared_stack_iff machineAtStart .BC 0xCD3412 0xC90000 0xC50000 0xC10000 rfl rfl rfl rfl
    (by decide)

/-- `CALL 0x1234` and `POP BC`: BC is 0 and not 0x0103. -/
theorem pop_misses_return_address :
    ¬ PopTakesReturnAddress machineAtStart 0xCD3412 0xC10000 .BC := by
  rw [pop_after_call machineAtStart .BC 0xCD3412 0xC10000 rfl rfl (by decide)]
  decide

end Beemu
