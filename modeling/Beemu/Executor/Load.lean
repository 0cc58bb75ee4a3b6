import Beemu.Effect.SpOffset
import Beemu.Effect.Stack
import Beemu.Executor.Executor

/-!
# Executing loads

The executor resolves the operands of a load by rules of its own: a byte address stays in the
first page, a word in memory is one byte, a write to BC lands in HL, and what comes after a load
(a step of HL, a move of SP, a sum) is left out. Where this makes no difference on a machine is
said form by form.
-/

namespace Beemu

open Sm83 (Load Pair StackPair State hi lo word)

/-- The pair that the executor writes for a name. -/
def landing : Pair → Pair
  | .BC => .HL
  | q => q

def stackLanding : StackPair → StackPair
  | .BC => .HL
  | q => q

/-- What the executor makes of a load. -/
def executedLoad (l : Load) (n : U8) (nn : U16) (s : State) : State :=
  match l with
  | .regReg d r => s.setReg d (s.reg r)
  | .regInd d => s.setReg d (s.mem (s.pair .HL))
  | .indReg r => s.setMem (s.pair .HL) (s.reg r)
  | .regImm d => s.setReg d n
  | .indImm => s.setMem (s.pair .HL) n
  | .ptrA p => s.setMem (s.pair p.pair) (s.reg .A)
  | .aPtr p => s.setReg .A (s.mem (s.pair p.pair))
  | .highImmA => s.setMem (n.setWidth 16) (s.reg .A)
  | .aHighImm => s.setReg .A (s.mem (n.setWidth 16))
  | .highCA => s.setMem ((s.reg .C).setWidth 16) (s.reg .A)
  | .aHighC => s.setReg .A (s.mem ((s.reg .C).setWidth 16))
  | .absA => s.setMem nn (s.reg .A)
  | .aAbs => s.setReg .A (s.mem nn)
  | .absSP => s.setMem nn (lo s.sp)
  | .pairImm q => s.setPair (landing q) nn
  | .push r => s.setMem s.sp (lo (s.stackPair r))
  | .pop r => s.setStackPair (stackLanding r) ((s.mem s.sp).setWidth 16)
  | .hlSpOffset => s.setPair .HL s.sp
  | .spHL => s.setSp (s.pair .HL)

theorem write_pair (s : Registers) (q : Pair) (v : U16) :
    registersWriteRegisterValue s (.sixteenBit (register16Of q)) v =
      .ok (s.store (.sixteenBit (register16Of (landing q))) v) := by
  cases q with
  | BC => exact write_BC s v
  | DE | HL | SP => exact write_eq_store s _ v (by decide)

theorem write_stackPair (s : Registers) (r : StackPair) (v : U16) :
    registersWriteRegisterValue s (.sixteenBit (stackRegister16Of r)) v =
      .ok (s.store (.sixteenBit (stackRegister16Of (stackLanding r))) v) := by
  cases r with
  | BC => exact write_BC s v
  | DE | HL | AF => exact write_eq_store s _ v (by decide)

section Execute

variable (p : Processor) (w : CodeWord)

section Parts

variable (l : Load) (params : LoadParams) (hw : w.opcode = .load l)
  (hp : loadParamsOf w.firstOperand (word w.secondOperand w.firstOperand) l = params)
include hw hp

/-- A load is a value and the place it is written to. -/
theorem executeWord_load_eq (v : U32) (q : Processor)
    (hv : resolveParam p params.source = .ok v)
    (hq : writeToParam p params.dest (v.setWidth 16) true = .ok q) :
    executeWord p w = .ok q := by
  have ht : w.token.type = .load := by
    rw [CodeWord.token, hw]
    rfl
  have hparams : w.token.loadParams = .ok params := by
    rw [CodeWord.token, hw, ← hp]
    rfl
  apply executeWord_eq p q w w.token.durationInClockCycles
  simp only [executeInstruction, ht, executeLoad, hparams, ok_bind, hv, decide_true, hq]

/-- A byte, however it is found, is written to a register. -/
theorem executeWord_toRegister (d : Sm83.Reg8) (v : U8)
    (hd : params.dest = registerParam d)
    (hv : resolveParam p params.source = .ok ((v.setWidth 16).setWidth 32)) :
    ∃ q, executeWord p w = .ok q ∧ q.abs = p.abs.setReg d v := by
  have habs := write_register8_abs p d (v.setWidth 16)
  rw [narrow_widen] at habs
  refine ⟨_, executeWord_load_eq p w l params hw hp _ _ hv ?_, habs⟩
  rw [hd, setWidth_int, writeToParam_registerParam]

/-- A byte, however it is found, is written to memory. -/
theorem executeWord_toMemory (a : U16) (v : U8)
    (ha : ∀ x, writeToParam p params.dest x true = .ok (p.writeMemory a (x.setWidth 8)))
    (hv : resolveParam p params.source = .ok ((v.setWidth 16).setWidth 32)) :
    ∃ q, executeWord p w = .ok q ∧ q.abs = p.abs.setMem a v := by
  refine ⟨_, executeWord_load_eq p w l params hw hp _ _ hv ?_, writeMemory_abs p a v⟩
  rw [ha, setWidth_int, narrow_widen]

/-- Only the low byte of a word is written to memory. -/
theorem executeWord_wordToMemory (a v : U16)
    (ha : ∀ x, writeToParam p params.dest x true = .ok (p.writeMemory a (x.setWidth 8)))
    (hv : resolveParam p params.source = .ok (v.setWidth 32)) :
    ∃ q, executeWord p w = .ok q ∧ q.abs = p.abs.setMem a (lo v) := by
  refine ⟨_, executeWord_load_eq p w l params hw hp _ _ hv ?_, writeMemory_abs p a (lo v)⟩
  rw [ha, setWidth_int]
  rfl

theorem executeWord_toPair (q : Pair) (v : U16)
    (hd : params.dest = pairParam (register16Of q))
    (hv : resolveParam p params.source = .ok (v.setWidth 32)) :
    ∃ p', executeWord p w = .ok p' ∧ p'.abs = p.abs.setPair (landing q) v := by
  refine ⟨_, executeWord_load_eq p w l params hw hp _ _ hv ?_,
    write_register16_abs p (landing q) v⟩
  rw [hd, setWidth_int]
  exact writeToParam_pairParam p _ v true _ (write_pair p.registers q v)

theorem executeWord_toStackPair (r : StackPair) (v : U16)
    (hd : params.dest = pairParam (stackRegister16Of r))
    (hv : resolveParam p params.source = .ok (v.setWidth 32)) :
    ∃ p', executeWord p w = .ok p' ∧ p'.abs = p.abs.setStackPair (stackLanding r) v := by
  refine ⟨_, executeWord_load_eq p w l params hw hp _ _ hv ?_,
    write_stackRegister16_abs p (stackLanding r) v⟩
  rw [hd, setWidth_int]
  exact writeToParam_pairParam p _ v true _ (write_stackPair p.registers r v)

end Parts

theorem executeWord_load (l : Load) (hw : w.opcode = .load l) :
    ∃ q, executeWord p w = .ok q ∧
      q.abs = executedLoad l w.firstOperand (word w.secondOperand w.firstOperand) p.abs := by
  cases l with
  | regReg d r =>
    exact executeWord_toRegister p w _ _ hw rfl d _ rfl (resolveParam_registerParam p r)
  | regInd d =>
    exact executeWord_toRegister p w _ _ hw rfl d _ rfl (resolveParam_pointerParam p .HL)
  | indReg r =>
    exact executeWord_toMemory p w _ _ hw rfl _ _ (writeToParam_pointerParam p .HL)
      (resolveParam_registerParam p r)
  | regImm d => exact executeWord_toRegister p w _ _ hw rfl d _ rfl (resolveParam_byteParam p _)
  | indImm =>
    exact executeWord_toMemory p w _ _ hw rfl _ _ (writeToParam_pointerParam p .HL)
      (resolveParam_byteParam p _)
  | ptrA q =>
    cases q with
    | BC =>
      exact executeWord_toMemory p w _ _ hw rfl _ _ (writeToParam_pointerParam p .BC)
        (resolveParam_registerParam p .A)
    | DE =>
      exact executeWord_toMemory p w _ _ hw rfl _ _ (writeToParam_pointerParam p .DE)
        (resolveParam_registerParam p .A)
    | HLInc | HLDec =>
      exact executeWord_toMemory p w _ _ hw rfl _ _ (writeToParam_pointerParam p .HL)
        (resolveParam_registerParam p .A)
  | aPtr q =>
    cases q with
    | BC =>
      exact executeWord_toRegister p w _ _ hw rfl .A _ rfl (resolveParam_pointerParam p .BC)
    | DE =>
      exact executeWord_toRegister p w _ _ hw rfl .A _ rfl (resolveParam_pointerParam p .DE)
    | HLInc | HLDec =>
      exact executeWord_toRegister p w _ _ hw rfl .A _ rfl (resolveParam_pointerParam p .HL)
  | highImmA =>
    exact executeWord_toMemory p w _ _ hw rfl _ _ (writeToParam_highParam p _)
      (resolveParam_registerParam p .A)
  | aHighImm =>
    exact executeWord_toRegister p w _ _ hw rfl .A _ rfl (resolveParam_highParam p _)
  | highCA =>
    exact executeWord_toMemory p w _ _ hw rfl _ _ (writeToParam_highRegisterParam p .C)
      (resolveParam_registerParam p .A)
  | aHighC =>
    exact executeWord_toRegister p w _ _ hw rfl .A _ rfl (resolveParam_highRegisterParam p .C)
  | absA =>
    exact executeWord_toMemory p w _ _ hw rfl _ _ (writeToParam_addressParam p _)
      (resolveParam_registerParam p .A)
  | aAbs =>
    exact executeWord_toRegister p w _ _ hw rfl .A _ rfl (resolveParam_addressParam p _)
  | absSP =>
    exact executeWord_wordToMemory p w _ _ hw rfl _ _ (writeToParam_addressParam p _)
      (resolveParam_pairParam p .SP _ (read_SP p))
  | pairImm q => exact executeWord_toPair p w _ _ hw rfl q _ rfl (resolveParam_wordParam p _)
  | push r =>
    exact executeWord_wordToMemory p w _ _ hw rfl _ _ (writeToParam_pointerParam p .SP)
      (resolveParam_pairParam p _ _ (read_stackRegister16Of p r))
  | pop r =>
    exact executeWord_toStackPair p w _ _ hw rfl r _ rfl (resolveParam_pointerParam p .SP)
  | hlSpOffset =>
    exact executeWord_toPair p w _ _ hw rfl .HL _ rfl
      (resolveParam_pairParam p .SP _ (read_SP p))
  | spHL =>
    exact executeWord_toPair p w _ _ hw rfl .SP _ rfl
      (resolveParam_pairParam p .HL _ (read_HL p))

end Execute

/-! ## Agreement with the parser -/

/-- Two states with the same byte registers, flags, SP and memory. -/
structure SameData (s t : State) : Prop where
  reg : s.reg = t.reg
  flags : s.f = t.f
  sp : s.sp = t.sp
  mem : s.mem = t.mem

theorem SameData.setPc (s : State) (pc : U16) : SameData s (s.setPc pc) := ⟨rfl, rfl, rfl, rfl⟩

theorem SameData.pair {s t : State} (h : SameData s t) (q : Pair) : s.pair q = t.pair q := by
  cases q <;> simp only [State.pair, h.reg, h.sp]

/-- The executor and the commands of the parser leave the same data. -/
def LoadsAgree (m : Machine) (w : CodeWord) : Prop :=
  ∃ q, executeWord m.processor w = .ok q ∧
    ∃ e, step m w = .ok e ∧ SameData q.abs e.machine.abs

/-- The machines on which a load is executed as it is parsed. -/
def AgreesOn (l : Load) (n : U8) (nn : U16) (s : State) : Prop :=
  match l with
  | .regReg _ _ | .regInd _ | .indReg _ | .regImm _ | .indImm | .absA | .aAbs | .spHL => True
  | .ptrA p | .aPtr p => p = .BC ∨ p = .DE
  | .highImmA => s.mem (n.setWidth 16) = s.reg .A ∧ s.mem (Sm83.highAddress n) = s.reg .A
  | .aHighImm => s.mem (n.setWidth 16) = s.mem (Sm83.highAddress n)
  | .highCA => s.mem ((s.reg .C).setWidth 16) = s.reg .A ∧
      s.mem (Sm83.highAddress (s.reg .C)) = s.reg .A
  | .aHighC => s.mem ((s.reg .C).setWidth 16) = s.mem (Sm83.highAddress (s.reg .C))
  | .absSP => s.mem (nn + 1) = hi s.sp
  | .pairImm q => q = .BC → s.pair .BC = nn ∧ s.pair .HL = nn
  | .push _ | .pop _ => False
  | .hlSpOffset => n = 0 ∧ ∀ k, s.flag k = false

section Agree

variable (s : State) (pc : U16) (n : U8) (nn : U16)

theorem sameData_setMem_iff (a b : U16) (v : U8) (h : a ≠ b) :
    SameData (s.setMem a v) ((s.setMem b v).setPc pc) ↔ s.mem a = v ∧ s.mem b = v := by
  constructor
  · intro hd
    have ha := congrFun hd.mem a
    have hb := congrFun hd.mem b
    simp only [State.setPc_mem, State.setMem_mem, Function.update_self,
      Function.update_of_ne h, Function.update_of_ne h.symm] at ha hb
    exact ⟨ha.symm, hb⟩
  · rintro ⟨rfl, hb⟩
    refine ⟨rfl, rfl, rfl, ?_⟩
    change Function.update s.mem a (s.mem a) = Function.update s.mem b (s.mem a)
    rw [← hb, Function.update_eq_self, hb, Function.update_eq_self]

theorem sameData_setReg_iff (d : Sm83.Reg8) (v v' : U8) :
    SameData (s.setReg d v) ((s.setReg d v').setPc pc) ↔ v = v' := by
  constructor
  · intro hd
    have h := congrFun hd.reg d
    simpa using h
  · rintro rfl
    exact SameData.setPc _ _

theorem highAddress_ne : n.setWidth 16 ≠ Sm83.highAddress n := by
  rw [Sm83.highAddress]
  bv_omega

/-- A step of HL is seen in HL. -/
theorem not_sameData_of_step (t u : State) (q : Sm83.Pointer) (hq : q.step ≠ 0)
    (ht : t.pair .HL = s.pair .HL) (hu : u.pair .HL = s.pair .HL + q.step) : ¬ SameData t u := by
  intro h
  have hp := h.pair .HL
  rw [ht, hu] at hp
  exact hq (left_eq_add.mp hp)

theorem sameData_ptrA_iff (q : Sm83.Pointer) :
    SameData (executedLoad (.ptrA q) n nn s) (((Load.ptrA q).exec n nn s).setPc pc) ↔
      q = .BC ∨ q = .DE := by
  have hu : (((Load.ptrA q).exec n nn s).setPc pc).pair .HL = s.pair .HL + q.step := by
    rw [State.pair_setPc, Load.exec, State.pair_stepPointer, State.pair_setMem]
  cases q with
  | BC => exact iff_of_true (SameData.setPc _ _) (.inl rfl)
  | DE => exact iff_of_true (SameData.setPc _ _) (.inr rfl)
  | HLInc | HLDec =>
    exact iff_of_false (not_sameData_of_step s _ _ _ (by decide) (State.pair_setMem ..) hu)
      (by decide)

theorem sameData_aPtr_iff (q : Sm83.Pointer) :
    SameData (executedLoad (.aPtr q) n nn s) (((Load.aPtr q).exec n nn s).setPc pc) ↔
      q = .BC ∨ q = .DE := by
  have ht : (executedLoad (.aPtr q) n nn s).pair .HL = s.pair .HL := State.pair_setReg_A ..
  have hu : (((Load.aPtr q).exec n nn s).setPc pc).pair .HL = s.pair .HL + q.step := by
    rw [State.pair_setPc, Load.exec, State.pair_setReg_A, State.pair_stepPointer]
  cases q with
  | BC => exact iff_of_true (SameData.setPc _ _) (.inl rfl)
  | DE => exact iff_of_true (SameData.setPc _ _) (.inr rfl)
  | HLInc | HLDec =>
    exact iff_of_false (not_sameData_of_step s _ _ _ (by decide) ht hu) (by decide)

/-- The second byte of SP is not written. -/
theorem sameData_absSP_iff :
    SameData (executedLoad .absSP n nn s) ((Load.absSP.exec n nn s).setPc pc) ↔
      s.mem (nn + 1) = hi s.sp := by
  have hne : nn + 1 ≠ nn := by bv_omega
  have hmem : (Function.update s.mem nn (lo s.sp)) (nn + 1) = s.mem (nn + 1) :=
    Function.update_of_ne hne _ _
  constructor
  · intro hd
    have h : Function.update s.mem nn (lo s.sp) =
        Function.update (Function.update s.mem nn (lo s.sp)) (nn + 1) (hi s.sp) := hd.mem
    rw [Function.eq_update_self_iff, hmem] at h
    exact h
  · intro h
    refine ⟨rfl, rfl, rfl, ?_⟩
    change Function.update s.mem nn (lo s.sp) =
      Function.update (Function.update s.mem nn (lo s.sp)) (nn + 1) (hi s.sp)
    rw [Function.eq_update_self_iff, hmem]
    exact h

theorem sameData_pairImm_iff (q : Pair) :
    SameData (executedLoad (.pairImm q) n nn s) (((Load.pairImm q).exec n nn s).setPc pc) ↔
      (q = .BC → s.pair .BC = nn ∧ s.pair .HL = nn) := by
  cases q with
  | BC =>
    constructor
    · intro hd _
      have hb : s.pair .BC = (s.setPair .BC nn).pair .BC := hd.pair .BC
      have hh : (s.setPair .HL nn).pair .HL = s.pair .HL := hd.pair .HL
      rw [State.pair_setPair] at hb hh
      exact ⟨hb, hh.symm⟩
    · intro h
      obtain ⟨hb, hh⟩ := h rfl
      have e₁ : s.setPair .HL nn = s := by rw [← hh, State.setPair_pair]
      have e₂ : s.setPair .BC nn = s := by rw [← hb, State.setPair_pair]
      change SameData (s.setPair .HL nn) ((s.setPair .BC nn).setPc pc)
      rw [e₁, e₂]
      exact SameData.setPc s pc
  | DE | HL | SP => exact iff_of_true (SameData.setPc _ _) nofun

theorem sameData_exec_iff (l : Load) (hl : l ≠ .hlSpOffset) :
    SameData (executedLoad l n nn s) ((l.exec n nn s).setPc pc) ↔ AgreesOn l n nn s := by
  cases l with
  | regReg d r | regInd d | indReg r | regImm d | indImm | absA | aAbs | spHL =>
    exact iff_of_true (SameData.setPc _ _) trivial
  | ptrA q => exact sameData_ptrA_iff s pc n nn q
  | aPtr q => exact sameData_aPtr_iff s pc n nn q
  | highImmA => exact sameData_setMem_iff s pc _ _ _ (highAddress_ne n)
  | aHighImm => exact sameData_setReg_iff s pc .A _ _
  | highCA => exact sameData_setMem_iff s pc _ _ _ (highAddress_ne _)
  | aHighC => exact sameData_setReg_iff s pc .A _ _
  | absSP => exact sameData_absSP_iff s pc n nn
  | pairImm q => exact sameData_pairImm_iff s pc n nn q
  | push r =>
    refine iff_of_false (fun h => ?_) id
    have hsp : s.sp = s.sp - 2 := h.sp
    bv_omega
  | pop r =>
    refine iff_of_false (fun h => ?_) id
    have hsp : s.sp = s.sp + 2 := by
      have h := h.sp
      cases r <;> exact h
    bv_omega
  | hlSpOffset => exact absurd rfl hl

/-- With nothing to add HL is SP on both sides, and the parser resets all four flags. -/
theorem sameData_hlSpOffset_iff :
    SameData (s.setPair .HL s.sp)
      (((s.setPair .HL (s.sp + n.setWidth 16)).setSpOffsetFlags n).setPc pc) ↔
        n = 0 ∧ ∀ k, s.flag k = false := by
  constructor
  · intro hd
    have hp := hd.pair .HL
    rw [State.pair_setPair, State.pair_setPc, State.setSpOffsetFlags, State.pair_setZnhc,
      State.pair_setPair] at hp
    obtain rfl : n = 0 := by
      have h := congrArg lo (left_eq_add.mp hp)
      rwa [Sm83.lo_setWidth] at h
    refine ⟨rfl, fun k => ?_⟩
    have hf := congrArg (Sm83.getFlag · k) hd.flags
    change s.flag k =
      ((s.setPair .HL (s.sp + (0 : U8).setWidth 16)).setSpOffsetFlags 0).flag k at hf
    rw [State.setSpOffsetFlags_zero, State.flag_setZnhc] at hf
    rw [hf]
    cases k <;> rfl
  · rintro ⟨rfl, hf⟩
    have hsp : s.sp + (0 : U8).setWidth 16 = s.sp := BitVec.add_zero _
    have hself := State.setZnhc_flag (s.setPair .HL s.sp)
    have hflag (k : Sm83.Flag) : (s.setPair .HL s.sp).flag k = false := hf k
    rw [hflag, hflag, hflag, hflag] at hself
    rw [hsp, State.setSpOffsetFlags_zero, hself]
    exact SameData.setPc _ _

end Agree

theorem step_hlSpOffset (m : Machine) (w : CodeWord) (hw : w.opcode = .load .hlSpOffset) :
    ∃ e pc, step m w = .ok e ∧ e.machine.abs =
      ((m.abs.setPair .HL (m.abs.sp + w.firstOperand.setWidth 16)).setSpOffsetFlags
        w.firstOperand).setPc pc := by
  have hb : w.opcodeByte = 0xF8 := by
    rw [← w.opcode_byte, hw]
    rfl
  obtain ⟨queue, hq, he⟩ := hlSpOffset_queue w m hb
  exact ⟨_, _, step_eq m w queue hq, he⟩

/-- A POP that completes does not start at the last address. -/
theorem sp_ne_last_of_step (m : Machine) (w : CodeWord) (l : Load) (hw : w.opcode = .load l)
    (hc : ∃ e, step m w = .ok e) (r : StackPair) (hl : l = .pop r) : m.abs.sp ≠ 0xFFFF := by
  intro hs
  obtain ⟨e, he⟩ := hc
  have hp : PopsPastEnd m.processor.abs w.opcode := ⟨hs, r, by rw [hw, hl]⟩
  rw [step, tokenizerTokenize_eq, ok_bind, parserParse_popsPastEnd w m.processor hp] at he
  cases he

/-- Where both complete, the executor and the parser leave the same data on exactly these
machines. -/
theorem loads_agree_iff (m : Machine) (w : CodeWord) (l : Load) (hw : w.opcode = .load l)
    (hc : ∃ e, step m w = .ok e) :
    LoadsAgree m w ↔
      AgreesOn l w.firstOperand (word w.secondOperand w.firstOperand) m.abs := by
  obtain ⟨q, hq, hqe⟩ := executeWord_load m.processor w l hw
  change q.abs = executedLoad l _ _ m.abs at hqe
  by_cases hl : l = .hlSpOffset
  · subst hl
    obtain ⟨e, pc, he, hee⟩ := step_hlSpOffset m w hw
    rw [LoadsAgree, exists_ok_iff hq, exists_ok_iff he, hqe, hee]
    exact sameData_hlSpOffset_iff m.abs pc w.firstOperand
  · obtain ⟨e, pc, he, hee⟩ := step_load m w l hw hl (sp_ne_last_of_step m w l hw hc)
    rw [LoadsAgree, exists_ok_iff hq, exists_ok_iff he, hqe, hee]
    exact sameData_exec_iff m.abs pc _ _ l hl

theorem step_zero_ok : ∃ e, step machineAtZero 0x220000 = .ok e :=
  ⟨_, step_eq machineAtZero 0x220000 _ (parserParse_eq 0x220000 machineAtZero.processor nofun)⟩

/-- `LD (HL+), A` on a machine of zeros. -/
theorem loads_agree_iff_hl_inc :
    LoadsAgree machineAtZero 0x220000 ↔
      AgreesOn (.ptrA .HLInc) (CodeWord.firstOperand 0x220000)
        (word (CodeWord.secondOperand 0x220000) (CodeWord.firstOperand 0x220000))
        machineAtZero.abs :=
  loads_agree_iff machineAtZero 0x220000 (.ptrA .HLInc) rfl step_zero_ok

/-- `LD (HL+), A` steps HL when it is parsed and leaves it when it is executed. -/
theorem hl_inc_not_executed : ¬ LoadsAgree machineAtZero 0x220000 := by
  rintro ⟨q, hq, e, he, hd⟩
  obtain ⟨q', hq', hqe⟩ := executeWord_load machineAtZero.processor 0x220000 (.ptrA .HLInc) rfl
  obtain ⟨e', pc, he', hee⟩ := step_load machineAtZero 0x220000 (.ptrA .HLInc) rfl nofun nofun
  obtain rfl := Except.ok.inj (hq'.symm.trans hq)
  obtain rfl := Except.ok.inj (he'.symm.trans he)
  rw [hqe, hee] at hd
  have h := (sameData_ptrA_iff machineAtZero.abs pc _ _ .HLInc).mp hd
  exact absurd h (by decide)

end Beemu
