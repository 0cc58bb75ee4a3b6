import Beemu.Executor.Refinement

/-!
# Arithmetic in the executor

Nothing calls it yet. Six operations have a case of their own, and everything else writes its first
operand back. Z and C are set through the function that never clears a flag, and N and H are not
set at all, so that it depends on the flags before an instruction whether those after it are right.
-/

namespace Beemu

open Sm83 (AluOp Arith State hi lo)
open Tracing (Trace Throughout)

/-- An `int` cut to the width of a parameter. -/
def resolveFlows (value : U32) (resolveTo : ParamType) : U16 :=
  match resolveTo with
  | .int8 | .uint8 | .register8 => (value.setWidth 8).setWidth 16
  | .uint16 | .register16 => value.setWidth 16

/-- The switch of `execute_arithmatic`. -/
def arithmaticResult (operation : Operation) (operandOne operandTwo : U32) : U32 :=
  match operation with
  | .add => operandOne + operandTwo
  | .and => operandOne &&& operandTwo
  -- CP falls through to SUB.
  | .cp | .sub => operandOne - operandTwo
  | .xor => operandOne ^^^ operandTwo
  | .or => operandOne ||| operandTwo
  | _ => operandOne

/-- `execute_arithmatic` after its switch. -/
def finishArithmatic (p : Processor) (destOrFirst : Param) (silent : Bool) (result : U32) :
    Checked Processor :=
  let resolvedResult := resolveFlows result destOrFirst.type
  let registers := registersFlagsSetFlag p.registers .Z (boolByte (resolvedResult = 0))
  let registers :=
    registersFlagsSetFlag registers .C (boolByte (resolvedResult.setWidth 32 ≠ result))
  if silent then .ok (p.setRegisters registers)
  else
    writeToParam (p.setRegisters registers) destOrFirst resolvedResult
      (destOrFirst.type = .register8 ∨ destOrFirst.type = .uint8)

def executeArithmatic (p : Processor) (instruction : Instruction) : Checked Processor := do
  let params ← instruction.arithmaticParams
  let operandOne ← resolveParam p params.destOrFirst
  let operandTwo ← resolveParam p params.sourceOrSecond
  finishArithmatic p params.destOrFirst (params.operation = .cp)
    (arithmaticResult params.operation operandOne operandTwo)

/-- Execute the arithmetic of a word. -/
def executeArithmaticWord (p : Processor) (w : CodeWord) : Checked Processor := do
  let t ← tokenizerTokenize (w.setWidth 32)
  executeArithmatic p t

/-! ## What it leaves -/

/-- Z and C are added to, and the other flags stay. -/
def raiseFlags (s : State) (z c : Bool) : State :=
  s.setZnhc (s.flag .Z || z) (s.flag .N) (s.flag .H) (s.flag .C || c)

/-- A word is stored where both its bytes have a place. -/
def storeWord (s : State) (a v : U16) : State :=
  if a = 0xFFFF then s else (s.setMem a (lo v)).setMem (a + 1) (hi v)

def executedAlu (op : AluOp) (y : U8) (s : State) : State :=
  let x := s.reg .A
  let c := s.flag .C
  let r := op.result x y c
  match op with
  | .adc | .sbc => raiseFlags s (x = 0) false
  | .cp => raiseFlags s (r = 0) (op.carryInto 8 x y c)
  | _ => raiseFlags (s.setReg .A r) (r = 0) (op.carryInto 8 x y c)

/-- What the executor makes of an instruction of the arithmetic unit. -/
def executedArithmatic (a : Arith) (n : U8) (s : State) : State :=
  match a with
  | .alu op o => executedAlu op (s.operand8 o) s
  | .aluImm op => executedAlu op n s
  | .inc8 (.reg r) | .dec8 (.reg r) => raiseFlags s (s.reg r = 0) false
  | .inc8 .indHL | .dec8 .indHL =>
    let v := s.mem (s.pair .HL)
    raiseFlags (storeWord s (s.pair .HL) (v.setWidth 16)) (v = 0) false
  | .incPair q | .decPair q =>
    raiseFlags (s.setPair (landing q) (s.pair q)) (s.pair q = 0) false
  | .addHL q =>
    let sum := s.pair .HL + s.pair q
    raiseFlags (s.setPair .HL sum) (sum = 0) (BitVec.carry 16 (s.pair .HL) (s.pair q) false)
  | .addSP =>
    raiseFlags (s.setSp (s.spOffset n)) (s.spOffset n = 0)
      (BitVec.carry 16 s.sp (n.signExtend 16) false)
  | .daa | .cpl | .scf | .ccf => raiseFlags s (s.reg .A = 0) false

theorem setFlag_byte (k : Flag) (b : Bool) : ∀ f : U8,
    f ||| (boolByte b <<< k.bit) = Sm83.setFlag f (flagOf k) (Sm83.getFlag f (flagOf k) || b) := by
  cases k <;> cases b <;> decide +kernel

theorem raiseFlags_eq (s : State) (z c : Bool) :
    raiseFlags s z c = (s.setFlag .Z (s.flag .Z || z)).setFlag .C (s.flag .C || c) := by
  have hn : (s.setFlag .Z (s.flag .Z || z)).flag .N = s.flag .N :=
    Sm83.getFlag_setFlag_other .Z .N _ (by decide) s.f
  have hh : (s.setFlag .Z (s.flag .Z || z)).flag .H = s.flag .H :=
    Sm83.getFlag_setFlag_other .Z .H _ (by decide) s.f
  rw [raiseFlags, State.setZnhc, State.setZnh, ← hn, State.setFlag_self, ← hh, State.setFlag_self]

section Finish

variable (p : Processor) (v : U32) (c : Bool)

/-- The processor with the flags of a result raised. -/
def withFlags (p : Processor) (z c : Bool) : Processor :=
  p.setRegisters (registersFlagsSetFlag (registersFlagsSetFlag p.registers .Z (boolByte z)) .C
    (boolByte c))

theorem withFlags_abs (z c : Bool) : (withFlags p z c).abs = raiseFlags p.abs z c := by
  have hc : (Sm83.setFlag p.abs.f .Z (p.abs.flag .Z || z)).getLsbD 4 = p.abs.flag .C :=
    Sm83.getFlag_setFlag_other .Z .C _ (by decide) p.abs.f
  rw [raiseFlags_eq]
  refine State.ext rfl ?_ rfl rfl rfl
  change (p.registers.flags ||| boolByte z <<< Flag.Z.bit) ||| boolByte c <<< Flag.C.bit = _
  rw [setFlag_byte, setFlag_byte]
  exact congrArg (fun b => Sm83.setFlag (Sm83.setFlag p.abs.f .Z (p.abs.flag .Z || z)) .C (b || c))
    hc

theorem finishArithmatic_word (param : Param) (silent : Bool) (x : U16)
    (hx : resolveFlows v param.type = x) (hc : x.setWidth 32 ≠ v ↔ c = true) :
    finishArithmatic p param silent v =
      if silent then .ok (withFlags p (x = 0) c)
      else writeToParam (withFlags p (x = 0) c) param x
        (param.type = .register8 ∨ param.type = .uint8) := by
  have hd : decide (x.setWidth 32 ≠ v) = c := by
    rw [Bool.eq_iff_iff, decide_eq_true_iff]
    exact hc
  rw [finishArithmatic, hx, hd]
  rfl

theorem finishArithmatic_byte (param : Param) (silent : Bool) (x : U8)
    (ht : param.type = .register8) (hx : v.setWidth 8 = x)
    (hc : x.setWidth 32 ≠ v ↔ c = true) :
    finishArithmatic p param silent v =
      if silent then .ok (withFlags p (x = 0) c)
      else writeToParam (withFlags p (x = 0) c) param (x.setWidth 16) true := by
  have hx' : resolveFlows v param.type = x.setWidth 16 := by
    rw [ht, ← hx]
    rfl
  have hc' : (x.setWidth 16).setWidth 32 ≠ v ↔ c = true := by
    rw [BitVec.setWidth_setWidth (by decide)]
    exact hc
  have hz : decide (x.setWidth 16 = 0) = decide (x = 0) := by
    rw [decide_eq_decide, ← BitVec.toNat_inj, ← BitVec.toNat_inj,
      BitVec.toNat_setWidth_of_le (by decide)]
    rfl
  rw [finishArithmatic_word p v c param silent _ hx' hc', hz, ht]
  rfl

theorem finish_register (r : Sm83.Reg8) (silent : Bool) (x : U8) (hx : v.setWidth 8 = x)
    (hc : x.setWidth 32 ≠ v ↔ c = true) :
    ∃ q, finishArithmatic p (registerParam r) silent v = .ok q ∧
      q.abs = raiseFlags (if silent then p.abs else p.abs.setReg r x) (x = 0) c := by
  rw [finishArithmatic_byte p v c _ silent x rfl hx hc]
  cases silent with
  | true => exact ⟨_, rfl, withFlags_abs p _ c⟩
  | false =>
    refine ⟨_, writeToParam_registerParam _ r _ true, ?_⟩
    rw [write_register8_abs, narrow_widen, withFlags_abs]
    rfl

theorem finish_pair (q : Sm83.Pair) (x : U16) (hx : v.setWidth 16 = x)
    (hc : x.setWidth 32 ≠ v ↔ c = true) :
    ∃ p', finishArithmatic p (pairParam (register16Of q)) false v = .ok p' ∧
      p'.abs = raiseFlags (p.abs.setPair (landing q) x) (x = 0) c := by
  rw [finishArithmatic_word p v c (pairParam (register16Of q)) false x hx hc]
  refine ⟨_, writeToParam_pairParam _ _ x _ _ (write_pair _ q x), ?_⟩
  refine (write_register16_abs (withFlags p (x = 0) c) (landing q) x).trans ?_
  rw [withFlags_abs]
  cases q <;> rfl

theorem writeToLocation_word (a x : U16) :
    ∃ q, writeToLocation p a x false = .ok q ∧ q.abs = storeWord p.abs a x := by
  rw [writeToLocation, storeWord]
  by_cases ha : a = 0xFFFF
  · rw [if_pos ha, ha]
    exact ⟨p, congrArg (· >>= _) (memoryWrite16_last p.memory x), rfl⟩
  · rw [if_neg ha]
    refine ⟨_, congrArg (· >>= _) (memoryWrite16_of_ne p.memory a x ha), ?_⟩
    exact (writeMemory_abs (p.writeMemory a (lo x)) (a + 1) (hi x)).trans
      (congrArg (State.setMem · (a + 1) (hi x)) (writeMemory_abs p a (lo x)))

theorem writeToParam_pointerWord (x : U16) : writeToParam p (pointerParam .HL) x false =
    writeToLocation p (p.abs.pair .HL) x false := by
  simp [writeToParam]

theorem storeWord_raiseFlags (s : State) (a x : U16) (z c : Bool) :
    storeWord (raiseFlags s z c) a x = raiseFlags (storeWord s a x) z c := by
  rw [storeWord, storeWord]
  split_ifs <;> rfl

/-- What HL points at is taken for a word. -/
theorem finish_indHL (x : U16) (hx : v.setWidth 16 = x) (hc : x.setWidth 32 ≠ v ↔ c = true) :
    ∃ q, finishArithmatic p (pointerParam .HL) false v = .ok q ∧
      q.abs = raiseFlags (storeWord p.abs (p.abs.pair .HL) x) (x = 0) c := by
  rw [finishArithmatic_word p v c (pointerParam .HL) false x hx hc]
  obtain ⟨q, hq, he⟩ := writeToLocation_word (withFlags p (x = 0) c)
    ((withFlags p (x = 0) c).abs.pair .HL) x
  refine ⟨q, (writeToParam_pointerWord _ x).trans hq, ?_⟩
  have hp : (raiseFlags p.abs (x = 0) c).pair .HL = p.abs.pair .HL := State.pair_setZnhc ..
  rw [he, withFlags_abs, hp, storeWord_raiseFlags]

end Finish

section Execute

variable (p : Processor) (w : CodeWord) (a : Arith)

/-- The arithmetic of a word is that of its parameters, once they are resolved. -/
theorem executeArithmaticWord_eq (params : ArithmaticParams) (x y : U32)
    (hw : w.opcode = .arith a) (hp : arithmaticParamsOf w.firstOperand a = params)
    (hx : resolveParam p params.destOrFirst = .ok x)
    (hy : resolveParam p params.sourceOrSecond = .ok y) :
    executeArithmaticWord p w = finishArithmatic p params.destOrFirst (params.operation = .cp)
      (arithmaticResult params.operation x y) := by
  have hparams : w.token.arithmaticParams = .ok params := by
    rw [CodeWord.token, hw, ← hp]
    rfl
  rw [executeArithmaticWord, tokenizerTokenize_eq, ok_bind, executeArithmatic, hparams, ok_bind,
    hx, ok_bind, hy, ok_bind]

theorem resolveParam_operandParam (o : Sm83.Operand8) :
    resolveParam p (operandParam o) = .ok (((p.abs.operand8 o).setWidth 16).setWidth 32) := by
  cases o with
  | reg r => exact resolveParam_registerParam p r
  | indHL => exact resolveParam_pointerParam p .HL

theorem cut_byte (x : U8) : ((x.setWidth 16).setWidth 32).setWidth 8 = x ∧
    (x.setWidth 32 ≠ (x.setWidth 16).setWidth 32 ↔ false = true) := by
  constructor
  · rw [BitVec.setWidth_setWidth (by decide), narrow_widen]
  · rw [BitVec.setWidth_setWidth (by decide)]
    simp

theorem cut_word (x : U16) : (x.setWidth 32).setWidth 16 = x ∧
    (x.setWidth 32 ≠ x.setWidth 32 ↔ false = true) :=
  ⟨setWidth_int x, by simp⟩

theorem executed_alu (op : AluOp) (y : U8) (hw : w.opcode = .arith a) (param : Param)
    (hp : arithmaticParamsOf w.firstOperand a = ⟨operationOf op, registerParam .A, param⟩)
    (hy : resolveParam p param = .ok ((y.setWidth 16).setWidth 32)) :
    ∃ q, executeArithmaticWord p w = .ok q ∧ q.abs = executedAlu op y p.abs := by
  rw [executeArithmaticWord_eq p w a _ _ _ hw hp (resolveParam_registerParam p .A) hy]
  have hv := resolveResultWoOverflow_eq op (p.abs.reg .A) y (p.abs.flag .C)
  have hcut := setWidth_ofInt_value op (p.abs.reg .A) y (p.abs.flag .C)
  have hne := ofInt_value_ne_iff op (p.abs.reg .A) y (p.abs.flag .C)
  rw [← hv] at hcut hne
  rw [ne_comm] at hne
  obtain ⟨hb, hc⟩ := cut_byte (p.abs.reg .A)
  cases op with
  | adc | sbc =>
    obtain ⟨q, hq, he⟩ := finish_register p _ false .A false _ hb hc
    refine ⟨q, hq, he.trans ?_⟩
    rw [if_neg nofun, State.setReg_self]
    rfl
  | cp =>
    obtain ⟨q, hq, he⟩ := finish_register p _ _ .A true _ hcut hne
    exact ⟨q, hq, he⟩
  | add | sub | and | xor | or =>
    obtain ⟨q, hq, he⟩ := finish_register p _ _ .A false _ hcut hne
    exact ⟨q, hq, he⟩

/-- An operation without a case writes its first operand back. -/
theorem executed_register (r : Sm83.Reg8) (op : Operation) (param : Param) (y : U32)
    (hw : w.opcode = .arith a)
    (hp : arithmaticParamsOf w.firstOperand a = ⟨op, registerParam r, param⟩)
    (hy : resolveParam p param = .ok y)
    (hop : ∀ x, arithmaticResult op x y = x) (hs : op ≠ .cp) :
    ∃ q, executeArithmaticWord p w = .ok q ∧ q.abs = raiseFlags p.abs (p.abs.reg r = 0) false := by
  rw [executeArithmaticWord_eq p w a _ _ _ hw hp (resolveParam_registerParam p r) hy, hop,
    decide_eq_false hs]
  obtain ⟨hb, hc⟩ := cut_byte (p.abs.reg r)
  obtain ⟨q, hq, he⟩ := finish_register p _ false r false _ hb hc
  refine ⟨q, hq, he.trans ?_⟩
  rw [if_neg nofun, State.setReg_self]

theorem executed_indHL (op : Operation) (hw : w.opcode = .arith a)
    (hp : arithmaticParamsOf w.firstOperand a = ⟨op, pointerParam .HL, byteParam 1⟩)
    (hop : ∀ x y, arithmaticResult op x y = x) (hs : op ≠ .cp) :
    ∃ q, executeArithmaticWord p w = .ok q ∧
      q.abs = executedArithmatic (.inc8 .indHL) w.firstOperand p.abs := by
  rw [executeArithmaticWord_eq p w a _ _ _ hw hp (resolveParam_pointerParam p .HL)
    (resolveParam_byteParam p 1), hop, decide_eq_false hs]
  obtain ⟨hb, hc⟩ := cut_word ((p.abs.mem (p.abs.pair .HL)).setWidth 16)
  obtain ⟨q, hq, he⟩ := finish_indHL p _ false _ hb hc
  refine ⟨q, hq, he.trans ?_⟩
  have hz : decide ((p.abs.mem (p.abs.pair .HL)).setWidth 16 = 0) =
      decide (p.abs.mem (p.abs.pair .HL) = 0) := by
    rw [decide_eq_decide, ← BitVec.toNat_inj, ← BitVec.toNat_inj,
      BitVec.toNat_setWidth_of_le (by decide)]
    rfl
  rw [hz]
  rfl

theorem executed_pair (q : Sm83.Pair) (op : Operation) (hw : w.opcode = .arith a)
    (hp : arithmaticParamsOf w.firstOperand a = ⟨op, pairParam (register16Of q), byteParam 1⟩)
    (hop : ∀ x y, arithmaticResult op x y = x) (hs : op ≠ .cp) :
    ∃ p', executeArithmaticWord p w = .ok p' ∧
      p'.abs = executedArithmatic (.incPair q) w.firstOperand p.abs := by
  have hr := resolveParam_pairParam p _ _ (read_register16Of p q)
  rw [executeArithmaticWord_eq p w a _ _ _ hw hp hr (resolveParam_byteParam p 1), hop,
    decide_eq_false hs]
  obtain ⟨hb, hc⟩ := cut_word (p.abs.pair q)
  exact finish_pair p _ false q _ hb hc

/-- The sum of two words, and its carry. -/
theorem cut_sum (x y : U16) : (x.setWidth 32 + y.setWidth 32).setWidth 16 = x + y ∧
    ((x + y).setWidth 32 ≠ x.setWidth 32 + y.setWidth 32 ↔ BitVec.carry 16 x y false = true) := by
  have hx := x.isLt
  have hy := y.isLt
  constructor
  · rw [BitVec.setWidth_add _ _ (by decide), setWidth_int, setWidth_int]
  · rw [ne_eq, ← BitVec.toNat_inj, BitVec.toNat_setWidth_of_le (by decide), BitVec.toNat_add,
      BitVec.toNat_add, BitVec.toNat_setWidth_of_le (by decide),
      BitVec.toNat_setWidth_of_le (by decide), BitVec.carry, decide_eq_true_iff]
    simp only [Bool.toNat_false]
    omega

theorem executed_sum (q : Sm83.Pair) (param : Param) (y : U16) (hw : w.opcode = .arith a)
    (hq : landing q = q)
    (hp : arithmaticParamsOf w.firstOperand a = ⟨.add, pairParam (register16Of q), param⟩)
    (hy : resolveParam p param = .ok (y.setWidth 32)) :
    ∃ p', executeArithmaticWord p w = .ok p' ∧
      p'.abs = raiseFlags (p.abs.setPair q (p.abs.pair q + y)) (p.abs.pair q + y = 0)
        (BitVec.carry 16 (p.abs.pair q) y false) := by
  have hr := resolveParam_pairParam p _ _ (read_register16Of p q)
  rw [executeArithmaticWord_eq p w a _ _ _ hw hp hr hy]
  obtain ⟨hb, hc⟩ := cut_sum (p.abs.pair q) y
  have hf := finish_pair p _ _ q _ hb hc
  rw [hq] at hf
  exact hf

theorem executeArithmaticWord_arith (hw : w.opcode = .arith a) :
    ∃ q, executeArithmaticWord p w = .ok q ∧
      q.abs = executedArithmatic a w.firstOperand p.abs := by
  cases a with
  | alu op o => exact executed_alu p w _ op _ hw _ rfl (resolveParam_operandParam p o)
  | aluImm op => exact executed_alu p w _ op _ hw _ rfl (resolveParam_byteParam p _)
  | inc8 o | dec8 o =>
    cases o with
    | reg r =>
      exact executed_register p w _ r _ _ _ hw rfl (resolveParam_byteParam p 1) (fun _ => rfl) nofun
    | indHL => exact executed_indHL p w _ _ hw rfl (fun _ _ => rfl) nofun
  | incPair q | decPair q => exact executed_pair p w _ q _ hw rfl (fun _ _ => rfl) nofun
  | addHL q =>
    exact executed_sum p w _ .HL _ _ hw rfl rfl
      (resolveParam_pairParam p _ _ (read_register16Of p q))
  | addSP => exact executed_sum p w _ .SP _ _ hw rfl rfl (resolveParam_offsetParam p _)
  | daa | cpl | scf | ccf =>
    exact executed_register p w _ .A _ _ _ hw rfl (resolveParam_registerParam p .A) (fun _ => rfl)
      nofun

end Execute

/-! ## Agreement with the instruction set -/

/-- The states in which an operation is right. ADC and SBC are not done, and must leave A as it
is. -/
structure AluRight (op : AluOp) (y : U8) (s : State) : Prop where
  kept : op = .adc ∨ op = .sbc → op.result (s.reg .A) y (s.flag .C) = s.reg .A
  zero : s.flag .Z = true → op.result (s.reg .A) y (s.flag .C) = 0
  subtract : s.flag .N = op.subtracts
  half : s.flag .H = op.half (s.reg .A) y (s.flag .C)
  carry : s.flag .C = true → op.carryInto 8 (s.reg .A) y (s.flag .C) = true

/-- The states in which an instruction leaves what the instruction set says, PC apart. -/
def arithmaticRight (a : Arith) (n : U8) (s : State) : Prop :=
  match a with
  | .alu op o => AluRight op (s.operand8 o) s
  | .aluImm op => AluRight op n s
  | .inc8 _ | .dec8 _ | .incPair _ | .decPair _ | .cpl | .ccf => False
  | .addHL q =>
    (s.pair .HL + s.pair q = 0 → s.flag .Z = true) ∧ s.flag .N = false ∧
      s.flag .H = BitVec.carry 12 (s.pair .HL) (s.pair q) false ∧
      (s.flag .C = true → BitVec.carry 16 (s.pair .HL) (s.pair q) false = true)
  | .addSP =>
    (s.flag .Z = false ∧ s.spOffset n ≠ 0) ∧ s.flag .N = false ∧
      s.flag .H = BitVec.carry 4 (lo s.sp) n false ∧
      (s.flag .C || BitVec.carry 16 s.sp (n.signExtend 16) false) = BitVec.carry 8 (lo s.sp) n false
  | .daa => s.daaAdjustment = 0 ∧ (s.flag .Z = true → s.reg .A = 0)
  | .scf =>
    (s.reg .A = 0 → s.flag .Z = true) ∧ s.flag .N = false ∧ s.flag .H = false ∧
      s.flag .C = true

section Agree

variable (s : State) (n : U8)

theorem setZnhc_inj_iff (z k h c z' k' h' c' : Bool) :
    s.setZnhc z k h c = s.setZnhc z' k' h' c' ↔ z = z' ∧ k = k' ∧ h = h' ∧ c = c' := by
  constructor
  · intro he
    have hf (j : Sm83.Flag) := congrArg (State.flag · j) he
    simp only [State.flag_setZnhc] at hf
    exact ⟨hf .Z, hf .N, hf .H, hf .C⟩
  · rintro ⟨rfl, rfl, rfl, rfl⟩
    rfl

/-- Raised flags are the right ones when N and H are right before and nothing is left set. -/
theorem raiseFlags_eq_iff (z c z' k' h' c' : Bool) :
    raiseFlags s z c = s.setZnhc z' k' h' c' ↔
      (s.flag .Z || z) = z' ∧ s.flag .N = k' ∧ s.flag .H = h' ∧ (s.flag .C || c) = c' :=
  setZnhc_inj_iff s ..

/-- An addition or subtraction that leaves A as it is leaves C as it is. -/
theorem carryInto_of_kept (op : AluOp) (x y : U8) (c : Bool) (ho : op = .adc ∨ op = .sbc)
    (h : op.result x y c = x) : op.carryInto 8 x y c = c := by
  have hx := x.isLt
  have hy := y.isLt
  have hn := congrArg BitVec.toNat h
  rw [AluOp.result, BitVec.toNat_ofInt] at hn
  have hc : c = true ↔ 1 ≤ c.toNat := by cases c <;> simp
  have hle : c.toNat ≤ 1 := Bool.toNat_le c
  rw [Bool.eq_iff_iff, AluOp.carryInto_eight, hc]
  rcases ho with rfl | rfl <;> simp only [AluOp.value] at hn ⊢ <;> omega

theorem aluRight_iff (op : AluOp) (y : U8) :
    AluRight op y s ↔
      (op = .adc ∨ op = .sbc → op.result (s.reg .A) y (s.flag .C) = s.reg .A) ∧
        (s.flag .Z || decide (op.result (s.reg .A) y (s.flag .C) = 0)) =
          decide (op.result (s.reg .A) y (s.flag .C) = 0) ∧
        s.flag .N = op.subtracts ∧ s.flag .H = op.half (s.reg .A) y (s.flag .C) ∧
        (s.flag .C || op.carryInto 8 (s.reg .A) y (s.flag .C)) =
          op.carryInto 8 (s.reg .A) y (s.flag .C) := by
  rw [Bool.or_eq_right_iff_imp, Bool.or_eq_right_iff_imp, decide_eq_true_iff]
  constructor
  · rintro ⟨hk, hz, hn, hh, hc⟩
    exact ⟨hk, hz, hn, hh, hc⟩
  · rintro ⟨hk, hz, hn, hh, hc⟩
    exact ⟨hk, hz, hn, hh, hc⟩

/-- ADC and SBC. -/
theorem executedAlu_eq_iff_of_carry (op : AluOp) (y : U8) (ho : op = .adc ∨ op = .sbc) :
    executedAlu op y s = s.alu op y ↔ AluRight op y s := by
  have he : executedAlu op y s = raiseFlags s (s.reg .A = 0) false := by
    rcases ho with rfl | rfl <;> rfl
  have hcp : op ≠ .cp := by rcases ho with rfl | rfl <;> nofun
  rw [aluRight_iff]
  by_cases hk : op.result (s.reg .A) y (s.flag .C) = s.reg .A
  · have hc := carryInto_of_kept op _ _ _ ho hk
    have ha : s.alu op y = s.setZnhc (s.reg .A = 0) op.subtracts
        (op.half (s.reg .A) y (s.flag .C)) (s.flag .C) := by
      rw [State.alu, hk, hc, State.setReg_self, ite_self]
    rw [he, ha, raiseFlags_eq_iff, hk, hc, Bool.or_false, Bool.or_self, imp_iff_right ho,
      and_iff_right rfl]
  · refine iff_of_false (fun h => ?_) fun h => hk (h.1 ho)
    have hA := congrArg (State.reg · .A) h
    have hl : (executedAlu op y s).reg .A = s.reg .A := by
      rw [he]
      rfl
    have hr : (s.alu op y).reg .A = op.result (s.reg .A) y (s.flag .C) := by
      rw [State.alu, if_neg hcp]
      exact Function.update_self Sm83.Reg8.A _ s.reg
    exact hk (hr.symm.trans (hA.symm.trans hl))

theorem executedAlu_eq_iff (op : AluOp) (y : U8) :
    executedAlu op y s = s.alu op y ↔ AluRight op y s := by
  by_cases ho : op = .adc ∨ op = .sbc
  · exact executedAlu_eq_iff_of_carry s op y ho
  · have he : executedAlu op y s =
        raiseFlags (if op = .cp then s else s.setReg .A (op.result (s.reg .A) y (s.flag .C)))
          (op.result (s.reg .A) y (s.flag .C) = 0)
          (op.carryInto 8 (s.reg .A) y (s.flag .C)) := by
      cases op with
      | adc => exact absurd (.inl rfl) ho
      | sbc => exact absurd (.inr rfl) ho
      | add | sub | and | xor | or | cp => rfl
    have hf (k : Sm83.Flag) :
        (if op = .cp then s else s.setReg .A (op.result (s.reg .A) y (s.flag .C))).flag k =
          s.flag k := by
      split_ifs <;> rfl
    rw [aluRight_iff, he, State.alu, raiseFlags_eq_iff, hf, hf, hf, hf]
    exact (and_iff_right fun h => absurd h ho).symm

theorem reg_ne {x y : State} (r : Sm83.Reg8) (h : x.reg r ≠ y.reg r) : x ≠ y :=
  fun he => h (congrArg (State.reg · r) he)

theorem pair_ne {x y : State} (q : Sm83.Pair) (h : x.pair q ≠ y.pair q) : x ≠ y :=
  fun he => h (congrArg (State.pair · q) he)

theorem daaAdjustment_eq_zero_iff : s.daaAdjustment = 0 ↔
    (s.flag .H || (!s.flag .N && 9 < (s.reg .A &&& 0x0F).toNat)) = false ∧
      (s.flag .C || (!s.flag .N && 0x99 < (s.reg .A).toNat)) = false := by
  rw [State.daaAdjustment]
  cases (s.flag .H || (!s.flag .N && 9 < (s.reg .A &&& 0x0F).toNat)) <;>
    cases (s.flag .C || (!s.flag .N && 0x99 < (s.reg .A).toNat)) <;> decide

/-- DAA leaves A as it is when there is nothing to adjust. -/
theorem daa_result_iff : (if s.flag .N then s.reg .A - s.daaAdjustment
    else s.reg .A + s.daaAdjustment) = s.reg .A ↔ s.daaAdjustment = 0 := by
  split_ifs <;> constructor <;> intro h <;> bv_omega

theorem daa_eq_iff : raiseFlags s (s.reg .A = 0) false = s.daa ↔ arithmaticRight .daa n s := by
  by_cases hz : s.daaAdjustment = 0
  · obtain ⟨hl, hh⟩ := (daaAdjustment_eq_zero_iff s).mp hz
    have hd : s.daa = s.setZnhc (s.reg .A = 0) (s.flag .N) false false := by
      rw [State.daa, (daa_result_iff s).mpr hz, State.setReg_self, hh]
    rw [Bool.or_eq_false_iff] at hl hh
    rw [hd, raiseFlags_eq_iff, arithmaticRight, and_iff_right hz, hl.1, hh.1,
      Bool.or_eq_right_iff_imp, decide_eq_true_iff]
    exact and_iff_left ⟨rfl, rfl, rfl⟩
  · refine iff_of_false (reg_ne .A fun h => hz ?_) fun h => hz h.1
    have hd : s.daa.reg .A = if s.flag .N then s.reg .A - s.daaAdjustment
        else s.reg .A + s.daaAdjustment := Function.update_self Sm83.Reg8.A _ s.reg
    exact (daa_result_iff s).mp (hd.symm.trans h.symm)

theorem flag_setPair (q : Sm83.Pair) (v : U16) (k : Sm83.Flag) :
    (s.setPair q v).flag k = s.flag k := by
  cases q <;> rfl

theorem addHL_executed_iff (q : Sm83.Pair) :
    executedArithmatic (.addHL q) n s = (Arith.addHL q).exec n s ↔
      arithmaticRight (.addHL q) n s := by
  rw [executedArithmatic, Arith.exec, raiseFlags_eq_iff, flag_setPair, flag_setPair, flag_setPair,
    flag_setPair, Bool.or_eq_left_iff_imp, decide_eq_true_iff, Bool.or_eq_right_iff_imp]
  rfl

theorem addSP_executed_iff :
    executedArithmatic .addSP n s = Arith.addSP.exec n s ↔ arithmaticRight .addSP n s := by
  have hr : Arith.addSP.exec n s = (s.setSp (s.spOffset n)).setZnhc false false
      (BitVec.carry 4 (lo s.sp) n false) (BitVec.carry 8 (lo s.sp) n false) := rfl
  rw [executedArithmatic, hr, raiseFlags_eq_iff, State.flag_setSp, State.flag_setSp,
    State.flag_setSp, State.flag_setSp, Bool.or_eq_false_iff, decide_eq_false_iff_not]
  rfl

theorem scf_executed_iff :
    executedArithmatic .scf n s = Arith.scf.exec n s ↔ arithmaticRight .scf n s := by
  rw [executedArithmatic, Arith.exec, raiseFlags_eq_iff, Bool.or_eq_left_iff_imp,
    decide_eq_true_iff, Bool.or_false]
  rfl

/-! A step up or down is not done, and is missed in what it steps. -/

theorem operand8_storeWord (z c : Bool) :
    (raiseFlags (storeWord s (s.pair .HL) ((s.mem (s.pair .HL)).setWidth 16)) z c).operand8
      .indHL = s.mem (s.pair .HL) := by
  have hlo : lo ((s.mem (s.pair .HL)).setWidth 16) = s.mem (s.pair .HL) := narrow_widen _
  have hne : s.pair .HL ≠ s.pair .HL + 1 := by bv_omega
  change (storeWord s _ _).mem ((storeWord s _ _).pair .HL) = _
  rw [storeWord]
  split_ifs with h
  · rfl
  · rw [State.pair_setMem, State.pair_setMem, State.setMem_mem, Function.update_of_ne hne,
      State.setMem_mem, Function.update_self, hlo]

theorem operand8_stepped (o : Sm83.Operand8) :
    (executedArithmatic (.inc8 o) n s).operand8 o = s.operand8 o ∧
      (executedArithmatic (.dec8 o) n s).operand8 o = s.operand8 o := by
  cases o with
  | reg r => exact ⟨rfl, rfl⟩
  | indHL => exact ⟨operand8_storeWord s _ _, operand8_storeWord s _ _⟩

theorem operand8_setZnh (o : Sm83.Operand8) (z k h : Bool) :
    (s.setZnh z k h).operand8 o = s.operand8 o := by
  cases o <;> rfl

theorem operand8_ne {x y : State} (o : Sm83.Operand8) (h : x.operand8 o ≠ y.operand8 o) : x ≠ y :=
  fun he => h (congrArg (State.operand8 · o) he)

theorem step8_not_executed (o : Sm83.Operand8) :
    executedArithmatic (.inc8 o) n s ≠ (Arith.inc8 o).exec n s ∧
      executedArithmatic (.dec8 o) n s ≠ (Arith.dec8 o).exec n s := by
  obtain ⟨hi, hd⟩ := operand8_stepped s n o
  constructor
  · refine operand8_ne o ?_
    rw [hi, Arith.exec, operand8_setZnh, State.operand8_setOperand8]
    bv_omega
  · refine operand8_ne o ?_
    rw [hd, Arith.exec, operand8_setZnh, State.operand8_setOperand8]
    bv_omega

theorem pair_stepped (q : Sm83.Pair) (z c : Bool) :
    (raiseFlags (s.setPair (landing q) (s.pair q)) z c).pair q = s.pair q := by
  rw [raiseFlags, State.pair_setZnhc]
  cases q with
  | BC => rfl
  | DE | HL | SP => exact State.pair_setPair _ _ _

theorem stepPair_not_executed (q : Sm83.Pair) :
    executedArithmatic (.incPair q) n s ≠ (Arith.incPair q).exec n s ∧
      executedArithmatic (.decPair q) n s ≠ (Arith.decPair q).exec n s := by
  constructor
  · refine pair_ne q ?_
    rw [executedArithmatic, pair_stepped, Arith.exec, State.pair_setPair]
    bv_omega
  · refine pair_ne q ?_
    rw [executedArithmatic, pair_stepped, Arith.exec, State.pair_setPair]
    bv_omega

theorem cpl_not_executed : executedArithmatic .cpl n s ≠ Arith.cpl.exec n s := by
  have hne : ∀ v : U8, v ≠ ~~~v := by decide +kernel
  refine reg_ne .A ?_
  have hr : (Arith.cpl.exec n s).reg .A = ~~~ s.reg .A := Function.update_self Sm83.Reg8.A _ s.reg
  rw [hr]
  exact hne (s.reg .A)

theorem ccf_not_executed : executedArithmatic .ccf n s ≠ Arith.ccf.exec n s := by
  rw [executedArithmatic, Arith.exec, ne_eq, raiseFlags_eq_iff]
  rintro ⟨-, -, -, hc⟩
  cases h : s.flag .C <;> rw [h] at hc <;> cases hc

theorem executedArithmatic_eq_iff (a : Arith) :
    executedArithmatic a n s = a.exec n s ↔ arithmaticRight a n s := by
  cases a with
  | alu op o => exact executedAlu_eq_iff s op _
  | aluImm op => exact executedAlu_eq_iff s op n
  | inc8 o => exact iff_of_false (step8_not_executed s n o).1 id
  | dec8 o => exact iff_of_false (step8_not_executed s n o).2 id
  | incPair q => exact iff_of_false (stepPair_not_executed s n q).1 id
  | decPair q => exact iff_of_false (stepPair_not_executed s n q).2 id
  | addHL q => exact addHL_executed_iff s n q
  | addSP => exact addSP_executed_iff s n
  | daa => exact daa_eq_iff s n
  | scf => exact scf_executed_iff s n
  | cpl => exact iff_of_false (cpl_not_executed s n) id
  | ccf => exact iff_of_false (ccf_not_executed s n) id

end Agree

/-! ## Runs -/

def ArithmaticStep (p : Processor) (w : CodeWord) (q : Processor) : Prop :=
  executeArithmaticWord p w = .ok q

/-- An instruction of the arithmetic unit, PC apart. -/
def ArithStep : State → CodeWord → State → Prop :=
  KindStep .arith fun a w s => a.exec w.firstOperand s

def ArithmaticRight : State → CodeWord → Prop :=
  KindGood .arith fun a w s => arithmaticRight a w.firstOperand s

/-- A run of the executor's arithmetic is a run of the arithmetic unit, flags and all, exactly when
each word of it finds the flags that make it right. -/
theorem arithmatic_refines_iff (p : Processor) (ws : List CodeWord) :
    (∃ qs, Trace ArithmaticStep p ws qs ∧ Trace ArithStep p.abs ws (qs.map Processor.abs)) ↔
      Throughout ArithmaticRight ArithStep p.abs ws :=
  kind_trace_iff (fun _ _ => Sm83.Opcode.arith.inj)
    (fun p w a => executeArithmaticWord_arith p w a)
    (fun a w s => executedArithmatic_eq_iff s w.firstOperand a) p ws

end Beemu
