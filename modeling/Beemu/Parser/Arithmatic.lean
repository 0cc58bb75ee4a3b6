import Beemu.Parser.Common

/-!
# Parsing arithmetic

The result is computed in an `int`, wide enough for a carry and for a borrow, and the carry
flag asks whether it survived the cut to its byte.
-/

namespace Beemu

open MachineCommand

/-- `int32_t`, so that neither an overflow nor an underflow is lost. -/
def resolveResultWoOverflow (firstValue secondValue : U16) (operation : Operation)
    (carryFlag : U8) : U32 :=
  let first : U32 := firstValue.setWidth 32
  let second : U32 := secondValue.setWidth 32
  match operation with
  | .add | .inc => first + second
  | .adc => first + second + carryFlag.setWidth 32
  | .sub | .dec => first - second
  | .sbc => first - second - carryFlag.setWidth 32
  | .or => first ||| second
  | .xor => first ^^^ second
  | .and => first &&& second
  | .cp => first - second
  | _ => -1

/-- Bit 4 of the sum or the difference of the two low nibbles. -/
def resolveHalfCarryForArithmatic (firstValue secondValue : U16) (carryFlag : U8)
    (operation : Operation) : U8 :=
  let first : U32 := firstValue.setWidth 32
  let second : U32 := secondValue.setWidth 32
  match operation with
  | .add | .inc => boolByte (((first &&& 0x0F) + (second &&& 0x0F)) &&& 0x10 = 0x10)
  | .adc =>
    boolByte (((first &&& 0x0F) + (second &&& 0x0F) + carryFlag.setWidth 32) &&& 0x10 = 0x10)
  | .sub | .dec | .cp => boolByte (((first &&& 0x0F) - (second &&& 0x0F)) &&& 0x10 = 0x10)
  | .sbc =>
    boolByte (((first &&& 0x0F) - (second &&& 0x0F) - carryFlag.setWidth 32) &&& 0x10 = 0x10)
  | _ => 0

/-- Z and N come from the result and the operation, H and C are constants for the logical ones.
`skipC` leaves the carry alone. -/
def cqWriteFlags (queue : CommandQueue) (wouldBeResult actualResult : U32)
    (operation : Operation) (halfCarryFlagValue : U8) (skipC : Bool) : CommandQueue :=
  let queue := cqWriteFlag queue .Z (boolByte (actualResult = 0))
  let queue := cqWriteFlag queue .N (boolByte (operation = .sub ∨ operation = .cp ∨
    operation = .sbc ∨ operation = .dec))
  if operation = .xor ∨ operation = .or then
    let queue := cqWriteFlag queue .H 0
    if ¬ skipC then cqWriteFlag queue .C 0 else queue
  else if operation = .and then
    let queue := cqWriteFlag queue .H 1
    if ¬ skipC then cqWriteFlag queue .C 0 else queue
  else
    let queue := cqWriteFlag queue .H halfCarryFlagValue
    if ¬ skipC then cqWriteFlag queue .C (boolByte (wouldBeResult ≠ actualResult)) else queue

/-- Whether a parameter is the byte at HL. -/
def isParamHlPtr (param : Param) : Checked Bool :=
  if param.pointer then param.isRegister16 .HL else .ok false

/-- Whether the result is one byte wide; what a pointer points to is. -/
def doParamHoldByteLengthValues (param : Param) : Bool :=
  if param.pointer then true
  else param.type = .register8

/-- A byte goes to memory or to a register; any other destination takes none. -/
def cqWriteResultsU8 (queue : CommandQueue) (dst : Param) (result : U8)
    (processor : Processor) : Checked CommandQueue :=
  if dst.pointer then do
    let memoryAddr ← resolveInstructionParameterUnsigned dst processor true
    .ok (cqWriteMemory queue memoryAddr result)
  else if dst.type = .register8 then do
    let r ← dst.value.asRegister8
    .ok (cqWriteReg8 queue r result)
  else .ok queue

/-- INC and DEC of a pair write it at once. An addition adds the halves one by one and sets the
flags after each. -/
def cqWriteResultsU16 (queue : CommandQueue) (dst src : Param) (result : U16)
    (processor : Processor) (isIduOp : Bool) : Checked CommandQueue :=
  if isIduOp then do
    let r ← dst.value.asRegister16
    .ok (cqHaltCycle (cqWriteReg16 queue r result))
  else do
    let dstParts ← explodeBeemuParam dst processor
    let srcParts ← explodeBeemuParam src processor
    let dstLowerContent ← resolveInstructionParameterUnsigned dstParts.lower processor true
    let srcLowerContent ← resolveInstructionParameterUnsigned srcParts.lower processor true
    let dstLowerContent : U8 := dstLowerContent.setWidth 8
    let srcLowerContent : U8 := srcLowerContent.setWidth 8
    let lsbWoOverflow :=
      resolveResultWoOverflow (dstLowerContent.setWidth 16) (srcLowerContent.setWidth 16) .add 0
    let lsbActualResult : U8 := lsbWoOverflow.setWidth 8
    let lowerHalfCarry := resolveHalfCarryForArithmatic (dstLowerContent.setWidth 16)
      (srcLowerContent.setWidth 16) 0 .add
    let queue ← cqWriteResultsU8 queue dstParts.lower lsbActualResult processor
    let queue := cqWriteFlags queue lsbWoOverflow (lsbActualResult.setWidth 32) .add
      lowerHalfCarry false
    let queue := cqHaltCycle queue
    let lsbCarry : U8 := boolByte (lsbWoOverflow ≠ lsbActualResult.setWidth 32)
    let dstHigherContent ← resolveInstructionParameterUnsigned dstParts.higher processor true
    let srcHigherContent ← resolveInstructionParameterUnsigned srcParts.higher processor true
    let msbWoOverflow := resolveResultWoOverflow (dstHigherContent + lsbCarry.setWidth 16)
      srcHigherContent .add 0
    let msbActualResult : U8 := msbWoOverflow.setWidth 8
    -- The source passes the operation where the carry belongs and 0 where the operation does;
    -- 0 is the enumerator ADD, and so are both.
    let msbHalfCarry := resolveHalfCarryForArithmatic (dstHigherContent + lsbCarry.setWidth 16)
      srcHigherContent 0 .add
    let queue ← cqWriteResultsU8 queue dstParts.higher msbActualResult processor
    .ok (cqWriteFlags queue msbWoOverflow (msbActualResult.setWidth 32) .add msbHalfCarry false)

def haltsAfterFlags (instruction : Instruction) : Bool :=
  instruction.originalMachineCode = 0x35 ∨ instruction.originalMachineCode = 0x34

def isOpIncDec (params : ArithmaticParams) : Bool :=
  params.operation = .inc ∨ params.operation = .dec

/-- The operands, the result and its flags. A comparison is a subtraction that writes no result. -/
def parseArithmatic (queue : CommandQueue) (processor : Processor) (instruction : Instruction) :
    Checked CommandQueue := do
  let params ← instruction.arithmaticParams
  let firstValue ← resolveInstructionParameterUnsigned params.destOrFirst processor false
  let secondValue ← resolveInstructionParameterUnsigned params.sourceOrSecond processor false
  let sourceIsHlPtr ← isParamHlPtr params.sourceOrSecond
  let destIsHlPtr ← isParamHlPtr params.destOrFirst
  let (queue, secondValue) ←
    if sourceIsHlPtr ∨ destIsHlPtr then do
      let (queue, _) ← dereferenceHlWithHalt queue processor
      .ok (queue, secondValue)
    else if ¬ isOpIncDec params ∧ params.sourceOrSecond.type = .uint8 then
      .ok (cqHaltCycle queue, secondValue)
    else do
      let secondValue ← resolveInstructionParameterUnsigned params.sourceOrSecond processor false
      .ok (queue, secondValue)
  let carryFlag := registersFlagsGetFlag processor.registers .C
  let operationResult := resolveResultWoOverflow firstValue secondValue params.operation carryFlag
  let halfCarryResult :=
    resolveHalfCarryForArithmatic firstValue secondValue carryFlag params.operation
  let isIduOp : Bool := params.destOrFirst.type = .register16 ∧ isOpIncDec params
  let holdsByte := doParamHoldByteLengthValues params.destOrFirst
  let queue ←
    if holdsByte then
      if params.operation ≠ .cp then
        cqWriteResultsU8 queue params.destOrFirst (operationResult.setWidth 8) processor
      else .ok queue
    else
      cqWriteResultsU16 queue params.destOrFirst params.sourceOrSecond
        (operationResult.setWidth 16) processor isIduOp
  let actualResult : U32 :=
    if holdsByte then (operationResult.setWidth 8).setWidth 32
    else (operationResult.setWidth 16).setWidth 32
  let queue :=
    if holdsByte then
      cqWriteFlags queue operationResult actualResult params.operation halfCarryResult
        (instruction.originalMachineCode < 0x40)
    else queue
  .ok (if haltsAfterFlags instruction then cqHaltCycle queue else queue)

/-! ## The arithmetic unit -/

section Alu

variable (op : Sm83.AluOp) (x y : U8) (c : Bool)

/-- The result in the `int` is the mathematical one, borrow and carry included. -/
theorem resolveResultWoOverflow_eq :
    resolveResultWoOverflow (x.setWidth 16) (y.setWidth 16) (operationOf op) (boolByte c) =
      BitVec.ofInt 32 (op.value x y c) := by
  have hx := x.isLt
  have hy := y.isLt
  have hc : c.toNat ≤ 1 := Bool.toNat_le c
  apply BitVec.eq_of_toNat_eq
  have hb : ((boolByte c).setWidth 32).toNat = c.toNat := by
    rw [BitVec.toNat_setWidth_of_le (by decide), toNat_boolByte]
  cases op <;>
    simp only [resolveResultWoOverflow, operationOf, Sm83.AluOp.value, BitVec.toNat_ofInt,
      BitVec.toNat_add, BitVec.toNat_sub, BitVec.toNat_and, BitVec.toNat_or, BitVec.toNat_xor,
      toNat_widen, hb]
  all_goals try omega
  · have h := (x &&& y).isLt
    rw [BitVec.toNat_and] at h
    omega
  · have h := (x ^^^ y).isLt
    rw [BitVec.toNat_xor] at h
    omega
  · have h := (x ||| y).isLt
    rw [BitVec.toNat_or] at h
    omega

theorem setWidth_ofInt_value :
    (BitVec.ofInt 32 (op.value x y c)).setWidth 8 = op.result x y c := by
  apply BitVec.eq_of_toNat_eq
  rw [Sm83.AluOp.result, BitVec.toNat_setWidth, BitVec.toNat_ofInt, BitVec.toNat_ofInt]
  omega

/-- Cutting the result to a byte loses something just when there is a carry. -/
theorem ofInt_value_ne_iff :
    BitVec.ofInt 32 (op.value x y c) ≠ (op.result x y c).setWidth 32 ↔
      op.carryInto 8 x y c = true := by
  have h := op.value_range x y c
  rw [Sm83.AluOp.carryInto_eight, Sm83.AluOp.result, ne_eq, ← BitVec.toNat_inj,
    BitVec.toNat_setWidth, BitVec.toNat_ofInt, BitVec.toNat_ofInt]
  omega

/-- Bit 4 is the carry out of the low nibble, or the borrow into it. -/
theorem resolveHalfCarryForArithmatic_eq (ha : op ≠ .and) :
    resolveHalfCarryForArithmatic (x.setWidth 16) (y.setWidth 16) (boolByte c)
      (operationOf op) = boolByte (op.half x y c) := by
  have hb : ((boolByte c).setWidth 32).toNat = c.toNat := by
    rw [BitVec.toNat_setWidth_of_le (by decide), toNat_boolByte]
  have hc : ((boolByte c).setWidth 32).toNat ≤ 1 := hb ▸ Bool.toNat_le c
  have h₀ := nibble_add_zero ((x.setWidth 16).setWidth 32) ((y.setWidth 16).setWidth 32)
  have h₁ := nibble_add ((x.setWidth 16).setWidth 32) ((y.setWidth 16).setWidth 32) _ hc
  have b₀ := nibble_sub_zero ((x.setWidth 16).setWidth 32) ((y.setWidth 16).setWidth 32)
  have b₁ := nibble_sub ((x.setWidth 16).setWidth 32) ((y.setWidth 16).setWidth 32) _ hc
  rw [toNat_widen, toNat_widen] at h₀ h₁ b₀ b₁
  rw [hb] at h₁ b₁
  cases op with
  | and => exact absurd rfl ha
  | xor | or => rfl
  | add => simp only [resolveHalfCarryForArithmatic, operationOf, h₀]; rfl
  | adc => simp only [resolveHalfCarryForArithmatic, operationOf, h₁]; rfl
  | sub | cp => simp only [resolveHalfCarryForArithmatic, operationOf, b₀]; rfl
  | sbc => simp only [resolveHalfCarryForArithmatic, operationOf, b₁]; rfl

end Alu

/-- The flags of one pass through the arithmetic unit; `none` leaves C as it is. -/
def flagCommands (z n h : Bool) (c : Option Bool) : CommandQueue :=
  [writeFlag .Z (boolByte z), writeFlag .N (boolByte n), writeFlag .H (boolByte h)] ++
    match c with
    | none => []
    | some b => [writeFlag .C (boolByte b)]

/-- The flag writes of an operation are those of the instruction set. -/
theorem cqWriteFlags_eq (queue : CommandQueue) (op : Sm83.AluOp) (x y : U8) (c skipC : Bool) :
    cqWriteFlags queue (BitVec.ofInt 32 (op.value x y c)) ((op.result x y c).setWidth 32)
      (operationOf op) (resolveHalfCarryForArithmatic (x.setWidth 16) (y.setWidth 16) (boolByte c)
        (operationOf op)) skipC =
    queue ++ flagCommands (op.result x y c = 0) op.subtracts (op.half x y c)
      (if skipC then none else some (op.carryInto 8 x y c)) := by
  have hz : (op.result x y c).setWidth 32 = (0 : U32) ↔ op.result x y c = 0 := by
    rw [← BitVec.toNat_inj, ← BitVec.toNat_inj, BitVec.toNat_setWidth_of_le (by decide)]
    rfl
  have hv := ofInt_value_ne_iff op x y c
  have hh := resolveHalfCarryForArithmatic_eq op x y c
  have hf : cqWriteFlag = fun q f v => q ++ [writeFlag f v] := rfl
  cases op with
  | and | xor | or =>
    simp only [cqWriteFlags, hz, hf, flagCommands]
    cases skipC <;> simp [operationOf, Sm83.AluOp.subtracts, Sm83.AluOp.half,
      Sm83.AluOp.carryInto, boolByte]
  | add | adc | sub | cp | sbc =>
    simp only [cqWriteFlags, hh (by decide), hz, hv, hf, flagCommands]
    cases skipC <;> simp [operationOf, Sm83.AluOp.subtracts]

@[simp] theorem isParamHlPtr_registerParam (r : Sm83.Reg8) :
    isParamHlPtr (registerParam r) = .ok false := rfl
@[simp] theorem isParamHlPtr_byteParam (n : U8) : isParamHlPtr (byteParam n) = .ok false := rfl
@[simp] theorem isParamHlPtr_pairParam (r : Register16) :
    isParamHlPtr (pairParam r) = .ok false := rfl
@[simp] theorem isParamHlPtr_offsetParam (e : U8) :
    isParamHlPtr (offsetParam e) = .ok false := rfl
@[simp] theorem isParamHlPtr_pointerParam (r : Register16) :
    isParamHlPtr (pointerParam r) = .ok (r = .HL) := by
  simp [isParamHlPtr, Param.isRegister16]

section Parse

variable (queue : CommandQueue) (p : Processor) (i : Instruction) (params : ArithmaticParams)

/-- An operation on a byte: a cycle for a value that is not at hand, the result, the flags. -/
theorem parseArithmatic_byte (first second : U16) (source dest : Bool)
    (written flags : CommandQueue)
    (hi : i.arithmaticParams = .ok params)
    (h₁ : resolveInstructionParameterUnsigned params.destOrFirst p false = .ok first)
    (h₂ : resolveInstructionParameterUnsigned params.sourceOrSecond p false = .ok second)
    (hs : isParamHlPtr params.sourceOrSecond = .ok source)
    (hd : isParamHlPtr params.destOrFirst = .ok dest)
    (hb : doParamHoldByteLengthValues params.destOrFirst = true)
    (hcp : params.operation = .cp → written = [])
    (hw : params.operation ≠ .cp → ∀ q : CommandQueue,
      cqWriteResultsU8 q params.destOrFirst ((resolveResultWoOverflow first second
        params.operation (boolByte (p.abs.flag .C))).setWidth 8) p = .ok (q ++ written))
    (hf : ∀ q : CommandQueue,
      let r := resolveResultWoOverflow first second params.operation (boolByte (p.abs.flag .C))
      cqWriteFlags q r ((r.setWidth 8).setWidth 32) params.operation
        (resolveHalfCarryForArithmatic first second (boolByte (p.abs.flag .C)) params.operation)
        (i.originalMachineCode < 0x40) = q ++ flags) :
    parseArithmatic queue p i = .ok (queue ++
      haltIf (source ∨ dest ∨ ¬ isOpIncDec params ∧ params.sourceOrSecond.type = .uint8) ++
      written ++ flags ++ haltIf (haltsAfterFlags i)) := by
  have hc : registersFlagsGetFlag p.registers .C = boolByte (p.abs.flag .C) :=
    flagsGetFlag_eq p .C
  have he : ∀ q : CommandQueue, (if haltsAfterFlags i then cqHaltCycle q else q) =
      q ++ haltIf (haltsAfterFlags i) := by
    intro q
    cases haltsAfterFlags i <;> simp [haltIf, cqHaltCycle, enqueue]
  simp only [parseArithmatic, hi, ok_bind, h₁, h₂, hs, hd, hb, hc, if_true, hf, he]
  by_cases hop : params.operation = .cp
  all_goals
    by_cases h : source ∨ dest
    · simp [hop, hcp, hw, h, haltIf, ← or_assoc]
    by_cases h' : isOpIncDec params = false ∧ params.sourceOrSecond.type = .uint8
    · simp [hop, hcp, hw, h, h', haltIf, cqHaltCycle, enqueue]
    · simp [hop, hcp, hw, h, h', haltIf]

end Parse

/-! ## The commands of every operation -/

/-- An operation on A and `y`; a comparison writes no result. -/
def accumulatorCommands (s : Sm83.State) (op : Sm83.AluOp) (y : U8) : CommandQueue :=
  let x := s.reg .A
  let c := s.flag .C
  let r := op.result x y c
  (if op = .cp then [] else [writeReg8 (register8Of .A) r]) ++
    flagCommands (r = 0) op.subtracts (op.half x y c) (op.carryInto 8 x y c)

/-- A sum of two words in two passes: the carry of the low one is added to the high byte first,
and what that addition carries out of a nibble is not seen by the second pass. -/
def wordAddCommands (low high : U8 → CommandQueue) (a b : U16) : CommandQueue :=
  let c := BitVec.carry 8 (Sm83.lo a) (Sm83.lo b) false
  let r := Sm83.lo a + Sm83.lo b
  let r' := Sm83.hi a + boolByte c + Sm83.hi b
  low r ++ flagCommands (r = 0) false (BitVec.carry 4 (Sm83.lo a) (Sm83.lo b) false) c ++
    [haltCycle] ++ high r' ++
    flagCommands (r' = 0) false (BitVec.carry 4 (Sm83.hi a + boolByte c) (Sm83.hi b) false)
      (BitVec.carry 8 (Sm83.hi a) (Sm83.hi b) c)

/-- The commands of an arithmetic instruction after its bytes are fetched. -/
def arithmaticCommands (s : Sm83.State) (n : U8) : Sm83.Arith → CommandQueue
  | .alu op o => haltIf (o = .indHL) ++ accumulatorCommands s op (s.operand8 o)
  | .aluImm op => haltCycle :: accumulatorCommands s op n
  | .inc8 o =>
    let v := s.operand8 o
    haltIf (o = .indHL) ++ writeOperand s o (v + 1) ::
      flagCommands (v + 1 = 0) false (BitVec.carry 4 v 1 false) none ++ haltIf (o = .indHL)
  | .dec8 o =>
    let v := s.operand8 o
    haltIf (o = .indHL) ++ writeOperand s o (v - 1) ::
      flagCommands (v - 1 = 0) true (Sm83.borrow 4 v 1 false) none ++ haltIf (o = .indHL)
  | .incPair q => [writeReg16 (register16Of q) (s.pair q + 1), haltCycle]
  | .decPair q => [writeReg16 (register16Of q) (s.pair q - 1), haltCycle]
  | .addHL q => wordAddCommands (fun v => [writeReg8 (register8Of .L) v])
      (fun v => [writeReg8 (register8Of .H) v]) (s.pair .HL) (s.pair q)
  | .addSP => wordAddCommands (fun _ => []) (fun _ => []) s.sp 0
  | .daa | .cpl | .scf | .ccf =>
    writeReg8 (register8Of .A) 0xFF :: flagCommands false false false none

section Token

variable (p : Processor) (queue : CommandQueue) (b₁ b₂ : U8)

theorem isParamHlPtr_operandParam (o : Sm83.Operand8) :
    isParamHlPtr (operandParam o) = .ok (o = .indHL) := by
  cases o with
  | reg r => simp [operandParam]
  | indHL => simp [operandParam]

theorem doParamHold_operandParam (o : Sm83.Operand8) :
    doParamHoldByteLengthValues (operandParam o) = true := by
  cases o <;> simp [operandParam, doParamHoldByteLengthValues]

theorem cqWriteResultsU8_operandParam (o : Sm83.Operand8) (v : U8) :
    cqWriteResultsU8 queue (operandParam o) v p = .ok (queue ++ [writeOperand p.abs o v]) := by
  cases o <;> simp [operandParam, cqWriteResultsU8, writeOperand, cqWriteReg8, cqWriteMemory,
    enqueue]

/-- An operation on A, with the source and its value given. -/
theorem parseArithmatic_accumulator (i : Instruction) (op : Sm83.AluOp) (source : Param)
    (y : U8) (hl : Bool)
    (hi : i.arithmaticParams = .ok ⟨operationOf op, registerParam .A, source⟩)
    (hs : isParamHlPtr source = .ok hl)
    (hy : resolveInstructionParameterUnsigned source p false = .ok (y.setWidth 16))
    (hc : ¬ i.originalMachineCode < 0x40) (hh : haltsAfterFlags i = false) :
    parseArithmatic queue p i = .ok (queue ++ haltIf (hl ∨ source.type = .uint8) ++
      accumulatorCommands p.abs op y) := by
  have hr := resolveResultWoOverflow_eq op (p.abs.reg .A) y (p.abs.flag .C)
  let r := op.result (p.abs.reg .A) y (p.abs.flag .C)
  have h := parseArithmatic_byte queue p i _ _ _ hl false
    (if op = .cp then [] else [writeReg8 (register8Of .A) r])
    (flagCommands (r = 0) op.subtracts (op.half (p.abs.reg .A) y (p.abs.flag .C))
      (op.carryInto 8 (p.abs.reg .A) y (p.abs.flag .C)))
    hi (resolve_registerParam p false .A) hy hs rfl rfl ?_ ?_ ?_
  · rw [h, hh]
    cases op <;> simp [haltIf, accumulatorCommands, isOpIncDec, operationOf, r]
  · intro h
    cases op <;> first | rfl | cases h
  · intro ho q
    rw [hr, setWidth_ofInt_value]
    cases op <;> first | rfl | exact absurd rfl ho
  · intro q
    simp only [hr, setWidth_ofInt_value, hc, decide_false]
    exact cqWriteFlags_eq q op _ _ _ false

/-- INC and DEC add and subtract 1, and the carry flag stays. -/
theorem parseArithmatic_incDec (i : Instruction) (operation : Operation) (op : Sm83.AluOp)
    (o : Sm83.Operand8) (ho : operation = .inc ∧ op = .add ∨ operation = .dec ∧ op = .sub)
    (hi : i.arithmaticParams = .ok ⟨operation, operandParam o, byteParam 1⟩)
    (hc : i.originalMachineCode < 0x40) (hh : haltsAfterFlags i = decide (o = .indHL)) :
    let v := p.abs.operand8 o
    let r := op.result v 1 (p.abs.flag .C)
    parseArithmatic queue p i = .ok (queue ++ (haltIf (o = .indHL) ++ writeOperand p.abs o r ::
      flagCommands (r = 0) op.subtracts (op.half v 1 (p.abs.flag .C)) none ++
      haltIf (o = .indHL))) := by
  intro v r
  have hr : resolveResultWoOverflow ((p.abs.operand8 o).setWidth 16) ((1 : U8).setWidth 16)
      operation (boolByte (p.abs.flag .C)) = BitVec.ofInt 32 (op.value v 1 (p.abs.flag .C)) := by
    rw [← resolveResultWoOverflow_eq]
    rcases ho with ⟨rfl, rfl⟩ | ⟨rfl, rfl⟩ <;> rfl
  have hf (q : CommandQueue) (x y : U16) (c : U8) (a b : U32) (s : Bool) :
      cqWriteFlags q a b operation (resolveHalfCarryForArithmatic x y c operation) s =
        cqWriteFlags q a b (operationOf op)
          (resolveHalfCarryForArithmatic x y c (operationOf op)) s := by
    rcases ho with ⟨rfl, rfl⟩ | ⟨rfl, rfl⟩ <;>
      simp [cqWriteFlags, operationOf, resolveHalfCarryForArithmatic]
  have hd : isOpIncDec ⟨operation, operandParam o, byteParam 1⟩ = true := by
    rcases ho with ⟨rfl, rfl⟩ | ⟨rfl, rfl⟩ <;> rfl
  have h := parseArithmatic_byte queue p i _ _ _ false (o = .indHL) [writeOperand p.abs o r]
    (flagCommands (r = 0) op.subtracts (op.half v 1 (p.abs.flag .C)) none)
    hi (resolve_operandParam p o) (resolve_byteParam p false 1) rfl (isParamHlPtr_operandParam o)
    (doParamHold_operandParam o) ?_ ?_ ?_
  · rw [h, hh, hd]
    simp [haltIf]
  · rcases ho with ⟨rfl, rfl⟩ | ⟨rfl, rfl⟩ <;> nofun
  · intro _ q
    rw [hr, setWidth_ofInt_value]
    exact cqWriteResultsU8_operandParam p q o _
  · intro q
    simp only [hf, hr, setWidth_ofInt_value, hc, decide_true]
    exact cqWriteFlags_eq q op _ _ _ true

/-- The increment unit writes a pair and no flags. -/
theorem parseArithmatic_idu (i : Instruction) (params : ArithmaticParams) (q : Sm83.Pair)
    (hi : i.arithmaticParams = .ok params) (hq : params.destOrFirst = pairParam (register16Of q))
    (hs : params.sourceOrSecond = byteParam 1) (ho : isOpIncDec params = true)
    (hh : haltsAfterFlags i = false) :
    let r := resolveResultWoOverflow (p.abs.pair q) 1 params.operation
      (boolByte (p.abs.flag .C))
    parseArithmatic queue p i = .ok (queue ++
      [writeReg16 (register16Of q) (r.setWidth 16), haltCycle]) := by
  have hc : registersFlagsGetFlag p.registers .C = boolByte (p.abs.flag .C) :=
    flagsGetFlag_eq p .C
  simp [parseArithmatic, hi, hq, hs, ho, hh, hc, cqWriteResultsU16, doParamHoldByteLengthValues,
    cqWriteReg16, cqHaltCycle, enqueue]

section HighPass

variable (x y : U8) (c : Bool)

/-- The high halves and the carry between them add up without a loss. -/
theorem highPass_toNat :
    (resolveResultWoOverflow (x.setWidth 16 + (boolByte c).setWidth 16) (y.setWidth 16)
      .add 0).toNat = x.toNat + c.toNat + y.toNat := by
  have hx := x.isLt
  have hy := y.isLt
  have hc : c.toNat ≤ 1 := Bool.toNat_le c
  have h : ((x.setWidth 16 + (boolByte c).setWidth 16).setWidth 32).toNat = x.toNat + c.toNat := by
    rw [BitVec.toNat_setWidth_of_le (by decide), BitVec.toNat_add,
      BitVec.toNat_setWidth_of_le (by decide), BitVec.toNat_setWidth_of_le (by decide),
      toNat_boolByte]
    omega
  rw [resolveResultWoOverflow, BitVec.toNat_add, h, toNat_widen]
  omega

theorem highPass_setWidth :
    (resolveResultWoOverflow (x.setWidth 16 + (boolByte c).setWidth 16) (y.setWidth 16)
      .add 0).setWidth 8 = x + boolByte c + y := by
  apply BitVec.eq_of_toNat_eq
  rw [BitVec.toNat_setWidth, highPass_toNat, BitVec.toNat_add, BitVec.toNat_add, toNat_boolByte]
  omega

/-- The flags of the pass over the high bytes. -/
theorem cqWriteFlags_highPass (queue : CommandQueue) :
    cqWriteFlags queue (resolveResultWoOverflow (x.setWidth 16 + (boolByte c).setWidth 16)
        (y.setWidth 16) .add 0) ((x + boolByte c + y).setWidth 32) .add
        (resolveHalfCarryForArithmatic (x.setWidth 16 + (boolByte c).setWidth 16)
          (y.setWidth 16) 0 .add) false =
      queue ++ flagCommands (x + boolByte c + y = 0) false
        (BitVec.carry 4 (x + boolByte c) y false) (BitVec.carry 8 x y c) := by
  have hx := x.isLt
  have hy := y.isLt
  have hz : (x + boolByte c + y).setWidth 32 = (0 : U32) ↔ x + boolByte c + y = 0 := by
    rw [← BitVec.toNat_inj, ← BitVec.toNat_inj, BitVec.toNat_setWidth_of_le (by decide)]
    rfl
  have hcarry : resolveResultWoOverflow (x.setWidth 16 + (boolByte c).setWidth 16)
      (y.setWidth 16) .add 0 ≠ (x + boolByte c + y).setWidth 32 ↔
        BitVec.carry 8 x y c = true := by
    rw [ne_eq, ← BitVec.toNat_inj, BitVec.toNat_setWidth_of_le (by decide), highPass_toNat,
      BitVec.toNat_add, BitVec.toNat_add, toNat_boolByte, BitVec.carry, decide_eq_true_iff]
    omega
  have hh : ((x.setWidth 16 + (boolByte c).setWidth 16).setWidth 32).toNat % 16 =
      (x + boolByte c).toNat % 16 := by
    rw [BitVec.toNat_setWidth_of_le (by decide), BitVec.toNat_add, BitVec.toNat_add,
      BitVec.toNat_setWidth_of_le (by decide), BitVec.toNat_setWidth_of_le (by decide)]
    omega
  have hhalf := nibble_add_zero ((x.setWidth 16 + (boolByte c).setWidth 16).setWidth 32)
    ((y.setWidth 16).setWidth 32)
  rw [hh, toNat_widen] at hhalf
  simp only [cqWriteFlags, resolveHalfCarryForArithmatic, hz, hcarry, hhalf, flagCommands]
  simp [cqWriteFlag, enqueue, BitVec.carry]

end HighPass

theorem cqWriteResultsU16_add (dst src : Param) (d s : ParamTuple) (a b result : U16)
    (low high : U8 → CommandQueue)
    (hd : explodeBeemuParam dst p = .ok d) (hs : explodeBeemuParam src p = .ok s)
    (hdl : resolveInstructionParameterUnsigned d.lower p true = .ok ((Sm83.lo a).setWidth 16))
    (hdh : resolveInstructionParameterUnsigned d.higher p true = .ok ((Sm83.hi a).setWidth 16))
    (hsl : resolveInstructionParameterUnsigned s.lower p true = .ok ((Sm83.lo b).setWidth 16))
    (hsh : resolveInstructionParameterUnsigned s.higher p true = .ok ((Sm83.hi b).setWidth 16))
    (hl : ∀ q v, cqWriteResultsU8 q d.lower v p = .ok (q ++ low v))
    (hh : ∀ q v, cqWriteResultsU8 q d.higher v p = .ok (q ++ high v)) :
    cqWriteResultsU16 queue dst src result p false =
      .ok (queue ++ wordAddCommands low high a b) := by
  have hr := resolveResultWoOverflow_eq .add (Sm83.lo a) (Sm83.lo b) false
  have hf := fun q => cqWriteFlags_eq q .add (Sm83.lo a) (Sm83.lo b) false false
  have hc := ofInt_value_ne_iff .add (Sm83.lo a) (Sm83.lo b) false
  have hk : Sm83.AluOp.add.carryInto 8 (Sm83.lo a) (Sm83.lo b) false =
    BitVec.carry 8 (Sm83.lo a) (Sm83.lo b) false := rfl
  have hm := cqWriteFlags_highPass (Sm83.hi a) (Sm83.hi b)
    (BitVec.carry 8 (Sm83.lo a) (Sm83.lo b) false)
  have h0 : boolByte false = 0 := rfl
  simp only [operationOf, h0] at hr hf
  simp only [cqWriteResultsU16, hd, hs, hdl, hdh, hsl, hsh, hl, hh, ok_bind, narrow_widen, hr,
    setWidth_ofInt_value, hf, hc, hk, Bool.decide_eq_true, highPass_setWidth, hm]
  simp [wordAddCommands, cqHaltCycle, enqueue, Sm83.AluOp.result_add, Sm83.AluOp.subtracts,
    Sm83.AluOp.half, Sm83.AluOp.carryInto]

/-- ADD to a pair leaves its result and its flags to the two passes. -/
theorem parseArithmatic_wordAdd (i : Instruction) (params : ArithmaticParams) (r : Register16)
    (first second : U16) (commands : CommandQueue)
    (hi : i.arithmaticParams = .ok params) (ho : params.operation = .add)
    (hd : params.destOrFirst = pairParam r)
    (h₁ : registersReadRegisterValue p.registers (.sixteenBit r) = .ok first)
    (h₂ : resolveInstructionParameterUnsigned params.sourceOrSecond p false = .ok second)
    (hs : isParamHlPtr params.sourceOrSecond = .ok false)
    (ht : params.sourceOrSecond.type ≠ .uint8) (hh : haltsAfterFlags i = false)
    (hw : ∀ result, cqWriteResultsU16 queue params.destOrFirst params.sourceOrSecond result p
      false = .ok (queue ++ commands)) :
    parseArithmatic queue p i = .ok (queue ++ commands) := by
  have hdec : isOpIncDec params = false := by simp [isOpIncDec, ho]
  rw [hd] at hw
  simp [parseArithmatic, hi, hd, h₁, h₂, hs, ht, hh, hdec, hw, doParamHoldByteLengthValues]

/-- The code computes -1 for an operation that it does not know, and its byte is written to A. -/
theorem parseArithmatic_unknown (i : Instruction) (operation : Operation)
    (ho : operation ∈ [.daa, .cpl, .scf, .ccf])
    (hi : i.arithmaticParams = .ok ⟨operation, registerParam .A, registerParam .A⟩)
    (hc : i.originalMachineCode < 0x40) (hh : haltsAfterFlags i = false) :
    parseArithmatic queue p i = .ok (queue ++
      writeReg8 (register8Of .A) 0xFF :: flagCommands false false false none) := by
  have hr (x y : U16) (c : U8) : resolveResultWoOverflow x y operation c = -1 := by
    simp only [List.mem_cons, List.not_mem_nil, or_false] at ho
    rcases ho with rfl | rfl | rfl | rfl <;> rfl
  have h := parseArithmatic_byte queue p i _ _ _ false false
    [writeReg8 (register8Of .A) 0xFF] (flagCommands false false false none)
    hi (resolve_registerParam p false .A) (resolve_registerParam p false .A) rfl rfl rfl ?_ ?_ ?_
  · rw [h, hh]
    simp [haltIf]
  · rintro rfl
    simp at ho
  · intro _ q
    rw [hr]
    rfl
  · intro q
    simp only [hr, hc, decide_true]
    simp only [List.mem_cons, List.not_mem_nil, or_false] at ho
    rcases ho with rfl | rfl | rfl | rfl <;>
      simp [cqWriteFlags, cqWriteFlag, enqueue, flagCommands, resolveHalfCarryForArithmatic,
        boolByte]

theorem originalMachineCode_one (a : Sm83.Arith) (h : a.length = 1) :
    (token (.arith a) b₁ b₂).originalMachineCode = a.byte.setWidth 32 := by
  change machineCode a.byte b₁ b₂ a.length = _
  rw [h]
  rfl

/-- The test that spares the carry goes by the machine code, and so by the opcode. -/
theorem originalMachineCode_lt_iff (a : Sm83.Arith) (h : a.length = 1) :
    (token (.arith a) b₁ b₂).originalMachineCode < 0x40 ↔ a.byte < 0x40 := by
  rw [originalMachineCode_one b₁ b₂ a h, BitVec.lt_def, BitVec.lt_def,
    BitVec.toNat_setWidth_of_le (by decide)]
  rfl

/-- The opcodes of INC (HL) and DEC (HL) are the two that the parser halts after. -/
theorem haltsAfterFlags_one (a : Sm83.Arith) (h : a.length = 1) :
    haltsAfterFlags (token (.arith a) b₁ b₂) =
      decide (a = .inc8 .indHL ∨ a = .dec8 .indHL) := by
  rw [haltsAfterFlags, originalMachineCode_one b₁ b₂ a h]
  cases a with
  | alu op o =>
    cases op <;> cases o with
    | reg r => cases r <;> decide
    | indHL => decide
  | inc8 o | dec8 o =>
    cases o with
    | reg r => cases r <;> decide
    | indHL => decide
  | incPair q | decPair q | addHL q => cases q <;> decide
  | aluImm op | addSP => cases h
  | daa | cpl | scf | ccf => decide

/-- The machine code of two bytes is above the two opcodes. -/
theorem haltsAfterFlags_two (i : Instruction) (h : 0x4000 ≤ i.originalMachineCode.toNat) :
    haltsAfterFlags i = false := by
  simp [haltsAfterFlags, ← BitVec.toNat_inj]
  omega

theorem setWidth_inc (x : U16) (c : U8) :
    (resolveResultWoOverflow x 1 .inc c).setWidth 16 = x + 1 := by
  apply BitVec.eq_of_toNat_eq
  simp [resolveResultWoOverflow]

theorem setWidth_dec (x : U16) (c : U8) :
    (resolveResultWoOverflow x 1 .dec c).setWidth 16 = x - 1 := by
  apply BitVec.eq_of_toNat_eq
  simp [resolveResultWoOverflow, BitVec.toNat_sub]
  omega

/-- What an arithmetic instruction emits once its opcode is fetched. -/
theorem parseArithmatic_eq (a : Sm83.Arith) :
    parseArithmatic queue p (token (.arith a) b₁ b₂) =
      .ok (queue ++ arithmaticCommands p.abs b₁ a) := by
  cases a with
  | alu op o =>
    have hc : ¬ (token (.arith (.alu op o)) b₁ b₂).originalMachineCode < 0x40 := by
      rw [originalMachineCode_lt_iff _ _ _ rfl]
      cases op <;> cases o with
      | reg r => cases r <;> decide
      | indHL => decide
    rw [parseArithmatic_accumulator p queue _ op (operandParam o) (p.abs.operand8 o)
      (o = .indHL) rfl (isParamHlPtr_operandParam o) (resolve_operandParam p o) hc
      (haltsAfterFlags_one _ _ _ rfl), List.append_assoc]
    cases o <;> simp [arithmaticCommands, operandParam]
  | aluImm op =>
    have hm : 0x4000 ≤ (token (.arith (.aluImm op)) b₁ b₂).originalMachineCode.toNat :=
      machineCode_two_ge _ b₁ b₂ (by cases op <;> decide)
    rw [parseArithmatic_accumulator p queue _ op (byteParam b₁) b₁ false rfl rfl
      (resolve_byteParam p false b₁) ?_ (haltsAfterFlags_two _ hm), List.append_assoc]
    · simp [haltIf, arithmaticCommands]
    · rw [BitVec.lt_def]
      simp
      omega
  | inc8 o =>
    have hc : (token (.arith (.inc8 o)) b₁ b₂).originalMachineCode < 0x40 := by
      rw [originalMachineCode_lt_iff _ _ _ rfl]
      cases o with
      | reg r => cases r <;> decide
      | indHL => decide
    rw [parseArithmatic_incDec p queue _ .inc .add o (.inl ⟨rfl, rfl⟩) rfl hc
      ((haltsAfterFlags_one _ _ _ rfl).trans (by simp)), Sm83.AluOp.result_add]
    rfl
  | dec8 o =>
    have hc : (token (.arith (.dec8 o)) b₁ b₂).originalMachineCode < 0x40 := by
      rw [originalMachineCode_lt_iff _ _ _ rfl]
      cases o with
      | reg r => cases r <;> decide
      | indHL => decide
    rw [parseArithmatic_incDec p queue _ .dec .sub o (.inr ⟨rfl, rfl⟩) rfl hc
      ((haltsAfterFlags_one _ _ _ rfl).trans (by simp)), Sm83.AluOp.result_sub]
    rfl
  | incPair q =>
    rw [parseArithmatic_idu p queue _ _ q rfl rfl rfl rfl (haltsAfterFlags_one _ _ _ rfl)]
    exact congrArg (fun v => Except.ok (queue ++ [writeReg16 (register16Of q) v, haltCycle]))
      (setWidth_inc _ _)
  | decPair q =>
    rw [parseArithmatic_idu p queue _ _ q rfl rfl rfl rfl (haltsAfterFlags_one _ _ _ rfl)]
    exact congrArg (fun v => Except.ok (queue ++ [writeReg16 (register16Of q) v, haltCycle]))
      (setWidth_dec _ _)
  | addHL q =>
    obtain ⟨t, ht, hl, hh⟩ := explode_pairParam p q
    have hw (result : U16) := cqWriteResultsU16_add p queue _ _ _ t (p.abs.pair .HL)
      (p.abs.pair q) result (fun v => [writeReg8 (register8Of .L) v])
      (fun v => [writeReg8 (register8Of .H) v])
      (explode_HL p) ht (by simp [Sm83.State.pair]) (by simp [Sm83.State.pair]) hl hh
      (fun _ _ => rfl) (fun _ _ => rfl)
    exact parseArithmatic_wordAdd p queue _ _ .HL _ _ _ rfl rfl rfl (read_HL p)
      ((resolve_pairParam p false _).trans (read_register16Of p q)) rfl
      (by simp [arithmaticParamsOf]) (haltsAfterFlags_one _ _ _ rfl) hw
  | addSP =>
    have hm : 0x4000 ≤ (token (.arith .addSP) b₁ b₂).originalMachineCode.toNat :=
      machineCode_two_ge _ b₁ b₂ (by decide)
    have hw (result : U16) := cqWriteResultsU16_add p queue (pairParam .SP) (offsetParam b₁) _
      ⟨offsetParam b₁, offsetParam b₁⟩ p.abs.sp 0 result (fun _ => []) (fun _ => [])
      (explode_SP p) rfl (resolve_byteParam p true _) (resolve_byteParam p true _) rfl rfl
      (by simp [cqWriteResultsU8]) (by simp [cqWriteResultsU8])
    exact parseArithmatic_wordAdd p queue _ _ .SP _ 0 _ rfl rfl rfl (read_SP p)
      (resolve_offsetParam p false b₁) rfl (by simp [arithmaticParamsOf])
      (haltsAfterFlags_two _ hm) hw
  | daa | cpl | scf | ccf =>
    exact parseArithmatic_unknown p queue _ _ (by decide) rfl
      ((originalMachineCode_lt_iff _ _ _ rfl).mpr (by decide)) (haltsAfterFlags_one _ _ _ rfl)

end Token

end Beemu
