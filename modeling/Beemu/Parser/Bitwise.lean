import Beemu.Parser.Common

/-!
# Parsing BIT, RES and SET
-/

namespace Beemu

open MachineCommand

/-- C shifts and masks in an `int` and returns the low byte. -/
def resolveBitwiseOp (value targetedBit : U8) (operationType : BitOperation) : U8 :=
  let value : U32 := value.setWidth 32
  let mask : U32 := 1 <<< targetedBit.toNat
  match operationType with
  | .bit => ((value &&& mask) >>> targetedBit.toNat).setWidth 8
  | .res => (value &&& (0xFF ^^^ mask)).setWidth 8
  | .set => (value ||| mask).setWidth 8

def parseBitwise (queue : CommandQueue) (processor : Processor) (instruction : Instruction) :
    Checked CommandQueue := do
  let params ← instruction.bitwiseParams
  let hasHlDeref ←
    if params.target.pointer then params.target.isRegister16 .HL else .ok false
  let (queue, targetValue) ←
    if hasHlDeref then dereferenceHlWithHalt queue processor
    else do
      let v ← resolveInstructionParameterUnsigned params.target processor true
      .ok (queue, v.setWidth 8)
  let result := resolveBitwiseOp targetValue params.bitNumber params.operation
  if params.operation = .bit then
    let queue := cqWriteFlag queue .Z result
    let queue := cqWriteFlag queue .N 0
    .ok (cqWriteFlag queue .H 1)
  else if hasHlDeref then do
    let valueOfHl ← resolveInstructionParameterUnsigned params.target processor true
    .ok (cqHaltCycle (cqWriteMemory queue valueOfHl result))
  else do
    let r ← params.target.value.asRegister8
    .ok (cqWriteReg8 queue r result)

/-- What a bit operation computes: the bit itself, or the byte with its bit changed. -/
def bitResult (op : Sm83.BitOp) (n : BitVec 3) (v : U8) : U8 :=
  match op with
  | .bit => boolByte (v.getLsbD n.toNat)
  | .res => v &&& ~~~(1#8 <<< n.toNat)
  | .set => v ||| 1#8 <<< n.toNat

theorem resolveBitwiseOp_eq (op : Sm83.BitOp) : ∀ (n : BitVec 3) (v : U8),
    resolveBitwiseOp v (n.setWidth 8) (bitOperationOf op) = bitResult op n v := by
  cases op <;> decide +kernel

def bitwiseCommands (s : Sm83.State) (op : Sm83.BitOp) (n : BitVec 3) (o : Sm83.Operand8) :
    CommandQueue :=
  let result := bitResult op n (s.operand8 o)
  haltIf (o = .indHL) ++
    match op with
    | .bit => [writeFlag .Z result, writeFlag .N 0, writeFlag .H 1]
    | .res | .set => writeOperand s o result :: haltIf (o = .indHL)

/-- What a bit operation emits once both of its bytes are fetched. -/
theorem parseBitwise_eq (p : Processor) (queue : CommandQueue) (op : Sm83.BitOp) (n : BitVec 3)
    (o : Sm83.Operand8) (i : Instruction)
    (hi : i.bitwiseParams = .ok ⟨bitOperationOf op, n.setWidth 8, operandParam o⟩) :
    parseBitwise queue p i = .ok (queue ++ bitwiseCommands p.abs op n o) := by
  cases o with
  | reg r =>
    simp only [parseBitwise, hi, ok_bind, operandParam, registerParam_pointer,
      resolve_registerParam, narrow_widen, resolveBitwiseOp_eq]
    cases op <;> simp [bitwiseCommands, bitOperationOf, haltIf, writeOperand, cqWriteFlag,
      cqWriteReg8, enqueue, Sm83.State.operand8]
  | indHL =>
    simp only [parseBitwise, hi, ok_bind, operandParam, pointerParam_pointer, Param.isRegister16,
      pointerParam_type, pointerParam_value, asRegister16_register16, if_true,
      dereferenceHlWithHalt_eq, decide_true, resolveBitwiseOp_eq]
    cases op <;> simp [bitwiseCommands, bitOperationOf, haltIf, writeOperand, cqWriteFlag,
      cqWriteMemory, cqHaltCycle, enqueue, Sm83.State.operand8]

end Beemu
