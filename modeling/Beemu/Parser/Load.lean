import Beemu.Parser.Common

/-!
# Parsing loads

A state machine of a fetch half and a write half: each step emits its commands and moves to
the next one. The steps are ordered here from the last to the first.
-/

namespace Beemu

open MachineCommand

/-- What every step of the state machine is given. -/
structure StateMachineContext where
  processor : Processor
  instruction : Instruction
  ldParams : LoadParams

/-- Whether the post load counts down. -/
def postLoadDecrements (operation : PostLoadOperation) : Bool :=
  operation = .decrementIndirectSource ∨ operation = .decrementIndirectDestination

/-- Whether the post load moves the pointer of the destination. -/
def postLoadImpactsDst (operation : PostLoadOperation) : Bool :=
  operation = .decrementIndirectDestination ∨ operation = .incrementIndirectDestination

/-- Whether the post load moves the pointer of the source. -/
def postLoadImpactsSrc (operation : PostLoadOperation) : Bool :=
  operation = .decrementIndirectSource ∨ operation = .incrementIndirectSource

/-- A parameter is on the stack when it is the memory at SP. -/
def isStackOp (ldDestOrSrc : Param) : Checked Bool := do
  let isSp ← ldDestOrSrc.isRegister16 .SP
  .ok (isSp && ldDestOrSrc.pointer)

/-- The `int` that a post load adds. -/
def postLoadModifier (operation : PostLoadOperation) : U16 :=
  if postLoadDecrements operation then -1 else 1

/-- Moves the pointer of the destination, from its old value. -/
def dstPostLoadStep (ctx : StateMachineContext) (queue : CommandQueue) :
    Checked CommandQueue := do
  assertThat (ctx.ldParams.postLoadOperation ≠ .nop)
  let value ← resolveInstructionParameterUnsigned ctx.ldParams.dest ctx.processor true
  let newTargetValue := value + postLoadModifier ctx.ldParams.postLoadOperation
  if ctx.ldParams.dest.type = .register16 then do
    let r ← ctx.ldParams.dest.value.asRegister16
    .ok (cqWriteReg16 queue r newTargetValue)
  else do
    let r ← ctx.ldParams.dest.value.asRegister8
    .ok (cqWriteReg8 queue r (newTargetValue.setWidth 8))

/-- `BEEMU_CKD_ADD(&lsb_add_result, sp_lsb, offset)`: the sum that is stored in a byte, and
whether it overflowed. -/
def ckdAdd (a : U8) (b : U32) : U8 × Bool :=
  ((a.setWidth 32 + b).setWidth 8, decide (256 ≤ a.toNat + b.toNat))

/-- `LD HL, SP + e`: the low half and the flags, and after a cycle the high half. The offset is
added without its sign. -/
def offsettedSpCopyStep (ctx : StateMachineContext) (queue : CommandQueue) :
    Checked CommandQueue :=
  let offset : U32 := ctx.instruction.originalMachineCode &&& 0xFF
  let spLsb : U8 := (ctx.processor.registers.stackPointer &&& 0xFF).setWidth 8
  let spMsb : U8 := (ctx.processor.registers.stackPointer >>> 8).setWidth 8
  let sum := ckdAdd spLsb offset
  let hFlag : Bool := (((spLsb.setWidth 32 &&& 0x0F) + (offset &&& 0x0F)) &&& 0x10) = 0x10
  let queue := cqWriteReg8 queue .L sum.1
  let queue := cqWriteFlag queue .Z 0
  let queue := cqWriteFlag queue .N 0
  let queue := cqWriteFlag queue .H (boolByte hFlag)
  let queue := cqWriteFlag queue .C (boolByte sum.2)
  let queue := cqHaltCycle queue
  .ok (cqWriteReg8 queue .H (spMsb + boolByte sum.2))

/-- A write to a register. A value from the stack is both bytes at SP, and a copy between two
registers of 16 bits takes another cycle. -/
def registerWriteStep (ctx : StateMachineContext) (queue : CommandQueue) :
    Checked CommandQueue := do
  let p := ctx.ldParams
  assertThat (p.dest.type = .register16 ∨ p.dest.type = .register8)
  let queue ←
    if postLoadImpactsDst p.postLoadOperation then do
      let queue ← dstPostLoadStep ctx queue
      .ok (cqHaltCycle queue)
    else .ok queue
  let resolved ← resolveInstructionParameterUnsigned p.source ctx.processor false
  let fromStack ← isStackOp p.source
  let writeValue : U32 ←
    if fromStack then do
      let v ← memoryRead16 ctx.processor.memory ctx.processor.registers.stackPointer
      .ok (v.setWidth 32)
    else .ok (resolved.setWidth 32)
  if p.dest.type = .register8 then do
    let r ← p.dest.value.asRegister8
    .ok (cqWriteReg8 queue r (writeValue.setWidth 8))
  else do
    let r ← p.dest.value.asRegister16
    let queue := cqWriteReg16 queue r (writeValue.setWidth 16)
    if p.dest.type = p.source.type ∧ ¬ p.dest.pointer ∧ ¬ p.source.pointer then
      .ok (cqHaltCycle queue)
    else .ok queue

/-- A push: the high byte first, with SP moved down before each of the two. -/
def writeToStackStep (ctx : StateMachineContext) (queue : CommandQueue) :
    Checked CommandQueue := do
  let stackPtr := ctx.processor.registers.stackPointer
  let valueToPush ← resolveInstructionParameterUnsigned ctx.ldParams.source ctx.processor false
  let msbValue : U8 := (valueToPush >>> 8).setWidth 8
  let lsbValue : U8 := (valueToPush &&& 0xFF).setWidth 8
  let stackPtr := stackPtr - 1
  let queue := cqWriteReg16 queue .SP stackPtr
  let queue := cqHaltCycle queue
  let queue := cqWriteMemory queue stackPtr msbValue
  let stackPtr := stackPtr - 1
  let queue := cqWriteReg16 queue .SP stackPtr
  let queue := cqHaltCycle queue
  let queue := cqWriteMemory queue stackPtr lsbValue
  .ok (cqHaltCycle queue)

/-- One byte to memory, and the pointer moved after it. -/
def writeToMemoryStep (ctx : StateMachineContext) (queue : CommandQueue) :
    Checked CommandQueue := do
  let memoryAddr ← resolveInstructionParameterUnsigned ctx.ldParams.dest ctx.processor true
  let memoryValue ← resolveInstructionParameterUnsigned ctx.ldParams.source ctx.processor false
  let queue := cqWriteMemory queue memoryAddr (memoryValue.setWidth 8)
  let queue ←
    if postLoadImpactsDst ctx.ldParams.postLoadOperation then dstPostLoadStep ctx queue
    else .ok queue
  .ok (cqHaltCycle queue)

/-- Two bytes to memory, the low one first. -/
def writeDoubleToMemoryStep (ctx : StateMachineContext) (queue : CommandQueue) :
    Checked CommandQueue := do
  let memAddr ← resolveInstructionParameterUnsigned ctx.ldParams.dest ctx.processor true
  let value ← resolveInstructionParameterUnsigned ctx.ldParams.source ctx.processor false
  let lsb : U8 := (value &&& 0xFF).setWidth 8
  let msb : U8 := (value >>> 8).setWidth 8
  let queue := cqWriteMemory queue memAddr lsb
  let queue := cqHaltCycle queue
  let queue := cqWriteMemory queue (memAddr + 1) msb
  .ok (cqHaltCycle queue)

/-- The write half starts with the choice of what is written to. -/
def writeCycleStartStep (ctx : StateMachineContext) (queue : CommandQueue) :
    Checked CommandQueue := do
  let writeToStack ← isStackOp ctx.ldParams.dest
  let writeToMemory := ctx.ldParams.dest.pointer
  let writeDoubleToMemory := ctx.ldParams.dest.pointer && paramHoldsDouble ctx.ldParams.source
  let offsettedSpCopy := ctx.ldParams.postLoadOperation = .signedPayloadSum
  if writeToStack then writeToStackStep ctx queue
  else if writeDoubleToMemory then writeDoubleToMemoryStep ctx queue
  else if writeToMemory then writeToMemoryStep ctx queue
  else if offsettedSpCopy then offsettedSpCopyStep ctx queue
  else registerWriteStep ctx queue

/-- The loop of `decodeOperandStep`, with `count` operand bytes left from the given one. -/
def decodeOperandBytes (ctx : StateMachineContext) : Nat → Nat → CommandQueue → CommandQueue
  | 0, _, queue => queue
  | count + 1, decodingNthByte, queue =>
    let offset : U8 :=
      BitVec.ofNat 8 ((ctx.instruction.byteLength.toNat - decodingNthByte - 2) * 8)
    let nextIrValue : U8 :=
      ((ctx.instruction.originalMachineCode >>> offset.toNat) &&& 0xFF).setWidth 8
    let queue := cqWritePc queue
      (ctx.processor.registers.programCounter + BitVec.ofNat 16 (decodingNthByte + 2))
    let queue := cqWriteIr queue nextIrValue
    let queue := cqHaltCycle queue
    decodeOperandBytes ctx count (decodingNthByte + 1) queue

/-- The operand bytes are brought into IR one by one, and a byte at an address in them costs another
cycle. -/
def decodeOperandStep (ctx : StateMachineContext) (queue : CommandQueue) :
    Checked CommandQueue :=
  let queue := decodeOperandBytes ctx (ctx.instruction.byteLength.toNat - 1) 0 queue
  let queue := if ctx.ldParams.source.pointer then cqHaltCycle queue else queue
  writeCycleStartStep ctx queue

/-- A pop moves SP up twice, a cycle for each byte. -/
def readFromStackStep (ctx : StateMachineContext) (queue : CommandQueue) :
    Checked CommandQueue := do
  let formerSpValue ← registersReadRegisterValue ctx.processor.registers (.sixteenBit .SP)
  let queue := cqWriteReg16 queue .SP (formerSpValue + 1)
  let queue := cqHaltCycle queue
  let queue := cqWriteReg16 queue .SP (formerSpValue + 2)
  let queue := cqHaltCycle queue
  writeCycleStartStep ctx queue

/-- Moves the pointer of the source while the byte is read. -/
def srcPostLoadStep (ctx : StateMachineContext) (queue : CommandQueue) :
    Checked CommandQueue := do
  assertThat (ctx.ldParams.source.type = .register16)
  let value ← resolveInstructionParameterUnsigned ctx.ldParams.source ctx.processor true
  let newValue := value + postLoadModifier ctx.ldParams.postLoadOperation
  let r ← ctx.ldParams.source.value.asRegister16
  let queue := cqWriteReg16 queue r newValue
  let queue := cqHaltCycle queue
  writeCycleStartStep ctx queue

/-- A read of memory is the end of a cycle; one from the stack or through a moving pointer has a
step of its own. -/
def fetchMemoryStep (ctx : StateMachineContext) (queue : CommandQueue) :
    Checked CommandQueue := do
  let readFromStack ← isStackOp ctx.ldParams.source
  let hasSrcPostLoad := postLoadImpactsSrc ctx.ldParams.postLoadOperation
  if readFromStack then readFromStackStep ctx queue
  else if hasSrcPostLoad then srcPostLoadStep ctx queue
  else
    let queue := cqHaltCycle queue
    let queue :=
      if ctx.ldParams.dest.type = .uint16 ∧ ¬ ctx.ldParams.dest.pointer then cqHaltCycle queue
      else queue
    writeCycleStartStep ctx queue

/-- The fetch half: operand bytes, a read of memory, or nothing to fetch. -/
def fetchCycleStartStep (ctx : StateMachineContext) (queue : CommandQueue) :
    Checked CommandQueue :=
  let hasParamWritten := ctx.instruction.byteLength > 1
  let fetchesFromMemory := ctx.ldParams.source.pointer ∨ ctx.ldParams.dest.type = .uint16 ∨
    ctx.ldParams.dest.type = .uint8
  if hasParamWritten then decodeOperandStep ctx queue
  else if fetchesFromMemory then fetchMemoryStep ctx queue
  else writeCycleStartStep ctx queue

def parseLoad (queue : CommandQueue) (processor : Processor) (instruction : Instruction) :
    Checked CommandQueue := do
  let ldParams ← instruction.loadParams
  fetchCycleStartStep ⟨processor, instruction, ldParams⟩ queue

/-! ## The commands of every load -/

/-- The commands that fetch bytes one by one, the first from the address before `pc + 1`. -/
def fetchCommands (pc : U16) : List U8 → CommandQueue
  | [] => []
  | b :: bs => writePc (pc + 1) :: writeIr b :: haltCycle :: fetchCommands (pc + 1) bs

/-- The commands that move HL beside a load of A. -/
def stepCommands (s : Sm83.State) (p : Sm83.Pointer) : CommandQueue :=
  match p with
  | .BC | .DE => []
  | .HLInc | .HLDec => [writeReg16 (register16Of .HL) (s.pair .HL + p.step)]

/-- The commands of a load after its bytes are fetched. -/
def loadCommands (s : Sm83.State) (n : U8) (nn : U16) : Sm83.Load → CommandQueue
  | .regReg d r => [writeReg8 (register8Of d) (s.reg r)]
  | .regInd d => [haltCycle, writeReg8 (register8Of d) (s.mem (s.pair .HL))]
  | .indReg r => [writeMemory (s.pair .HL) (s.reg r), haltCycle]
  | .regImm d => [writeReg8 (register8Of d) n]
  | .indImm => [writeMemory (s.pair .HL) n, haltCycle]
  | .ptrA p => writeMemory (s.pair p.pair) (s.reg .A) :: (stepCommands s p ++ [haltCycle])
  | .aPtr p => stepCommands s p ++ [haltCycle, writeReg8 (register8Of .A) (s.mem (s.pair p.pair))]
  | .highImmA => [writeMemory (Sm83.highAddress n) (s.reg .A), haltCycle]
  | .aHighImm => [haltCycle, writeReg8 (register8Of .A) (s.mem (Sm83.highAddress n))]
  | .highCA => [writeMemory (Sm83.highAddress (s.reg .C)) (s.reg .A), haltCycle]
  | .aHighC => [haltCycle, writeReg8 (register8Of .A) (s.mem (Sm83.highAddress (s.reg .C)))]
  | .absA => [writeMemory nn (s.reg .A), haltCycle]
  | .aAbs => [haltCycle, writeReg8 (register8Of .A) (s.mem nn)]
  | .absSP => [writeMemory nn (Sm83.lo s.sp), haltCycle,
      writeMemory (nn + 1) (Sm83.hi s.sp), haltCycle]
  | .pairImm p => [writeReg16 (register16Of p) nn]
  | .push p => [writeReg16 (register16Of .SP) (s.sp - 1), haltCycle,
      writeMemory (s.sp - 1) (Sm83.hi (s.stackPair p)),
      writeReg16 (register16Of .SP) (s.sp - 1 - 1), haltCycle,
      writeMemory (s.sp - 1 - 1) (Sm83.lo (s.stackPair p)), haltCycle]
  | .pop p => [writeReg16 (register16Of .SP) (s.sp + 1), haltCycle,
      writeReg16 (register16Of .SP) (s.sp + 2), haltCycle,
      writeReg16 (stackRegister16Of p) (Sm83.word (s.mem (s.sp + 1)) (s.mem s.sp))]
  | .hlSpOffset =>
    let carry : Bool := 256 ≤ (Sm83.lo s.sp).toNat + n.toNat
    [writeReg8 (register8Of .L) (Sm83.lo s.sp + n), writeFlag .Z 0, writeFlag .N 0,
      writeFlag .H (boolByte (16 ≤ (Sm83.lo s.sp).toNat % 16 + n.toNat % 16)),
      writeFlag .C (boolByte carry), haltCycle,
      writeReg8 (register8Of .H) (Sm83.hi s.sp + boolByte carry)]
  | .spHL => [writeReg16 (register16Of .SP) (s.pair .HL), haltCycle]

section Stack

variable (r : Sm83.Reg8) (n : U8) (nn : U16) (q : Register16)

@[simp] theorem isStackOp_registerParam : isStackOp (registerParam r) = .ok false := rfl
@[simp] theorem isStackOp_highRegisterParam : isStackOp (highRegisterParam r) = .ok false := rfl
@[simp] theorem isStackOp_byteParam : isStackOp (byteParam n) = .ok false := rfl
@[simp] theorem isStackOp_highParam : isStackOp (highParam n) = .ok false := rfl
@[simp] theorem isStackOp_wordParam : isStackOp (wordParam nn) = .ok false := rfl
@[simp] theorem isStackOp_addressParam : isStackOp (addressParam nn) = .ok false := rfl
@[simp] theorem isStackOp_pairParam : isStackOp (pairParam q) = .ok false := by
  simp [isStackOp, Param.isRegister16]
@[simp] theorem isStackOp_pointerParam : isStackOp (pointerParam q) = .ok (q = .SP) := by
  simp [isStackOp, Param.isRegister16]

end Stack

section Write

variable (ctx : StateMachineContext) (queue : CommandQueue)

/-- A load of a byte into a register is one write. -/
theorem writeCycleStart_register (d : Sm83.Reg8) (v : U8)
    (hd : ctx.ldParams.dest = registerParam d)
    (hs : isStackOp ctx.ldParams.source = .ok false)
    (hv : resolveInstructionParameterUnsigned ctx.ldParams.source ctx.processor false =
      .ok (v.setWidth 16))
    (hp : postLoadImpactsDst ctx.ldParams.postLoadOperation = false)
    (hn : ctx.ldParams.postLoadOperation ≠ .signedPayloadSum) :
    writeCycleStartStep ctx queue = .ok (queue ++ [writeReg8 (register8Of d) v]) := by
  simp [writeCycleStartStep, registerWriteStep, hd, hs, hv, hp, hn, cqWriteReg8, enqueue]

/-- A load of a word into a pair is one write. -/
theorem writeCycleStart_pair (r : Register16) (v : U16)
    (hd : ctx.ldParams.dest = pairParam r)
    (hs : isStackOp ctx.ldParams.source = .ok false)
    (hv : resolveInstructionParameterUnsigned ctx.ldParams.source ctx.processor false = .ok v)
    (hp : ctx.ldParams.postLoadOperation = .nop) (ht : ctx.ldParams.source.type = .uint16) :
    writeCycleStartStep ctx queue = .ok (queue ++ [writeReg16 r v]) := by
  simp [writeCycleStartStep, registerWriteStep, hd, hs, hv, hp, ht, postLoadImpactsDst,
    cqWriteReg16, enqueue]

/-- A pair written from a pair takes one cycle more. -/
theorem writeCycleStart_pairPair (r r' : Register16) (v : U16)
    (hd : ctx.ldParams.dest = pairParam r) (hr : ctx.ldParams.source = pairParam r')
    (hv : registersReadRegisterValue ctx.processor.registers (.sixteenBit r') = .ok v)
    (hp : ctx.ldParams.postLoadOperation = .nop) :
    writeCycleStartStep ctx queue = .ok (queue ++ [writeReg16 r v, haltCycle]) := by
  simp [writeCycleStartStep, registerWriteStep, hd, hr, hv, hp, postLoadImpactsDst,
    cqWriteReg16, cqHaltCycle, enqueue]

/-- A store of a byte is one write and the end of a cycle. -/
theorem writeCycleStart_memory (a : U16) (v : U8)
    (hd : ctx.ldParams.dest.pointer = true)
    (hs : isStackOp ctx.ldParams.dest = .ok false)
    (ha : resolveInstructionParameterUnsigned ctx.ldParams.dest ctx.processor true = .ok a)
    (hv : resolveInstructionParameterUnsigned ctx.ldParams.source ctx.processor false =
      .ok (v.setWidth 16))
    (hw : paramHoldsDouble ctx.ldParams.source = false)
    (hp : ctx.ldParams.postLoadOperation = .nop) :
    writeCycleStartStep ctx queue = .ok (queue ++ [writeMemory a v, haltCycle]) := by
  simp [writeCycleStartStep, writeToMemoryStep, hd, hs, ha, hv, hw, hp, postLoadImpactsDst,
    cqWriteMemory, cqHaltCycle, enqueue]

/-- HL steps in the cycle in which its byte is written. -/
theorem writeCycleStart_step (v : U8)
    (hd : ctx.ldParams.dest = pointerParam .HL)
    (hv : resolveInstructionParameterUnsigned ctx.ldParams.source ctx.processor false =
      .ok (v.setWidth 16))
    (hw : paramHoldsDouble ctx.ldParams.source = false)
    (hp : postLoadImpactsDst ctx.ldParams.postLoadOperation = true)
    (hn : ctx.ldParams.postLoadOperation ≠ .nop) :
    let hl := ctx.processor.abs.pair .HL
    writeCycleStartStep ctx queue = .ok (queue ++ [writeMemory hl v,
      writeReg16 .HL (hl + postLoadModifier ctx.ldParams.postLoadOperation), haltCycle]) := by
  simp [writeCycleStartStep, writeToMemoryStep, dstPostLoadStep, hd, hv, hw, hp, hn,
    cqWriteMemory, cqWriteReg16, cqHaltCycle, enqueue]

theorem writeCycleStart_double (a v : U16) (r : Register16)
    (hd : ctx.ldParams.dest = addressParam a) (hr : ctx.ldParams.source = pairParam r)
    (hv : registersReadRegisterValue ctx.processor.registers (.sixteenBit r) = .ok v) :
    writeCycleStartStep ctx queue = .ok (queue ++ [writeMemory a (Sm83.lo v), haltCycle,
      writeMemory (a + 1) (Sm83.hi v), haltCycle]) := by
  have hl := setWidth_and_low v
  simp only [writeCycleStartStep, hd, hr, isStackOp_addressParam, addressParam_pointer,
    paramHoldsDouble, pairParam_pointer, pairParam_type, ok_bind, writeDoubleToMemoryStep,
    resolve_addressParam, resolve_pairParam, hv, hl]
  simp [cqWriteMemory, cqHaltCycle, enqueue, Sm83.hi]

/-- The commands of a push, whatever the pair holds. -/
theorem writeCycleStart_push (v : U16) (r : Register16)
    (hd : ctx.ldParams.dest = pointerParam .SP) (hr : ctx.ldParams.source = pairParam r)
    (hv : registersReadRegisterValue ctx.processor.registers (.sixteenBit r) = .ok v) :
    let sp := ctx.processor.abs.sp
    writeCycleStartStep ctx queue = .ok (queue ++ [writeReg16 .SP (sp - 1), haltCycle,
      writeMemory (sp - 1) (Sm83.hi v), writeReg16 .SP (sp - 1 - 1), haltCycle,
      writeMemory (sp - 1 - 1) (Sm83.lo v), haltCycle]) := by
  have hl := setWidth_and_low v
  simp only [writeCycleStartStep, hd, hr, isStackOp_pointerParam, ok_bind, writeToStackStep,
    resolve_pairParam, hv, hl]
  simp [cqWriteMemory, cqHaltCycle, cqWriteReg16, enqueue, Sm83.hi]

/-- The pair gets the two bytes that were at SP before it moved. -/
theorem writeCycleStart_pop (v : U16) (r : Register16)
    (hd : ctx.ldParams.dest = pairParam r) (hr : ctx.ldParams.source = pointerParam .SP)
    (hv : memoryRead16 ctx.processor.memory ctx.processor.abs.sp = .ok v)
    (hp : ctx.ldParams.postLoadOperation = .incrementIndirectSource) :
    writeCycleStartStep ctx queue = .ok (queue ++ [writeReg16 r v]) := by
  simp [writeCycleStartStep, registerWriteStep, hd, hr, hv, hp, postLoadImpactsDst,
    cqWriteReg16, enqueue]

/-- The carry and the half carry, as comparisons of sums without the checked addition. -/
theorem offsettedSpCopyStep_eq (n : U8)
    (hn : ctx.instruction.originalMachineCode &&& 0xFF = n.setWidth 32) :
    let lsb := Sm83.lo ctx.processor.abs.sp
    let carry : Bool := 256 ≤ lsb.toNat + n.toNat
    offsettedSpCopyStep ctx queue = .ok (queue ++ [writeReg8 .L (lsb + n), writeFlag .Z 0,
      writeFlag .N 0, writeFlag .H (boolByte (16 ≤ lsb.toNat % 16 + n.toNat % 16)),
      writeFlag .C (boolByte carry), haltCycle,
      writeReg8 .H (Sm83.hi ctx.processor.abs.sp + boolByte carry)]) := by
  have hh : (((Sm83.lo ctx.processor.abs.sp).setWidth 32 &&& 0x0F) +
      (n.setWidth 32 &&& 0x0F)) &&& 0x10 = 0x10 ↔
      16 ≤ (Sm83.lo ctx.processor.abs.sp).toNat % 16 + n.toNat % 16 := by
    have h := nibble_add ((Sm83.lo ctx.processor.abs.sp).setWidth 32) (n.setWidth 32) 0 (by decide)
    simpa [BitVec.toNat_setWidth] using h
  have hs : ((Sm83.lo ctx.processor.abs.sp).setWidth 32 + n.setWidth 32).setWidth 8 =
      Sm83.lo ctx.processor.abs.sp + n := by
    apply BitVec.eq_of_toNat_eq
    simp
  have hl := setWidth_and_low ctx.processor.abs.sp
  have hn8 : (n.setWidth 32).toNat = n.toNat := BitVec.toNat_setWidth_of_le (by decide)
  simp only [offsettedSpCopyStep, hn, abs_stackPointer, hl, ckdAdd, hs, hh, hn8]
  simp [cqWriteReg8, cqWriteFlag, cqHaltCycle, enqueue, Sm83.hi]

theorem writeCycleStart_spCopy
    (hd : ctx.ldParams.dest = pairParam .HL)
    (hp : ctx.ldParams.postLoadOperation = .signedPayloadSum) :
    writeCycleStartStep ctx queue = offsettedSpCopyStep ctx queue := by
  simp [writeCycleStartStep, hd, hp]

/-- The second byte of a POP from the last address is read past the end of the memory. -/
theorem writeCycleStart_pop_last (r : Register16)
    (hd : ctx.ldParams.dest = pairParam r) (hr : ctx.ldParams.source = pointerParam .SP)
    (hv : ctx.processor.abs.sp = 0xFFFF)
    (hp : ctx.ldParams.postLoadOperation = .incrementIndirectSource) :
    writeCycleStartStep ctx queue = .error .assertFailed := by
  have h := memoryRead16_last ctx.processor.memory
  rw [← hv] at h
  simp [writeCycleStartStep, registerWriteStep, hd, hr, hp, postLoadImpactsDst, h]

end Write

section Fetch

variable (ctx : StateMachineContext) (queue : CommandQueue)

theorem fetchCycleStart_plain (hl : ctx.instruction.byteLength = 1)
    (hs : ctx.ldParams.source.pointer = false)
    (hd : ctx.ldParams.dest.type = .register8 ∨ ctx.ldParams.dest.type = .register16) :
    fetchCycleStartStep ctx queue = writeCycleStartStep ctx queue := by
  rcases hd with hd | hd <;> simp [fetchCycleStartStep, hl, hs, hd]

theorem fetchCycleStart_pointer (hl : ctx.instruction.byteLength = 1)
    (hp : ctx.ldParams.source.pointer = true)
    (hs : isStackOp ctx.ldParams.source = .ok false)
    (hn : postLoadImpactsSrc ctx.ldParams.postLoadOperation = false)
    (hd : ctx.ldParams.dest.type = .register8) :
    fetchCycleStartStep ctx queue = writeCycleStartStep ctx (queue ++ [haltCycle]) := by
  simp [fetchCycleStartStep, fetchMemoryStep, hl, hp, hs, hn, hd, cqHaltCycle, enqueue]

theorem fetchCycleStart_step (hl : ctx.instruction.byteLength = 1)
    (hs : ctx.ldParams.source = pointerParam .HL)
    (hn : postLoadImpactsSrc ctx.ldParams.postLoadOperation = true) :
    fetchCycleStartStep ctx queue = writeCycleStartStep ctx (queue ++ [writeReg16 .HL
      (ctx.processor.abs.pair .HL + postLoadModifier ctx.ldParams.postLoadOperation),
      haltCycle]) := by
  simp [fetchCycleStartStep, fetchMemoryStep, srcPostLoadStep, hl, hs, hn, cqHaltCycle,
    cqWriteReg16, enqueue]

theorem fetchCycleStart_pop (hl : ctx.instruction.byteLength = 1)
    (hs : ctx.ldParams.source = pointerParam .SP) :
    let sp := ctx.processor.abs.sp
    fetchCycleStartStep ctx queue = writeCycleStartStep ctx (queue ++
      [writeReg16 .SP (sp + 1), haltCycle, writeReg16 .SP (sp + 2), haltCycle]) := by
  simp [fetchCycleStartStep, fetchMemoryStep, readFromStackStep, hl, hs, cqHaltCycle,
    cqWriteReg16, enqueue]

/-- The operand byte that the loop shifts out of the machine code in round `k`. -/
def operandByte (k : Nat) : U8 :=
  ((ctx.instruction.originalMachineCode >>>
    (BitVec.ofNat 8 ((ctx.instruction.byteLength.toNat - k - 2) * 8)).toNat) &&& 0xFF).setWidth 8

theorem decodeOperandBytes_eq (count k : Nat) :
    decodeOperandBytes ctx count k queue = queue ++
      fetchCommands (ctx.processor.abs.pc + BitVec.ofNat 16 (k + 1))
        ((List.range' k count).map (operandByte ctx)) := by
  induction count generalizing k queue with
  | zero => simp [decodeOperandBytes, fetchCommands]
  | succ count ih =>
    rw [decodeOperandBytes, ih, List.range'_succ, List.map_cons, fetchCommands, add_ofNat_succ]
    simp [cqWritePc, cqWriteIr, cqHaltCycle, enqueue, operandByte]

/-- An instruction with operands fetches all of them before anything else. -/
theorem fetchCycleStart_operands (hl : 1 < ctx.instruction.byteLength) (bytes : List U8)
    (hb : (List.range' 0 (ctx.instruction.byteLength.toNat - 1)).map (operandByte ctx) = bytes) :
    fetchCycleStartStep ctx queue = writeCycleStartStep ctx (queue ++
      fetchCommands (ctx.processor.abs.pc + 1) bytes ++
      if ctx.ldParams.source.pointer then [haltCycle] else []) := by
  simp only [fetchCycleStartStep, gt_iff_lt, hl, if_true, decodeOperandStep,
    decodeOperandBytes_eq, hb]
  split <;> simp [cqHaltCycle, enqueue]

end Fetch

/-- The bytes after the opcode. -/
def operandBytes (l : Nat) (b₁ b₂ : U8) : List U8 := [b₁, b₂].take (l - 1)

/-- The loop finds the operand of an instruction of two bytes. -/
theorem operandByte_two (ctx : StateMachineContext) (b₀ b₁ b₂ : U8)
    (hl : ctx.instruction.byteLength = 2)
    (hm : ctx.instruction.originalMachineCode = machineCode b₀ b₁ b₂ 2) :
    (List.range' 0 (ctx.instruction.byteLength.toNat - 1)).map (operandByte ctx) =
      operandBytes 2 b₁ b₂ := by
  have h₁ : operandByte ctx 0 = b₁ := by
    rw [operandByte, hl, hm]
    change ((machineCode b₀ b₁ b₂ 2 >>> 0) &&& 0xFF).setWidth 8 = b₁
    rw [BitVec.ushiftRight_zero, machineCode_low_two]
  rw [hl]
  change [operandByte ctx 0] = [b₁]
  rw [h₁]

/-- The loop finds both operands of an instruction of three bytes, in their order. -/
theorem operandByte_three (ctx : StateMachineContext) (b₀ b₁ b₂ : U8)
    (hl : ctx.instruction.byteLength = 3)
    (hm : ctx.instruction.originalMachineCode = machineCode b₀ b₁ b₂ 3) :
    (List.range' 0 (ctx.instruction.byteLength.toNat - 1)).map (operandByte ctx) =
      operandBytes 3 b₁ b₂ := by
  have h₁ : operandByte ctx 0 = b₁ := by
    rw [operandByte, hl, hm]
    exact machineCode_middle_three b₀ b₁ b₂
  have h₂ : operandByte ctx 1 = b₂ := by
    rw [operandByte, hl, hm]
    change ((machineCode b₀ b₁ b₂ 3 >>> 0) &&& 0xFF).setWidth 8 = b₂
    rw [BitVec.ushiftRight_zero, machineCode_low_three]
  rw [hl]
  change [operandByte ctx 0, operandByte ctx 1] = [b₁, b₂]
  rw [h₁, h₂]

/-- The context in which the token of a load is parsed. -/
def loadContext (l : Sm83.Load) (p : Processor) (b₁ b₂ : U8) : StateMachineContext :=
  ⟨p, token (.load l) b₁ b₂, loadParamsOf b₁ (Sm83.word b₂ b₁) l⟩

theorem parseLoad_token (l : Sm83.Load) (p : Processor) (queue : CommandQueue) (b₁ b₂ : U8) :
    parseLoad queue p (token (.load l) b₁ b₂) =
      fetchCycleStartStep (loadContext l p b₁ b₂) queue := by
  have h : (token (.load l) b₁ b₂).loadParams =
      .ok (loadParamsOf b₁ (Sm83.word b₂ b₁) l) := rfl
  rw [parseLoad, h, ok_bind, loadContext]

/-- The commands between the last byte of a load and the cycle that writes: its source is read. -/
def readCommands (s : Sm83.State) : Sm83.Load → CommandQueue
  | .regInd _ | .aHighImm | .aHighC | .aAbs => [haltCycle]
  | .aPtr p => stepCommands s p ++ [haltCycle]
  | .pop _ => [writeReg16 (register16Of .SP) (s.sp + 1), haltCycle,
      writeReg16 (register16Of .SP) (s.sp + 2), haltCycle]
  | _ => []

/-- The rest of the commands of a load. -/
def writeCommands (s : Sm83.State) (n : U8) (nn : U16) (l : Sm83.Load) : CommandQueue :=
  (loadCommands s n nn l).drop (readCommands s l).length

/-- The commands of the two halves are those of the load. -/
theorem readCommands_append_writeCommands (s : Sm83.State) (n : U8) (nn : U16) (l : Sm83.Load) :
    readCommands s l ++ writeCommands s n nn l = loadCommands s n nn l := by
  cases l with
  | aPtr p => cases p <;> rfl
  | _ => rfl

section Phases

variable (l : Sm83.Load) (p : Processor) (queue : CommandQueue) (b₁ b₂ : U8)

/-- The bytes after the opcode are fetched, and the source is read. -/
theorem fetchCycle_load :
    fetchCycleStartStep (loadContext l p b₁ b₂) queue =
      writeCycleStartStep (loadContext l p b₁ b₂) (queue ++
        (fetchCommands (p.abs.pc + 1) (operandBytes l.length b₁ b₂) ++ readCommands p.abs l)) := by
  have h₂ (h : l.length = 2) := operandByte_two (loadContext l p b₁ b₂) l.byte b₁ b₂
    (congrArg (BitVec.ofNat 8) h) (congrArg (machineCode l.byte b₁ b₂) h)
  have h₃ (h : l.length = 3) := operandByte_three (loadContext l p b₁ b₂) l.byte b₁ b₂
    (congrArg (BitVec.ofNat 8) h) (congrArg (machineCode l.byte b₁ b₂) h)
  cases l with
  | regReg | highCA =>
    rw [fetchCycleStart_plain _ _ rfl rfl (.inl rfl)]
    exact congrArg _ (List.append_nil queue).symm
  | indReg | push | spHL =>
    rw [fetchCycleStart_plain _ _ rfl rfl (.inr rfl)]
    exact congrArg _ (List.append_nil queue).symm
  | ptrA q =>
    cases q with
    | BC | DE | HLInc | HLDec =>
      rw [fetchCycleStart_plain _ _ rfl rfl (.inr rfl)]
      exact congrArg _ (List.append_nil queue).symm
  | regInd | aHighC => exact fetchCycleStart_pointer _ _ rfl rfl rfl rfl rfl
  | aPtr q =>
    cases q with
    | BC | DE => exact fetchCycleStart_pointer _ _ rfl rfl rfl rfl rfl
    | HLInc | HLDec => exact fetchCycleStart_step _ _ rfl rfl rfl
  | pop => exact fetchCycleStart_pop _ _ rfl rfl
  | regImm | indImm | highImmA | aHighImm | hlSpOffset =>
    rw [fetchCycleStart_operands _ _ (by decide : (1 : U8) < 2) _ (h₂ rfl), List.append_assoc]
    rfl
  | absA | aAbs | absSP | pairImm =>
    rw [fetchCycleStart_operands _ _ (by decide : (1 : U8) < 3) _ (h₃ rfl), List.append_assoc]
    rfl

/-- The word of a POP is read in the cycle that writes it. -/
theorem writeCycle_load (hp : ∀ q, l = .pop q → p.abs.sp ≠ 0xFFFF) :
    writeCycleStartStep (loadContext l p b₁ b₂) queue =
      .ok (queue ++ writeCommands p.abs b₁ (Sm83.word b₂ b₁) l) := by
  cases l with
  | regReg d r =>
    exact writeCycleStart_register _ _ d _ rfl rfl (resolve_registerParam p false r) rfl nofun
  | regInd d =>
    exact writeCycleStart_register _ _ d _ rfl rfl (resolve_pointerParam_HL p false) rfl nofun
  | indReg r =>
    exact writeCycleStart_memory _ _ _ _ rfl rfl (resolve_pointerParam_HL p true)
      (resolve_registerParam p false r) rfl rfl
  | regImm d =>
    exact writeCycleStart_register _ _ d _ rfl rfl (resolve_byteParam p false b₁) rfl nofun
  | indImm =>
    exact writeCycleStart_memory _ _ _ _ rfl rfl (resolve_pointerParam_HL p true)
      (resolve_byteParam p false b₁) rfl rfl
  | ptrA q =>
    cases q with
    | BC =>
      exact writeCycleStart_memory _ _ _ _ rfl rfl (resolve_pointerParam p true .BC)
        (resolve_registerParam p false .A) rfl rfl
    | DE =>
      exact writeCycleStart_memory _ _ _ _ rfl rfl (resolve_pointerParam p true .DE)
        (resolve_registerParam p false .A) rfl rfl
    | HLInc | HLDec =>
      exact writeCycleStart_step _ _ _ rfl (resolve_registerParam p false .A) rfl rfl nofun
  | aPtr q =>
    cases q with
    | BC =>
      exact writeCycleStart_register _ _ .A _ rfl rfl (resolve_pointerParam p false .BC) rfl nofun
    | DE =>
      exact writeCycleStart_register _ _ .A _ rfl rfl (resolve_pointerParam p false .DE) rfl nofun
    | HLInc | HLDec =>
      exact writeCycleStart_register _ _ .A _ rfl rfl (resolve_pointerParam_HL p false) rfl nofun
  | highImmA =>
    exact writeCycleStart_memory _ _ _ _ rfl rfl (resolve_highParam p true b₁)
      (resolve_registerParam p false .A) rfl rfl
  | aHighImm =>
    exact writeCycleStart_register _ _ .A _ rfl rfl (resolve_highParam p false b₁) rfl nofun
  | highCA =>
    exact writeCycleStart_memory _ _ _ _ rfl rfl (resolve_highRegisterParam p true .C)
      (resolve_registerParam p false .A) rfl rfl
  | aHighC =>
    exact writeCycleStart_register _ _ .A _ rfl rfl (resolve_highRegisterParam p false .C)
      rfl nofun
  | absA =>
    exact writeCycleStart_memory _ _ _ _ rfl rfl (resolve_addressParam p true _)
      (resolve_registerParam p false .A) rfl rfl
  | aAbs =>
    exact writeCycleStart_register _ _ .A _ rfl rfl (resolve_addressParam p false _) rfl nofun
  | absSP => exact writeCycleStart_double _ _ _ _ .SP rfl rfl (read_SP p)
  | pairImm q => exact writeCycleStart_pair _ _ _ _ rfl rfl (resolve_wordParam p false _) rfl rfl
  | push q => exact writeCycleStart_push _ _ _ _ rfl rfl (read_stackRegister16Of p q)
  | pop q =>
    exact writeCycleStart_pop _ _ _ _ rfl rfl (memoryRead16_of_ne _ _ (hp q rfl)) rfl
  | hlSpOffset =>
    rw [writeCycleStart_spCopy _ _ rfl rfl]
    exact offsettedSpCopyStep_eq _ _ b₁ (machineCode_and_two Sm83.Load.hlSpOffset.byte b₁ b₂)
  | spHL => exact writeCycleStart_pairPair _ _ _ _ _ rfl rfl (read_HL p) rfl

/-- What a load emits once its opcode is fetched, except for a POP at the last address. -/
theorem parseLoad_eq (hp : ∀ q, l = .pop q → p.abs.sp ≠ 0xFFFF) :
    parseLoad queue p (token (.load l) b₁ b₂) = .ok (queue ++
      fetchCommands (p.abs.pc + 1) (operandBytes l.length b₁ b₂) ++
      loadCommands p.abs b₁ (Sm83.word b₂ b₁) l) := by
  rw [parseLoad_token, fetchCycle_load, writeCycle_load l p _ b₁ b₂ hp,
    ← readCommands_append_writeCommands]
  simp only [List.append_assoc]

end Phases

/-- With SP at the last address a pop would read a byte past it, and the assertion stops it. -/
theorem parseLoad_pop_last (q : Sm83.StackPair) (p : Processor) (queue : CommandQueue)
    (b₁ b₂ : U8) (hp : p.abs.sp = 0xFFFF) :
    parseLoad queue p (token (.load (.pop q)) b₁ b₂) = .error .assertFailed := by
  rw [parseLoad_token, fetchCycleStart_pop (loadContext (.pop q) p b₁ b₂) queue rfl rfl]
  exact writeCycleStart_pop_last (loadContext (.pop q) p b₁ b₂) _ (stackRegister16Of q)
    rfl rfl hp rfl

end Beemu
