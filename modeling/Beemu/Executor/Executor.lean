import Beemu.Parser.Common
import Beemu.Sm83.Jump
import Beemu.Tokenizer.Tokenizer

/-!
# Executing a token at once

The other way to run a token: no commands and no cycles, the registers and the memory are
changed in place. Only loads and jumps do anything. A call writes its return address at SP and
then moves SP down, so that SP names the free word below the stack.
-/

namespace Beemu

/-- A value that C holds in a `uint16_t` and returns as an `int`; a pointer is followed to a
byte. -/
def resolveParam (p : Processor) (param : Param) : Checked U32 := do
  let paramValue : U16 ←
    match param.type with
    | .register8 => do
      let r ← param.value.asRegister8
      registersReadRegisterValue p.registers (.eightBit r)
    | .register16 => do
      let r ← param.value.asRegister16
      registersReadRegisterValue p.registers (.sixteenBit r)
    | .uint16 | .uint8 => param.value.asValue
    | .int8 => do
      let v ← param.value.asSigned
      .ok (v.signExtend 16)
  if param.pointer then do
    let v ← memoryRead p.memory paramValue.toNat
    .ok (v.setWidth 32)
  else .ok (paramValue.setWidth 32)

/-- The end of `write_to_param`, where the location is known to be in the memory. -/
def writeToLocation (p : Processor) (writeLocation value : U16) (isEightBitWrite : Bool) :
    Checked Processor := do
  let memory ←
    if isEightBitWrite then memoryWrite p.memory writeLocation.toNat (value.setWidth 8)
    else memoryWrite16 p.memory writeLocation value
  .ok { p with memory := memory }

/-- A write to what a parameter names. The width is the caller's choice where it is a pointer. -/
def writeToParam (p : Processor) (param : Param) (value : U16) (isEightBitWrite : Bool) :
    Checked Processor :=
  if param.type = .register8 ∨ param.type = .register16 then do
    let register ←
      if param.type = .register8 then do
        let r ← param.value.asRegister8
        .ok (Register.eightBit r)
      else do
        let r ← param.value.asRegister16
        .ok (Register.sixteenBit r)
    if param.pointer then do
      let writeLocation ← registersReadRegisterValue p.registers register
      writeToLocation p writeLocation value isEightBitWrite
    else do
      let registers ← registersWriteRegisterValue p.registers register value
      .ok { p with registers := registers }
  else do
    let writeLocation ← param.value.asValue
    writeToLocation p writeLocation value isEightBitWrite

/-- There is no separate type for loads of words: every write to memory is one byte. -/
def executeLoad (p : Processor) (instruction : Instruction) : Checked Processor := do
  let params ← instruction.loadParams
  let loadValue ← resolveParam p params.source
  writeToParam p params.dest (loadValue.setWidth 16) (instruction.type = .load)

def testCondition (registers : Registers) (condition : JumpCondition) : Bool :=
  let zero := registersFlagsGetFlag registers .Z
  let carry := registersFlagsGetFlag registers .C
  match condition with
  | .ifCarry => carry = 1
  | .ifNotCarry => carry = 0
  | .ifZero => zero = 1
  | .ifNotZero => zero = 0
  | .noCondition => true

/-- The value goes to SP as a word, and SP moves down by two after that. -/
def pushStack (p : Processor) (value : U16) : Checked Processor := do
  let currentSp ← registersReadRegisterValue p.registers (.sixteenBit .SP)
  let memory ← memoryWrite16 p.memory currentSp value
  let registers ← registersWriteRegisterValue p.registers (.sixteenBit .SP) (currentSp - 2)
  .ok ⟨registers, memory⟩

/-- SP moves up by two, and the word is read where it is then. -/
def popStack (p : Processor) : Checked (Processor × U16) := do
  let currentSp ← registersReadRegisterValue p.registers (.sixteenBit .SP)
  let registers ← registersWriteRegisterValue p.registers (.sixteenBit .SP) (currentSp + 2)
  let val ← memoryRead16 p.memory (currentSp + 2)
  .ok (⟨registers, p.memory⟩, val)

/-- `execute_jump` after the test of its condition. -/
def takeJump (p : Processor) (params : JumpParams) (addrParam : U32) : Checked Processor := do
  let currentAddress := p.registers.programCounter
  let (p, newAddress) ←
    if params.type = .ret then popStack p
    else if params.isRelative then
      .ok (p, (currentAddress.setWidth 32 + addrParam).setWidth 16)
    else .ok (p, addrParam.setWidth 16)
  let p ← if params.type = .call then pushStack p (currentAddress + 3) else .ok p
  let registers ← registersWriteRegisterValue p.registers (.sixteenBit .PC) newAddress
  .ok { p with registers := registers }

/-- A conditional jump that is not taken leaves everything as it is, the program counter too. -/
def executeJump (p : Processor) (instruction : Instruction) : Checked Processor := do
  let params ← instruction.jumpParams
  let addrParam ← resolveParam p params.param
  if params.isConditional ∧ ¬ testCondition p.registers params.condition then .ok p
  else takeJump p params addrParam

/-- The duration of the instruction is returned. -/
def executeInstruction (p : Processor) (instruction : Instruction) :
    Checked (Processor × U8) := do
  let p ←
    match instruction.type with
    | .load => executeLoad p instruction
    | .arithmatic => .ok p
    | .jump => executeJump p instruction
    | .rotShift | .bitwise | .cpuControl => .ok p
  .ok (p, instruction.durationInClockCycles)

/-- Execute the token of a word. -/
def executeWord (p : Processor) (w : CodeWord) : Checked Processor := do
  let t ← tokenizerTokenize (w.setWidth 32)
  let executed ← executeInstruction p t
  .ok executed.1

theorem executeWord_eq (p q : Processor) (w : CodeWord) (cycles : U8)
    (h : executeInstruction p w.token = .ok (q, cycles)) : executeWord p w = .ok q := by
  rw [executeWord, tokenizerTokenize_eq, ok_bind, h, ok_bind]

/-! ## Parameters -/

theorem setWidth_int (v : U16) : (v.setWidth 32).setWidth 16 = v := by
  rw [BitVec.setWidth_setWidth_of_le v (by decide), BitVec.setWidth_eq]

section Resolve

variable (p : Processor)

@[simp] theorem resolveParam_registerParam (r : Sm83.Reg8) :
    resolveParam p (registerParam r) = .ok (((p.abs.reg r).setWidth 16).setWidth 32) := rfl

@[simp] theorem resolveParam_byteParam (n : U8) :
    resolveParam p (byteParam n) = .ok ((n.setWidth 16).setWidth 32) := rfl

@[simp] theorem resolveParam_wordParam (nn : U16) :
    resolveParam p (wordParam nn) = .ok (nn.setWidth 32) := rfl

@[simp] theorem resolveParam_offsetParam (e : U8) :
    resolveParam p (offsetParam e) = .ok ((e.signExtend 16).setWidth 32) := rfl

theorem resolveParam_pairParam (r : Register16) (v : U16)
    (h : registersReadRegisterValue p.registers (.sixteenBit r) = .ok v) :
    resolveParam p (pairParam r) = .ok (v.setWidth 32) := by
  simp [resolveParam, h]

@[simp] theorem resolveParam_pointerParam (q : Sm83.Pair) :
    resolveParam p (pointerParam (register16Of q)) =
      .ok (((p.abs.mem (p.abs.pair q)).setWidth 16).setWidth 32) := by
  simp [resolveParam]

@[simp] theorem resolveParam_addressParam (nn : U16) :
    resolveParam p (addressParam nn) = .ok (((p.abs.mem nn).setWidth 16).setWidth 32) := by
  simp [resolveParam]

/-- A byte address is taken for an address of its own: nothing is added to it. -/
@[simp] theorem resolveParam_highParam (n : U8) :
    resolveParam p (highParam n) =
      .ok (((p.abs.mem (n.setWidth 16)).setWidth 16).setWidth 32) := by
  simp [resolveParam]

@[simp] theorem resolveParam_highRegisterParam (r : Sm83.Reg8) :
    resolveParam p (highRegisterParam r) =
      .ok (((p.abs.mem ((p.abs.reg r).setWidth 16)).setWidth 16).setWidth 32) := by
  simp [resolveParam]

end Resolve

section Write

variable (p : Processor)

theorem writeToLocation_byte (a v : U16) :
    writeToLocation p a v true = .ok (p.writeMemory a (v.setWidth 8)) := by
  simp [writeToLocation, Processor.writeMemory]

@[simp] theorem writeToParam_registerParam (r : Sm83.Reg8) (v : U16) (b : Bool) :
    writeToParam p (registerParam r) v b = .ok (p.write (.eightBit (register8Of r)) v) := by
  simp [writeToParam, registersWriteRegisterValue]
  rfl

theorem writeToParam_pairParam (r : Register16) (v : U16) (b : Bool) (s : Registers)
    (h : registersWriteRegisterValue p.registers (.sixteenBit r) v = .ok s) :
    writeToParam p (pairParam r) v b = .ok (p.setRegisters s) := by
  simp [writeToParam, h, Processor.setRegisters]

@[simp] theorem writeToParam_pointerParam (q : Sm83.Pair) (v : U16) :
    writeToParam p (pointerParam (register16Of q)) v true =
      .ok (p.writeMemory (p.abs.pair q) (v.setWidth 8)) := by
  simp [writeToParam, writeToLocation_byte]

@[simp] theorem writeToParam_addressParam (nn v : U16) :
    writeToParam p (addressParam nn) v true = .ok (p.writeMemory nn (v.setWidth 8)) := by
  simp [writeToParam, writeToLocation_byte]

@[simp] theorem writeToParam_highParam (n : U8) (v : U16) :
    writeToParam p (highParam n) v true = .ok (p.writeMemory (n.setWidth 16) (v.setWidth 8)) := by
  simp [writeToParam, writeToLocation_byte]

@[simp] theorem writeToParam_highRegisterParam (r : Sm83.Reg8) (v : U16) :
    writeToParam p (highRegisterParam r) v true =
      .ok (p.writeMemory ((p.abs.reg r).setWidth 16) (v.setWidth 8)) := by
  simp [writeToParam, writeToLocation_byte]

end Write

end Beemu
