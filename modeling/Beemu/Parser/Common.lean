import Beemu.Machine

/-!
# Shared parsing steps

Resolving a parameter reads the registers and the memory of the processor as they are while
the instruction is parsed; nothing that the queue will write is seen.
-/

namespace Beemu

open MachineCommand

/-- The `beemu_cq` functions each put one command behind the queue. -/
def cqHaltCycle (queue : CommandQueue) : CommandQueue := enqueue queue haltCycle

def cqWriteReg8 (queue : CommandQueue) (reg : Register8) (value : U8) : CommandQueue :=
  enqueue queue (writeReg8 reg value)

def cqWriteReg16 (queue : CommandQueue) (reg : Register16) (value : U16) : CommandQueue :=
  enqueue queue (writeReg16 reg value)

def cqWriteFlag (queue : CommandQueue) (flag : Flag) (value : U8) : CommandQueue :=
  enqueue queue (writeFlag flag value)

def cqWriteIr (queue : CommandQueue) (instructionOpcode : U8) : CommandQueue :=
  enqueue queue (writeIr instructionOpcode)

def cqWritePc (queue : CommandQueue) (programCounterValue : U16) : CommandQueue :=
  enqueue queue (writePc programCounterValue)

def cqWriteMemory (queue : CommandQueue) (memoryAddress : U16) (memoryValue : U8) :
    CommandQueue :=
  enqueue queue (writeMemory memoryAddress memoryValue)

/-- A truth value as a flag is given it. -/
def boolByte (b : Bool) : U8 := if b then 1 else 0

/-- A flag that is written is 0 or 1. -/
theorem toNat_boolByte (b : Bool) : (boolByte b).toNat = b.toNat := by cases b <;> rfl

@[simp] theorem boolByte_ne_zero (b : Bool) : (boolByte b != 0#8) = b := by cases b <;> rfl

/-- A byte of memory, widened by the return type of the resolving function. -/
def dereference (processor : Processor) (memAddr : U16) : Checked U16 := do
  let memValue ← memoryRead processor.memory memAddr.toNat
  .ok (memValue.setWidth 16)

/-- The value of a parameter. A pointer is followed, or with `skipDeref` gives its address; a signed
parameter is read as 0. -/
def resolveInstructionParameterUnsigned (parameter : Param) (processor : Processor)
    (skipDeref : Bool) : Checked U16 :=
  match parameter.type with
  | .register8 => do
    let register ← parameter.value.asRegister8
    let registerValue ← registersReadRegisterValue processor.registers (.eightBit register)
    if ¬ parameter.pointer then .ok registerValue
    else
      let memAddr := registerValue + 0xff00
      if skipDeref then .ok memAddr else dereference processor memAddr
  | .register16 => do
    let register ← parameter.value.asRegister16
    let registerValue ← registersReadRegisterValue processor.registers (.sixteenBit register)
    if ¬ parameter.pointer ∨ skipDeref then .ok registerValue
    else dereference processor registerValue
  | .uint8 => do
    let value ← parameter.value.asValue
    if ¬ parameter.pointer then .ok value
    else
      let memAddr := value + 0xFF00
      if skipDeref then .ok memAddr else dereference processor memAddr
  | .uint16 => do
    let memAddr ← parameter.value.asValue
    if ¬ parameter.pointer then .ok memAddr
    else if skipDeref then .ok memAddr
    else dereference processor memAddr
  | .int8 => .ok 0

/-- `BeemuParamTuple` -/
structure ParamTuple where
  higher : Param
  lower : Param

/-- The two halves of a pair or of a word. Any other parameter is taken for both of its halves. -/
def explodeBeemuParam (param : Param) (processor : Processor) : Checked ParamTuple :=
  let registerMap : List (Register8 × Register8) := [(.B, .C), (.D, .E), (.H, .L)]
  let part (type : ParamType) (value : ParamValue) : Param := ⟨param.pointer, type, value⟩
  match param.type with
  | .register16 => do
    let register ← param.value.asRegister16
    if register = .SP then
      let sp := processor.registers.stackPointer
      .ok ⟨part .uint8 (.value ((sp &&& 0xFF00) >>> 8)), part .uint8 (.value (sp &&& 0x00FF))⟩
    else do
      let registers ← subscript registerMap register.index
      .ok ⟨part .register8 (.register8 registers.1), part .register8 (.register8 registers.2)⟩
  | .uint16 => do
    let value ← param.value.asValue
    .ok ⟨part .uint8 (.register8Byte (((value &&& 0xFF00) >>> 8).setWidth 8)),
      part .uint8 (.register8Byte ((value &&& 0x00FF).setWidth 8))⟩
  | type => .ok ⟨part type param.value, part type param.value⟩

/-- The byte at HL, with a halt for the cycle in which it is read. -/
def dereferenceHlWithHalt (queue : CommandQueue) (processor : Processor) :
    Checked (CommandQueue × U8) := do
  let addr ← registersReadRegisterValue processor.registers (.sixteenBit .HL)
  let memValue ← memoryRead processor.memory addr.toNat
  .ok (cqHaltCycle queue, memValue)

/-- Whether a parameter stands for a word and not for a byte. -/
def paramHoldsDouble (param : Param) : Bool :=
  if param.pointer then false
  else param.type = .uint16 ∨ param.type = .register16

/-- A halt where an operand is in memory. -/
def haltIf (b : Bool) : CommandQueue := if b then [haltCycle] else []

/-- The write of a byte to an operand. -/
def writeOperand (s : Sm83.State) (o : Sm83.Operand8) (v : U8) : MachineCommand :=
  match o with
  | .reg r => writeReg8 (register8Of r) v
  | .indHL => writeMemory (s.pair .HL) v

/-! ## Nibbles of an `int` -/

/-- A byte as an `int` is the same number. -/
theorem toNat_widen (v : U8) : ((v.setWidth 16).setWidth 32).toNat = v.toNat := by
  rw [BitVec.toNat_setWidth_of_le (by decide), BitVec.toNat_setWidth_of_le (by decide)]

/-- The mask 0x10 asks for bit 4. -/
theorem bit4_iff (v : U32) : v &&& 0x10 = 0x10 ↔ v.toNat / 16 % 2 = 1 := by
  have h : v &&& 0x10 = 0x10 ↔ v.getLsbD 4 = true := by
    constructor
    · intro h
      have hb := congrArg (·.getLsbD 4) h
      simpa using hb
    · intro h
      ext i hi
      interval_cases i <;> simp_all
  rw [h, BitVec.getLsbD, Nat.testBit_eq_decide_div_mod_eq]
  simp

/-- The mask 0x0F leaves the number modulo 16. -/
theorem toNat_nibble (v : U32) : (v &&& 0x0F).toNat = v.toNat % 16 := by
  rw [BitVec.toNat_and]
  exact Nat.and_two_pow_sub_one_eq_mod _ 4

/-- Bit 4 of a sum of two nibbles and a carry is their carry. -/
theorem nibble_add (x y c : U32) (hc : c.toNat ≤ 1) :
    ((x &&& 0x0F) + (y &&& 0x0F) + c) &&& 0x10 = 0x10 ↔
      16 ≤ x.toNat % 16 + y.toNat % 16 + c.toNat := by
  rw [bit4_iff, BitVec.toNat_add, BitVec.toNat_add, toNat_nibble, toNat_nibble]
  omega

/-- Bit 4 of a difference of two nibbles and a borrow is their borrow. -/
theorem nibble_sub (x y c : U32) (hc : c.toNat ≤ 1) :
    ((x &&& 0x0F) - (y &&& 0x0F) - c) &&& 0x10 = 0x10 ↔
      x.toNat % 16 < y.toNat % 16 + c.toNat := by
  rw [bit4_iff, BitVec.toNat_sub, BitVec.toNat_sub, toNat_nibble, toNat_nibble]
  omega

/-- The half carry of an addition as the code asks for it. -/
theorem nibble_add_zero (x y : U32) :
    ((x &&& 0x0F) + (y &&& 0x0F)) &&& 0x10 = 0x10 ↔ 16 ≤ x.toNat % 16 + y.toNat % 16 := by
  simpa using nibble_add x y 0 (by decide)

/-- The half carry of a subtraction is a borrow out of the low nibble. -/
theorem nibble_sub_zero (x y : U32) :
    ((x &&& 0x0F) - (y &&& 0x0F)) &&& 0x10 = 0x10 ↔ x.toNat % 16 < y.toNat % 16 := by
  simpa using nibble_sub x y 0 (by decide)

section Resolve

variable (p : Processor) (skip : Bool)

/-- Every address that a pointer can hold is inside the memory. -/
@[simp] theorem dereference_eq (a : U16) :
    dereference p a = .ok ((p.abs.mem a).setWidth 16) := by
  simp [dereference]

/-- What the parameters of the tokenizer resolve to, kind by kind: a register to its value. -/
@[simp] theorem resolve_registerParam (r : Sm83.Reg8) :
    resolveInstructionParameterUnsigned (registerParam r) p skip =
      .ok ((p.abs.reg r).setWidth 16) := by
  simp [resolveInstructionParameterUnsigned, registerParam]

/-- A pointer in a byte register is one into the high page. -/
@[simp] theorem resolve_highRegisterParam (r : Sm83.Reg8) :
    resolveInstructionParameterUnsigned (highRegisterParam r) p skip =
      if skip then .ok ((p.abs.reg r).setWidth 16 + 0xFF00)
      else .ok ((p.abs.mem ((p.abs.reg r).setWidth 16 + 0xFF00)).setWidth 16) := by
  simp [resolveInstructionParameterUnsigned, highRegisterParam]

@[simp] theorem resolve_byteParam (n : U8) :
    resolveInstructionParameterUnsigned (byteParam n) p skip = .ok (n.setWidth 16) := by
  simp [resolveInstructionParameterUnsigned, byteParam]

/-- A pointer that is a byte is one into the high page as well. -/
@[simp] theorem resolve_highParam (n : U8) :
    resolveInstructionParameterUnsigned (highParam n) p skip =
      if skip then .ok (n.setWidth 16 + 0xFF00)
      else .ok ((p.abs.mem (n.setWidth 16 + 0xFF00)).setWidth 16) := by
  simp [resolveInstructionParameterUnsigned, highParam]

@[simp] theorem resolve_wordParam (nn : U16) :
    resolveInstructionParameterUnsigned (wordParam nn) p skip = .ok nn := by
  simp [resolveInstructionParameterUnsigned, wordParam]

@[simp] theorem resolve_addressParam (nn : U16) :
    resolveInstructionParameterUnsigned (addressParam nn) p skip =
      if skip then .ok nn else .ok ((p.abs.mem nn).setWidth 16) := by
  simp [resolveInstructionParameterUnsigned, addressParam]

/-- A signed parameter has no unsigned value. -/
@[simp] theorem resolve_offsetParam (e : U8) :
    resolveInstructionParameterUnsigned (offsetParam e) p skip = .ok 0 := rfl

@[simp] theorem resolve_pairParam (r : Register16) :
    resolveInstructionParameterUnsigned (pairParam r) p skip =
      registersReadRegisterValue p.registers (.sixteenBit r) := by
  simp only [resolveInstructionParameterUnsigned, pairParam, asRegister16_register16, ok_bind]
  cases registersReadRegisterValue p.registers (.sixteenBit r) <;> simp

/-- A pointer in a pair is followed to a byte of memory. -/
@[simp] theorem resolve_pointerParam (q : Sm83.Pair) :
    resolveInstructionParameterUnsigned (pointerParam (register16Of q)) p skip =
      if skip then .ok (p.abs.pair q) else .ok ((p.abs.mem (p.abs.pair q)).setWidth 16) := by
  simp [resolveInstructionParameterUnsigned, pointerParam]

@[simp] theorem resolve_pointerParam_HL :
    resolveInstructionParameterUnsigned (pointerParam .HL) p skip =
      if skip then .ok (p.abs.pair .HL)
      else .ok ((p.abs.mem (p.abs.pair .HL)).setWidth 16) :=
  resolve_pointerParam p skip .HL

@[simp] theorem resolve_pointerParam_SP :
    resolveInstructionParameterUnsigned (pointerParam .SP) p skip =
      if skip then .ok p.abs.sp else .ok ((p.abs.mem p.abs.sp).setWidth 16) :=
  resolve_pointerParam p skip .SP

@[simp] theorem read_HL : registersReadRegisterValue p.registers (.sixteenBit .HL) =
    .ok (p.abs.pair .HL) := read_register16Of p .HL

@[simp] theorem read_SP : registersReadRegisterValue p.registers (.sixteenBit .SP) =
    .ok p.abs.sp := rfl

/-- An 8-bit operand resolves to its value, in memory or not. -/
theorem resolve_operandParam (o : Sm83.Operand8) :
    resolveInstructionParameterUnsigned (operandParam o) p false =
      .ok ((p.abs.operand8 o).setWidth 16) := by
  cases o <;> simp [operandParam, Sm83.State.operand8]

/-- The read of the byte at HL adds one halt to the queue. -/
@[simp] theorem dereferenceHlWithHalt_eq (queue : CommandQueue) :
    dereferenceHlWithHalt queue p = .ok (queue ++ [haltCycle], p.abs.mem (p.abs.pair .HL)) := by
  simp [dereferenceHlWithHalt, cqHaltCycle, enqueue]

/-- A flag is read as 0 or 1. -/
theorem flagsGetFlag_eq (p : Processor) (k : Flag) :
    registersFlagsGetFlag p.registers k = boolByte (p.abs.flag (flagOf k)) := by
  have h : ∀ f : U8, (f >>> k.bit) &&& 1 = boolByte (Sm83.getFlag f (flagOf k)) := by
    cases k <;> decide +kernel
  exact h p.registers.flags

/-- A pair of byte registers falls into its two registers, and SP into two values. -/
theorem explode_BC : explodeBeemuParam (pairParam .BC) p =
    .ok ⟨registerParam .B, registerParam .C⟩ := by
  simp [explodeBeemuParam, pairParam, subscript, registerParam, register8Of, Register16.index]

theorem explode_DE : explodeBeemuParam (pairParam .DE) p =
    .ok ⟨registerParam .D, registerParam .E⟩ := by
  simp [explodeBeemuParam, pairParam, subscript, registerParam, register8Of, Register16.index]

theorem explode_HL : explodeBeemuParam (pairParam .HL) p =
    .ok ⟨registerParam .H, registerParam .L⟩ := by
  simp [explodeBeemuParam, pairParam, subscript, registerParam, register8Of, Register16.index]

theorem explode_SP : explodeBeemuParam (pairParam .SP) p =
    .ok ⟨byteParam (Sm83.hi p.abs.sp), byteParam (Sm83.lo p.abs.sp)⟩ := by
  have hl : p.abs.sp &&& 0x00FF = (Sm83.lo p.abs.sp).setWidth 16 := by
    ext i hi
    interval_cases i <;> simp [Sm83.lo]
  have hh : (p.abs.sp &&& 0xFF00) >>> 8 = (Sm83.hi p.abs.sp).setWidth 16 := by
    ext i hi
    interval_cases i <;> simp [Sm83.hi]
  simp only [explodeBeemuParam, pairParam, asRegister16_register16, ok_bind, abs_stackPointer,
    hl, hh]
  rfl

/-- The halves of a pair resolve to the two bytes of its value. -/
theorem explode_pairParam (q : Sm83.Pair) :
    ∃ t, explodeBeemuParam (pairParam (register16Of q)) p = .ok t ∧
      resolveInstructionParameterUnsigned t.lower p true =
        .ok ((Sm83.lo (p.abs.pair q)).setWidth 16) ∧
      resolveInstructionParameterUnsigned t.higher p true =
        .ok ((Sm83.hi (p.abs.pair q)).setWidth 16) := by
  cases q with
  | BC => exact ⟨_, explode_BC p, by simp [Sm83.State.pair]⟩
  | DE => exact ⟨_, explode_DE p, by simp [Sm83.State.pair]⟩
  | HL => exact ⟨_, explode_HL p, by simp [Sm83.State.pair]⟩
  | SP => exact ⟨_, explode_SP p, by simp [Sm83.State.pair]⟩

end Resolve

end Beemu
