import Beemu.Tokenizer.Common

/-!
# Tokenizing loads

A load subtype is found by masks, and picks the function that fills in the parameters from a
table that is parallel to the subtypes.
-/

namespace Beemu

/-- What is done to a pointer beside the load itself. For PUSH and POP the pointer is SP. -/
def tokenizeLoadPostLoadOp (opcode : U8) : PostLoadOperation :=
  if opcode = 0x22 then .incrementIndirectDestination
  else if opcode ∈ [0xC5#8, 0xD5, 0xE5, 0xF5, 0x32] then .decrementIndirectDestination
  else if opcode ∈ [0xC1#8, 0xD1, 0xE1, 0xF1, 0x2A] then .incrementIndirectSource
  else if opcode = 0x3A then .decrementIndirectSource
  else if opcode = 0xF8 then .signedPayloadSum
  else .nop

/-- `BEEMU_TOKENIZER_LOAD_SUBTYPE` -/
inductive LoadSubtype where
  | load8InvalidLoad
  | load8Mainline
  | load8D8
  | load8M16
  | load8Ldh
  | load8Addr16
  | load16SpAddr16
  | load16Imm16
  | load16PushPop
  | load16SpHl
  deriving DecidableEq, Repr

/-- The number of a subtype is its place in the tables. -/
def LoadSubtype.index : LoadSubtype → Nat
  | .load8InvalidLoad => 0
  | .load8Mainline => 1
  | .load8D8 => 2
  | .load8M16 => 3
  | .load8Ldh => 4
  | .load8Addr16 => 5
  | .load16SpAddr16 => 6
  | .load16Imm16 => 7
  | .load16PushPop => 8
  | .load16SpHl => 9

/-- A mask for each subtype, and what it leaves of an opcode of that subtype. -/
def loadTests : List SubtypeDifferentiator :=
  [⟨0xFF, 0xFF⟩,
   ⟨0b11000000, 0b01000000⟩,
   ⟨0b11000111, 0b0110⟩,
   ⟨0b11000111, 0b00000010⟩,
   ⟨0b11101101, 0b11100000⟩,
   ⟨0b11101111, 0b11101010⟩,
   ⟨0b11111111, 0b00001000⟩,
   ⟨0b11001111, 0b00000001⟩,
   ⟨0b11001011, 0b11000001⟩,
   ⟨0b11111110, 0b11111000⟩]

/-- The number of a load subtype, 0 for an opcode that is no load. -/
def loadSubtypeIfLoad (opcode : U8) : Checked Nat :=
  instructionSubtypeIfOfInstructionType opcode loadTests LoadSubtype.load8InvalidLoad.index
    LoadSubtype.load16SpHl.index

/-- Store the source and the destination. -/
def Instruction.setSourceDest (instruction : Instruction) (source dest : Param) :
    Checked Instruction := do
  let p ← instruction.loadParams
  .ok { instruction with params := .load { p with source := source, dest := dest } }

/-- `LD r, r'`, with the destination in bits 3 to 5 of the opcode and the source in bits 0 to 2. -/
def determineLoadMainspaceParams (instruction : Instruction) (opcode : U8) :
    Checked Instruction := do
  let destinationDifferentiator := (opcode >>> 3) &&& 0b111
  let srcDifferentiator := opcode &&& 0b111
  let dest ← tokenizeRegisterParamWithIndex destinationDifferentiator
  let source ← tokenizeRegisterParamWithIndex srcDifferentiator
  instruction.setSourceDest source dest

/-- `LD r, n`, with the destination in bits 3 to 5 and the operand as the source. -/
def determineLoadD8Params (instruction : Instruction) (opcode : U8) : Checked Instruction := do
  let destinationDifferentiatior := (opcode >>> 3) &&& 0b111
  let dest ← tokenizeRegisterParamWithIndex destinationDifferentiatior
  let sourceDirectValue : U8 := (instruction.originalMachineCode &&& 0xFF).setWidth 8
  instruction.setSourceDest ⟨false, .uint8, .value (sourceDirectValue.setWidth 16)⟩ dest

/-- `LD A, (rr)` and `LD (rr), A`, with the pair in the high nibble. -/
def determineLoadM16Params (instruction : Instruction) (opcode : U8) : Checked Instruction := do
  let register16Param ← tokenizeRegister16ParamWithIndex ((opcode >>> 4) &&& 0xF) true .HL
  let register8Param : Param := ⟨false, .register8, .register8 .A⟩
  -- For 0xn2 the memory is the destination, for 0xnA it is the source.
  if opcode &&& 0xF = 0xA then instruction.setSourceDest register16Param register8Param
  else instruction.setSourceDest register8Param register16Param

/-- The loads of A from the high page and to it. Bits 4 and 1 of the opcode choose from a table for
each side. -/
def determineLoadLdhParams (instruction : Instruction) (opcode : U8) : Checked Instruction := do
  let registerA : Param := ⟨false, .register8, .register8 .A⟩
  let registerCPtr : Param := ⟨true, .register8, .register8 .C⟩
  let memoryAddressOperand : U8 := (instruction.originalMachineCode &&& 0xFF).setWidth 8
  let memoryAddressValue : Param := ⟨true, .uint8, .value (memoryAddressOperand.setWidth 16)⟩
  let lsb5 := (0x10 &&& opcode) >>> 4
  let lsb2 := (0x02 &&& opcode) >>> 1
  let differentiatior := (lsb5 <<< 1) ||| lsb2
  let dest ← subscript [memoryAddressValue, registerCPtr, registerA, registerA]
    differentiatior.toNat
  let source ← subscript [registerA, registerA, memoryAddressValue, registerCPtr]
    differentiatior.toNat
  instruction.setSourceDest source dest

/-- `LD A, (nn)` and `LD (nn), A`. -/
def determineLoadAddr16Params (instruction : Instruction) (opcode : U8) :
    Checked Instruction := do
  assertThat (opcode = 0xFA ∨ opcode = 0xEA)
  let registerA : Param := ⟨false, .register8, .register8 .A⟩
  let memoryAddr := beemuParseUint16Operand instruction.originalMachineCode
  let ptr : Param := ⟨true, .uint16, .value memoryAddr⟩
  if opcode = 0xEA then instruction.setSourceDest registerA ptr
  else instruction.setSourceDest ptr registerA

/-- `LD (nn), SP`. -/
def determineLoad16Addr16SpParams (instruction : Instruction) (opcode : U8) :
    Checked Instruction := do
  assertThat (opcode = 0x08)
  let source ← tokenizeRegister16ParamWithIndex 3 false .SP
  instruction.setSourceDest source
    ⟨true, .uint16, .value (beemuParseUint16Operand instruction.originalMachineCode)⟩

/-- `LD rr, nn`, with the pair in bits 4 and 5. -/
def determineLoad16Imm16Params (instruction : Instruction) (opcode : U8) :
    Checked Instruction := do
  assertThat (opcode = 0x01 ∨ opcode = 0x11 ∨ opcode = 0x21 ∨ opcode = 0x31)
  let registerDifferentiator := (opcode &&& 0x30) >>> 4
  let dest ← tokenizeRegister16ParamWithIndex registerDifferentiator false .SP
  instruction.setSourceDest
    ⟨false, .uint16, .value (beemuParseUint16Operand instruction.originalMachineCode)⟩ dest

/-- PUSH and POP, told apart by bit 2, with the stack on one side and the pair on the other. -/
def determineLoadPushParams (instruction : Instruction) (opcode : U8) : Checked Instruction := do
  let registerSelector := (opcode &&& 0b110000) >>> 4
  let operationSelector := (opcode &&& 0b100) >>> 2
  let stackPointer ← tokenizeRegister16ParamWithIndex 3 true .SP
  let r16TargetOrSource ← tokenizeRegister16ParamWithIndex registerSelector false .AF
  if operationSelector ≠ 0 then instruction.setSourceDest r16TargetOrSource stackPointer
  else instruction.setSourceDest stackPointer r16TargetOrSource

/-- `LD SP, HL`, and `LD HL, SP + e` with the offset as an auxiliary parameter. -/
def determineLoad16SpHlBlockParams (instruction : Instruction) (opcode : U8) :
    Checked Instruction := do
  let stackPointerRaw ← tokenizeRegister16ParamWithIndex 3 false .SP
  let hlRegister ← tokenizeRegister16ParamWithIndex 2 false .SP
  let operationSelector := opcode &&& 0x01
  if operationSelector ≠ 0 then instruction.setSourceDest hlRegister stackPointerRaw
  else do
    let instruction ← instruction.setSourceDest stackPointerRaw hlRegister
    let p ← instruction.loadParams
    let aux := parseSigned8ParamFromInstruction instruction.originalMachineCode
    .ok { instruction with params := .load { p with auxPostLoadParameter := aux } }

/-- The null entry is the one of an opcode that is no load. -/
def loadDetermineParamDispatch : List (Option (Instruction → U8 → Checked Instruction)) :=
  [none,
   some determineLoadMainspaceParams,
   some determineLoadD8Params,
   some determineLoadM16Params,
   some determineLoadLdhParams,
   some determineLoadAddr16Params,
   some determineLoad16Addr16SpParams,
   some determineLoad16Imm16Params,
   some determineLoadPushParams,
   some determineLoad16SpHlBlockParams]

/-- The operation beside the load is stored first, and the rest by the function of the subtype. -/
def determineLoadParams (instruction : Instruction) (opcode : U8) (loadSubtype : Nat) :
    Checked Instruction := do
  let p ← instruction.loadParams
  let p := { p with postLoadOperation := tokenizeLoadPostLoadOp opcode }
  let instruction := { instruction with params := .load p }
  dispatch loadDetermineParamDispatch loadSubtype instruction opcode

/-- The cycles are counted from the parameters that were stored, and not from the opcode. -/
def determineLoadClockCycles (instruction : Instruction) : Checked Instruction := do
  let p ← instruction.loadParams
  let hasPostLoad := p.postLoadOperation ≠ .nop
  let duration : U8 := 1
  let duration :=
    if p.source.type = .uint8 ∨ p.dest.type = .uint8 then duration + 1
    else if p.source.type = .uint16 ∨ p.dest.type = .uint16 then duration + 2
    else duration
  let duration := if p.dest.pointer then duration + 1 else duration
  let duration := if p.source.pointer then duration + 1 else duration
  let duration :=
    if p.source.pointer ∧ p.dest.type = .register16 ∧ hasPostLoad then 3
    else if p.dest.pointer ∧ p.source.type = .register16 ∧ hasPostLoad then 4
    else duration
  let destIsSp ← p.dest.isRegister16 .SP
  let sourceIsSp ← p.source.isRegister16 .SP
  let duration :=
    if (destIsSp ∧ ¬ p.dest.pointer) ∨ (sourceIsSp ∧ ¬ p.source.pointer) then
      if p.source.type ≠ .uint16 then duration + 1 else duration
    else duration
  let duration :=
    if p.postLoadOperation = .signedPayloadSum then duration + 1 else duration
  let duration :=
    if p.dest.type = .uint16 ∧ p.dest.pointer ∧ sourceIsSp then 5 else duration
  .ok { instruction with durationInClockCycles := duration }

/-- The type, the parameters and the duration of a load. -/
def tokenizeLoad (instruction : Instruction) (opcode : U8) : Checked Instruction := do
  let loadSubtype ← loadSubtypeIfLoad opcode
  assertThat (loadSubtype ≠ LoadSubtype.load8InvalidLoad.index)
  let instruction ← determineLoadParams { instruction with type := .load } opcode loadSubtype
  determineLoadClockCycles instruction

/-- An instruction that holds its machine code and nothing else. -/
def Instruction.fresh (omc : U32) (byteLength : U8) : Instruction :=
  { Instruction.zeroed with originalMachineCode := omc, byteLength := byteLength }

/-- A load gets the parameters and the cycles of its opcode, whatever its operands are. -/
theorem tokenizeLoad_eq (l : Sm83.Load) (omc : U32) (len : U8) :
    tokenizeLoad (.fresh omc len) l.byte = .ok { Instruction.fresh omc len with
      durationInClockCycles := loadCycles l
      params := .load (loadParamsOf ((omc &&& 0xFF).setWidth 8)
        (beemuParseUint16Operand omc) l) } := by
  cases l with
  | regReg d s => cases d <;> cases s <;> rfl
  | regInd d | indReg d | regImm d => cases d <;> rfl
  | ptrA p | aPtr p | pairImm p | push p | pop p => cases p <;> rfl
  | hlSpOffset =>
    rw [loadParamsOf, ← parseSigned8ParamFromInstruction_eq]
    rfl
  | indImm | highImmA | aHighImm | highCA | aHighC | absA | aAbs | absSP | spHL => rfl

end Beemu
