import Beemu.Tokenizer.Load

/-!
# Tokenizing arithmatic and logic
-/

namespace Beemu

/-- `BEEMU_TOKENIZER_ARITHMATIC_SUBTYPE` -/
inductive ArithmaticSubtype where
  | invalidArithmatic
  | mainlineArithmatic
  | incDec
  | direct
  | weird
  | arithmatic16Add16
  | arithmatic16IncDec
  | arithmatic16SpSignedSum
  deriving DecidableEq, Repr

/-- The number of a subtype is its place in the tables. -/
def ArithmaticSubtype.index : ArithmaticSubtype → Nat
  | .invalidArithmatic => 0
  | .mainlineArithmatic => 1
  | .incDec => 2
  | .direct => 3
  | .weird => 4
  | .arithmatic16Add16 => 5
  | .arithmatic16IncDec => 6
  | .arithmatic16SpSignedSum => 7

/-- A mask for each subtype, and what it leaves of an opcode of that subtype. -/
def arithmaticTests : List SubtypeDifferentiator :=
  [⟨0xFF, 0xFF⟩,
   ⟨0xC0, 0x80⟩,
   ⟨0xC6, 0x04⟩,
   ⟨0xC7, 0xC6⟩,
   ⟨0xC7, 0x07⟩,
   ⟨0xCF, 0x09⟩,
   ⟨0xC7, 0x03⟩,
   ⟨0xFF, 0xE8⟩]

/-- The number of an arithmatic subtype, 0 for an opcode that is not arithmatic. -/
def arithmaticSubtypeIfArithmatic (opcode : U8) : Checked Nat :=
  instructionSubtypeIfOfInstructionType opcode arithmaticTests
    ArithmaticSubtype.invalidArithmatic.index ArithmaticSubtype.arithmatic16SpSignedSum.index

/-- Every rule stores all three fields of the arithmatic parameters. -/
def Instruction.setArithmatic (instruction : Instruction) (operation : Operation)
    (destOrFirst sourceOrSecond : Param) : Instruction :=
  { instruction with params := .arithmatic ⟨operation, destOrFirst, sourceOrSecond⟩ }

/-- The operations on A in the order of bits 3 to 5. -/
def mainlineSuboperations : List Operation := [.add, .adc, .sub, .sbc, .and, .xor, .or, .cp]

/-- An operation on A and a register or the byte at HL, read from the machine code. -/
def determineMainlineArithmaticParams (instruction : Instruction) (_opcode : U8) :
    Checked Instruction := do
  let srcRegisterDifferentiator : U8 := (instruction.originalMachineCode &&& 0b111).setWidth 8
  let suboperationDifferentiator : U8 :=
    ((instruction.originalMachineCode &&& 0b00111000) >>> 3).setWidth 8
  let operation ← subscript mainlineSuboperations suboperationDifferentiator.toNat
  let source ← tokenizeRegisterParamWithIndex srcRegisterDifferentiator
  let dest ← tokenizeRegisterParamWithIndex 7
  .ok (instruction.setArithmatic operation dest source)

/-- INC and DEC of a byte, told apart by bit 0, with 1 as the source. -/
def determineArithmaticIncDecParams (instruction : Instruction) (opcode : U8) :
    Checked Instruction := do
  let operationSelector := opcode &&& 0x1
  let registerSelector := (opcode &&& 0b00111000) >>> 3
  let dest ← tokenizeRegisterParamWithIndex registerSelector
  let incrementParam : Param := ⟨false, .uint8, .value 1⟩
  let operation ← subscript [Operation.inc, .dec] operationSelector.toNat
  .ok (instruction.setArithmatic operation dest incrementParam)

/-- An operation on A and the operand. -/
def determineArithmaticDirectParams (instruction : Instruction) (opcode : U8) :
    Checked Instruction := do
  let suboperationSelector := (opcode &&& 0b00111000) >>> 3
  let operation ← subscript mainlineSuboperations suboperationSelector.toNat
  let dest ← tokenizeRegisterParamWithIndex 7
  let directParam : Param :=
    ⟨false, .uint8, .value ((instruction.originalMachineCode &&& 0xFF).setWidth 16)⟩
  .ok (instruction.setArithmatic operation dest directParam)

/-- DAA, CPL, SCF and CCF, with A on both sides. -/
def determineArithmaticWeirdParams (instruction : Instruction) (opcode : U8) :
    Checked Instruction := do
  let operationSelector := (opcode &&& 0b11000) >>> 3
  let operation ← subscript [Operation.daa, .cpl, .scf, .ccf] operationSelector.toNat
  let dest ← tokenizeRegisterParamWithIndex 7
  let source ← tokenizeRegisterParamWithIndex 7
  .ok (instruction.setArithmatic operation dest source)

/-- `ADD HL, rr`, with the pair in bits 4 and 5. -/
def determineArithmatic16Add16Params (instruction : Instruction) (opcode : U8) :
    Checked Instruction := do
  let registerSelector := (opcode &&& 0x30) >>> 4
  let source ← tokenizeRegister16ParamWithIndex registerSelector false .SP
  let dest ← tokenizeRegister16ParamWithIndex 2 false .SP
  .ok (instruction.setArithmatic .add dest source)

/-- INC and DEC of a pair, told apart by bit 3. -/
def determineArithmatic16IncDecParams (instruction : Instruction) (opcode : U8) :
    Checked Instruction := do
  let operationSelector := (opcode &&& 0x08) >>> 3
  let registerSelector := (opcode &&& 0x30) >>> 4
  let operation ← subscript [Operation.inc, .dec] operationSelector.toNat
  let dest ← tokenizeRegister16ParamWithIndex registerSelector false .SP
  .ok (instruction.setArithmatic operation dest ⟨false, .uint8, .value 1⟩)

/-- `ADD SP, e`, with the signed operand as the source. -/
def determineArithmatic16SpSignedSumParams (instruction : Instruction) (opcode : U8) :
    Checked Instruction := do
  assertThat (opcode = 0xE8)
  let dest ← tokenizeRegister16ParamWithIndex 3 false .SP
  .ok (instruction.setArithmatic .add dest
    (parseSigned8ParamFromInstruction instruction.originalMachineCode))

/-- The null entry is the one of an opcode that is not arithmatic. -/
def arithmaticDetermineParamDispatch : List (Option (Instruction → U8 → Checked Instruction)) :=
  [none,
   some determineMainlineArithmaticParams,
   some determineArithmaticIncDecParams,
   some determineArithmaticDirectParams,
   some determineArithmaticWeirdParams,
   some determineArithmatic16Add16Params,
   some determineArithmatic16IncDecParams,
   some determineArithmatic16SpSignedSumParams]

/-- The function of the subtype stores all of the parameters. -/
def determineArithmaticParams (instruction : Instruction) (opcode : U8)
    (arithmaticSubtype : Nat) : Checked Instruction :=
  dispatch arithmaticDetermineParamDispatch arithmaticSubtype instruction opcode

/-- One cycle, and more for an operand in memory, a second byte or a word. -/
def determineArithmaticClockCycle (instruction : Instruction) (operationSubtype : Nat) :
    Checked Instruction := do
  let p ← instruction.arithmaticParams
  let duration : U8 := 1
  let duration := if p.sourceOrSecond.pointer then duration + 1 else duration
  let duration :=
    if p.destOrFirst.pointer ∧ operationSubtype = ArithmaticSubtype.incDec.index then 3
    else duration
  let duration := if instruction.byteLength = 2 then duration + 1 else duration
  let duration :=
    if operationSubtype = ArithmaticSubtype.arithmatic16IncDec.index then duration + 1
    else duration
  let duration :=
    if operationSubtype = ArithmaticSubtype.arithmatic16Add16.index then duration + 1
    else duration
  let duration :=
    if operationSubtype = ArithmaticSubtype.arithmatic16SpSignedSum.index then 4 else duration
  .ok { instruction with durationInClockCycles := duration }

/-- The type, the parameters and the duration of an arithmatic instruction. -/
def tokenizeArithmatic (instruction : Instruction) (opcode : U8) : Checked Instruction := do
  let arithmaticSubtype ← arithmaticSubtypeIfArithmatic opcode
  assertThat (arithmaticSubtype ≠ ArithmaticSubtype.invalidArithmatic.index)
  let instruction ←
    determineArithmaticParams { instruction with type := .arithmatic } opcode arithmaticSubtype
  determineArithmaticClockCycle instruction arithmaticSubtype

theorem setWidth_low_byte (omc : U32) :
    (omc &&& 0xFF).setWidth 16 = ((omc &&& 0xFF).setWidth 8).setWidth 16 := by
  ext i hi
  interval_cases i <;> simp

/-- The main block reads its fields from the machine code, which there is the opcode alone. -/
theorem tokenizeArithmatic_eq (a : Sm83.Arith) (omc : U32)
    (h : a.length = 1 → omc = a.byte.setWidth 32) :
    tokenizeArithmatic (.fresh omc (BitVec.ofNat 8 a.length)) a.byte =
      .ok { Instruction.fresh omc (BitVec.ofNat 8 a.length) with
        type := .arithmatic
        durationInClockCycles := arithmaticCycles a
        params := .arithmatic (arithmaticParamsOf ((omc &&& 0xFF).setWidth 8) a) } := by
  cases a with
  | alu op o =>
    rw [h rfl]
    cases o with
    | reg r => cases op <;> cases r <;> rfl
    | indHL => cases op <;> rfl
  | aluImm op =>
    rw [arithmaticParamsOf, byteParam, ← setWidth_low_byte]
    cases op <;> rfl
  | inc8 o | dec8 o =>
    cases o with
    | reg r => cases r <;> rfl
    | indHL => rfl
  | incPair p | decPair p | addHL p => cases p <;> rfl
  | addSP =>
    rw [arithmaticParamsOf, ← parseSigned8ParamFromInstruction_eq]
    rfl
  | daa | cpl | scf | ccf => rfl

end Beemu
