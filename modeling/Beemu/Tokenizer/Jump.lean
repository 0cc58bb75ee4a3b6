import Beemu.Tokenizer.Load

/-!
# Tokenizing jumps, calls and returns
-/

namespace Beemu

/-- `BEEMU_TOKENIZER_JUMP_SUBTYPE` -/
inductive JumpSubtype where
  | invalidJump
  | relativeUnconditional
  | relativeConditional
  | unconditional
  | conditional
  | retUnconditional
  | retConditional
  | rst
  | callUnconditional
  | callConditional
  | hl
  deriving DecidableEq, Repr

/-- The number of a subtype is its place in the tables. -/
def JumpSubtype.index : JumpSubtype → Nat
  | .invalidJump => 0
  | .relativeUnconditional => 1
  | .relativeConditional => 2
  | .unconditional => 3
  | .conditional => 4
  | .retUnconditional => 5
  | .retConditional => 6
  | .rst => 7
  | .callUnconditional => 8
  | .callConditional => 9
  | .hl => 10

/-- A mask for each subtype, and what it leaves of an opcode of that subtype. -/
def jumpTests : List SubtypeDifferentiator :=
  [⟨0xFF, 0xFF⟩,
   ⟨0xFF, 0x18⟩,
   ⟨0xE7, 0x20⟩,
   ⟨0xFF, 0xC3⟩,
   ⟨0xE7, 0xC2⟩,
   ⟨0xEF, 0xC9⟩,
   ⟨0xE7, 0xC0⟩,
   ⟨0xC7, 0xC7⟩,
   ⟨0xFF, 0xCD⟩,
   ⟨0xE7, 0xC4⟩,
   ⟨0xFF, 0xE9⟩]

/-- The number of a jump subtype, 0 for an opcode that is no jump. -/
def jumpSubtypeIfJump (opcode : U8) : Checked Nat :=
  instructionSubtypeIfOfInstructionType opcode jumpTests JumpSubtype.invalidJump.index
    JumpSubtype.hl.index

/-- The union read as the parameters of a jump. -/
def Instruction.jumpParams (i : Instruction) : Checked JumpParams :=
  match i.params with
  | .jump p => .ok p
  | _ => .error .unionMisread

/-- Every field of the jump parameters is stored, the target last. -/
def parseJumpParams (instruction : Instruction) (opcode : U8) (subtype : JumpType)
    (isConditional isRelative : Bool) (memAddrOverride : Int) : Checked Instruction := do
  let conditionSelector := (opcode &&& 0x18) >>> 3
  let condition ←
    if isConditional then
      subscript [JumpCondition.ifNotZero, .ifZero, .ifNotCarry, .ifCarry] conditionSelector.toNat
    else .ok .noCondition
  let param : Param :=
    if memAddrOverride ≠ -1 then ⟨false, .uint16, .value (BitVec.ofInt 16 memAddrOverride)⟩
    else if isRelative then parseSigned8ParamFromInstruction instruction.originalMachineCode
    else ⟨false, .uint16, .value (beemuParseUint16Operand instruction.originalMachineCode)⟩
  let p : JumpParams := {
    type := subtype
    isConditional := isConditional
    condition := condition
    enableInterrupts := false
    isRelative := isRelative
    param := param }
  .ok { instruction with params := .jump p }

/-- Replace the target that `parseJumpParams` stored. -/
def Instruction.setJumpParam (instruction : Instruction) (param : Param) :
    Checked Instruction := do
  let p ← instruction.jumpParams
  .ok { instruction with params := .jump { p with param := param } }

/-- `JR e`, with the signed operand as its target. -/
def determineJumpRelativeUnconditionalParams (instruction : Instruction) (opcode : U8) :
    Checked Instruction := do
  assertThat (opcode = 0x18)
  parseJumpParams { instruction with durationInClockCycles := 3 } opcode .jump false true (-1)

/-- `JR cc, e`, with the condition in bits 3 and 4. -/
def determineJumpRelativeConditionalParams (instruction : Instruction) (opcode : U8) :
    Checked Instruction := do
  assertThat (opcode = 0x20 ∨ opcode = 0x28 ∨ opcode = 0x30 ∨ opcode = 0x38)
  parseJumpParams { instruction with durationInClockCycles := 3 } opcode .jump true true (-1)

/-- `JP nn`. -/
def determineJumpUnconditionalParams (instruction : Instruction) (opcode : U8) :
    Checked Instruction := do
  assertThat (opcode = 0xC3)
  parseJumpParams { instruction with durationInClockCycles := 4 } opcode .jump false false (-1)

/-- `JP cc, nn`. -/
def determineJumpConditionalParams (instruction : Instruction) (opcode : U8) :
    Checked Instruction := do
  assertThat (opcode = 0xC2 ∨ opcode = 0xD2 ∨ opcode = 0xCA ∨ opcode = 0xDA)
  parseJumpParams { instruction with durationInClockCycles := 4 } opcode .jump true false (-1)

/-- RET, and RETI, which differs in the interrupt field only. The target is what SP points to. -/
def determineJumpRetUnconditionalParams (instruction : Instruction) (opcode : U8) :
    Checked Instruction := do
  assertThat (opcode = 0xC9 ∨ opcode = 0xD9)
  let instruction ←
    parseJumpParams { instruction with durationInClockCycles := 4 } opcode .ret false false 0
  let param ← tokenizeRegister16ParamWithIndex 3 true .SP
  let instruction ← instruction.setJumpParam param
  let p ← instruction.jumpParams
  .ok { instruction with params := .jump { p with enableInterrupts := opcode = 0xD9 } }

/-- `RET cc`. -/
def determineJumpRetConditionalParams (instruction : Instruction) (opcode : U8) :
    Checked Instruction := do
  assertThat (opcode = 0xC0 ∨ opcode = 0xD0 ∨ opcode = 0xC8 ∨ opcode = 0xD8)
  let instruction ←
    parseJumpParams { instruction with durationInClockCycles := 5 } opcode .ret true false 0
  let param ← tokenizeRegister16ParamWithIndex 3 true .SP
  instruction.setJumpParam param

/-- RST, whose address is a field of the opcode times eight. -/
def determineJumpRstParams (instruction : Instruction) (opcode : U8) : Checked Instruction :=
  let jumpAddressesSelector := (opcode &&& 0x38) >>> 3
  let jumpAddress : U16 := jumpAddressesSelector.setWidth 16 * 0x08
  parseJumpParams { instruction with durationInClockCycles := 4 } opcode .rst false false
    jumpAddress.toNat

/-- `CALL nn`. -/
def determineJumpCallUnconditionalParams (instruction : Instruction) (opcode : U8) :
    Checked Instruction := do
  assertThat (opcode = 0xCD)
  parseJumpParams { instruction with durationInClockCycles := 6 } opcode .call false false (-1)

/-- `CALL cc, nn`. -/
def determineJumpCallConditionalParams (instruction : Instruction) (opcode : U8) :
    Checked Instruction := do
  assertThat (opcode = 0xC4 ∨ opcode = 0xCC ∨ opcode = 0xD4 ∨ opcode = 0xDC)
  parseJumpParams { instruction with durationInClockCycles := 6 } opcode .call true false (-1)

/-- `JP (HL)`, whose target is HL itself and not what it points to. -/
def determineJumpHlParams (instruction : Instruction) (opcode : U8) : Checked Instruction := do
  assertThat (opcode = 0xE9)
  let instruction ←
    parseJumpParams { instruction with durationInClockCycles := 1 } opcode .jump false false 0
  let param ← tokenizeRegister16ParamWithIndex 2 false .SP
  instruction.setJumpParam param

/-- The null entry is the one of an opcode that is no jump. -/
def jumpDetermineParamDispatch : List (Option (Instruction → U8 → Checked Instruction)) :=
  [none,
   some determineJumpRelativeUnconditionalParams,
   some determineJumpRelativeConditionalParams,
   some determineJumpUnconditionalParams,
   some determineJumpConditionalParams,
   some determineJumpRetUnconditionalParams,
   some determineJumpRetConditionalParams,
   some determineJumpRstParams,
   some determineJumpCallUnconditionalParams,
   some determineJumpCallConditionalParams,
   some determineJumpHlParams]

/-- The type of a jump; its duration is stored with its parameters. -/
def tokenizeJump (instruction : Instruction) (opcode : U8) : Checked Instruction := do
  let subtype ← jumpSubtypeIfJump opcode
  assertThat (subtype ≠ JumpSubtype.invalidJump.index)
  dispatch jumpDetermineParamDispatch subtype { instruction with type := .jump } opcode

/-- A jump gets the parameters and the cycles of its opcode, whatever its operands are. -/
theorem tokenizeJump_eq (j : Sm83.Jump) (omc : U32) (len : U8) :
    tokenizeJump (.fresh omc len) j.byte = .ok { Instruction.fresh omc len with
      type := .jump
      durationInClockCycles := jumpCycles j
      params := .jump (jumpParamsOf ((omc &&& 0xFF).setWidth 8)
        (beemuParseUint16Operand omc) j) } := by
  cases j with
  | jr =>
    rw [jumpParamsOf, ← parseSigned8ParamFromInstruction_eq]
    rfl
  | jrIf c =>
    rw [jumpParamsOf, ← parseSigned8ParamFromInstruction_eq]
    cases c <;> rfl
  | jpIf c | callIf c | retIf c => cases c <;> rfl
  | rst k =>
    revert k
    exact Sm83.forall_bits3 _ rfl rfl rfl rfl rfl rfl rfl rfl
  | jp | jpHL | call | ret | reti => rfl

end Beemu
