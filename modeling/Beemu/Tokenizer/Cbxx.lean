import Beemu.Tokenizer.Load

/-!
# Tokenizing prefixed instructions and the one-byte rotations

The type and the operation are stored first, into zeroed parameters of that type; the other
parameters follow.
-/

namespace Beemu

/-- The parameters of a rotation before anything is stored in them. -/
def RotShiftParams.zeroed : RotShiftParams := ⟨false, false, .rotate, .left, .zeroed⟩
def BitwiseParams.zeroed : BitwiseParams := ⟨.bit, 0, .zeroed⟩

/-- The union read as the parameters of a rotation. -/
def Instruction.rotShiftParams (i : Instruction) : Checked RotShiftParams :=
  match i.params with
  | .rotShift p => .ok p
  | _ => .error .unionMisread

/-- The operand is in the low three bits of the second byte. -/
def cbTokenizeTarget (instruction : Instruction) : Checked Param :=
  let arithmaticDifferentiator : U8 := (instruction.originalMachineCode &&& 0x00FF).setWidth 8
  tokenizeRegisterParamWithIndex (arithmaticDifferentiator &&& 0x07)

/-- The operation goes by the high nibble of the second byte, but for SRL, which shares its nibble
with SWAP. -/
def cbRotShiftDetermineSubtype (inst : Instruction) : Checked Instruction := do
  let arithmaticDifferentiator : U8 := (inst.originalMachineCode &&& 0x00FF).setWidth 8
  let subtypesBySecondBit : List RotShiftOp := [.rotate, .rotate, .shiftArithmatic, .swap]
  let operation ←
    if arithmaticDifferentiator ≤ 0x3F ∧ arithmaticDifferentiator ≥ 0x38 then .ok .shiftLogical
    else subscript subtypesBySecondBit (arithmaticDifferentiator >>> 4).toNat
  let p := { RotShiftParams.zeroed with operation := operation }
  .ok { inst with type := .rotShift, params := .rotShift p }

/-- Whether it goes through C, the direction and the operand of a rotation or a shift. -/
def cbRotShiftDetermineParams (instruction : Instruction) : Checked Instruction := do
  let p ← instruction.rotShiftParams
  let arithmaticDifferentiator : U8 := (instruction.originalMachineCode &&& 0x00FF).setWidth 8
  let rotshiftDifferentiator := arithmaticDifferentiator >>> 4
  let target ← cbTokenizeTarget instruction
  let p := { p with
    throughCarry := rotshiftDifferentiator = 0x0 ∨ rotshiftDifferentiator = 0x2 ∨
      arithmaticDifferentiator ≥ 0x38
    -- The differentiator is a high nibble below 4, so the right direction is never chosen.
    direction := if rotshiftDifferentiator ≤ 0x8 then .left else .right
    target := target
    setFlagsToZero := instruction.byteLength = 1 }
  .ok { instruction with params := .rotShift p }

/-- The top two bits of the second byte less one: 0 is a BIT, 1 a RES and 2 a SET. -/
def cbBitwiseDetermineSubtype (inst : Instruction) : Checked Instruction := do
  let opDifferentiator : U8 := (((inst.originalMachineCode &&& 0x00C0) >>> 6) - 1).setWidth 8
  let operation ← subscript [BitOperation.bit, .res, .set] opDifferentiator.toNat
  let p := { BitwiseParams.zeroed with operation := operation }
  .ok { inst with params := .bitwise p }

/-- The number of the bit is in bits 3 to 5. -/
def cbBitwiseDetermineParams (inst : Instruction) : Checked Instruction := do
  let p ← inst.bitwiseParams
  let target ← cbTokenizeTarget inst
  let bitNumber : U8 := ((inst.originalMachineCode &&& 0b111000) >>> 3).setWidth 8
  let p := { p with target := target, bitNumber := bitNumber }
  .ok { inst with params := .bitwise p }

/-- Second bytes below 0x40 are rotations and shifts, the others are bit operations. -/
def cbDetermineType (inst : Instruction) : Checked Instruction :=
  let arithmaticDifferentiator : U8 := (inst.originalMachineCode &&& 0x00FF).setWidth 8
  if arithmaticDifferentiator < 0x40 then
    cbRotShiftDetermineSubtype { inst with type := .rotShift }
  else cbBitwiseDetermineSubtype { inst with type := .bitwise }

/-- The type that was stored decides which parameters follow. -/
def cbDetermineParams (instruction : Instruction) : Checked Instruction :=
  if instruction.type = .rotShift then cbRotShiftDetermineParams instruction
  else if instruction.type = .bitwise then cbBitwiseDetermineParams instruction
  else .ok instruction

/-- An operand in memory takes four cycles, or three for a BIT, and a register two. -/
def cbDetermineClockCycles (instruction : Instruction) : Instruction :=
  let clockCycleDifferentiator : U8 := (instruction.originalMachineCode &&& 0x07).setWidth 8
  if clockCycleDifferentiator = 0x06 then
    let secondaryClockCycleDifferentiator : U8 :=
      ((instruction.originalMachineCode &&& 0xFF) >>> 4).setWidth 8
    if secondaryClockCycleDifferentiator ≥ 0x04 ∧ secondaryClockCycleDifferentiator ≤ 0x07 then
      { instruction with durationInClockCycles := 3 }
    else { instruction with durationInClockCycles := 4 }
  else { instruction with durationInClockCycles := 2 }

/-- RLCA, RRCA, RLA and RRA, told apart by the two nibbles of their only byte. -/
def tokenizeSingleByteRotates (instruction : Instruction) : Checked Instruction := do
  let target ← tokenizeRegisterParamWithIndex 7
  let p : RotShiftParams := {
    setFlagsToZero := true
    direction := if instruction.originalMachineCode &&& 0xF = 0xF then .right else .left
    operation := .rotate
    throughCarry := instruction.originalMachineCode &&& 0xF0 = 0x00
    target := target }
  .ok { instruction with
    type := .rotShift
    durationInClockCycles := 1
    params := .rotShift p }

/-- A word of one byte is a rotation of A; the others are read from their second byte. -/
def tokenizeCbxx (instruction : Instruction) : Checked Instruction := do
  if instruction.byteLength = 1 then tokenizeSingleByteRotates instruction
  else do
    let instruction ← cbDetermineType instruction
    let instruction ← cbDetermineParams instruction
    .ok (cbDetermineClockCycles instruction)

/-- A rotation of A gets the parameters of its opcode and lasts one cycle. -/
theorem tokenizeCbxx_rotA (r : Sm83.RotA) :
    tokenizeCbxx (.fresh (r.byte.setWidth 32) 1) =
      .ok { Instruction.fresh (r.byte.setWidth 32) 1 with
        type := .rotShift
        durationInClockCycles := 1
        params := .rotShift (rotAParams r) } := by
  cases r <;> rfl

/-- Each of the 256 second bytes gets the token that it decodes to. -/
theorem tokenizeCbxx_cb : ∀ b : U8,
    tokenizeCbxx (.fresh (machineCode 0xCB b 0 2) 2) =
      .ok { Instruction.fresh (machineCode 0xCB b 0 2) 2 with
        type := cbType (Sm83.decodeCb b)
        durationInClockCycles := cbCycles (Sm83.decodeCb b)
        params := cbParams (Sm83.decodeCb b) } := by
  decide +kernel

end Beemu
