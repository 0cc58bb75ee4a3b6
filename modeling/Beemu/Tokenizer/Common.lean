import Beemu.Token

/-!
# Shared tokenizing steps

A tokenizing function that fills in an instruction through a pointer returns the instruction.
Where every field of a parameter is overwritten, the parameter is returned alone.
-/

namespace Beemu

def pre0x40ByteLengthLookup : List U8 :=
  [1, 3, 1, 1, 1, 1, 2, 1, 3, 1, 1, 1, 1, 1, 2, 1, 2, 3, 1, 1, 1, 1, 2, 1, 2, 1, 1, 1, 1, 1, 2, 1,
   2, 3, 1, 1, 1, 1, 2, 1, 2, 1, 1, 1, 1, 1, 2, 1, 2, 3, 1, 1, 1, 1, 2, 1, 2, 1, 1, 1, 1, 1, 2, 1]

def post0xBFByteLengthLookup : List U8 :=
  [1, 1, 3, 3, 3, 1, 2, 1, 1, 1, 3, 1, 3, 3, 2, 1, 1, 1, 3, 1, 3, 1, 2, 1, 1, 1, 3, 1, 3, 1, 2, 1,
   2, 1, 1, 1, 1, 1, 2, 1, 2, 1, 3, 1, 1, 1, 2, 1, 2, 1, 1, 1, 1, 1, 2, 1, 2, 1, 3, 1, 1, 1, 2, 1]

/-- The length of an unprefixed instruction, by its opcode. -/
def byteLengthLookup (opcode : U8) : Checked U8 :=
  if opcode < 0x40 then subscript pre0x40ByteLengthLookup opcode.toNat
  else if opcode ≥ 0xC0 then subscript post0xBFByteLengthLookup (opcode.toNat - 0xC0)
  else .ok 1

def determineByteLengthAndCleanup (instruction : Instruction) : Checked (Instruction × U8) :=
  let omc := instruction.originalMachineCode
  if omc >>> 16 = 0xCB then
    .ok ({ instruction with
      originalMachineCode := (omc >>> 8) &&& 0x0000FFFF
      byteLength := 2 }, 0xCB)
  else do
    let opcode : U8 := ((omc >>> 16) &&& 0xFF).setWidth 8
    let byteLength ← byteLengthLookup opcode
    let code :=
      if byteLength = 1 then (omc >>> 16) &&& 0xFF
      else if byteLength = 2 then (omc >>> 8) &&& 0xFFFF
      else omc &&& 0xFFFFFF
    .ok ({ instruction with originalMachineCode := code, byteLength := byteLength }, opcode)

def tokenizeRegisterParamWithIndex (index : U8) : Checked Param :=
  if index = 0x06 then .ok ⟨true, .register16, .register16 .HL⟩
  else do
    let register ← subscript [Register8.B, .C, .D, .E, .H, .L, .A, .A] index.toNat
    .ok ⟨false, .register8, .register8 register⟩

def tokenizeRegister16ParamWithIndex (registerIndex : U8) (isPointer : Bool)
    (lastRegister : Register16) : Checked Param := do
  assertThat (registerIndex ≤ 3)
  let register ← subscript [.BC, .DE, .HL, lastRegister] registerIndex.toNat
  .ok ⟨isPointer, .register16, .register16 register⟩

/-- `BeemuTokenizerSubtypeDifferentiator` -/
structure SubtypeDifferentiator where
  bitwiseAndOperand : U8
  bitwiseAndExpectedResult : U8

/-- The loop of `instructionSubtypeIfOfInstructionType`, with `count` subtypes still to try. -/
def firstMatchingSubtype (opcode : U8) (rules : List SubtypeDifferentiator) (zeroth : Nat) :
    Nat → Nat → Checked Nat
  | 0, _ => .ok zeroth
  | count + 1, subtype => do
    let test ← subscript rules subtype
    if opcode &&& test.bitwiseAndOperand = test.bitwiseAndExpectedResult then .ok subtype
    else firstMatchingSubtype opcode rules zeroth count (subtype + 1)

def instructionSubtypeIfOfInstructionType (opcode : U8) (rules : List SubtypeDifferentiator)
    (zeroth terminal : Nat) : Checked Nat :=
  firstMatchingSubtype opcode rules zeroth (terminal - zeroth) (zeroth + 1)

def parseSigned8ParamFromInstruction (originalMachineCode : U32) : Param :=
  let payload : U8 := (originalMachineCode &&& 0xFF).setWidth 8
  -- The byte is promoted to `int` before the shift, which leaves no bit of it.
  let signBit : U8 := (payload.setWidth 32 >>> 8).setWidth 8
  if signBit ≠ 0 then ⟨false, .int8, .signedValue (0 - ~~~(payload - 1))⟩
  else ⟨false, .int8, .signedValue (0 + payload)⟩

def beemuParseUint16Operand (originalMachineCode : U32) : U16 :=
  let lsb : U16 := ((originalMachineCode >>> 8) &&& 0xFF).setWidth 16
  let msb : U16 := (originalMachineCode &&& 0xFF).setWidth 16
  (msb <<< 8) ||| lsb

/-- A call through a dispatch table: entry 0 is a null pointer. -/
def dispatch (table : List (Option (Instruction → U8 → Checked Instruction))) (subtype : Nat)
    (instruction : Instruction) (opcode : U8) : Checked Instruction := do
  match ← subscript table subtype with
  | some determineParams => determineParams instruction opcode
  | none => .error .nullCall

theorem parseSigned8ParamFromInstruction_eq (omc : U32) :
    parseSigned8ParamFromInstruction omc = offsetParam ((omc &&& 0xFF).setWidth 8) := by
  have h (payload : U8) : (payload.setWidth 32 >>> 8).setWidth 8 = 0#8 := by
    ext i hi
    simp
  unfold parseSigned8ParamFromInstruction offsetParam
  generalize (omc &&& 0xFF).setWidth 8 = payload
  simp [h payload]

theorem beemuParseUint16Operand_machineCode (b₀ b₁ b₂ : U8) :
    beemuParseUint16Operand (machineCode b₀ b₁ b₂ 3) = Sm83.word b₂ b₁ := by
  ext i hi
  interval_cases i <;> simp [beemuParseUint16Operand, machineCode, Sm83.word]

/-- The tables give every opcode byte but the prefix its length. -/
theorem byteLengthLookup_eq : ∀ b : U8, ∀ o ∈ Sm83.decodeMain b,
    byteLengthLookup b = .ok (BitVec.ofNat 8 o.length) := by
  decide +kernel

/-- Cleaning up cuts the machine code to the bytes of the instruction. -/
theorem determineByteLengthAndCleanup_eq (w : CodeWord) (i : Instruction)
    (h : i.originalMachineCode = w.setWidth 32) :
    determineByteLengthAndCleanup i = .ok ({ i with
      originalMachineCode := w.code w.length
      byteLength := BitVec.ofNat 8 w.length }, w.opcodeByte) := by
  unfold determineByteLengthAndCleanup
  by_cases hp : w.opcodeByte = 0xCB
  · have hl : w.length = 2 := by
      rw [CodeWord.length, CodeWord.opcode, hp, Sm83.decode_prefix]
      rfl
    simp only [h, (CodeWord.prefix_iff w).mpr hp, if_true, CodeWord.code_two, hl, hp]
    rfl
  · obtain ⟨o, ho⟩ : ∃ o, Sm83.decodeMain w.opcodeByte = some o :=
      Option.ne_none_iff_exists'.mp fun hn => hp ((Sm83.decodeMain_none_iff _).mp hn)
    have hw : w.length = o.length := by
      simp [CodeWord.length, CodeWord.opcode, Sm83.decode, ho]
    have hc : ¬ w.setWidth 32 >>> 16 = 0xCB := fun hc => hp ((CodeWord.prefix_iff w).mp hc)
    simp only [h, hc, if_false, CodeWord.code_one, CodeWord.code_two, CodeWord.code_three,
      CodeWord.code_one_setWidth, byteLengthLookup_eq _ o ho, ok_bind, hw]
    rcases Sm83.length_cases o with hl | hl | hl <;> rw [hl] <;> rfl

end Beemu
