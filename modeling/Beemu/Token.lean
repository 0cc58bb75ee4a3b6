import Beemu.Primitives
import Beemu.Sm83.State
import Mathlib.Tactic.Simps.Basic

/-!
# The token of every opcode

What the tokenizer is for, said once for the whole instruction set: the token that stands for
an opcode and its operand bytes. A few entries record what the code does where the
instruction set says otherwise: a prefixed rotation always has the left direction, and a
byte that is no instruction keeps the zeroed load of A into A.
-/

namespace Beemu

open Sm83 (Reg8 Operand8 Pair StackPair Pointer)

/-- The register of the code for a register of the instruction set. -/
def register8Of : Reg8 → Register8
  | .A => .A
  | .B => .B
  | .C => .C
  | .D => .D
  | .E => .E
  | .H => .H
  | .L => .L

def register16Of : Pair → Register16
  | .BC => .BC
  | .DE => .DE
  | .HL => .HL
  | .SP => .SP

def stackRegister16Of : StackPair → Register16
  | .BC => .BC
  | .DE => .DE
  | .HL => .HL
  | .AF => .AF

/-- The pair that holds the address; both steps of HL name the same one. -/
def pointerRegister16Of : Pointer → Register16
  | .BC => .BC
  | .DE => .DE
  | .HLInc => .HL
  | .HLDec => .HL

theorem register8Of_injective : Function.Injective register8Of := by
  intro r q h
  cases r <;> cases q <;> first | rfl | cases h

@[simps] def registerParam (r : Reg8) : Param := ⟨false, .register8, .register8 (register8Of r)⟩
@[simps] def pairParam (r : Register16) : Param := ⟨false, .register16, .register16 r⟩
@[simps] def pointerParam (r : Register16) : Param := ⟨true, .register16, .register16 r⟩
@[simps] def byteParam (n : U8) : Param := ⟨false, .uint8, .value (n.setWidth 16)⟩
@[simps] def wordParam (nn : U16) : Param := ⟨false, .uint16, .value nn⟩
@[simps] def addressParam (nn : U16) : Param := ⟨true, .uint16, .value nn⟩
@[simps] def offsetParam (e : U8) : Param := ⟨false, .int8, .signedValue e⟩

/-- A byte address counts from `0xFF00`. -/
@[simps] def highParam (n : U8) : Param := ⟨true, .uint8, .value (n.setWidth 16)⟩
@[simps] def highRegisterParam (r : Reg8) : Param := ⟨true, .register8, .register8 (register8Of r)⟩

def operandParam : Operand8 → Param
  | .reg r => registerParam r
  | .indHL => pointerParam .HL

/-- The operands of every load, with `n` and `nn` for its operand bytes. -/
def loadParamsOf (n : U8) (nn : U16) : Sm83.Load → LoadParams
  | .regReg d s => ⟨registerParam s, registerParam d, .nop, .zeroed⟩
  | .regInd d => ⟨pointerParam .HL, registerParam d, .nop, .zeroed⟩
  | .indReg s => ⟨registerParam s, pointerParam .HL, .nop, .zeroed⟩
  | .regImm d => ⟨byteParam n, registerParam d, .nop, .zeroed⟩
  | .indImm => ⟨byteParam n, pointerParam .HL, .nop, .zeroed⟩
  | .ptrA .HLInc =>
    ⟨registerParam .A, pointerParam .HL, .incrementIndirectDestination, .zeroed⟩
  | .ptrA .HLDec =>
    ⟨registerParam .A, pointerParam .HL, .decrementIndirectDestination, .zeroed⟩
  | .ptrA p => ⟨registerParam .A, pointerParam (pointerRegister16Of p), .nop, .zeroed⟩
  | .aPtr .HLInc => ⟨pointerParam .HL, registerParam .A, .incrementIndirectSource, .zeroed⟩
  | .aPtr .HLDec => ⟨pointerParam .HL, registerParam .A, .decrementIndirectSource, .zeroed⟩
  | .aPtr p => ⟨pointerParam (pointerRegister16Of p), registerParam .A, .nop, .zeroed⟩
  | .highImmA => ⟨registerParam .A, highParam n, .nop, .zeroed⟩
  | .aHighImm => ⟨highParam n, registerParam .A, .nop, .zeroed⟩
  | .highCA => ⟨registerParam .A, highRegisterParam .C, .nop, .zeroed⟩
  | .aHighC => ⟨highRegisterParam .C, registerParam .A, .nop, .zeroed⟩
  | .absA => ⟨registerParam .A, addressParam nn, .nop, .zeroed⟩
  | .aAbs => ⟨addressParam nn, registerParam .A, .nop, .zeroed⟩
  | .absSP => ⟨pairParam .SP, addressParam nn, .nop, .zeroed⟩
  | .pairImm p => ⟨wordParam nn, pairParam (register16Of p), .nop, .zeroed⟩
  | .push p => ⟨pairParam (stackRegister16Of p), pointerParam .SP,
      .decrementIndirectDestination, .zeroed⟩
  | .pop p => ⟨pointerParam .SP, pairParam (stackRegister16Of p),
      .incrementIndirectSource, .zeroed⟩
  | .hlSpOffset => ⟨pairParam .SP, pairParam .HL, .signedPayloadSum, offsetParam n⟩
  | .spHL => ⟨pairParam .HL, pairParam .SP, .nop, .zeroed⟩

/-- The duration of every load. -/
def loadCycles : Sm83.Load → U8
  | .regReg _ _ => 1
  | .regInd _ | .indReg _ | .regImm _ | .ptrA _ | .aPtr _ | .highCA | .aHighC | .spHL => 2
  | .indImm | .highImmA | .aHighImm | .pairImm _ | .pop _ | .hlSpOffset => 3
  | .absA | .aAbs | .push _ => 4
  | .absSP => 5

def operationOf : Sm83.AluOp → Operation
  | .add => .add
  | .adc => .adc
  | .sub => .sub
  | .sbc => .sbc
  | .and => .and
  | .xor => .xor
  | .or => .or
  | .cp => .cp

/-- The operands of every arithmetic instruction. Those on A alone name it twice, and INC and DEC
have the number 1 as their second operand. -/
def arithmaticParamsOf (n : U8) : Sm83.Arith → ArithmaticParams
  | .alu op o => ⟨operationOf op, registerParam .A, operandParam o⟩
  | .aluImm op => ⟨operationOf op, registerParam .A, byteParam n⟩
  | .inc8 o => ⟨.inc, operandParam o, byteParam 1⟩
  | .dec8 o => ⟨.dec, operandParam o, byteParam 1⟩
  | .incPair p => ⟨.inc, pairParam (register16Of p), byteParam 1⟩
  | .decPair p => ⟨.dec, pairParam (register16Of p), byteParam 1⟩
  | .addHL p => ⟨.add, pairParam .HL, pairParam (register16Of p)⟩
  | .addSP => ⟨.add, pairParam .SP, offsetParam n⟩
  | .daa => ⟨.daa, registerParam .A, registerParam .A⟩
  | .cpl => ⟨.cpl, registerParam .A, registerParam .A⟩
  | .scf => ⟨.scf, registerParam .A, registerParam .A⟩
  | .ccf => ⟨.ccf, registerParam .A, registerParam .A⟩

def arithmaticCycles : Sm83.Arith → U8
  | .alu _ .indHL | .aluImm _ | .incPair _ | .decPair _ | .addHL _ => 2
  | .inc8 .indHL | .dec8 .indHL => 3
  | .addSP => 4
  | _ => 1

def rotShiftOpOf : Sm83.RotOp → RotShiftOp
  | .rlc | .rrc | .rl | .rr => .rotate
  | .sla | .sra => .shiftArithmatic
  | .swap => .swap
  | .srl => .shiftLogical

/-- The field is clear for RL and RR, though these are the ones that rotate through C. -/
def throughCarryOf : Sm83.RotOp → Bool
  | .rlc | .rrc | .sla | .sra | .srl => true
  | .rl | .rr | .swap => false

def bitOperationOf : Sm83.BitOp → BitOperation
  | .bit => .bit
  | .res => .res
  | .set => .set

/-- The rotations of A, with the field that asks for a clear Z. -/
def rotAParams : Sm83.RotA → RotShiftParams
  | .rlca => ⟨true, true, .rotate, .left, registerParam .A⟩
  | .rrca => ⟨true, true, .rotate, .right, registerParam .A⟩
  | .rla => ⟨false, true, .rotate, .left, registerParam .A⟩
  | .rra => ⟨false, true, .rotate, .right, registerParam .A⟩

def cbType : Sm83.Cb → InstructionType
  | .rot _ _ => .rotShift
  | .bits _ _ _ => .bitwise

/-- The operands of a prefixed instruction. The direction of a rotation is always left. -/
def cbParams : Sm83.Cb → Params
  | .rot op t => .rotShift ⟨throughCarryOf op, false, rotShiftOpOf op, .left, operandParam t⟩
  | .bits op n t => .bitwise ⟨bitOperationOf op, n.setWidth 8, operandParam t⟩

def cbCycles : Sm83.Cb → U8
  | .rot _ .indHL => 4
  | .bits .bit _ .indHL => 3
  | .bits _ _ .indHL => 4
  | _ => 2

def conditionOf : Sm83.Cond → JumpCondition
  | .NZ => .ifNotZero
  | .Z => .ifZero
  | .NC => .ifNotCarry
  | .C => .ifCarry

/-- The operands of every jump, with `n` and `nn` for its operand bytes. -/
def jumpParamsOf (n : U8) (nn : U16) : Sm83.Jump → JumpParams
  | .jr => ⟨false, true, false, .jump, .noCondition, offsetParam n⟩
  | .jrIf c => ⟨true, true, false, .jump, conditionOf c, offsetParam n⟩
  | .jp => ⟨false, false, false, .jump, .noCondition, wordParam nn⟩
  | .jpIf c => ⟨true, false, false, .jump, conditionOf c, wordParam nn⟩
  | .jpHL => ⟨false, false, false, .jump, .noCondition, pairParam .HL⟩
  | .call => ⟨false, false, false, .call, .noCondition, wordParam nn⟩
  | .callIf c => ⟨true, false, false, .call, conditionOf c, wordParam nn⟩
  | .ret => ⟨false, false, false, .ret, .noCondition, pointerParam .SP⟩
  | .retIf c => ⟨true, false, false, .ret, conditionOf c, pointerParam .SP⟩
  | .reti => ⟨false, false, true, .ret, .noCondition, pointerParam .SP⟩
  | .rst k => ⟨false, false, false, .rst, .noCondition, wordParam (k.setWidth 16 * 8)⟩

/-- The duration of every jump, the longer one where there are two. -/
def jumpCycles : Sm83.Jump → U8
  | .jpHL => 1
  | .jr | .jrIf _ => 3
  | .jp | .jpIf _ | .ret | .reti | .rst _ => 4
  | .retIf _ => 5
  | .call | .callIf _ => 6

def systemOperationOf : Sm83.System → SystemOperation
  | .nop => .nop
  | .stop => .stop
  | .halt => .halt
  | .di => .disableInterrupts
  | .ei => .enableInterrupts

/-- The type of the token of every opcode. -/
def typeOf : Sm83.Opcode → InstructionType
  | .load _ => .load
  | .arith _ => .arithmatic
  | .rotA _ => .rotShift
  | .cb c => cbType c
  | .jump _ => .jump
  | .system _ => .cpuControl
  | .illegal _ => .load

/-- The duration of the token of every opcode. -/
def cyclesOf : Sm83.Opcode → U8
  | .load l => loadCycles l
  | .arith a => arithmaticCycles a
  | .rotA _ => 1
  | .cb c => cbCycles c
  | .jump j => jumpCycles j
  | .system _ => 1
  | .illegal _ => 0

/-- The operands of every opcode. -/
def paramsOf (n : U8) (nn : U16) : Sm83.Opcode → Params
  | .load l => .load (loadParamsOf n nn l)
  | .arith a => .arithmatic (arithmaticParamsOf n a)
  | .rotA r => .rotShift (rotAParams r)
  | .cb c => cbParams c
  | .jump j => .jump (jumpParamsOf n nn j)
  | .system s => .system (systemOperationOf s)
  | .illegal _ => .load .zeroed

/-- The bytes of an instruction as one number, the opcode foremost. -/
def machineCode (b₀ b₁ b₂ : U8) : Nat → U32
  | 1 => b₀.setWidth 32
  | 2 => (b₀.setWidth 32 <<< 8) ||| b₁.setWidth 32
  | _ => (b₀.setWidth 32 <<< 16) ||| (b₁.setWidth 32 <<< 8) ||| b₂.setWidth 32

/-- The token of an opcode followed in memory by the bytes `b₁` and `b₂`. -/
def token (o : Sm83.Opcode) (b₁ b₂ : U8) : Instruction where
  type := typeOf o
  durationInClockCycles := cyclesOf o
  originalMachineCode := machineCode o.byte b₁ b₂ o.length
  byteLength := BitVec.ofNat 8 o.length
  params := paramsOf b₁ (Sm83.word b₂ b₁) o

section MachineCode

variable (b₀ b₁ b₂ : U8)

/-- The only operand of an instruction of two bytes is in its low byte. -/
theorem machineCode_low_two : (machineCode b₀ b₁ b₂ 2 &&& 0xFF).setWidth 8 = b₁ := by
  ext i hi
  interval_cases i <;> simp [machineCode]

theorem machineCode_and_two : machineCode b₀ b₁ b₂ 2 &&& 0xFF = b₁.setWidth 32 := by
  ext i hi
  interval_cases i <;> simp [machineCode]

/-- The second operand of an instruction of three bytes is in its low byte. -/
theorem machineCode_low_three : (machineCode b₀ b₁ b₂ 3 &&& 0xFF).setWidth 8 = b₂ := by
  ext i hi
  interval_cases i <;> simp [machineCode]

/-- The first operand of an instruction of three bytes is in the byte above. -/
theorem machineCode_middle_three :
    ((machineCode b₀ b₁ b₂ 3 >>> 8) &&& 0xFF).setWidth 8 = b₁ := by
  ext i hi
  interval_cases i <;> simp [machineCode]

theorem machineCode_two_ge (h : 0x40 ≤ b₀.toNat) : 0x4000 ≤ (machineCode b₀ b₁ b₂ 2).toNat := by
  have hb := b₀.isLt
  have hs : (b₀.setWidth 32 <<< 8 : U32).toNat = b₀.toNat * 256 := by
    rw [BitVec.toNat_shiftLeft, BitVec.toNat_setWidth_of_le (by decide), Nat.shiftLeft_eq]
    omega
  have hl : (b₀.setWidth 32 <<< 8 : U32).toNat ≤ (machineCode b₀ b₁ b₂ 2).toNat := by
    rw [machineCode, BitVec.toNat_or]
    exact Nat.left_le_or
  omega

end MachineCode

/-- Operand bytes past the end of an instruction are not in its parameters. -/
theorem paramsOf_of_length_one (o : Sm83.Opcode) (h : o.length = 1) (n n' : U8) (nn nn' : U16) :
    paramsOf n nn o = paramsOf n' nn' o := by
  cases o with
  | load l =>
    cases l with
    | ptrA p | aPtr p => cases p <;> rfl
    | _ => first | rfl | cases h
  | arith a => cases a <;> first | rfl | cases h
  | jump j => cases j <;> first | rfl | cases h
  | rotA _ | cb _ | system _ | illegal _ => rfl

/-- An instruction of two bytes has no address in its parameters. -/
theorem paramsOf_of_length_two (o : Sm83.Opcode) (h : o.length = 2) (n : U8) (nn nn' : U16) :
    paramsOf n nn o = paramsOf n nn' o := by
  cases o with
  | load l =>
    cases l with
    | ptrA p | aPtr p => cases h
    | _ => first | rfl | cases h
  | arith a => rfl
  | jump j => cases j <;> first | rfl | cases h
  | rotA _ | cb _ | system _ | illegal _ => rfl

/-- An instruction of three bytes uses its operand bytes as one address. -/
theorem paramsOf_of_length_three (o : Sm83.Opcode) (h : o.length = 3) (n n' : U8) (nn : U16) :
    paramsOf n nn o = paramsOf n' nn o := by
  cases o with
  | load l =>
    cases l with
    | ptrA p | aPtr p => cases h
    | _ => first | rfl | cases h
  | arith a => cases a <;> first | rfl | cases h
  | jump j => cases j <;> first | rfl | cases h
  | rotA _ | cb _ | system _ | illegal _ => rfl

/-! ## Instruction words -/

/-- Three bytes of memory, the opcode in the highest. -/
abbrev CodeWord := BitVec 24

namespace CodeWord

/-- The byte at the program counter. -/
def opcodeByte (w : CodeWord) : U8 := w.extractLsb' 16 8
def firstOperand (w : CodeWord) : U8 := w.extractLsb' 8 8
def secondOperand (w : CodeWord) : U8 := w.extractLsb' 0 8

/-- The second byte counts only behind the prefix. -/
def opcode (w : CodeWord) : Sm83.Opcode := Sm83.decode w.opcodeByte w.firstOperand

/-- The number of bytes in the instruction that a word starts with. -/
def length (w : CodeWord) : Nat := w.opcode.length

/-- The number that the leading `l` bytes make. -/
def leading (w : CodeWord) (l : Nat) : U32 := w.setWidth 32 >>> (8 * (3 - l))

/-- The bytes that belong to the instruction. -/
def bytes (w : CodeWord) : List U8 := [w.opcodeByte, w.firstOperand, w.secondOperand].take w.length

/-- The machine code of the first `l` bytes, as it is stored in a token. -/
def code (w : CodeWord) (l : Nat) : U32 :=
  machineCode w.opcodeByte w.firstOperand w.secondOperand l

variable (w : CodeWord)

theorem code_one : ((w.setWidth 32 >>> 16) &&& 0xFF) = w.code 1 := by
  ext i hi
  interval_cases i <;> simp [code, machineCode, opcodeByte]

theorem code_two : ((w.setWidth 32 >>> 8) &&& 0xFFFF) = w.code 2 := by
  ext i hi
  interval_cases i <;> simp [code, machineCode, opcodeByte, firstOperand]

theorem code_three : (w.setWidth 32 &&& 0xFFFFFF) = w.code 3 := by
  ext i hi
  interval_cases i <;> simp [code, machineCode, opcodeByte, firstOperand, secondOperand]

theorem code_one_setWidth : (w.code 1).setWidth 8 = w.opcodeByte := by
  simp [code, machineCode, BitVec.setWidth_setWidth_of_le]

/-- The bytes above the third are zero, so that no mask is needed. -/
theorem code_eq_leading (l : Nat) (hl : l = 1 ∨ l = 2 ∨ l = 3) : w.code l = w.leading l := by
  rcases hl with rfl | rfl | rfl
  · rw [← code_one, leading]
    ext i hi
    interval_cases i <;> simp
  · rw [← code_two, leading]
    ext i hi
    interval_cases i <;> simp
  · rw [← code_three, leading]
    ext i hi
    interval_cases i <;> simp

/-- The test of the tokenizer for the prefix, on a word of three bytes. -/
theorem prefix_iff : w.setWidth 32 >>> 16 = 0xCB ↔ w.opcodeByte = 0xCB := by
  simp only [opcodeByte, ← BitVec.toNat_inj]
  simp
  omega

@[simp] theorem opcode_byte : w.opcode.byte = w.opcodeByte := Sm83.decode_byte _ _

theorem length_cases : w.length = 1 ∨ w.length = 2 ∨ w.length = 3 := Sm83.length_cases _

theorem opcodeByte_of_leading (l : Nat) (hl : l = 1 ∨ l = 2 ∨ l = 3) :
    w.opcodeByte = (w.leading l >>> (8 * (l - 1))).setWidth 8 := by
  rcases hl with rfl | rfl | rfl <;> ext i hi <;> simp [opcodeByte, leading] <;> omega

theorem firstOperand_of_leading (l : Nat) (hl : l = 2 ∨ l = 3) :
    w.firstOperand = (w.leading l >>> (8 * (l - 2))).setWidth 8 := by
  rcases hl with rfl | rfl <;> ext i hi <;> simp [firstOperand, leading] <;> omega

theorem secondOperand_of_leading : w.secondOperand = (w.leading 3).setWidth 8 := by
  ext i hi
  simp [secondOperand, leading]

variable {w} in
/-- The opcode is read from the leading bytes of its own length. -/
theorem opcode_of_leading {w' : CodeWord} (h : w'.leading w.length = w.leading w.length) :
    w'.opcode = w.opcode := by
  have h₀ : w'.opcodeByte = w.opcodeByte := by
    rw [opcodeByte_of_leading w' _ w.length_cases, h, ← opcodeByte_of_leading w _ w.length_cases]
  by_cases hp : w.opcodeByte = 0xCB
  · have hl : w.length = 2 := by
      rw [length, opcode, hp, Sm83.decode_prefix]
      rfl
    rw [hl] at h
    rw [opcode, opcode, h₀, firstOperand_of_leading w' 2 (.inl rfl), h,
      ← firstOperand_of_leading w 2 (.inl rfl)]
  · rw [opcode, opcode, h₀]
    exact Sm83.decode_eq_of_ne _ _ _ hp

/-- The token of a word. -/
def token : Instruction := Beemu.token w.opcode w.firstOperand w.secondOperand

/-- The length in a token is the number of bytes that were read. -/
theorem token_byteLength : w.token.byteLength.toNat = w.length := by
  have h := w.length_cases
  exact Nat.mod_eq_of_lt (by rw [length] at h; omega)

theorem token_code : w.token.originalMachineCode = w.code w.length := by
  simp [token, Beemu.token, code, length]

/-- The machine code in a token is the leading bytes of the word, and no others. -/
theorem token_originalMachineCode : w.token.originalMachineCode = w.leading w.length := by
  rw [← code_eq_leading w _ w.length_cases]
  exact token_code w

variable {w} in
/-- A token has no byte in it beyond the length of its instruction. -/
theorem token_of_leading {w' : CodeWord} (h : w'.leading w.length = w.leading w.length) :
    w'.token = w.token := by
  have ho : w'.opcode = w.opcode := opcode_of_leading h
  have hl : w'.length = w.length := congrArg Sm83.Opcode.length ho
  have hm : w'.token.originalMachineCode = w.token.originalMachineCode := by
    rw [token_originalMachineCode, token_originalMachineCode, hl, h]
  have hp : paramsOf w'.firstOperand (Sm83.word w'.secondOperand w'.firstOperand) w'.opcode =
      paramsOf w.firstOperand (Sm83.word w.secondOperand w.firstOperand) w.opcode := by
    rw [ho]
    rcases w.length_cases with h1 | h2 | h3
    · exact paramsOf_of_length_one _ h1 _ _ _ _
    · rw [h2] at h
      rw [firstOperand_of_leading w' 2 (.inl rfl), h, ← firstOperand_of_leading w 2 (.inl rfl)]
      exact paramsOf_of_length_two _ h2 _ _ _
    · rw [h3] at h
      rw [firstOperand_of_leading w' 3 (.inr rfl), secondOperand_of_leading w', h,
        ← firstOperand_of_leading w 3 (.inr rfl), ← secondOperand_of_leading w]
  simp only [token, Beemu.token, Instruction.mk.injEq] at hm ⊢
  exact ⟨by rw [ho], by rw [ho], hm, by rw [ho], hp⟩

end CodeWord

end Beemu
