import Mathlib.Data.BitVec

/-!
# Instruction tokens and the values they carry

C integers are bit vectors of their own width, enumerations are inductive types and a
tagged union is one constructor for each member. What C leaves to the machine (a failed
assertion, a subscript outside its table, a null call, a union member other than the one
stored, a missing return, a pointer to no object) is a `Fault`; a function that could reach
one is `Checked`.
-/

namespace Beemu

abbrev U8 := BitVec 8
abbrev U16 := BitVec 16
abbrev U32 := BitVec 32

theorem narrow_widen (b : U8) : (b.setWidth 16).setWidth 8 = b := by
  rw [BitVec.setWidth_setWidth_of_le b (by decide), BitVec.setWidth_eq]

theorem add_ofNat_succ (a : U16) (k : Nat) :
    a + BitVec.ofNat 16 k + 1 = a + BitVec.ofNat 16 (k + 1) := by
  rw [BitVec.add_assoc, show (1 : U16) = BitVec.ofNat 16 1 from rfl, ← BitVec.ofNat_add]

theorem succ_add_ofNat (a : U16) (k : Nat) :
    a + 1 + BitVec.ofNat 16 k = a + BitVec.ofNat 16 (k + 1) := by
  rw [← add_ofNat_succ, BitVec.add_assoc, BitVec.add_comm 1, BitVec.add_assoc]

/-- What a C program must not reach. None of these is a value that the caller sees. -/
inductive Fault where
  | assertFailed
  | indexOutOfRange
  | nullCall
  | unionMisread
  | missingReturn
  | badPointer
  deriving DecidableEq, Repr

/-- A result, or the fault that is met first. -/
abbrev Checked := Except Fault

@[simp] theorem ok_bind {α β : Type} (a : α) (f : α → Checked β) :
    ((Except.ok a : Checked α) >>= f) = f a := (rfl)

@[simp] theorem error_bind {α β : Type} (e : Fault) (f : α → Checked β) :
    ((Except.error e : Checked α) >>= f) = .error e := (rfl)

/-- A sequence completes exactly when both of its parts do. -/
theorem bind_eq_ok_iff {α β : Type} {x : Checked α} {f : α → Checked β} {b : β} :
    x >>= f = .ok b ↔ ∃ a, x = .ok a ∧ f a = .ok b := by
  cases x with
  | ok a => simp
  | error e => simp

@[simp] theorem pure_ok {α : Type} (a : α) : (pure a : Checked α) = .ok a := rfl

/-- What holds of some result holds of the one that there is. -/
theorem exists_ok_iff {α : Type} {x : Checked α} {a : α} (h : x = .ok a) (P : α → Prop) :
    (∃ b, x = .ok b ∧ P b) ↔ P a := by
  constructor
  · rintro ⟨b, hb, hP⟩
    obtain rfl := Except.ok.inj (h.symm.trans hb)
    exact hP
  · intro hP
    exact ⟨a, h, hP⟩

/-- `assert` from `<assert.h>`. -/
def assertThat (condition : Bool) : Checked Unit :=
  if condition then .ok () else .error .assertFailed

@[simp] theorem assertThat_true : assertThat true = .ok () := rfl

/-- A read of a constant table. -/
def subscript {α : Type} (table : List α) (i : Nat) : Checked α :=
  match table[i]? with
  | some a => .ok a
  | none => .error .indexOutOfRange

inductive Register8 where
  | A | B | C | D | E | H | L
  deriving DecidableEq, Repr

inductive Register16 where
  | BC | DE | HL | M | SP | PC | AF
  deriving DecidableEq, Repr

/-- Enumerators in the order of their values, which are also places in `registers[7]`. -/
def register8Values : List Register8 := [.A, .B, .C, .D, .E, .H, .L]

/-- The value of an enumerator, as the register tables use it for a subscript. -/
def Register16.index : Register16 → Nat
  | .BC => 0
  | .DE => 1
  | .HL => 2
  | .M => 3
  | .SP => 4
  | .PC => 5
  | .AF => 6

inductive Register where
  | eightBit : Register8 → Register
  | sixteenBit : Register16 → Register
  deriving DecidableEq, Repr

/-- The tag of the union in a token. -/
inductive InstructionType where
  | load | arithmatic | rotShift | bitwise | cpuControl | jump
  deriving DecidableEq, Repr

/-- What a parameter holds, and how wide it is. -/
inductive ParamType where
  | register8 | register16 | uint8 | uint16 | int8
  deriving DecidableEq, Repr

/-- The union of a parameter, with the member that was stored last. The `register_8`
member is an `int`-sized cell: `register8Byte` is a number stored there that was not
written as an enumerator. -/
inductive ParamValue where
  | value : U16 → ParamValue
  | signedValue : U8 → ParamValue
  | register8 : Register8 → ParamValue
  | register8Byte : U8 → ParamValue
  | register16 : Register16 → ParamValue
  deriving DecidableEq, Repr

/-- `value.value`: a number stored as `register_8` is read back through its low half. -/
def ParamValue.asValue : ParamValue → Checked U16
  | .value v => .ok v
  | .register8Byte n => .ok (n.setWidth 16)
  | _ => .error .unionMisread

/-- `value.signed_value`. -/
def ParamValue.asSigned : ParamValue → Checked U8
  | .signedValue v => .ok v
  | _ => .error .unionMisread

/-- `value.register_8`: a number stored there selects the enumerator with that value. -/
def ParamValue.asRegister8 : ParamValue → Checked Register8
  | .register8 r => .ok r
  | .register8Byte n => subscript register8Values n.toNat
  | _ => .error .unionMisread

/-- `value.register_16`. -/
def ParamValue.asRegister16 : ParamValue → Checked Register16
  | .register16 r => .ok r
  | _ => .error .unionMisread

@[simp] theorem asValue_value (v : U16) : (ParamValue.value v).asValue = .ok v := rfl
@[simp] theorem asValue_byte (n : U8) :
    (ParamValue.register8Byte n).asValue = .ok (n.setWidth 16) := rfl
@[simp] theorem asSigned_signed (v : U8) : (ParamValue.signedValue v).asSigned = .ok v := rfl
@[simp] theorem asRegister8_register8 (r : Register8) :
    (ParamValue.register8 r).asRegister8 = .ok r := rfl
@[simp] theorem asRegister16_register16 (r : Register16) :
    (ParamValue.register16 r).asRegister16 = .ok r := rfl

/-- An operand. A pointer stands for the memory at its value. -/
structure Param where
  pointer : Bool
  type : ParamType
  value : ParamValue
  deriving DecidableEq, Repr

/-- `type == BEEMU_PARAM_TYPE_REGISTER_16 && value.register_16 == register` -/
def Param.isRegister16 (param : Param) (register : Register16) : Checked Bool :=
  if param.type = .register16 then do
    let r ← param.value.asRegister16
    .ok (r = register)
  else .ok false

/-- What a load does beside moving a value. -/
inductive PostLoadOperation where
  | nop
  | incrementIndirectSource
  | decrementIndirectSource
  | decrementIndirectDestination
  | incrementIndirectDestination
  | signedPayloadSum
  deriving DecidableEq, Repr

/-- The operands of a load, and the offset of the signed sum as an auxiliary one. -/
structure LoadParams where
  source : Param
  dest : Param
  postLoadOperation : PostLoadOperation
  auxPostLoadParameter : Param
  deriving DecidableEq, Repr

inductive Operation where
  | add | inc | adc | sub | dec | sbc | and | or | cp | xor | daa | cpl | scf | ccf
  deriving DecidableEq, Repr

/-- An operation and its two operands; the result goes to the first. -/
structure ArithmaticParams where
  operation : Operation
  destOrFirst : Param
  sourceOrSecond : Param
  deriving DecidableEq, Repr

inductive RotShiftOp where
  | rotate | shiftArithmatic | swap | shiftLogical
  deriving DecidableEq, Repr

inductive RotShiftDirection where
  | left | right
  deriving DecidableEq, Repr

/-- A rotation or a shift of one operand. -/
structure RotShiftParams where
  throughCarry : Bool
  setFlagsToZero : Bool
  operation : RotShiftOp
  direction : RotShiftDirection
  target : Param
  deriving DecidableEq, Repr

inductive BitOperation where
  | bit | set | res
  deriving DecidableEq, Repr

/-- A bit of one operand, and what is done with it. -/
structure BitwiseParams where
  operation : BitOperation
  bitNumber : U8
  target : Param
  deriving DecidableEq, Repr

inductive JumpCondition where
  | noCondition | ifCarry | ifNotCarry | ifZero | ifNotZero
  deriving DecidableEq, Repr

inductive JumpType where
  | jump | call | ret | rst
  deriving DecidableEq, Repr

/-- A jump, a call or a return. A relative one counts from the program counter. -/
structure JumpParams where
  isConditional : Bool
  isRelative : Bool
  enableInterrupts : Bool
  type : JumpType
  condition : JumpCondition
  param : Param
  deriving DecidableEq, Repr

inductive SystemOperation where
  | nop | halt | stop | disableInterrupts | enableInterrupts
  deriving DecidableEq, Repr

/-- The union in a token, by the member that was stored. -/
inductive Params where
  | load : LoadParams → Params
  | arithmatic : ArithmaticParams → Params
  | rotShift : RotShiftParams → Params
  | bitwise : BitwiseParams → Params
  | jump : JumpParams → Params
  | system : SystemOperation → Params
  deriving DecidableEq, Repr

/-- A token: what the bytes of one instruction mean. -/
structure Instruction where
  type : InstructionType
  durationInClockCycles : U8
  originalMachineCode : U32
  byteLength : U8
  params : Params
  deriving DecidableEq, Repr

/-- The union read as the parameters of a load. -/
def Instruction.loadParams (i : Instruction) : Checked LoadParams :=
  match i.params with
  | .load p => .ok p
  | _ => .error .unionMisread

/-- The union read as the parameters of an arithmetic instruction. -/
def Instruction.arithmaticParams (i : Instruction) : Checked ArithmaticParams :=
  match i.params with
  | .arithmatic p => .ok p
  | _ => .error .unionMisread

/-- The union read as the parameters of a bit operation. -/
def Instruction.bitwiseParams (i : Instruction) : Checked BitwiseParams :=
  match i.params with
  | .bitwise p => .ok p
  | _ => .error .unionMisread

/-- All-zero memory read as a parameter: the 8-bit register with value 0. -/
def Param.zeroed : Param := ⟨false, .register8, .register8 .A⟩

/-- The parameters of a load before anything is stored in them. -/
def LoadParams.zeroed : LoadParams := ⟨.zeroed, .zeroed, .nop, .zeroed⟩

/-- What `calloc` returns. Enumerator 0 of the type is `LOAD`, so an instruction that no
rule fills in stays a load of A into A. -/
def Instruction.zeroed : Instruction := ⟨.load, 0, 0, 0, .load .zeroed⟩

end Beemu
