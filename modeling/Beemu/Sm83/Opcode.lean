import Mathlib.Data.BitVec

/-!
# SM83 opcodes

The SM83 instruction set without its immediates: what the one or two opcode bytes of an
instruction say. `decode` cuts an opcode byte into its fields of 2, 3 and 3 bits and
`byte` puts them together again; operand bytes follow the opcode and are kept apart, so
that every fact about opcodes is finite.
-/

namespace Sm83

abbrev Byte := BitVec 8
abbrev Word := BitVec 16

inductive Reg8 where
  | A | B | C | D | E | H | L
  deriving DecidableEq, Repr

/-- A 3-bit operand field: a register, or the byte that HL points at. -/
inductive Operand8 where
  | reg : Reg8 → Operand8
  | indHL : Operand8
  deriving DecidableEq, Repr

/-- A 2-bit pair field whose last value is SP. -/
inductive Pair where
  | BC | DE | HL | SP
  deriving DecidableEq, Repr

/-- A 2-bit pair field whose last value is AF, as PUSH and POP use it. -/
inductive StackPair where
  | BC | DE | HL | AF
  deriving DecidableEq, Repr

/-- A 2-bit pointer field: HL comes with a step up or a step down. -/
inductive Pointer where
  | BC | DE | HLInc | HLDec
  deriving DecidableEq, Repr

inductive AluOp where
  | add | adc | sub | sbc | and | xor | or | cp
  deriving DecidableEq, Repr

inductive Cond where
  | NZ | Z | NC | C
  deriving DecidableEq, Repr

inductive RotOp where
  | rlc | rrc | rl | rr | sla | sra | swap | srl
  deriving DecidableEq, Repr

inductive BitOp where
  | bit | res | set
  deriving DecidableEq, Repr

inductive Load where
  | regReg : Reg8 → Reg8 → Load
  | regInd : Reg8 → Load
  | indReg : Reg8 → Load
  | regImm : Reg8 → Load
  | indImm : Load
  | ptrA : Pointer → Load
  | aPtr : Pointer → Load
  | highImmA : Load
  | aHighImm : Load
  | highCA : Load
  | aHighC : Load
  | absA : Load
  | aAbs : Load
  | absSP : Load
  | pairImm : Pair → Load
  | push : StackPair → Load
  | pop : StackPair → Load
  | hlSpOffset : Load
  | spHL : Load
  deriving DecidableEq, Repr

inductive Arith where
  | alu : AluOp → Operand8 → Arith
  | aluImm : AluOp → Arith
  | inc8 : Operand8 → Arith
  | dec8 : Operand8 → Arith
  | incPair : Pair → Arith
  | decPair : Pair → Arith
  | addHL : Pair → Arith
  | addSP : Arith
  | daa : Arith
  | cpl : Arith
  | scf : Arith
  | ccf : Arith
  deriving DecidableEq, Repr

/-- The second byte of a CB-prefixed instruction. -/
inductive Cb where
  | rot : RotOp → Operand8 → Cb
  | bits : BitOp → BitVec 3 → Operand8 → Cb
  deriving DecidableEq, Repr

/-- The rotations of A that have a byte of their own. -/
inductive RotA where
  | rlca | rrca | rla | rra
  deriving DecidableEq, Repr

inductive Jump where
  | jr : Jump
  | jrIf : Cond → Jump
  | jp : Jump
  | jpIf : Cond → Jump
  | jpHL : Jump
  | call : Jump
  | callIf : Cond → Jump
  | ret : Jump
  | retIf : Cond → Jump
  | reti : Jump
  | rst : BitVec 3 → Jump
  deriving DecidableEq, Repr

inductive System where
  | nop | stop | halt | di | ei
  deriving DecidableEq, Repr

/-- The bytes that are no instruction. -/
def illegalBytes : List Byte :=
  [0xD3, 0xDB, 0xDD, 0xE3, 0xE4, 0xEB, 0xEC, 0xED, 0xF4, 0xFC, 0xFD]

inductive Opcode where
  | load : Load → Opcode
  | arith : Arith → Opcode
  | rotA : RotA → Opcode
  | cb : Cb → Opcode
  | jump : Jump → Opcode
  | system : System → Opcode
  | illegal : {b : Byte // b ∈ illegalBytes} → Opcode
  deriving DecidableEq, Repr

def Operand8.ofBits : BitVec 3 → Operand8
  | 0#3 => .reg .B
  | 1#3 => .reg .C
  | 2#3 => .reg .D
  | 3#3 => .reg .E
  | 4#3 => .reg .H
  | 5#3 => .reg .L
  | 6#3 => .indHL
  | 7#3 => .reg .A

def Reg8.bits : Reg8 → BitVec 3
  | .B => 0
  | .C => 1
  | .D => 2
  | .E => 3
  | .H => 4
  | .L => 5
  | .A => 7

def Operand8.bits : Operand8 → BitVec 3
  | .reg r => r.bits
  | .indHL => 6

def Pair.ofBits : BitVec 2 → Pair
  | 0#2 => .BC
  | 1#2 => .DE
  | 2#2 => .HL
  | 3#2 => .SP

def Pair.bits : Pair → BitVec 2
  | .BC => 0
  | .DE => 1
  | .HL => 2
  | .SP => 3

def StackPair.ofBits : BitVec 2 → StackPair
  | 0#2 => .BC
  | 1#2 => .DE
  | 2#2 => .HL
  | 3#2 => .AF

def StackPair.bits : StackPair → BitVec 2
  | .BC => 0
  | .DE => 1
  | .HL => 2
  | .AF => 3

def Pointer.ofBits : BitVec 2 → Pointer
  | 0#2 => .BC
  | 1#2 => .DE
  | 2#2 => .HLInc
  | 3#2 => .HLDec

def Pointer.bits : Pointer → BitVec 2
  | .BC => 0
  | .DE => 1
  | .HLInc => 2
  | .HLDec => 3

def AluOp.ofBits : BitVec 3 → AluOp
  | 0#3 => .add
  | 1#3 => .adc
  | 2#3 => .sub
  | 3#3 => .sbc
  | 4#3 => .and
  | 5#3 => .xor
  | 6#3 => .or
  | 7#3 => .cp

def AluOp.bits : AluOp → BitVec 3
  | .add => 0
  | .adc => 1
  | .sub => 2
  | .sbc => 3
  | .and => 4
  | .xor => 5
  | .or => 6
  | .cp => 7

def Cond.ofBits : BitVec 2 → Cond
  | 0#2 => .NZ
  | 1#2 => .Z
  | 2#2 => .NC
  | 3#2 => .C

def Cond.bits : Cond → BitVec 2
  | .NZ => 0
  | .Z => 1
  | .NC => 2
  | .C => 3

def RotOp.ofBits : BitVec 3 → RotOp
  | 0#3 => .rlc
  | 1#3 => .rrc
  | 2#3 => .rl
  | 3#3 => .rr
  | 4#3 => .sla
  | 5#3 => .sra
  | 6#3 => .swap
  | 7#3 => .srl

def RotOp.bits : RotOp → BitVec 3
  | .rlc => 0
  | .rrc => 1
  | .rl => 2
  | .rr => 3
  | .sla => 4
  | .sra => 5
  | .swap => 6
  | .srl => 7

def Load.byte : Load → Byte
  | .regReg d s => 1#2 ++ d.bits ++ s.bits
  | .regInd d => 1#2 ++ d.bits ++ 6#3
  | .indReg s => 1#2 ++ 6#3 ++ s.bits
  | .regImm d => 0#2 ++ d.bits ++ 6#3
  | .indImm => 0x36
  | .ptrA p => 0#2 ++ p.bits ++ 0x2#4
  | .aPtr p => 0#2 ++ p.bits ++ 0xA#4
  | .highImmA => 0xE0
  | .aHighImm => 0xF0
  | .highCA => 0xE2
  | .aHighC => 0xF2
  | .absA => 0xEA
  | .aAbs => 0xFA
  | .absSP => 0x08
  | .pairImm p => 0#2 ++ p.bits ++ 0x1#4
  | .push p => 3#2 ++ p.bits ++ 0x5#4
  | .pop p => 3#2 ++ p.bits ++ 0x1#4
  | .hlSpOffset => 0xF8
  | .spHL => 0xF9

def Arith.byte : Arith → Byte
  | .alu op s => 2#2 ++ op.bits ++ s.bits
  | .aluImm op => 3#2 ++ op.bits ++ 6#3
  | .inc8 o => 0#2 ++ o.bits ++ 4#3
  | .dec8 o => 0#2 ++ o.bits ++ 5#3
  | .incPair p => 0#2 ++ p.bits ++ 0x3#4
  | .decPair p => 0#2 ++ p.bits ++ 0xB#4
  | .addHL p => 0#2 ++ p.bits ++ 0x9#4
  | .addSP => 0xE8
  | .daa => 0x27
  | .cpl => 0x2F
  | .scf => 0x37
  | .ccf => 0x3F

def BitOp.bits : BitOp → BitVec 2
  | .bit => 1
  | .res => 2
  | .set => 3

def Cb.byte : Cb → Byte
  | .rot op t => 0#2 ++ op.bits ++ t.bits
  | .bits op n t => op.bits ++ n ++ t.bits

def RotA.byte : RotA → Byte
  | .rlca => 0x07
  | .rrca => 0x0F
  | .rla => 0x17
  | .rra => 0x1F

def Jump.byte : Jump → Byte
  | .jr => 0x18
  | .jrIf c => 1#3 ++ c.bits ++ 0#3
  | .jp => 0xC3
  | .jpIf c => 6#3 ++ c.bits ++ 2#3
  | .jpHL => 0xE9
  | .call => 0xCD
  | .callIf c => 6#3 ++ c.bits ++ 4#3
  | .ret => 0xC9
  | .retIf c => 6#3 ++ c.bits ++ 0#3
  | .reti => 0xD9
  | .rst n => 3#2 ++ n ++ 7#3

def System.byte : System → Byte
  | .nop => 0x00
  | .stop => 0x10
  | .halt => 0x76
  | .di => 0xF3
  | .ei => 0xFB

/-- The first byte of an instruction. -/
def Opcode.byte : Opcode → Byte
  | .load l => l.byte
  | .arith a => a.byte
  | .rotA r => r.byte
  | .cb _ => 0xCB
  | .jump j => j.byte
  | .system s => s.byte
  | .illegal b => b.val

def Load.length : Load → Nat
  | .regImm _ | .indImm | .highImmA | .aHighImm | .hlSpOffset => 2
  | .absA | .aAbs | .absSP | .pairImm _ => 3
  | _ => 1

def Arith.length : Arith → Nat
  | .aluImm _ | .addSP => 2
  | _ => 1

def Jump.length : Jump → Nat
  | .jr | .jrIf _ => 2
  | .jp | .jpIf _ | .call | .callIf _ => 3
  | _ => 1

def System.length : System → Nat
  | .stop => 2
  | _ => 1

/-- The length of an instruction in bytes, its opcode and its operand together. -/
def Opcode.length : Opcode → Nat
  | .load l => l.length
  | .arith a => a.length
  | .rotA _ => 1
  | .cb _ => 2
  | .jump j => j.length
  | .system s => s.length
  | .illegal _ => 1

def decodeCb (b : Byte) : Cb :=
  let y : BitVec 3 := b.extractLsb' 3 3
  let target := Operand8.ofBits (b.extractLsb' 0 3)
  match (b.extractLsb' 6 2 : BitVec 2) with
  | 0#2 => .rot (.ofBits y) target
  | 1#2 => .bits .bit y target
  | 2#2 => .bits .res y target
  | 3#2 => .bits .set y target

/-- Opcodes 00 to 3F, by their middle and low fields. -/
def decodeBlock0 (y z : BitVec 3) : Opcode :=
  let p : BitVec 2 := y.extractLsb' 1 2
  let q : Bool := y.getLsbD 0
  match z with
  | 0#3 =>
    match y with
    | 0#3 => .system .nop
    | 1#3 => .load .absSP
    | 2#3 => .system .stop
    | 3#3 => .jump .jr
    | _ => .jump (.jrIf (.ofBits (y.extractLsb' 0 2)))
  | 1#3 => if q then .arith (.addHL (.ofBits p)) else .load (.pairImm (.ofBits p))
  | 2#3 => if q then .load (.aPtr (.ofBits p)) else .load (.ptrA (.ofBits p))
  | 3#3 => if q then .arith (.decPair (.ofBits p)) else .arith (.incPair (.ofBits p))
  | 4#3 => .arith (.inc8 (.ofBits y))
  | 5#3 => .arith (.dec8 (.ofBits y))
  | 6#3 =>
    match Operand8.ofBits y with
    | .reg r => .load (.regImm r)
    | .indHL => .load .indImm
  | 7#3 =>
    match y with
    | 0#3 => .rotA .rlca
    | 1#3 => .rotA .rrca
    | 2#3 => .rotA .rla
    | 3#3 => .rotA .rra
    | 4#3 => .arith .daa
    | 5#3 => .arith .cpl
    | 6#3 => .arith .scf
    | 7#3 => .arith .ccf

/-- Opcodes 40 to 7F: a load from HL to HL would be here, and is HALT instead. -/
def decodeBlock1 (y z : BitVec 3) : Opcode :=
  match Operand8.ofBits y, Operand8.ofBits z with
  | .reg d, .reg s => .load (.regReg d s)
  | .reg d, .indHL => .load (.regInd d)
  | .indHL, .reg s => .load (.indReg s)
  | .indHL, .indHL => .system .halt

/-- Opcodes C0 to FF, without the CB prefix. -/
def decodeBlock3 (y z : BitVec 3) : Option Opcode :=
  let p : BitVec 2 := y.extractLsb' 1 2
  let c := Cond.ofBits (y.extractLsb' 0 2)
  match z with
  | 0#3 =>
    match y with
    | 4#3 => some (.load .highImmA)
    | 5#3 => some (.arith .addSP)
    | 6#3 => some (.load .aHighImm)
    | 7#3 => some (.load .hlSpOffset)
    | _ => some (.jump (.retIf c))
  | 1#3 =>
    match y with
    | 1#3 => some (.jump .ret)
    | 3#3 => some (.jump .reti)
    | 5#3 => some (.jump .jpHL)
    | 7#3 => some (.load .spHL)
    | _ => some (.load (.pop (.ofBits p)))
  | 2#3 =>
    match y with
    | 4#3 => some (.load .highCA)
    | 5#3 => some (.load .absA)
    | 6#3 => some (.load .aHighC)
    | 7#3 => some (.load .aAbs)
    | _ => some (.jump (.jpIf c))
  | 3#3 =>
    match y with
    | 0#3 => some (.jump .jp)
    | 1#3 => none
    | 2#3 => some (.illegal ⟨0xD3, by decide⟩)
    | 3#3 => some (.illegal ⟨0xDB, by decide⟩)
    | 4#3 => some (.illegal ⟨0xE3, by decide⟩)
    | 5#3 => some (.illegal ⟨0xEB, by decide⟩)
    | 6#3 => some (.system .di)
    | 7#3 => some (.system .ei)
  | 4#3 =>
    match y with
    | 4#3 => some (.illegal ⟨0xE4, by decide⟩)
    | 5#3 => some (.illegal ⟨0xEC, by decide⟩)
    | 6#3 => some (.illegal ⟨0xF4, by decide⟩)
    | 7#3 => some (.illegal ⟨0xFC, by decide⟩)
    | _ => some (.jump (.callIf c))
  | 5#3 =>
    match y with
    | 1#3 => some (.jump .call)
    | 3#3 => some (.illegal ⟨0xDD, by decide⟩)
    | 5#3 => some (.illegal ⟨0xED, by decide⟩)
    | 7#3 => some (.illegal ⟨0xFD, by decide⟩)
    | _ => some (.load (.push (.ofBits p)))
  | 6#3 => some (.arith (.aluImm (.ofBits y)))
  | 7#3 => some (.jump (.rst y))

/-- An opcode that is one byte by itself; `none` is the CB prefix. -/
def decodeMain (b : Byte) : Option Opcode :=
  let y : BitVec 3 := b.extractLsb' 3 3
  let z : BitVec 3 := b.extractLsb' 0 3
  match (b.extractLsb' 6 2 : BitVec 2) with
  | 0#2 => some (decodeBlock0 y z)
  | 1#2 => some (decodeBlock1 y z)
  | 2#2 => some (.arith (.alu (.ofBits y) (.ofBits z)))
  | 3#2 => decodeBlock3 y z

/-- The opcode of an instruction that starts with these two bytes. -/
def decode (b₀ b₁ : Byte) : Opcode := (decodeMain b₀).getD (.cb (decodeCb b₁))

theorem decodeMain_none_iff : ∀ b : Byte, decodeMain b = none ↔ b = 0xCB := by decide +kernel

/-- An opcode byte is recovered from the opcode that it decodes to. -/
theorem decodeMain_byte : ∀ b : Byte, ∀ o ∈ decodeMain b, o.byte = b := by decide +kernel

@[simp] theorem decodeCb_byte : ∀ b : Byte, (decodeCb b).byte = b := by decide +kernel

@[simp] theorem decode_byte (b₀ b₁ : Byte) : (decode b₀ b₁).byte = b₀ := by
  unfold decode
  cases h : decodeMain b₀ with
  | none => exact ((decodeMain_none_iff b₀).mp h).symm
  | some o => exact decodeMain_byte b₀ o h

/-- What is checked of a first byte holds of the instruction that it starts. -/
theorem decode_of_any {p : Opcode → Bool} {b₀ : Byte} (h : (decodeMain b₀).any p) (b₁ : Byte) :
    p (decode b₀ b₁) := by
  unfold decode
  cases hm : decodeMain b₀ with
  | none => rw [hm] at h; cases h
  | some o => rw [hm] at h; exact h

theorem decode_prefix (b : Byte) : decode 0xCB b = .cb (decodeCb b) := rfl

theorem decode_cb_iff (b₀ b₁ : Byte) : (∃ c, decode b₀ b₁ = .cb c) ↔ b₀ = 0xCB := by
  constructor
  · rintro ⟨c, h⟩
    rw [← decode_byte b₀ b₁, h]
    rfl
  · rintro rfl
    exact ⟨_, decode_prefix b₁⟩

theorem decode_eq_of_ne (b₀ b₁ b₁' : Byte) (h : b₀ ≠ 0xCB) :
    decode b₀ b₁ = decode b₀ b₁' := by
  unfold decode
  cases hm : decodeMain b₀ with
  | none => exact absurd ((decodeMain_none_iff b₀).mp hm) h
  | some o => rfl

/-- Every instruction is one, two or three bytes long. -/
theorem length_cases (o : Opcode) : o.length = 1 ∨ o.length = 2 ∨ o.length = 3 := by
  cases o with
  | load l => cases l <;> simp [Opcode.length, Load.length]
  | arith a => cases a <;> simp [Opcode.length, Arith.length]
  | jump j => cases j <;> simp [Opcode.length, Jump.length]
  | system s => cases s <;> simp [Opcode.length, System.length]
  | rotA r => exact .inl rfl
  | cb c => exact .inr (.inl rfl)
  | illegal b => exact .inl rfl

/-- A case split over a 3-bit field. -/
theorem forall_bits3 (P : BitVec 3 → Prop) (h0 : P 0) (h1 : P 1) (h2 : P 2) (h3 : P 3)
    (h4 : P 4) (h5 : P 5) (h6 : P 6) (h7 : P 7) (k : BitVec 3) : P k := by
  match k with
  | 0#3 => exact h0
  | 1#3 => exact h1
  | 2#3 => exact h2
  | 3#3 => exact h3
  | 4#3 => exact h4
  | 5#3 => exact h5
  | 6#3 => exact h6
  | 7#3 => exact h7

end Sm83
