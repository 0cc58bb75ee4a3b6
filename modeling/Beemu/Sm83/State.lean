import Beemu.Sm83.Opcode
import Mathlib.Logic.Function.Basic
import Mathlib.Tactic.IntervalCases

/-!
# SM83 machine states

The part of a machine that an instruction can see: seven byte registers, the flag byte, SP,
PC and 65536 bytes of memory. The interrupt switch and the halted mode are left out. Every access
is a `set` with its laws, so that the effect of an instruction is a composition of sets.
-/

namespace Sm83

/-- A word from its high and its low byte. -/
def word (h l : Byte) : Word := (h.setWidth 16 <<< 8) ||| l.setWidth 16

def hi (w : Word) : Byte := (w >>> 8).setWidth 8
def lo (w : Word) : Byte := w.setWidth 8

@[simp] theorem hi_word (h l : Byte) : hi (word h l) = h := by
  ext i hi
  interval_cases i <;> simp [Sm83.hi, word]

@[simp] theorem lo_word (h l : Byte) : lo (word h l) = l := by
  ext i hi
  interval_cases i <;> simp [lo, word]

@[simp] theorem word_hi_lo (w : Word) : word (hi w) (lo w) = w := by
  ext i h
  interval_cases i <;> simp [hi, lo, word]

def Pointer.pair : Pointer → Pair
  | .BC => .BC
  | .DE => .DE
  | .HLInc => .HL
  | .HLDec => .HL

/-- What a pointer field adds to HL. -/
def Pointer.step : Pointer → Word
  | .BC | .DE => 0
  | .HLInc => 1
  | .HLDec => -1

inductive Flag where
  | Z | N | H | C
  deriving DecidableEq, Repr

/-- The place of a flag in the flag byte. -/
def Flag.pos : Flag → Nat
  | .Z => 7
  | .N => 6
  | .H => 5
  | .C => 4

/-- The flag byte with one of its flags set to `b`. -/
def setFlag (f : Byte) (k : Flag) (b : Bool) : Byte :=
  (f &&& ~~~(1#8 <<< k.pos)) ||| ((BitVec.ofBool b).setWidth 8 <<< k.pos)

def getFlag (f : Byte) (k : Flag) : Bool := f.getLsbD k.pos

@[simp] theorem getFlag_setFlag (k : Flag) (b : Bool) :
    ∀ f : Byte, getFlag (setFlag f k b) k = b := by
  cases k <;> cases b <;> decide +kernel

/-- Flags are independent of each other. -/
theorem getFlag_setFlag_other (k j : Flag) (b : Bool) (h : j ≠ k) :
    ∀ f : Byte, getFlag (setFlag f k b) j = getFlag f j := by
  cases k <;> cases j <;> first | exact absurd rfl h | (cases b <;> decide +kernel)

/-- A flag is one bit of its byte. -/
theorem getLsbD_setFlag (f : Byte) (k : Flag) (b : Bool) (i : Nat) :
    (setFlag f k b).getLsbD i = if i = k.pos then b else f.getLsbD i := by
  have hk : k.pos < 8 := by cases k <;> decide
  by_cases hi : i < 8
  · have h₁ : (1#8 <<< k.pos).getLsbD i = decide (i = k.pos) := by
      cases k <;> interval_cases i <;> rfl
    have hb : ((BitVec.ofBool b).setWidth 8 <<< k.pos).getLsbD i = (decide (i = k.pos) && b) := by
      cases k <;> cases b <;> interval_cases i <;> rfl
    rw [setFlag, BitVec.getLsbD_or, BitVec.getLsbD_and, BitVec.getLsbD_not, h₁, hb]
    by_cases h : i = k.pos <;> simp [h, hi]
  · have h : i ≠ k.pos := by omega
    have hle := Nat.le_of_not_lt hi
    rw [if_neg h, BitVec.getLsbD_of_ge _ _ hle, BitVec.getLsbD_of_ge _ _ hle]

@[ext] structure State where
  reg : Reg8 → Byte
  f : Byte
  sp : Word
  pc : Word
  mem : Word → Byte

namespace State

def setReg (s : State) (r : Reg8) (v : Byte) : State :=
  { s with reg := Function.update s.reg r v }
def setF (s : State) (v : Byte) : State := { s with f := v }
def setSp (s : State) (v : Word) : State := { s with sp := v }
def setPc (s : State) (v : Word) : State := { s with pc := v }
def setMem (s : State) (a : Word) (v : Byte) : State :=
  { s with mem := Function.update s.mem a v }

section Fields

variable (s : State) (r : Reg8) (v : Byte) (a w : Word)

@[simp] theorem setReg_reg : (s.setReg r v).reg = Function.update s.reg r v := rfl
@[simp] theorem setReg_f : (s.setReg r v).f = s.f := rfl
@[simp] theorem setReg_sp : (s.setReg r v).sp = s.sp := rfl
@[simp] theorem setReg_pc : (s.setReg r v).pc = s.pc := rfl
@[simp] theorem setReg_mem : (s.setReg r v).mem = s.mem := rfl
@[simp] theorem setF_reg : (s.setF v).reg = s.reg := rfl
@[simp] theorem setF_f : (s.setF v).f = v := rfl
@[simp] theorem setF_sp : (s.setF v).sp = s.sp := rfl
@[simp] theorem setF_pc : (s.setF v).pc = s.pc := rfl
@[simp] theorem setF_mem : (s.setF v).mem = s.mem := rfl
@[simp] theorem setSp_reg : (s.setSp w).reg = s.reg := rfl
@[simp] theorem setSp_f : (s.setSp w).f = s.f := rfl
@[simp] theorem setSp_sp : (s.setSp w).sp = w := rfl
@[simp] theorem setSp_pc : (s.setSp w).pc = s.pc := rfl
@[simp] theorem setSp_mem : (s.setSp w).mem = s.mem := rfl
@[simp] theorem setPc_reg : (s.setPc w).reg = s.reg := rfl
@[simp] theorem setPc_f : (s.setPc w).f = s.f := rfl
@[simp] theorem setPc_sp : (s.setPc w).sp = s.sp := rfl
@[simp] theorem setPc_pc : (s.setPc w).pc = w := rfl
@[simp] theorem setPc_mem : (s.setPc w).mem = s.mem := rfl
@[simp] theorem setMem_reg : (s.setMem a v).reg = s.reg := rfl
@[simp] theorem setMem_f : (s.setMem a v).f = s.f := rfl
@[simp] theorem setMem_sp : (s.setMem a v).sp = s.sp := rfl
@[simp] theorem setMem_pc : (s.setMem a v).pc = s.pc := rfl
@[simp] theorem setMem_mem : (s.setMem a v).mem = Function.update s.mem a v := rfl

end Fields

def flag (s : State) (k : Flag) : Bool := getFlag s.f k
def setFlag (s : State) (k : Flag) (b : Bool) : State := s.setF (Sm83.setFlag s.f k b)

/-- Two byte registers written as one word. -/
def setRegs (s : State) (h l : Reg8) (w : Word) : State := (s.setReg h (hi w)).setReg l (lo w)

def pair (s : State) : Pair → Word
  | .BC => word (s.reg .B) (s.reg .C)
  | .DE => word (s.reg .D) (s.reg .E)
  | .HL => word (s.reg .H) (s.reg .L)
  | .SP => s.sp

/-- A pair is written as its two halves. -/
def setPair (s : State) (p : Pair) (w : Word) : State :=
  match p with
  | .BC => s.setRegs .B .C w
  | .DE => s.setRegs .D .E w
  | .HL => s.setRegs .H .L w
  | .SP => s.setSp w

def stackPair (s : State) : StackPair → Word
  | .BC => s.pair .BC
  | .DE => s.pair .DE
  | .HL => s.pair .HL
  | .AF => word (s.reg .A) s.f

/-- AF takes the word as it is; the low half of F is masked where POP AF is executed. -/
def setStackPair (s : State) (p : StackPair) (w : Word) : State :=
  match p with
  | .BC => s.setPair .BC w
  | .DE => s.setPair .DE w
  | .HL => s.setPair .HL w
  | .AF => (s.setReg .A (hi w)).setF (lo w)

def operand8 (s : State) : Operand8 → Byte
  | .reg r => s.reg r
  | .indHL => s.mem (s.pair .HL)

/-- Writes a register, or the byte at HL. -/
def setOperand8 (s : State) (o : Operand8) (v : Byte) : State :=
  match o with
  | .reg r => s.setReg r v
  | .indHL => s.setMem (s.pair .HL) v

@[simp] theorem pair_setPair (s : State) (p : Pair) (w : Word) : (s.setPair p w).pair p = w := by
  cases p <;> simp [setPair, pair, setRegs]

/-- Writing what is there changes nothing. -/
theorem setPair_pair (s : State) (p : Pair) : s.setPair p (s.pair p) = s := by
  cases p with
  | BC | DE | HL =>
    refine State.ext ?_ rfl rfl rfl rfl
    simp only [setPair, setRegs, pair, setReg_reg, hi_word, lo_word, Function.update_eq_self]
  | SP => rfl

/-! PC is apart from everything else, so that it can be set last. -/

section ProgramCounter

variable (s : State) (pc w : Word)

@[simp] theorem setReg_setPc (r : Reg8) (v : Byte) :
    (s.setPc pc).setReg r v = (s.setReg r v).setPc pc := rfl
@[simp] theorem setF_setPc (v : Byte) : (s.setPc pc).setF v = (s.setF v).setPc pc := rfl
@[simp] theorem setSp_setPc : (s.setPc pc).setSp w = (s.setSp w).setPc pc := rfl
@[simp] theorem setMem_setPc (a : Word) (v : Byte) :
    (s.setPc pc).setMem a v = (s.setMem a v).setPc pc := rfl
@[simp] theorem setFlag_setPc (k : Flag) (b : Bool) :
    (s.setPc pc).setFlag k b = (s.setFlag k b).setPc pc := rfl
@[simp] theorem flag_setPc (k : Flag) : (s.setPc pc).flag k = s.flag k := rfl
@[simp] theorem pair_setPc (p : Pair) : (s.setPc pc).pair p = s.pair p := by
  cases p <;> rfl
@[simp] theorem stackPair_setPc (p : StackPair) : (s.setPc pc).stackPair p = s.stackPair p := by
  cases p <;> rfl
@[simp] theorem setPair_setPc (p : Pair) :
    (s.setPc pc).setPair p w = (s.setPair p w).setPc pc := by
  cases p <;> rfl
@[simp] theorem setStackPair_setPc (p : StackPair) :
    (s.setPc pc).setStackPair p w = (s.setStackPair p w).setPc pc := by
  cases p <;> rfl

end ProgramCounter

theorem setReg_comm (s : State) {r q : Reg8} (h : r ≠ q) (v w : Byte) :
    (s.setReg r v).setReg q w = (s.setReg q w).setReg r v := by
  have hu : Function.update (Function.update s.reg r v) q w =
      Function.update (Function.update s.reg q w) r v := Function.update_comm h v w s.reg
  exact State.ext hu rfl rfl rfl rfl

@[simp] theorem setSp_setSp (s : State) (v w : Word) : (s.setSp v).setSp w = s.setSp w := rfl
@[simp] theorem setMem_setSp (s : State) (w a : Word) (v : Byte) :
    (s.setSp w).setMem a v = (s.setMem a v).setSp w := rfl
@[simp] theorem pair_setMem (s : State) (a : Word) (v : Byte) (p : Pair) :
    (s.setMem a v).pair p = s.pair p := by
  cases p <;> rfl
@[simp] theorem flag_setSp (s : State) (w : Word) (k : Flag) : (s.setSp w).flag k = s.flag k := rfl
@[simp] theorem setPair_SP (s : State) (w : Word) : s.setPair .SP w = s.setSp w := rfl

/-- A pair reads as the word that it was set to, AF too. -/
@[simp] theorem stackPair_setStackPair (s : State) (p : StackPair) (w : Word) :
    (s.setStackPair p w).stackPair p = w := by
  cases p <;> simp [setStackPair, stackPair]

end State

end Sm83
