import Beemu.Sm83.State

/-!
# What SM83 instructions do

The effect of a load or of an instruction of the arithmetic unit on a state. Operand bytes
are handed over apart from the opcode; PC is left where it is, since fetching moves it.
-/

namespace Sm83

/-- The borrow that `x - y - c` takes from bit `i`, the counterpart of `BitVec.carry`. -/
def borrow {w : Nat} (i : Nat) (x y : BitVec w) (c : Bool) : Bool :=
  decide (x.toNat % 2 ^ i < y.toNat % 2 ^ i + c.toNat)

namespace AluOp

/-- The number that an operation stands for, not yet cut to a byte. -/
def value (op : AluOp) (x y : Byte) (c : Bool) : Int :=
  match op with
  | .add => x.toNat + y.toNat
  | .adc => x.toNat + y.toNat + c.toNat
  | .sub | .cp => x.toNat - y.toNat
  | .sbc => x.toNat - y.toNat - c.toNat
  | .and => (x &&& y).toNat
  | .xor => (x ^^^ y).toNat
  | .or => (x ||| y).toNat

def result (op : AluOp) (x y : Byte) (c : Bool) : Byte := BitVec.ofInt 8 (op.value x y c)

def subtracts : AluOp → Bool
  | .sub | .sbc | .cp => true
  | _ => false

/-- The carry or borrow into bit `i`, that is, out of the `i` bits below it. -/
def carryInto (op : AluOp) (i : Nat) (x y : Byte) (c : Bool) : Bool :=
  match op with
  | .add => BitVec.carry i x y false
  | .adc => BitVec.carry i x y c
  | .sub | .cp => borrow i x y false
  | .sbc => borrow i x y c
  | .and | .xor | .or => false

def half (op : AluOp) (x y : Byte) (c : Bool) : Bool :=
  match op with
  | .and => true
  | _ => op.carryInto 4 x y c

theorem value_range (op : AluOp) (x y : Byte) (c : Bool) :
    -256 ≤ op.value x y c ∧ op.value x y c < 512 := by
  have hx := x.isLt
  have hy := y.isLt
  have hc : c.toNat ≤ 1 := Bool.toNat_le c
  have ha := (x &&& y).isLt
  have hxor := (x ^^^ y).isLt
  have ho := (x ||| y).isLt
  cases op <;> simp only [value] <;> omega

/-- The carry out of the byte is set when the number does not fit. -/
theorem carryInto_eight (op : AluOp) (x y : Byte) (c : Bool) :
    op.carryInto 8 x y c = true ↔ op.value x y c < 0 ∨ 256 ≤ op.value x y c := by
  have hx := x.isLt
  have hy := y.isLt
  have hc : c.toNat ≤ 1 := Bool.toNat_le c
  have ha := (x &&& y).isLt
  have hxor := (x ^^^ y).isLt
  have ho := (x ||| y).isLt
  cases op <;>
    simp only [carryInto, value, BitVec.carry, borrow, decide_eq_true_eq, Bool.toNat_false,
      Bool.false_eq_true, false_iff] <;> omega

theorem result_add : AluOp.add.result = fun x y _ => x + y := by
  funext x y c
  apply BitVec.eq_of_toNat_eq
  rw [result, BitVec.toNat_ofInt, BitVec.toNat_add]
  simp only [value]
  omega

theorem result_sub : AluOp.sub.result = fun x y _ => x - y := by
  funext x y c
  apply BitVec.eq_of_toNat_eq
  rw [result, BitVec.toNat_ofInt, BitVec.toNat_sub]
  simp only [value]
  omega

end AluOp

namespace State

/-- Z, N and H at once. -/
def setZnh (s : State) (z n h : Bool) : State :=
  ((s.setFlag .Z z).setFlag .N n).setFlag .H h

def setZnhc (s : State) (z n h c : Bool) : State := (s.setZnh z n h).setFlag .C c

@[simp] theorem setZnh_setPc (s : State) (pc : Word) (z n h : Bool) :
    (s.setPc pc).setZnh z n h = (s.setZnh z n h).setPc pc := rfl
@[simp] theorem setZnhc_setPc (s : State) (pc : Word) (z n h c : Bool) :
    (s.setPc pc).setZnhc z n h c = (s.setZnhc z n h c).setPc pc := rfl

@[simp] theorem pair_setZnhc (s : State) (z n h c : Bool) (p : Pair) :
    (s.setZnhc z n h c).pair p = s.pair p := by
  cases p <;> rfl

theorem setReg_setZnhc (s : State) (r : Reg8) (v : Byte) (z n h c : Bool) :
    (s.setZnhc z n h c).setReg r v = (s.setReg r v).setZnhc z n h c := rfl

theorem flag_setZnh (s : State) (z n h : Bool) (k : Flag) :
    (s.setZnh z n h).flag k =
      match k with
      | .Z => z
      | .N => n
      | .H => h
      | .C => s.flag .C := by
  cases k <;> simp [setZnh, flag, setFlag, getFlag_setFlag_other]

theorem flag_setZnhc (s : State) (z n h c : Bool) (k : Flag) :
    (s.setZnhc z n h c).flag k =
      match k with
      | .Z => z
      | .N => n
      | .H => h
      | .C => c := by
  cases k <;> simp [setZnhc, setZnh, flag, setFlag, getFlag_setFlag_other]

/-- The flags written last are the ones that stay. -/
theorem setZnhc_setZnhc (s : State) (z n h c z' n' h' c' : Bool) :
    (s.setZnhc z n h c).setZnhc z' n' h' c' = s.setZnhc z' n' h' c' := by
  refine State.ext rfl ?_ rfl rfl rfl
  ext i hi
  simp only [setZnhc, setZnh, setFlag, setF_f, getLsbD_setFlag, ← BitVec.getLsbD_eq_getElem]
  split_ifs <;> rfl

theorem setReg_self (s : State) (r : Reg8) : s.setReg r (s.reg r) = s :=
  State.ext (Function.update_eq_self r s.reg) rfl rfl rfl rfl

/-- A flag written with its own value stays as it is. -/
theorem setFlag_self (s : State) (k : Flag) : s.setFlag k (s.flag k) = s := by
  refine State.ext rfl ?_ rfl rfl rfl
  ext i hi
  rw [← BitVec.getLsbD_eq_getElem, ← BitVec.getLsbD_eq_getElem]
  simp only [setFlag, setF_f, getLsbD_setFlag]
  split_ifs with h
  · rw [h]
    rfl
  · rfl

theorem setZnh_eq (s : State) (z n h : Bool) : s.setZnh z n h = s.setZnhc z n h (s.flag .C) := by
  have hc : (s.setZnh z n h).flag .C = s.flag .C := flag_setZnh s z n h .C
  rw [setZnhc, ← hc, setFlag_self]

theorem setZnhc_flag (s : State) :
    s.setZnhc (s.flag .Z) (s.flag .N) (s.flag .H) (s.flag .C) = s := by
  rw [← setZnh_eq, setZnh, setFlag_self, setFlag_self, setFlag_self]

/-- An operation on A; a comparison leaves A as it is. -/
def alu (s : State) (op : AluOp) (y : Byte) : State :=
  let x := s.reg .A
  let c := s.flag .C
  let r := op.result x y c
  (if op = .cp then s else s.setReg .A r).setZnhc (r = 0) op.subtracts (op.half x y c)
    (op.carryInto 8 x y c)

/-- What a load through a pointer does to HL. -/
def stepPointer (s : State) : Pointer → State
  | .BC | .DE => s
  | .HLInc => s.setPair .HL (s.pair .HL + Pointer.HLInc.step)
  | .HLDec => s.setPair .HL (s.pair .HL + Pointer.HLDec.step)

theorem pair_setReg_A (s : State) (v : Byte) (p : Pair) : (s.setReg .A v).pair p = s.pair p := by
  cases p <;> rfl

theorem pair_stepPointer (s : State) (p : Pointer) :
    (s.stepPointer p).pair .HL = s.pair .HL + p.step := by
  cases p with
  | BC | DE => exact (BitVec.add_zero _).symm
  | HLInc | HLDec => rw [stepPointer, pair_setPair]

/-- SP with a signed byte added, and the flags of the addition to its low byte. -/
def spOffset (s : State) (e : Byte) : Word := s.sp + e.signExtend 16

def setSpOffsetFlags (s : State) (e : Byte) : State :=
  s.setZnhc false false (BitVec.carry 4 (lo s.sp) e false) (BitVec.carry 8 (lo s.sp) e false)

end State

def highAddress (n : Byte) : Word := n.setWidth 16 + 0xFF00

open State in
/-- A load that moves whole bytes; `n` and `nn` are its operand as a byte and as a word. -/
def Load.exec (l : Load) (n : Byte) (nn : Word) (s : State) : State :=
  match l with
  | .regReg d r => s.setReg d (s.reg r)
  | .regInd d => s.setReg d (s.mem (s.pair .HL))
  | .indReg r => s.setMem (s.pair .HL) (s.reg r)
  | .regImm d => s.setReg d n
  | .indImm => s.setMem (s.pair .HL) n
  | .ptrA p => (s.setMem (s.pair p.pair) (s.reg .A)).stepPointer p
  | .aPtr p => (s.stepPointer p).setReg .A (s.mem (s.pair p.pair))
  | .highImmA => s.setMem (highAddress n) (s.reg .A)
  | .aHighImm => s.setReg .A (s.mem (highAddress n))
  | .highCA => s.setMem (highAddress (s.reg .C)) (s.reg .A)
  | .aHighC => s.setReg .A (s.mem (highAddress (s.reg .C)))
  | .absA => s.setMem nn (s.reg .A)
  | .aAbs => s.setReg .A (s.mem nn)
  | .absSP => (s.setMem nn (lo s.sp)).setMem (nn + 1) (hi s.sp)
  | .pairImm p => s.setPair p nn
  | .push p => ((s.setMem (s.sp - 1) (hi (s.stackPair p))).setMem (s.sp - 2)
      (lo (s.stackPair p))).setSp (s.sp - 2)
  | .pop p => (s.setSp (s.sp + 2)).setStackPair p (word (s.mem (s.sp + 1)) (s.mem s.sp))
  | .hlSpOffset => (s.setPair .HL (s.spOffset n)).setSpOffsetFlags n
  | .spHL => s.setSp (s.pair .HL)

/-- What DAA adds to A, or takes from it after a subtraction. -/
def State.daaAdjustment (s : State) : Byte :=
  let a := s.reg .A
  let low : Bool := s.flag .H || (!s.flag .N && 9 < (a &&& 0x0F).toNat)
  let high : Bool := s.flag .C || (!s.flag .N && 0x99 < a.toNat)
  (if low then 0x06 else 0) + (if high then 0x60 else 0)

def State.daa (s : State) : State :=
  let a := s.reg .A
  let r := if s.flag .N then a - s.daaAdjustment else a + s.daaAdjustment
  (s.setReg .A r).setZnhc (r = 0) (s.flag .N) false
    (s.flag .C || (!s.flag .N && 0x99 < a.toNat))

/-- An instruction of the arithmetic unit; `n` is its operand byte. -/
def Arith.exec (a : Arith) (n : Byte) (s : State) : State :=
  match a with
  | .alu op o => s.alu op (s.operand8 o)
  | .aluImm op => s.alu op n
  | .inc8 o =>
    let v := s.operand8 o
    (s.setOperand8 o (v + 1)).setZnh (v + 1 = 0) false (BitVec.carry 4 v 1 false)
  | .dec8 o =>
    let v := s.operand8 o
    (s.setOperand8 o (v - 1)).setZnh (v - 1 = 0) true (borrow 4 v 1 false)
  | .incPair p => s.setPair p (s.pair p + 1)
  | .decPair p => s.setPair p (s.pair p - 1)
  | .addHL p =>
    let hl := s.pair .HL
    (s.setPair .HL (hl + s.pair p)).setZnhc (s.flag .Z) false
      (BitVec.carry 12 hl (s.pair p) false) (BitVec.carry 16 hl (s.pair p) false)
  | .addSP => (s.setSpOffsetFlags n).setSp (s.spOffset n)
  | .daa => s.daa
  | .cpl => ((s.setReg .A (~~~ s.reg .A)).setFlag .N true).setFlag .H true
  | .scf => s.setZnhc (s.flag .Z) false false true
  | .ccf => s.setZnhc (s.flag .Z) false false (!s.flag .C)

end Sm83
