import Beemu.Sm83.Exec

/-!
# BIT, RES and SET

RES and SET put one bit of an operand, BIT asks for it. What RES and SET do to a state is said
bit by bit, so that a history of them can be read off.
-/

namespace Sm83

/-- A byte with bit `n` put to `b`. -/
def putBit (v : Byte) (n : BitVec 3) (b : Bool) : Byte :=
  if b then v ||| 1#8 <<< n.toNat else v &&& ~~~(1#8 <<< n.toNat)

theorem getLsbD_putBit (v : Byte) (n : BitVec 3) (b : Bool) (i : Nat) :
    (putBit v n b).getLsbD i = if i = n.toNat then b else v.getLsbD i := by
  have hn := n.isLt
  by_cases hi : i < 8
  · have h1 : (1#8 <<< n.toNat).getLsbD i = decide (i = n.toNat) := by
      rw [← BitVec.twoPow_eq, BitVec.getLsbD_twoPow]
      by_cases h : i = n.toNat
      · simp [h, hn]
      · simp [h, Ne.symm h]
    cases b with
    | false =>
      rw [putBit, if_neg (by decide), BitVec.getLsbD_and, BitVec.getLsbD_not, h1]
      by_cases h : i = n.toNat <;> simp [h, hi]
    | true =>
      rw [putBit, if_pos rfl, BitVec.getLsbD_or, h1]
      by_cases h : i = n.toNat <;> simp [h]
  · have h : i ≠ n.toNat := by omega
    have hle := Nat.le_of_not_lt hi
    rw [if_neg h, BitVec.getLsbD_of_ge _ _ hle, BitVec.getLsbD_of_ge _ _ hle]

/-- BIT writes Z with the complement of the bit; RES and SET touch no flag. -/
def BitOp.exec (op : BitOp) (n : BitVec 3) (o : Operand8) (s : State) : State :=
  match op with
  | .bit => s.setZnh (!(s.operand8 o).getLsbD n.toNat) false true
  | .res => s.setOperand8 o (putBit (s.operand8 o) n false)
  | .set => s.setOperand8 o (putBit (s.operand8 o) n true)

@[simp] theorem State.operand8_setOperand8 (s : State) (o : Operand8) (v : Byte) :
    (s.setOperand8 o v).operand8 o = v := by
  cases o with
  | reg r => exact Function.update_self r v s.reg
  | indHL => exact Function.update_self (s.pair .HL) v s.mem

@[simp] theorem State.operand8_setPc (s : State) (o : Operand8) (pc : Word) :
    (s.setPc pc).operand8 o = s.operand8 o := by
  cases o <;> rfl

/-- A RES or a SET: an operand, a bit of it, and the value that the bit is forced to. -/
structure Force where
  operand : Operand8
  place : BitVec 3
  value : Bool
  deriving DecidableEq, Repr

def Force.op (f : Force) : BitOp := if f.value then .set else .res

def Force.opcode (f : Force) : Opcode := .cb (.bits f.op f.place f.operand)

/-- One bit of the operand is forced, and everything else but PC is as it was. -/
structure ForcesBit (f : Force) (s t : State) : Prop where
  forced : (t.operand8 f.operand).getLsbD f.place.toNat = f.value
  kept : ∀ i, i ≠ f.place.toNat →
    (t.operand8 f.operand).getLsbD i = (s.operand8 f.operand).getLsbD i
  reg : ∀ r, f.operand ≠ .reg r → t.reg r = s.reg r
  mem : ∀ a, (f.operand = .indHL → a ≠ s.pair .HL) → t.mem a = s.mem a
  flags : t.f = s.f
  sp : t.sp = s.sp

theorem Force.exec_eq (f : Force) (s : State) :
    f.op.exec f.place f.operand s =
      s.setOperand8 f.operand (putBit (s.operand8 f.operand) f.place f.value) := by
  cases hb : f.value <;> rw [Force.op, hb] <;> rfl

theorem forcesBit_exec (f : Force) (s : State) (pc : Word) :
    ForcesBit f s ((f.op.exec f.place f.operand s).setPc pc) := by
  rw [f.exec_eq]
  constructor
  · rw [State.operand8_setPc, State.operand8_setOperand8, getLsbD_putBit, if_pos rfl]
  · intro i hi
    rw [State.operand8_setPc, State.operand8_setOperand8, getLsbD_putBit, if_neg hi]
  · intro r hr
    cases ho : f.operand with
    | reg q =>
      have hq : r ≠ q := fun h => hr (by rw [ho, h])
      exact Function.update_of_ne hq _ _
    | indHL => rfl
  · intro a ha
    cases ho : f.operand with
    | reg q => rfl
    | indHL => exact Function.update_of_ne (ha ho) _ _
  · cases f.operand <;> rfl
  · cases f.operand <;> rfl

/-- Bit by bit, what is forced on an operand is a write of one of its eight cells. -/
theorem ForcesBit.read {f : Force} {s t : State} (h : ForcesBit f s t) (i : BitVec 3) :
    (t.operand8 f.operand).getLsbD i.toNat =
      if f.place = i then f.value else (s.operand8 f.operand).getLsbD i.toNat := by
  by_cases hi : f.place = i
  · rw [if_pos hi, ← hi]
    exact h.forced
  · rw [if_neg hi]
    apply h.kept
    intro he
    exact hi (BitVec.eq_of_toNat_eq he.symm)

end Sm83
