import Beemu.Lib.Turning
import Beemu.Primitives
import Mathlib.Algebra.Group.Int.Defs

/-!
# Rotating a byte

One function shifts and rotates in both directions, with the bit beside the byte or without it. A
rotation to the right is a rotation to the left, in eight bits, that is then moved back by two.
-/

namespace Beemu

open Turning

/-- `BeemuByteTuple` -/
structure ByteTuple where
  first : U8
  second : U8
  deriving DecidableEq, Repr

inductive RotationDirection where
  | left | right
  deriving DecidableEq, Repr

def utilRotateOrShift (value extraBit : U8) (rotate throughExtraBit : Bool)
    (direction : RotationDirection) (keepMsb : Bool) : ByteTuple :=
  let newValue := value <<< 1
  let newExtraBit := value &&& 0x01
  let newValue :=
    if throughExtraBit ∧ rotate then newValue ||| extraBit
    else if rotate then newValue ||| (value >>> 7)
    else newValue
  let (newValue, newExtraBit) :=
    if direction = .right then
      let newValue := newValue >>> 2
      let newExtraBit := (0x80 &&& value) >>> 7
      let newValue :=
        if throughExtraBit ∧ rotate then newValue ||| (extraBit <<< 7)
        else if rotate then newValue ||| (value <<< 7)
        else newValue
      (newValue, newExtraBit)
    else (newValue, newExtraBit)
  let newValue := if keepMsb then newValue ||| (value &&& 0x80) else newValue
  ⟨newValue, newExtraBit⟩

/-- A truth value as the bit beside a byte. -/
def bitByte (b : Bool) : U8 := (BitVec.ofBool b).setWidth 8

/-- A byte with a bit beside it. -/
structure CarriedByte extends ByteTuple where
  isBit : ∃ b, second = bitByte b

def carried (v : U8) (c : Bool) : CarriedByte := ⟨⟨v, bitByte c⟩, c, rfl⟩

theorem CarriedByte.eq_carried (s : CarriedByte) : ∃ c, s = carried s.first c := by
  obtain ⟨⟨v, e⟩, c, h⟩ := s
  have he : e = bitByte c := h
  subst he
  exact ⟨c, rfl⟩

/-- The end of the byte that a rotation should take its extra bit from. -/
def movedBit (v : U8) : RotationDirection → Bool
  | .left => v.getLsbD 7
  | .right => v.getLsbD 0

/-- The end of the byte that it does take the bit from. -/
def returnedBit (v : U8) : RotationDirection → Bool
  | .left => v.getLsbD 0
  | .right => v.getLsbD 7

theorem utilRotateOrShift_second (value extraBit : U8) (rotate throughExtraBit : Bool)
    (direction : RotationDirection) (keepMsb : Bool) :
    (utilRotateOrShift value extraBit rotate throughExtraBit direction keepMsb).second =
      bitByte (returnedBit value direction) := by
  have hleft : ∀ v : U8, v &&& 0x01 = bitByte (v.getLsbD 0) := by decide +kernel
  have hright : ∀ v : U8, (0x80 &&& v) >>> 7 = bitByte (v.getLsbD 7) := by decide +kernel
  cases direction with
  | left => exact hleft value
  | right => exact hright value

/-- A rotation, fed with what the last one returned. -/
def rotateStep (throughExtraBit : Bool) (s : CarriedByte) (d : RotationDirection) :
    CarriedByte where
  toByteTuple := utilRotateOrShift s.first s.second true throughExtraBit d false
  isBit := ⟨_, utilRotateOrShift_second ..⟩

/-! ## The ring -/

/-- Bit 0 to bit 7 of the byte, and then the bit beside it. -/
def CarriedByte.bit (s : CarriedByte) (j : Nat) : Bool :=
  if j = 8 then s.second.getLsbD 0 else s.first.getLsbD j

/-- The first `n` bits as a ring, whose places go by all the numbers `n` apart. -/
def ring (n : Nat) (s : CarriedByte) : Int → Bool := fun i => s.bit (i % n).toNat

def ringSize (throughExtraBit : Bool) : Nat := if throughExtraBit then 9 else 8

/-- What a rotation adds to the place of a bit. -/
def amount : RotationDirection → Int
  | .left => 1
  | .right => -1

theorem sum_amount (ds : List RotationDirection) :
    (ds.map amount).sum = (ds.count .left : Int) - ds.count .right := by
  induction ds with
  | nil => rfl
  | cons d ds ih =>
    rw [List.map_cons, List.sum_cons, ih]
    cases d <;> simp [amount] <;> omega

/-- A left rotation is right about the byte, and about the bit beside it where the two ends of the
byte are equal. -/
theorem left_bit : ∀ (throughExtraBit : Bool) (v : U8) (c : Bool),
    v.getLsbD 0 = v.getLsbD 7 → ∀ j < ringSize throughExtraBit,
      (rotateStep throughExtraBit (carried v c) .left).bit j =
        (carried v c).bit ((j + ringSize throughExtraBit - 1) % ringSize throughExtraBit) := by
  decide +kernel

/-- A right rotation is so in every place but 6, which should have got bit 7. -/
theorem right_bit : ∀ (throughExtraBit : Bool) (v : U8) (c : Bool),
    v.getLsbD 0 = v.getLsbD 7 → ∀ j < ringSize throughExtraBit, j ≠ 6 →
      (rotateStep throughExtraBit (carried v c) .right).bit j =
        (carried v c).bit ((j + 1) % ringSize throughExtraBit) := by
  decide +kernel

theorem right_bit_six : ∀ (throughExtraBit : Bool) (v : U8) (c : Bool),
    (rotateStep throughExtraBit (carried v c) .right).bit 6 = false := by
  decide +kernel

section Step

variable (throughExtraBit : Bool) (s : CarriedByte)

theorem ringSize_cases : ringSize throughExtraBit = 9 ∨ ringSize throughExtraBit = 8 := by
  cases throughExtraBit
  · exact .inr rfl
  · exact .inl rfl

theorem ring_zero : ring (ringSize throughExtraBit) s 0 = s.first.getLsbD 0 := by
  cases throughExtraBit <;> rfl

theorem ring_seven : ring (ringSize throughExtraBit) s 7 = s.first.getLsbD 7 := by
  cases throughExtraBit <;> rfl

theorem residue_lt (i : Int) : (i % ringSize throughExtraBit).toNat < ringSize throughExtraBit := by
  rcases ringSize_cases throughExtraBit with hn | hn <;> rw [hn] <;> omega

theorem residue_pred (i : Int) : ((i - 1) % ringSize throughExtraBit).toNat =
    ((i % ringSize throughExtraBit).toNat + ringSize throughExtraBit - 1) %
      ringSize throughExtraBit := by
  rcases ringSize_cases throughExtraBit with hn | hn <;> rw [hn] <;> omega

theorem residue_succ (i : Int) : ((i + 1) % ringSize throughExtraBit).toNat =
    ((i % ringSize throughExtraBit).toNat + 1) % ringSize throughExtraBit := by
  rcases ringSize_cases throughExtraBit with hn | hn <;> rw [hn] <;> omega

theorem left_turns (h : s.first.getLsbD 0 = s.first.getLsbD 7) :
    Turns (ring (ringSize throughExtraBit)) amount (rotateStep throughExtraBit) s .left := by
  obtain ⟨c, hs⟩ := s.eq_carried
  rw [hs, Turns]
  funext i
  rw [ring, left_bit throughExtraBit _ c h _ (residue_lt _ i), turn, ring, amount, residue_pred]

theorem right_ring (h : s.first.getLsbD 0 = s.first.getLsbD 7) {i : Int}
    (hi : (i % ringSize throughExtraBit).toNat ≠ 6) :
    ring (ringSize throughExtraBit) (rotateStep throughExtraBit s .right) i =
      ring (ringSize throughExtraBit) s (i + 1) := by
  obtain ⟨c, hs⟩ := s.eq_carried
  rw [hs, ring, right_bit throughExtraBit _ c h _ (residue_lt _ i) hi, ring, residue_succ]

theorem right_ring_six {i : Int} (hi : (i % ringSize throughExtraBit).toNat = 6) :
    ring (ringSize throughExtraBit) (rotateStep throughExtraBit s .right) i = false ∧
      ring (ringSize throughExtraBit) s (i + 1) = s.first.getLsbD 7 := by
  constructor
  · obtain ⟨c, hs⟩ := s.eq_carried
    rw [hs, ring, hi]
    exact right_bit_six throughExtraBit _ c
  · rw [← ring_seven throughExtraBit s, ring, ring, residue_succ, hi]
    cases throughExtraBit <;> rfl

theorem turn_right (f : Int → Bool) (i : Int) : turn f (amount .right) i = f (i + 1) :=
  congrArg f (sub_neg_eq_add i 1)

/-- A right rotation loses a bit and gains none. -/
theorem right_loses (h : s.first.getLsbD 0 = s.first.getLsbD 7) :
    Loses (ring (ringSize throughExtraBit)) amount (rotateStep throughExtraBit) s .right := by
  intro i
  rw [turn_right]
  by_cases hi : (i % ringSize throughExtraBit).toNat = 6
  · rw [(right_ring_six throughExtraBit s hi).1]
    exact Bool.false_le _
  · exact (right_ring throughExtraBit s h hi).le

theorem right_turns_iff (h : s.first.getLsbD 0 = s.first.getLsbD 7) :
    Turns (ring (ringSize throughExtraBit)) amount (rotateStep throughExtraBit) s .right ↔
      s.first.getLsbD 7 = false := by
  constructor
  · intro ht
    have h6 : ((6 : Int) % ringSize throughExtraBit).toNat = 6 := by
      cases throughExtraBit <;> rfl
    obtain ⟨hlost, hseven⟩ := right_ring_six throughExtraBit s h6
    have hat := congrFun ht 6
    rw [turn_right, hlost, hseven] at hat
    exact hat.symm
  · intro h7
    funext i
    rw [turn_right]
    by_cases hi : (i % ringSize throughExtraBit).toNat = 6
    · obtain ⟨hlost, hseven⟩ := right_ring_six throughExtraBit s hi
      rw [hlost, hseven, h7]
    · exact right_ring throughExtraBit s h hi

end Step

/-! ## Runs of rotations -/

/-- The bit that is returned is the one that was moved across the end of the byte. -/
def ReturnsMoved (throughExtraBit : Bool) (s : CarriedByte) (d : RotationDirection) : Prop :=
  (rotateStep throughExtraBit s d).second = bitByte (movedBit s.first d)

/-- A run turns its ring by as much as it has more left rotations than right ones, and every
rotation of it returns the bit that it moved. -/
def RotatesRing (throughExtraBit : Bool) (s : CarriedByte) (ds : List RotationDirection) : Prop :=
  ring (ringSize throughExtraBit) (ds.foldl (rotateStep throughExtraBit) s) =
      turn (ring (ringSize throughExtraBit) s) (ds.count .left - ds.count .right) ∧
    Along (rotateStep throughExtraBit) (ReturnsMoved throughExtraBit) s ds

/-- The two ends of the byte in a ring are the same bit, and before a right rotation they are
both 0. -/
def EndsMeet (r : Int → Bool) (d : RotationDirection) : Prop :=
  r 0 = r 7 ∧ (d = .right → r 7 = false)

section Run

variable (throughExtraBit : Bool)

theorem bitByte_injective : Function.Injective bitByte := by
  intro b b' h
  cases b <;> cases b' <;> first | rfl | cases h

theorem returnsMoved_iff (s : CarriedByte) (d : RotationDirection) :
    ReturnsMoved throughExtraBit s d ↔ s.first.getLsbD 0 = s.first.getLsbD 7 := by
  have hr : (rotateStep throughExtraBit s d).second = bitByte (returnedBit s.first d) :=
    utilRotateOrShift_second ..
  rw [ReturnsMoved, hr, bitByte_injective.eq_iff]
  cases d with
  | left => rfl
  | right => exact eq_comm

theorem loses_of_returnsMoved (s : CarriedByte) (d : RotationDirection)
    (h : ReturnsMoved throughExtraBit s d) :
    Loses (ring (ringSize throughExtraBit)) amount (rotateStep throughExtraBit) s d := by
  rw [returnsMoved_iff] at h
  cases d with
  | left => exact (left_turns throughExtraBit s h).le
  | right => exact right_loses throughExtraBit s h

/-- A rotation is right about the ring and about the bit that it returns. -/
theorem turns_and_returnsMoved_iff (s : CarriedByte) (d : RotationDirection) :
    Turns (ring (ringSize throughExtraBit)) amount (rotateStep throughExtraBit) s d ∧
        ReturnsMoved throughExtraBit s d ↔
      EndsMeet (ring (ringSize throughExtraBit) s) d := by
  rw [returnsMoved_iff, EndsMeet, ring_zero, ring_seven, and_comm]
  apply and_congr_right
  intro h
  cases d with
  | left => exact iff_of_true (left_turns throughExtraBit s h) nofun
  | right => simpa using right_turns_iff throughExtraBit s h

/-- The rotations of a run are right as long as the ends of the byte meet, in the ring as it is
turned by then. -/
theorem along_endsMeet_iff (s : CarriedByte) (ds : List RotationDirection) :
    Along (rotateStep throughExtraBit)
        (fun s d => EndsMeet (ring (ringSize throughExtraBit) s) d) s ds ↔
      Along (fun r d => turn r (amount d)) EndsMeet (ring (ringSize throughExtraBit) s) ds :=
  along_map_iff (ring (ringSize throughExtraBit)) (fun _ _ => Iff.rfl) fun s d h =>
    ((turns_and_returnsMoved_iff throughExtraBit s d).mpr h).1

end Run

/-- A run of rotations is right when the ends of the byte are the same bit before each rotation
and 0 before each to the right, and never else: a bit that is lost does not come back. -/
theorem rotates_ring_iff (throughExtraBit : Bool) (s : CarriedByte)
    (ds : List RotationDirection) :
    RotatesRing throughExtraBit s ds ↔
      Along (fun r d => turn r (amount d)) EndsMeet (ring (ringSize throughExtraBit) s) ds := by
  rw [RotatesRing, ← sum_amount, ← along_endsMeet_iff]
  constructor
  · rintro ⟨hend, hmoved⟩
    have hloses := hmoved.imp (loses_of_returnsMoved throughExtraBit)
    have hturns := turns_of_ring_foldl _ amount (rotateStep throughExtraBit) hloses hend
    exact (hturns.and hmoved).imp fun s d => (turns_and_returnsMoved_iff throughExtraBit s d).mp
  · intro h
    have hboth := h.imp fun s d => (turns_and_returnsMoved_iff throughExtraBit s d).mpr
    exact ⟨ring_foldl _ amount (rotateStep throughExtraBit) (hboth.imp fun _ _ => And.left),
      hboth.imp fun _ _ => And.right⟩

/-- 0x80 rotated to the left returns bit 0, and 0x81 rotated to the right and back is 0x01. -/
theorem rotations_lose_bits : ¬ RotatesRing true (carried 0x80 false) [.left] ∧
    ([.right, .left].foldl (rotateStep false) (carried 0x81 false)).first = 0x01 := by
  refine ⟨?_, rfl⟩
  rintro ⟨-, hmoved, -⟩
  rw [returnsMoved_iff] at hmoved
  cases hmoved

end Beemu
