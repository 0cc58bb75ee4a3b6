import Beemu.Sm83.Exec

/-!
# Words added byte by byte

A sum of two words is the sum of their low bytes and, with the carry of that, of their high
bytes. What a signed byte adds to a word is its own number, less 256 when it is negative.
-/

namespace Sm83

theorem toNat_hi (w : Word) : (hi w).toNat = w.toNat / 256 := by
  have hw := w.isLt
  rw [hi, BitVec.toNat_setWidth, BitVec.toNat_ushiftRight, Nat.shiftRight_eq_div_pow]
  omega

theorem toNat_lo (w : Word) : (lo w).toNat = w.toNat % 256 := BitVec.toNat_setWidth ..

section Add

variable (a b : Word)

theorem lo_add : lo (a + b) = lo a + lo b := by
  apply BitVec.eq_of_toNat_eq
  rw [toNat_lo, BitVec.toNat_add, BitVec.toNat_add, toNat_lo, toNat_lo]
  omega

/-- The carry out of the low bytes, as a fact about numbers. -/
theorem carry_lo_iff :
    BitVec.carry 8 (lo a) (lo b) false = true ↔ 256 ≤ (lo a).toNat + (lo b).toNat := by
  have ha := (lo a).isLt
  have hb := (lo b).isLt
  rw [BitVec.carry, decide_eq_true_iff, Bool.toNat_false]
  omega

theorem toNat_carry_lo : (BitVec.carry 8 (lo a) (lo b) false).toNat =
    (a.toNat % 256 + b.toNat % 256) / 256 := by
  have h := carry_lo_iff a b
  rw [toNat_lo, toNat_lo] at h
  cases hc : BitVec.carry 8 (lo a) (lo b) false with
  | false =>
    rw [hc] at h
    simp only [Bool.false_eq_true, false_iff] at h
    rw [Bool.toNat_false]
    omega
  | true =>
    have h := h.mp hc
    rw [Bool.toNat_true]
    omega

theorem toNat_hi_add : (hi (a + b)).toNat =
    ((hi a).toNat + (hi b).toNat + (BitVec.carry 8 (lo a) (lo b) false).toNat) % 256 := by
  rw [toNat_hi, toNat_hi, toNat_hi, toNat_carry_lo, BitVec.toNat_add]
  omega

/-- A carry out of a sum of words is one out of their high bytes, which take in the carry of
the low ones. -/
theorem carry_word (i : Nat) : BitVec.carry (8 + i) a b false =
    BitVec.carry i (hi a) (hi b) (BitVec.carry 8 (lo a) (lo b) false) := by
  have hp : 2 ^ (8 + i) = 256 * 2 ^ i := by rw [Nat.pow_add]
  have ha : a.toNat % (256 * 2 ^ i) = a.toNat % 256 + 256 * ((hi a).toNat % 2 ^ i) := by
    rw [toNat_hi, Nat.mod_mul]
  have hb : b.toNat % (256 * 2 ^ i) = b.toNat % 256 + 256 * ((hi b).toNat % 2 ^ i) := by
    rw [toNat_hi, Nat.mod_mul]
  rw [BitVec.carry, BitVec.carry, toNat_carry_lo, hp, ha, hb, Bool.toNat_false, decide_eq_decide]
  generalize (hi a).toNat % 2 ^ i = x
  generalize (hi b).toNat % 2 ^ i = y
  generalize 2 ^ i = z
  omega

end Add

/-- Nothing is carried when nothing is added. -/
theorem carry_zero_right {w : Nat} (i : Nat) (x : BitVec w) : BitVec.carry i x 0 false = false := by
  have h : x.toNat % 2 ^ i < 2 ^ i := Nat.mod_lt _ (Nat.two_pow_pos i)
  have h0 : (0 : BitVec w).toNat = 0 := BitVec.toNat_zero
  rw [BitVec.carry, decide_eq_false_iff_not, Bool.toNat_false, h0, Nat.zero_mod]
  omega

theorem State.setSpOffsetFlags_zero (s : State) :
    s.setSpOffsetFlags 0 = s.setZnhc false false false false := by
  rw [setSpOffsetFlags, carry_zero_right, carry_zero_right]

@[simp] theorem lo_setWidth (e : Byte) : lo (e.setWidth 16) = e := by
  rw [lo, BitVec.setWidth_setWidth_of_le e (by decide), BitVec.setWidth_eq]

@[simp] theorem hi_setWidth (e : Byte) : hi (e.setWidth 16) = 0 := by
  have he := e.isLt
  apply BitVec.eq_of_toNat_eq
  rw [toNat_hi, BitVec.toNat_setWidth_of_le (by decide)]
  exact Nat.div_eq_of_lt he

/-- A byte is the same number with and without its sign when it is below 128. -/
theorem signExtend_eq_setWidth_iff : ∀ e : Byte,
    e.signExtend 16 = e.setWidth 16 ↔ e.toNat < 128 := by
  decide +kernel

end Sm83
