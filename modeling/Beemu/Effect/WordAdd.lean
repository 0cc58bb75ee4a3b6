import Beemu.Effect.Arithmatic
import Beemu.Sm83.Word

/-!
# The effect of ADD HL, rr

A sum of two words goes through the byte adder twice, and each pass leaves all four flags. The
sum and its carry come out right. Z is what the pass over the high bytes makes of its own
result, and H misses the carry that this pass takes in, when that carry fills a nibble.
-/

namespace Beemu

open Sm83 (hi lo)

/-- The high byte of a sum, as the second pass computes it. -/
theorem hi_add_boolByte (a b : U16) :
    hi a + boolByte (BitVec.carry 8 (lo a) (lo b) false) + hi b = hi (a + b) := by
  apply BitVec.eq_of_toNat_eq
  rw [Sm83.toNat_hi_add, BitVec.toNat_add, BitVec.toNat_add, toNat_boolByte]
  omega

/-- The half carry of the second pass: the carry of the first is in its left operand already. -/
def highHalfCarry (a b : U16) : Bool :=
  BitVec.carry 4 (hi a + boolByte (BitVec.carry 8 (lo a) (lo b) false)) (hi b) false

/-- It is the carry out of bit 11 except where the carry of the low bytes runs through the whole
low nibble of the left operand. -/
theorem highHalfCarry_eq_iff (a b : U16) : highHalfCarry a b = BitVec.carry 12 a b false ↔
    ¬ (256 ≤ (lo a).toNat + (lo b).toNat ∧ (hi a).toNat % 16 = 15) := by
  have hw := Sm83.carry_word a b 4
  have hl := Sm83.carry_lo_iff a b
  have ha := (hi a).isLt
  change highHalfCarry a b = BitVec.carry (8 + 4) a b false ↔ _
  rw [hw, highHalfCarry, ← hl]
  cases BitVec.carry 8 (lo a) (lo b) false with
  | false => simp [boolByte]
  | true =>
    simp only [BitVec.carry, decide_eq_decide, BitVec.toNat_add, toNat_boolByte, Bool.toNat_true,
      Bool.toNat_false, true_and]
    omega

/-- Two passes into L and H add the word, and the flags are those of the second pass. -/
theorem applyQueue_wordAdd_HL (m : Machine) (s : Sm83.State) (pc a b : U16)
    (hm : m.abs = s.setPc pc) :
    (applyQueue m (wordAddCommands (fun v => [.writeReg8 (register8Of .L) v])
      (fun v => [.writeReg8 (register8Of .H) v]) a b)).abs =
      ((s.setPair .HL (a + b)).setZnhc (hi (a + b) = 0) false (highHalfCarry a b)
        (BitVec.carry 16 a b false)).setPc pc := by
  have hc := Sm83.carry_word a b 8
  simp only [wordAddCommands, applyQueue_append, applyQueue_cons, applyQueue_nil,
    applyQueue_flagCommands_some, apply_haltCycle, apply_writeReg8, hm, hi_add_boolByte,
    ← Sm83.lo_add, ← hc, Sm83.State.setReg_setPc, Sm83.State.setZnhc_setPc,
    Sm83.State.setReg_setZnhc, Sm83.State.setZnhc_setZnhc]
  rw [Sm83.State.setReg_comm s (by decide)]
  rfl

/-- The flags are the same where the halves of the sum are written nowhere. -/
theorem applyQueue_wordAdd_none (m : Machine) (s : Sm83.State) (pc a b : U16)
    (hm : m.abs = s.setPc pc) :
    (applyQueue m (wordAddCommands (fun _ => []) (fun _ => []) a b)).abs =
      (s.setZnhc (hi (a + b) = 0) false (highHalfCarry a b)
        (BitVec.carry 16 a b false)).setPc pc := by
  have hc := Sm83.carry_word a b 8
  simp only [wordAddCommands, applyQueue_append, applyQueue_cons, applyQueue_nil,
    applyQueue_flagCommands_some, apply_haltCycle, hm, hi_add_boolByte, ← hc,
    Sm83.State.setZnhc_setPc, Sm83.State.setZnhc_setZnhc]
  rfl

/-- What `ADD HL, rr` has to do to a machine: H and C are carries of the sum of words, N is
reset, and Z stays. -/
def AddHlEffect (w : CodeWord) (m : Machine) (q : Sm83.Pair) : Prop :=
  ∃ t queue pc, tokenizerTokenize (w.setWidth 32) = .ok t ∧
    parserParse m.processor t = .ok queue ∧
    (applyQueue m queue).abs = ((Sm83.Arith.addHL q).exec w.firstOperand m.abs).setPc pc

/-- What the code does instead. -/
theorem addHl_queue (w : CodeWord) (m : Machine) (q : Sm83.Pair)
    (hw : w.opcode = .arith (.addHL q)) :
    ∃ queue, parserParse m.processor w.token = .ok queue ∧
      (applyQueue m queue).abs =
        ((m.abs.setPair .HL (m.abs.pair .HL + m.abs.pair q)).setZnhc
          (hi (m.abs.pair .HL + m.abs.pair q) = 0) false
          (highHalfCarry (m.abs.pair .HL) (m.abs.pair q))
          (BitVec.carry 16 (m.abs.pair .HL) (m.abs.pair q) false)).setPc (m.abs.pc + 1) := by
  have hq := parserParse_eq w m.processor (by rw [hw]; nofun)
  rw [hw, bodyCommands] at hq
  refine ⟨_, hq, ?_⟩
  rw [applyQueue_append]
  exact applyQueue_wordAdd_HL _ m.abs _ _ _ (applyQueue_fetchCommands m _ w.opcodeByte [])

/-- Only Z and H can be wrong. -/
theorem addHlEffect_iff_flags (w : CodeWord) (m : Machine) (q : Sm83.Pair)
    (hw : w.opcode = .arith (.addHL q)) :
    AddHlEffect w m q ↔
      decide (hi (m.abs.pair .HL + m.abs.pair q) = 0) = m.abs.flag .Z ∧
      highHalfCarry (m.abs.pair .HL) (m.abs.pair q) =
        BitVec.carry 12 (m.abs.pair .HL) (m.abs.pair q) false := by
  obtain ⟨queue, hq, he⟩ := addHl_queue w m q hw
  constructor
  · rintro ⟨t, queue', pc, ht, hq', he'⟩
    obtain ⟨rfl, rfl⟩ := parsed_unique ht hq' hq
    rw [he, Sm83.Arith.exec] at he'
    have hf (k : Sm83.Flag) := congrArg (Sm83.State.flag · k) he'
    simp only [Sm83.State.flag_setPc, Sm83.State.flag_setZnhc] at hf
    exact ⟨hf .Z, hf .H⟩
  · rintro ⟨hz, hh⟩
    refine ⟨_, queue, m.abs.pc + 1, tokenizerTokenize_eq w, hq, ?_⟩
    rw [he, hz, hh]
    rfl

theorem hi_eq_zero_iff (a : U16) : hi a = 0 ↔ a.toNat < 256 := by
  have ha := a.isLt
  rw [← BitVec.toNat_inj, Sm83.toNat_hi]
  change a.toNat / 256 = 0 ↔ a.toNat < 256
  omega

/-- The addition is right when Z already says whether the high byte of the sum is zero, and no
carry of the low bytes meets a full low nibble in H. -/
theorem add_hl_effect_iff (w : CodeWord) (m : Machine) (q : Sm83.Pair)
    (hw : w.opcode = .arith (.addHL q)) :
    AddHlEffect w m q ↔
      (m.abs.flag .Z = true ↔
        ((m.abs.pair .HL).toNat + (m.abs.pair q).toNat) % 65536 < 256) ∧
      ¬ (256 ≤ (lo (m.abs.pair .HL)).toNat + (lo (m.abs.pair q)).toNat ∧
        (hi (m.abs.pair .HL)).toNat % 16 = 15) := by
  have hz : decide (hi (m.abs.pair .HL + m.abs.pair q) = 0) = m.abs.flag .Z ↔
      (m.abs.flag .Z = true ↔
        ((m.abs.pair .HL).toNat + (m.abs.pair q).toNat) % 65536 < 256) := by
    rw [Bool.eq_iff_iff, decide_eq_true_iff, hi_eq_zero_iff, BitVec.toNat_add]
    exact iff_comm
  rw [addHlEffect_iff_flags w m q hw, hz, highHalfCarry_eq_iff]

/-- `ADD HL, BC` on a machine of zeros. -/
theorem add_hl_effect_iff_BC :
    AddHlEffect 0x090000 machineAtZero .BC ↔
      (machineAtZero.abs.flag .Z = true ↔
        ((machineAtZero.abs.pair .HL).toNat + (machineAtZero.abs.pair .BC).toNat) % 65536 < 256) ∧
      ¬ (256 ≤ (lo (machineAtZero.abs.pair .HL)).toNat + (lo (machineAtZero.abs.pair .BC)).toNat ∧
        (hi (machineAtZero.abs.pair .HL)).toNat % 16 = 15) :=
  add_hl_effect_iff 0x090000 machineAtZero .BC rfl

/-- HL is 0x0FFF and BC is 1. -/
def machineAtNibble : Machine where
  processor := (machineAtZero.processor.write (.sixteenBit .HL) 0x0FFF).write (.sixteenBit .BC) 1
  ime := false
  addressBus := 0
  dataBus := 0
  instructionRegister := 0

/-- The sum 0x0FFF + 1 carries out of bit 11, and the code says it does not. -/
theorem add_hl_misses_half_carry : ¬ AddHlEffect 0x090000 machineAtNibble .BC := by
  intro h
  have h := ((addHlEffect_iff_flags 0x090000 machineAtNibble .BC rfl).mp h).2
  exact absurd h (by decide)

end Beemu
