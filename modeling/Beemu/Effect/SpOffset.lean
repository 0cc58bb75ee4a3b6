import Beemu.Effect.Load
import Beemu.Effect.WordAdd
import Beemu.Parser.Timing

/-!
# The stack pointer with a signed byte

Two instructions add a signed byte to SP. `LD HL, SP+e` adds it as it stands, without its sign,
so that a negative one carries into the high byte. `ADD SP, e` takes the path of the sum of two
words, where a signed operand resolves to 0 and the halves of SP are written nowhere.
-/

namespace Beemu

open Sm83 (hi lo)

theorem opcode_hlSpOffset (w : CodeWord) (hw : w.opcodeByte = 0xF8) :
    w.opcode = .load .hlSpOffset := by
  rw [CodeWord.opcode, hw]
  rfl

theorem opcode_addSP (w : CodeWord) (hw : w.opcodeByte = 0xE8) : w.opcode = .arith .addSP := by
  rw [CodeWord.opcode, hw]
  rfl

/-! ## LD HL, SP+e -/

/-- What `LD HL, SP+e` has to do to a machine: HL is SP and the signed byte, H and C are carries
of the sum of low bytes, Z and N are reset, and both bytes are fetched. -/
def HlSpOffsetEffect (w : CodeWord) (m : Machine) : Prop :=
  ∃ t queue, tokenizerTokenize (w.setWidth 32) = .ok t ∧ parserParse m.processor t = .ok queue ∧
    (applyQueue m queue).abs = ((Sm83.Load.hlSpOffset.exec w.firstOperand
      (Sm83.word w.secondOperand w.firstOperand) m.abs).setPc (m.abs.pc + 2))

/-- The high byte gets the carry of the low one and nothing of the operand. -/
theorem hi_add_setWidth (a : U16) (e : U8) :
    hi a + boolByte (BitVec.carry 8 (lo a) e false) = hi (a + e.setWidth 16) := by
  have h := hi_add_boolByte a (e.setWidth 16)
  rw [Sm83.lo_setWidth, Sm83.hi_setWidth] at h
  exact (BitVec.add_zero _).symm.trans h

/-- The commands of the load add the byte without its sign. -/
theorem applyQueue_hlSpOffset (m : Machine) (s : Sm83.State) (pc : U16) (hm : m.abs = s.setPc pc)
    (e : U8) (nn : U16) :
    (applyQueue m (loadCommands s e nn .hlSpOffset)).abs =
      ((s.setPair .HL (s.sp + e.setWidth 16)).setSpOffsetFlags e).setPc pc := by
  have hc : decide (256 ≤ (lo s.sp).toNat + e.toNat) = BitVec.carry 8 (lo s.sp) e false := by
    have h := Sm83.carry_lo_iff s.sp (e.setWidth 16)
    rw [Sm83.lo_setWidth] at h
    rw [Bool.eq_iff_iff, decide_eq_true_iff, h]
  have hh : decide (16 ≤ (lo s.sp).toNat % 16 + e.toNat % 16) = BitVec.carry 4 (lo s.sp) e false :=
    rfl
  have hl : lo s.sp + e = lo (s.sp + e.setWidth 16) := by
    rw [Sm83.lo_add, Sm83.lo_setWidth]
  have hq : loadCommands s e nn .hlSpOffset =
      [.writeReg8 (register8Of .L) (lo s.sp + e)] ++
        flagCommands false false (decide (16 ≤ (lo s.sp).toNat % 16 + e.toNat % 16))
          (some (decide (256 ≤ (lo s.sp).toNat + e.toNat))) ++
        [.haltCycle, .writeReg8 (register8Of .H)
          (hi s.sp + boolByte (decide (256 ≤ (lo s.sp).toNat + e.toNat)))] := rfl
  rw [hq, hc, hh, hl, hi_add_setWidth]
  simp only [applyQueue_append, applyQueue_cons, applyQueue_nil, apply_haltCycle,
    apply_writeReg8, applyQueue_flagCommands_some, hm, Sm83.State.setReg_setPc,
    Sm83.State.setZnhc_setPc, Sm83.State.setReg_setZnhc]
  rw [Sm83.State.setReg_comm s (by decide)]
  rfl

theorem hlSpOffset_queue (w : CodeWord) (m : Machine) (hw : w.opcodeByte = 0xF8) :
    ∃ queue, parserParse m.processor w.token = .ok queue ∧
      (applyQueue m queue).abs =
        ((m.abs.setPair .HL (m.abs.sp + w.firstOperand.setWidth 16)).setSpOffsetFlags
          w.firstOperand).setPc (m.abs.pc + 2) := by
  have ho := opcode_hlSpOffset w hw
  have hq := parserParse_load w m.processor _ ho nofun
  have hl : w.bytes = [w.opcodeByte, w.firstOperand] := by
    rw [w.bytes_eq, CodeWord.length, ho]
    rfl
  rw [hl] at hq
  refine ⟨_, hq, ?_⟩
  rw [applyQueue_append]
  exact applyQueue_hlSpOffset _ m.abs _ (applyQueue_fetchCommands m _ _ _) _ _

/-- HL has the right value just when the sign makes no difference. -/
theorem hl_sp_offset_effect_iff (w : CodeWord) (m : Machine) (hw : w.opcodeByte = 0xF8) :
    HlSpOffsetEffect w m ↔ w.firstOperand.toNat < 128 := by
  obtain ⟨queue, hq, he⟩ := hlSpOffset_queue w m hw
  rw [← Sm83.signExtend_eq_setWidth_iff]
  constructor
  · rintro ⟨t, queue', ht, hq', he'⟩
    obtain ⟨rfl, rfl⟩ := parsed_unique ht hq' hq
    rw [he] at he'
    -- the flags and PC are apart from HL
    have hp := congrArg (Sm83.State.pair · .HL) he'
    change (m.abs.setPair .HL (m.abs.sp + w.firstOperand.setWidth 16)).pair .HL =
      (m.abs.setPair .HL (m.abs.spOffset w.firstOperand)).pair .HL at hp
    rw [Sm83.State.pair_setPair, Sm83.State.pair_setPair] at hp
    exact ((BitVec.add_right_inj _).mp hp).symm
  · intro hs
    refine ⟨_, queue, tokenizerTokenize_eq w, hq, ?_⟩
    rw [he, Sm83.Load.exec, Sm83.State.spOffset, hs]

theorem hl_sp_offset_effect_iff_five :
    HlSpOffsetEffect 0xF80500 machineAtZero ↔ (CodeWord.firstOperand 0xF80500).toNat < 128 :=
  hl_sp_offset_effect_iff 0xF80500 machineAtZero rfl

/-- `LD HL, SP-1` with SP at 0 gives 0x00FF. -/
theorem hl_sp_offset_negative : ¬ HlSpOffsetEffect 0xF8FF00 machineAtZero := by
  rintro ⟨t, queue, ht, hq, he⟩
  obtain ⟨queue', hq', he'⟩ := hlSpOffset_queue 0xF8FF00 machineAtZero rfl
  obtain ⟨rfl, rfl⟩ := parsed_unique ht hq hq'
  have hp := congrArg (Sm83.State.pair · .HL) (he'.symm.trans he)
  exact absurd hp (by decide)

/-! ## ADD SP, e -/

/-- What `ADD SP, e` has to do to the registers and the memory. -/
def AddSpState (w : CodeWord) (m : Machine) : Prop :=
  ∃ t queue pc, tokenizerTokenize (w.setWidth 32) = .ok t ∧
    parserParse m.processor t = .ok queue ∧
    (applyQueue m queue).abs = (Sm83.Arith.addSP.exec w.firstOperand m.abs).setPc pc

/-- And its queue has a halt for each cycle of its token. -/
def AddSpEffect (w : CodeWord) (m : Machine) : Prop :=
  ∃ t queue pc, tokenizerTokenize (w.setWidth 32) = .ok t ∧
    parserParse m.processor t = .ok queue ∧
    (applyQueue m queue).abs = (Sm83.Arith.addSP.exec w.firstOperand m.abs).setPc pc ∧
    haltCount queue = t.durationInClockCycles.toNat

/-- SP is added to 0 and nothing is written back; the flags are those of its high byte. -/
theorem addSp_queue (w : CodeWord) (m : Machine) (hw : w.opcodeByte = 0xE8) :
    ∃ queue, parserParse m.processor w.token = .ok queue ∧ haltCount queue = 2 ∧
      (applyQueue m queue).abs =
        (m.abs.setZnhc (hi m.abs.sp = 0) false false false).setPc (m.abs.pc + 1) := by
  have ho := opcode_addSP w hw
  have hq := parserParse_eq w m.processor (by rw [ho]; nofun)
  rw [ho, bodyCommands] at hq
  refine ⟨_, hq, ?_, ?_⟩
  · rw [haltCount_append, haltCount_fetchCommands]
    rfl
  · rw [applyQueue_append]
    have ha : m.abs.sp + 0 = m.abs.sp := BitVec.add_zero _
    have hh : highHalfCarry m.abs.sp 0 = false := Sm83.carry_zero_right 4 _
    have hc : BitVec.carry 16 m.abs.sp 0 false = false := Sm83.carry_zero_right 16 _
    have h := applyQueue_wordAdd_none _ m.abs _ m.abs.sp 0
      (applyQueue_fetchCommands m m.abs.pc w.opcodeByte [])
    rw [ha, hh, hc] at h
    exact h

theorem signExtend_eq_zero_iff : ∀ e : U8, e.signExtend 16 = 0 ↔ e = 0 := by decide +kernel

/-- The registers are right only where SP does not move and its high byte is not zero. -/
theorem addSpState_iff (w : CodeWord) (m : Machine) (hw : w.opcodeByte = 0xE8) :
    AddSpState w m ↔ w.firstOperand = 0 ∧ 256 ≤ m.abs.sp.toNat := by
  obtain ⟨queue, hq, -, he⟩ := addSp_queue w m hw
  have hz := hi_eq_zero_iff m.abs.sp
  constructor
  · rintro ⟨t, queue', pc, ht, hq', he'⟩
    obtain ⟨rfl, rfl⟩ := parsed_unique ht hq' hq
    rw [he] at he'
    have hs : m.abs.sp = m.abs.sp + w.firstOperand.signExtend 16 := congrArg Sm83.State.sp he'
    have hf := congrArg (Sm83.State.flag · .Z) he'
    simp only [Sm83.Arith.exec, Sm83.State.setSpOffsetFlags, Sm83.State.flag_setPc,
      Sm83.State.flag_setSp, Sm83.State.flag_setZnhc, decide_eq_false_iff_not, hz] at hf
    exact ⟨(signExtend_eq_zero_iff _).mp (left_eq_add.mp hs), Nat.le_of_not_lt hf⟩
  · rintro ⟨h0, hs⟩
    have hf : decide (hi m.abs.sp = 0) = false := by
      rw [decide_eq_false_iff_not, hz]
      omega
    refine ⟨_, queue, m.abs.pc + 1, tokenizerTokenize_eq w, hq, ?_⟩
    have hsp : m.abs.sp + 0 = m.abs.sp := BitVec.add_zero _
    rw [he, hf, h0, Sm83.Arith.exec, Sm83.State.setSpOffsetFlags_zero, Sm83.State.spOffset,
      (signExtend_eq_zero_iff 0).mpr rfl, hsp]
    rfl

/-- Two cycles are emitted and the token has four, so that no machine and no operand gets the
whole effect. The registers alone come out right when there is nothing to add. -/
theorem add_sp_effect_never (w : CodeWord) (m : Machine) (hw : w.opcodeByte = 0xE8) :
    ¬ AddSpEffect w m ∧ (AddSpState w m ↔ w.firstOperand = 0 ∧ 256 ≤ m.abs.sp.toNat) := by
  refine ⟨?_, addSpState_iff w m hw⟩
  rintro ⟨t, queue, pc, ht, hq, -, hc⟩
  obtain ⟨queue', hq', hc', -⟩ := addSp_queue w m hw
  obtain ⟨rfl, rfl⟩ := parsed_unique ht hq hq'
  have hd : w.token.durationInClockCycles = 4 := by
    rw [CodeWord.token, opcode_addSP w hw]
    rfl
  rw [hc', hd] at hc
  exact absurd hc (by decide)

theorem add_sp_effect_never_five :
    ¬ AddSpEffect 0xE80500 machineAtZero ∧
      (AddSpState 0xE80500 machineAtZero ↔
        CodeWord.firstOperand 0xE80500 = 0 ∧ 256 ≤ machineAtZero.abs.sp.toNat) :=
  add_sp_effect_never 0xE80500 machineAtZero rfl

/-- `ADD SP, 5` leaves SP at 0. -/
theorem add_sp_not_added : ¬ AddSpEffect 0xE80500 machineAtZero := by
  rintro ⟨t, queue, pc, ht, hq, he, -⟩
  have h := (addSpState_iff 0xE80500 machineAtZero rfl).mp ⟨t, queue, pc, ht, hq, he⟩
  exact absurd h.1 (by decide)

end Beemu
