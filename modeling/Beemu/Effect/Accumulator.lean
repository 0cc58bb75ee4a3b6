import Beemu.Effect.Arithmatic

/-!
# DAA, CPL, SCF and CCF

Four operations that go through the pipeline of the others and have no case in it. Each of them
writes the byte of -1 to A, resets Z, N and H, and leaves C alone.
-/

namespace Beemu

/-- The step of a word does to the state what an instruction does, once PC is put back. -/
def HasEffect (w : CodeWord) (m : Machine) (a : Sm83.Arith) : Prop :=
  ∃ e, step m w = .ok e ∧ e.machine.abs.setPc m.abs.pc = a.exec w.firstOperand m.abs

/-- The number that the two digits of a byte make. -/
def unpacked (b : U8) : Nat := b.toNat / 16 * 10 + b.toNat % 16

/-- A number below 100, a digit in each half of a byte. -/
def packed (n : Nat) : U8 := BitVec.ofNat 8 (n / 10 * 16 + n % 10)

/-- Two words, one run right after the other, leave a packed number in A and `carry` in C. -/
def LeavesDecimal (m : Machine) (first second : CodeWord) (n : Nat) (carry : Bool) : Prop :=
  ∃ e e', step m first = .ok e ∧ step e.machine second = .ok e' ∧
    e'.machine.abs.reg .A = packed n ∧ e'.machine.abs.flag .C = carry

/-- `ADD A, y` with A = `x` and then DAA: the decimal sum, with C for a hundred. -/
def AddsDecimal (m : Machine) (add daa : CodeWord) (x y : U8) : Prop :=
  LeavesDecimal m add daa ((unpacked x + unpacked y) % 100) (99 < unpacked x + unpacked y)

/-- `SUB A, y` with A = `x` and then DAA: the decimal difference. -/
def SubtractsDecimal (m : Machine) (sub daa : CodeWord) (x y : U8) : Prop :=
  ∃ borrow, LeavesDecimal m sub daa ((100 + unpacked x - unpacked y) % 100) borrow

theorem packed_ne (n : Nat) : packed n ≠ 0xFF := by
  intro he
  have hn := congrArg BitVec.toNat he
  rw [packed, BitVec.toNat_ofNat] at hn
  change _ = 255 at hn
  omega

/-- What is done in place of each of the four. -/
def unknownEffect (s : Sm83.State) : Sm83.State :=
  (s.setReg .A 0xFF).setZnhc false false false (s.flag .C)

section Step

variable (m : Machine) (w : CodeWord)

theorem step_unknown (a : Sm83.Arith) (ha : a ∈ [.daa, .cpl, .scf, .ccf])
    (hw : w.opcode = .arith a) :
    ∃ e, step m w = .ok e ∧ e.machine.abs = (unknownEffect m.abs).setPc e.machine.abs.pc := by
  have hq := parserParse_eq w m.processor (by rw [hw]; nofun)
  have hb : bodyCommands m.processor.abs w.firstOperand w.secondOperand w.opcode =
      .writeReg8 (register8Of .A) 0xFF :: flagCommands false false false none := by
    simp only [List.mem_cons, List.not_mem_nil, or_false] at ha
    rw [hw]
    rcases ha with rfl | rfl | rfl | rfl <;> rfl
  have hm := applyQueue_fetchCommands m m.abs.pc w.opcodeByte []
  refine ⟨_, step_eq m w _ hq, ?_⟩
  change (applyQueue m _).abs = (unknownEffect m.abs).setPc (applyQueue m _).abs.pc
  rw [hb, applyQueue_append, applyQueue_cons, applyQueue_flagCommands_none, apply_writeReg8]
  change (((applyQueue m (fetchCommands m.abs.pc [w.opcodeByte])).abs.setReg .A 0xFF).setZnh
    _ _ _) = _
  rw [hm, Sm83.State.setReg_setPc, Sm83.State.setZnh_setPc, Sm83.State.setZnh_eq]
  rfl

theorem hasEffect_iff (a : Sm83.Arith) (ha : a ∈ [.daa, .cpl, .scf, .ccf])
    (hw : w.opcode = .arith a) :
    HasEffect w m a ↔ unknownEffect m.abs = a.exec w.firstOperand m.abs := by
  obtain ⟨e, he, hs⟩ := step_unknown m w a ha hw
  rw [HasEffect, exists_ok_iff he, hs]
  rfl

theorem not_leavesDecimal (first : CodeWord) (hw : w.opcode = .arith .daa) (n : Nat) (c : Bool) :
    ¬ LeavesDecimal m first w n c := by
  rintro ⟨e, e', -, he', hA, -⟩
  obtain ⟨d, hd, hs⟩ := step_unknown e.machine w .daa (by decide) hw
  obtain rfl := Except.ok.inj (hd.symm.trans he')
  rw [hs] at hA
  exact packed_ne n hA.symm

end Step

section Effects

variable (s : Sm83.State) (n : U8)

@[simp] theorem unknownEffect_A : (unknownEffect s).reg .A = 0xFF := by
  simp [unknownEffect, Sm83.State.setZnhc, Sm83.State.setZnh, Sm83.State.setFlag]

theorem unknownEffect_flag (k : Sm83.Flag) :
    (unknownEffect s).flag k = (k = .C && s.flag .C) := by
  rw [unknownEffect, Sm83.State.flag_setZnhc]
  cases k <;> rfl

theorem unknownEffect_scf_iff : unknownEffect s = Sm83.Arith.scf.exec n s ↔
    s.reg .A = 0xFF ∧ s.flag .Z = false ∧ s.flag .C = true := by
  constructor
  · intro h
    have hA := congrArg (Sm83.State.reg · .A) h
    have hZ := congrArg (Sm83.State.flag · .Z) h
    have hC := congrArg (Sm83.State.flag · .C) h
    simp only [Sm83.Arith.exec, unknownEffect_flag, Sm83.State.flag_setZnhc, unknownEffect_A]
      at hA hZ hC
    exact ⟨hA.symm, hZ.symm, hC⟩
  · rintro ⟨hA, hZ, hC⟩
    rw [unknownEffect, ← hA, Sm83.State.setReg_self, Sm83.Arith.exec, hZ, hC]

theorem unknownEffect_ne_ccf : unknownEffect s ≠ Sm83.Arith.ccf.exec n s := by
  intro h
  have hC := congrArg (Sm83.State.flag · .C) h
  simp only [Sm83.Arith.exec, unknownEffect_flag, Sm83.State.flag_setZnhc] at hC
  cases hs : s.flag .C <;> rw [hs] at hC <;> cases hC

theorem unknownEffect_ne_cpl : unknownEffect s ≠ Sm83.Arith.cpl.exec n s := by
  intro h
  have hH : (unknownEffect s).flag .H = true := by
    rw [h]
    exact Sm83.getFlag_setFlag .H true _
  rw [unknownEffect_flag] at hH
  cases hH

/-- DAA after an addition gives 0xFF for one value of A only, with both digits adjusted. -/
theorem daa_eq_last_iff : ∀ (a : U8) (h c : Bool),
    a + ((if h || 9 < (a &&& 0x0F).toNat then 0x06 else 0) +
      (if c || 0x99 < a.toNat then 0x60 else 0)) = 0xFF ↔ a = 0x99 ∧ h = true ∧ c = true := by
  decide +kernel

theorem daa_A (hN : s.flag .N = false) : s.daa.reg .A = 0xFF ↔
    s.reg .A = 0x99 ∧ s.flag .H = true ∧ s.flag .C = true := by
  rw [← daa_eq_last_iff]
  simp [Sm83.State.daa, Sm83.State.daaAdjustment, hN, Sm83.State.setZnhc, Sm83.State.setZnh,
    Sm83.State.setFlag]

theorem unknownEffect_daa_iff : unknownEffect s = Sm83.Arith.daa.exec n s ↔
    s.flag .N = false ∧ s.reg .A = 0x99 ∧ s.flag .H = true ∧ s.flag .C = true := by
  constructor
  · intro h
    have hN : s.flag .N = false := by
      have hN := congrArg (Sm83.State.flag · .N) h
      simp only [Sm83.Arith.exec, Sm83.State.daa, unknownEffect_flag, Sm83.State.flag_setZnhc]
        at hN
      exact hN.symm
    have hA := congrArg (Sm83.State.reg · .A) h
    simp only [unknownEffect_A] at hA
    exact ⟨hN, (daa_A s hN).mp hA.symm⟩
  · rintro ⟨hN, hA, hH, hC⟩
    have hd : s.daaAdjustment = 0x66 := by
      simp [Sm83.State.daaAdjustment, hA, hH, hC]
    simp only [unknownEffect, Sm83.Arith.exec, Sm83.State.daa, hd, hN, hA, hC]
    rfl

end Effects

theorem hasEffect_scf_iff (m : Machine) (w : CodeWord) (hw : w.opcode = .arith .scf) :
    HasEffect w m .scf ↔
      m.abs.reg .A = 0xFF ∧ m.abs.flag .Z = false ∧ m.abs.flag .C = true :=
  (hasEffect_iff m w .scf (by decide) hw).trans (unknownEffect_scf_iff m.abs _)

/-- SCF and DAA come out right in the states where their effect is the one that all four have. CCF
and CPL never do, and no DAA leaves a decimal sum or difference, whatever ran before it. -/
theorem accumulator_effects (m : Machine) (daa cpl scf ccf : CodeWord)
    (hdaa : daa.opcode = .arith .daa) (hcpl : cpl.opcode = .arith .cpl)
    (hscf : scf.opcode = .arith .scf) (hccf : ccf.opcode = .arith .ccf) :
    (HasEffect scf m .scf ↔
      m.abs.reg .A = 0xFF ∧ m.abs.flag .Z = false ∧ m.abs.flag .C = true) ∧
    ¬ HasEffect ccf m .ccf ∧ ¬ HasEffect cpl m .cpl ∧
    (HasEffect daa m .daa ↔ m.abs.flag .N = false ∧ m.abs.reg .A = 0x99 ∧
      m.abs.flag .H = true ∧ m.abs.flag .C = true) ∧
    ∀ (first : CodeWord) (x y : U8),
      ¬ AddsDecimal m first daa x y ∧ ¬ SubtractsDecimal m first daa x y := by
  refine ⟨hasEffect_scf_iff m scf hscf, ?_, ?_, ?_, fun first x y => ⟨?_, ?_⟩⟩
  · rw [hasEffect_iff m ccf .ccf (by decide) hccf]
    exact unknownEffect_ne_ccf m.abs _
  · rw [hasEffect_iff m cpl .cpl (by decide) hcpl]
    exact unknownEffect_ne_cpl m.abs _
  · rw [hasEffect_iff m daa .daa (by decide) hdaa]
    exact unknownEffect_daa_iff m.abs _
  · exact not_leavesDecimal m daa first hdaa _ _
  · rintro ⟨borrow, h⟩
    exact not_leavesDecimal m daa first hdaa _ borrow h

theorem accumulator_effects_zero :
    (HasEffect 0x370000 machineAtZero .scf ↔ machineAtZero.abs.reg .A = 0xFF ∧
      machineAtZero.abs.flag .Z = false ∧ machineAtZero.abs.flag .C = true) ∧
    ¬ HasEffect 0x3F0000 machineAtZero .ccf ∧ ¬ HasEffect 0x2F0000 machineAtZero .cpl ∧
    (HasEffect 0x270000 machineAtZero .daa ↔ machineAtZero.abs.flag .N = false ∧
      machineAtZero.abs.reg .A = 0x99 ∧ machineAtZero.abs.flag .H = true ∧
      machineAtZero.abs.flag .C = true) ∧
    ∀ (first : CodeWord) (x y : U8), ¬ AddsDecimal machineAtZero first 0x270000 x y ∧
      ¬ SubtractsDecimal machineAtZero first 0x270000 x y :=
  accumulator_effects machineAtZero 0x270000 0x2F0000 0x370000 0x3F0000 rfl rfl rfl rfl

/-- SCF changes A, and `ADD A, 0x15` and DAA do not leave the digits 1 and 5. -/
theorem accumulator_is_overwritten : ¬ HasEffect 0x370000 machineAtZero .scf ∧
    ¬ AddsDecimal machineAtZero 0xC61500 0x270000 0x00 0x15 := by
  constructor
  · rw [hasEffect_scf_iff machineAtZero 0x370000 rfl]
    decide
  · exact not_leavesDecimal machineAtZero 0x270000 0xC61500 rfl _ _

end Beemu
