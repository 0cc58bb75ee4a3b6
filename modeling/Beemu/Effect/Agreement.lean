import Beemu.Effect.Step
import Beemu.Lib.Trace
import Beemu.Sm83.Step

/-!
# Where the emulator is an SM83

The states from which the commands of an instruction leave what the instruction leaves, PC
included, and from that the runs in which every state is the one that the SM83 is in.
-/

namespace Beemu

open Sm83 (hi lo)
open Tracing (Trace Throughout)

/-- The bits of a flag byte that are no flags. -/
def lowHalf (f : U8) : U8 := f &&& 0x0F

section Faithful

variable (n : U8) (nn : U16) (s : Sm83.State)

/-- A POP AF brings all of the byte that it finds into F, flags or not. -/
def loadFaithful : Sm83.Load → Prop
  | .pop p => s.sp ≠ 0xFFFF ∧ (p = .AF → lowHalf (s.mem s.sp) = 0)
  | .hlSpOffset => n.toNat < 128
  | _ => True

/-- An immediate operand is not fetched, so that PC is wrong whatever is computed. -/
def arithFaithful : Sm83.Arith → Prop
  | .alu _ _ | .inc8 _ | .dec8 _ | .incPair _ | .decPair _ => True
  | .addHL q =>
    (s.flag .Z = true ↔ ((s.pair .HL).toNat + (s.pair q).toNat) % 65536 < 256) ∧
      ¬ (256 ≤ (lo (s.pair .HL)).toNat + (lo (s.pair q)).toNat ∧
        (hi (s.pair .HL)).toNat % 16 = 15)
  | .scf => s.reg .A = 0xFF ∧ s.flag .Z = false ∧ s.flag .C = true
  | .daa => s.flag .N = false ∧ s.reg .A = 0x99 ∧ s.flag .H = true ∧ s.flag .C = true
  | .aluImm _ | .addSP | .cpl | .ccf => False

/-- No rotation is done: it has to leave A and its flags alone. -/
def rotAFaithful : Prop :=
  (s.reg .A = 0 ∧ s.flag .C = false ∨ s.reg .A = 0xFF ∧ s.flag .C = true) ∧
    s.flag .Z = false ∧ s.flag .N = false ∧ s.flag .H = false

/-- No jump is done, and one byte is fetched of each: it has to go to the next byte. -/
def jumpFaithful : Sm83.Jump → Prop
  | .jr => n = 0xFF
  | .jrIf c => c.holds s = true ∧ n = 0xFF
  | .jp => nn = s.pc + 1
  | .jpIf c => c.holds s = true ∧ nn = s.pc + 1
  | .jpHL => s.pair .HL = s.pc + 1
  | .retIf c => c.holds s = false
  | .call | .callIf _ | .ret | .reti | .rst _ => False

def faithful : Sm83.Opcode → Prop
  | .load l => loadFaithful n s l
  | .arith a => arithFaithful s a
  | .rotA _ => rotAFaithful s
  | .cb (.bits .res _ _) | .cb (.bits .set _ _) => True
  | .cb (.bits .bit _ _) | .cb (.rot _ _) => False
  | .jump j => jumpFaithful n nn s j
  | .system .stop => False
  | .system _ => True
  | .illegal _ => False

end Faithful

section Equal

variable {n : U8} {nn : U16} {s : Sm83.State}

/-- States that agree on PC are equal when they are equal with another PC. -/
theorem setPc_inj_iff {x y : Sm83.State} (h : x.pc = y.pc) (a : U16) :
    x.setPc a = y.setPc a ↔ x = y := by
  constructor
  · intro he
    have hr := congrArg Sm83.State.reg he
    have hf := congrArg Sm83.State.f he
    have hs := congrArg Sm83.State.sp he
    have hm := congrArg Sm83.State.mem he
    exact Sm83.State.ext hr hf hs h hm
  · rintro rfl
    rfl

theorem eq_and_F0_iff : ∀ f : U8, f = f &&& 0xF0 ↔ lowHalf f = 0 := by
  decide +kernel

theorem eq_maskF_iff : s = s.maskF ↔ lowHalf s.f = 0 := by
  rw [← eq_and_F0_iff]
  constructor
  · intro h
    exact congrArg Sm83.State.f h
  · intro h
    exact Sm83.State.ext rfl h rfl rfl rfl

/-- F is the byte at SP after a POP AF. -/
theorem pop_eq_iff (p : Sm83.StackPair) :
    (Sm83.Load.pop p).exec n nn s = (Sm83.Load.pop p).execMasked n nn s ↔
      (p = .AF → lowHalf (s.mem s.sp) = 0) := by
  by_cases hp : p = .AF
  · subst hp
    have hf : ((Sm83.Load.pop .AF).exec n nn s).f = s.mem s.sp := Sm83.lo_word _ _
    rw [Sm83.Load.execMasked, eq_maskF_iff, hf]
    exact true_imp_iff.symm.trans (imp_congr_left (iff_of_true trivial rfl))
  · have hl : Sm83.Load.pop p ≠ .pop .AF := fun h => hp (Sm83.Load.pop.inj h)
    exact iff_of_true (Sm83.Load.execMasked_eq _ hl n nn s).symm fun h => absurd h hp

theorem hlSpOffset_eq_iff :
    (s.setPair .HL (s.sp + n.setWidth 16)).setSpOffsetFlags n = Sm83.Load.hlSpOffset.exec n nn s ↔
      n.toNat < 128 := by
  rw [← Sm83.signExtend_eq_setWidth_iff]
  constructor
  · intro h
    have hp := congrArg (Sm83.State.pair · .HL) h
    change (s.setPair .HL (s.sp + n.setWidth 16)).pair .HL =
      (s.setPair .HL (s.spOffset n)).pair .HL at hp
    rw [Sm83.State.pair_setPair, Sm83.State.pair_setPair] at hp
    exact ((BitVec.add_right_inj _).mp hp).symm
  · intro h
    rw [Sm83.Load.exec, Sm83.State.spOffset, h]

theorem addHL_eq_iff (q : Sm83.Pair) :
    bodyEffect n nn s (.arith (.addHL q)) = (Sm83.Arith.addHL q).exec n s ↔
      arithFaithful s (.addHL q) := by
  have hz : decide (hi (s.pair .HL + s.pair q) = 0) = s.flag .Z ↔
      (s.flag .Z = true ↔ ((s.pair .HL).toNat + (s.pair q).toNat) % 65536 < 256) := by
    rw [Bool.eq_iff_iff, decide_eq_true_iff, hi_eq_zero_iff, BitVec.toNat_add]
    exact iff_comm
  rw [arithFaithful, ← hz, ← highHalfCarry_eq_iff, bodyEffect, Sm83.Arith.exec]
  constructor
  · intro h
    have hf (k : Sm83.Flag) := congrArg (Sm83.State.flag · k) h
    simp only [Sm83.State.flag_setZnhc] at hf
    exact ⟨hf .Z, hf .H⟩
  · rintro ⟨hz, hh⟩
    rw [hz, hh]

/-- A byte that a rotation through itself and C does not change is all zeros or all ones. -/
theorem rotA_fixed_iff (r : Sm83.RotA) : ∀ (v : U8) (c : Bool),
    (r.rotOp.result v c = v ∧ r.rotOp.carryOut v = c) ↔
      (v = 0 ∧ c = false ∨ v = 0xFF ∧ c = true) := by
  cases r <;> decide +kernel

theorem rotA_eq_iff (r : Sm83.RotA) : s = r.exec s ↔ rotAFaithful s := by
  have hfix := rotA_fixed_iff r (s.reg .A) (s.flag .C)
  rw [rotAFaithful, ← hfix]
  constructor
  · intro h
    have hA : s.reg .A = (r.exec s).reg .A := congrArg (Sm83.State.reg · .A) h
    have hf (k : Sm83.Flag) : s.flag k = (r.exec s).flag k := congrArg (Sm83.State.flag · k) h
    simp only [Sm83.RotA.exec, Sm83.State.flag_setZnhc] at hf
    have hr : (r.exec s).reg .A = r.rotOp.result (s.reg .A) (s.flag .C) := by
      change Function.update s.reg .A _ .A = _
      exact Function.update_self _ _ _
    exact ⟨⟨hr.symm.trans hA.symm, (hf .C).symm⟩, hf .Z, hf .N, hf .H⟩
  · rintro ⟨⟨hr, hc⟩, hz, hn, hh⟩
    have hs := s.setZnhc_flag
    rw [hz, hn, hh] at hs
    rw [Sm83.RotA.exec, hr, Sm83.State.setReg_self, hc]
    exact hs.symm

theorem bit_ne (k : BitVec 3) (o : Sm83.Operand8) :
    s.setZnh ((s.operand8 o).getLsbD k.toNat) false true ≠ Sm83.BitOp.bit.exec k o s := by
  intro h
  have hz := congrArg (Sm83.State.flag · .Z) h
  simp only [Sm83.BitOp.exec, Sm83.State.flag_setZnh] at hz
  cases hb : (s.operand8 o).getLsbD k.toNat <;> rw [hb] at hz <;> cases hz

theorem setPc_eq_setPc_iff (a b : U16) : s.setPc a = s.setPc b ↔ a = b := by
  constructor
  · intro h
    exact congrArg Sm83.State.pc h
  · rintro rfl
    rfl

theorem signExtend_eq_neg_one_iff : ∀ e : U8, e.signExtend 16 = -1 ↔ e = 0xFF := by
  decide +kernel

theorem succ_eq_relativeTarget_iff (pc : U16) (e : U8) :
    pc + 1 = Sm83.Jump.relativeTarget pc e ↔ e = 0xFF := by
  have h : pc + 1 = pc + 2 + e.signExtend 16 ↔ e.signExtend 16 = -1 := by
    constructor <;> intro h <;> bv_omega
  rw [Sm83.Jump.relativeTarget, h, signExtend_eq_neg_one_iff]

theorem setPc_ne_of_sp {t : Sm83.State} (a : U16) (h : t.sp ≠ s.sp) : s.setPc a ≠ t :=
  fun he => h (congrArg Sm83.State.sp he).symm

/-- A jump that is taken goes to the next byte in these cases. -/
theorem land_eq_iff (j : Sm83.Jump) :
    s.setPc (s.pc + 1) = j.land n nn s ↔ jumpFaithful n nn s j.always := by
  have hsub (pc : U16) : ((s.pushWord pc).setPc nn).sp ≠ s.sp := by
    change s.sp - 2 ≠ s.sp
    bv_omega
  have hadd : (s.setSp (s.sp + 2)).sp ≠ s.sp := by
    change s.sp + 2 ≠ s.sp
    bv_omega
  cases j with
  | jr | jrIf c =>
    exact (setPc_eq_setPc_iff _ _).trans (succ_eq_relativeTarget_iff s.pc n)
  | jp | jpIf c | jpHL => exact (setPc_eq_setPc_iff _ _).trans eq_comm
  | call | callIf c => exact iff_of_false (setPc_ne_of_sp _ (hsub _)) id
  | ret | retIf c | reti => exact iff_of_false (setPc_ne_of_sp _ hadd) id
  | rst k => exact iff_of_false (setPc_ne_of_sp _ (hsub _)) id

/-- One byte is fetched of a jump, and it is taken nowhere. -/
theorem jump_eq_iff (j : Sm83.Jump) :
    s.setPc (s.pc + 1) = j.exec n nn s ↔ jumpFaithful n nn s j := by
  by_cases ht : j.taken s = true
  · rw [Sm83.Jump.exec, if_pos ht, land_eq_iff]
    cases j with
    | jrIf c | jpIf c =>
      have hc : c.holds s = true := ht
      simp only [Sm83.Jump.always, jumpFaithful, hc, true_and]
    | retIf c =>
      have hc : c.holds s = true := ht
      simp only [Sm83.Jump.always, jumpFaithful, hc, Bool.true_eq_false]
    | _ => exact Iff.rfl
  · rw [Sm83.Jump.exec, if_neg ht, setPc_eq_setPc_iff]
    have hf : j.taken s = false := Bool.eq_false_iff.mpr ht
    have h2 : s.pc + 1 ≠ s.pc + 2 := by bv_omega
    have h3 : s.pc + 1 ≠ s.pc + 3 := by bv_omega
    cases j with
    | jrIf c =>
      have hc : c.holds s = false := hf
      exact iff_of_false h2 fun h => Bool.false_ne_true (hc.symm.trans h.1)
    | jpIf c =>
      have hc : c.holds s = false := hf
      exact iff_of_false h3 fun h => Bool.false_ne_true (hc.symm.trans h.1)
    | callIf c => exact iff_of_false h3 id
    | retIf c => exact iff_of_true rfl hf
    | _ => exact absurd rfl ht

end Equal

section Opcodes

variable {n : U8} {nn : U16} {s : Sm83.State}

theorem setPc_ne_setPc {x y : Sm83.State} {a b : U16} (h : a ≠ b) : x.setPc a ≠ y.setPc b :=
  fun he => h (congrArg Sm83.State.pc he)

theorem succ_ne_add_two (pc : U16) : pc + 1 ≠ pc + 2 := by bv_omega

theorem load_eq_iff (l : Sm83.Load) (hs : ∀ q, l = .pop q → s.sp ≠ 0xFFFF) :
    bodyEffect n nn s (.load l) = l.execMasked n nn s ↔ loadFaithful n s l := by
  cases l with
  | pop q => exact (pop_eq_iff q).trans (and_iff_right (hs q rfl)).symm
  | hlSpOffset =>
    have hne : Sm83.Load.hlSpOffset ≠ .pop .AF := by decide
    rw [Sm83.Load.execMasked_eq _ hne]
    exact hlSpOffset_eq_iff
  | _ => exact iff_of_true rfl trivial

/-- Of the instructions that fetch all their bytes. -/
theorem arith_eq_iff (a : Sm83.Arith) (ha : a.length = 1) :
    bodyEffect n nn s (.arith a) = a.exec n s ↔ arithFaithful s a := by
  cases a with
  | addHL q => exact addHL_eq_iff q
  | daa => exact unknownEffect_daa_iff s n
  | scf => exact unknownEffect_scf_iff s n
  | cpl => exact iff_of_false (unknownEffect_ne_cpl s n) id
  | ccf => exact iff_of_false (unknownEffect_ne_ccf s n) id
  | aluImm op | addSP => cases ha
  | _ => exact iff_of_true rfl trivial

theorem arith_exec_pc (a : Sm83.Arith) : (a.exec n s).pc = s.pc := by
  cases a with
  | alu op o | aluImm op => cases op <;> rfl
  | inc8 o | dec8 o => cases o <;> rfl
  | incPair q | decPair q => cases q <;> rfl
  | addHL q | addSP | daa | cpl | scf | ccf => rfl

theorem arith_effect_pc (a : Sm83.Arith) : (bodyEffect n nn s (.arith a)).pc = s.pc := by
  cases a with
  | alu op o | aluImm op => cases op <;> rfl
  | inc8 o | dec8 o => cases o <;> rfl
  | incPair q | decPair q => cases q <;> rfl
  | addHL q | addSP | daa | cpl | scf | ccf => rfl

theorem arith_step_eq_iff (a : Sm83.Arith) :
    (bodyEffect n nn s (.arith a)).setPc (s.pc + 1) =
      (a.exec n s).setPc (s.pc + BitVec.ofNat 16 a.length) ↔ arithFaithful s a := by
  by_cases ha : a.length = 1
  · rw [ha]
    have hpc : (bodyEffect n nn s (.arith a)).pc = (a.exec n s).pc :=
      (arith_effect_pc a).trans (arith_exec_pc a).symm
    exact (setPc_inj_iff hpc _).trans (arith_eq_iff a ha)
  · have h2 : a.length = 2 ∧ ¬ arithFaithful s a := by
      cases a <;> first | exact absurd rfl ha | exact ⟨rfl, id⟩
    rw [h2.1]
    exact iff_of_false (setPc_ne_setPc (succ_ne_add_two s.pc)) h2.2

theorem load_exec_pc (l : Sm83.Load) : (l.exec n nn s).pc = s.pc := by
  cases l with
  | ptrA p | aPtr p => cases p <;> rfl
  | pairImm p | push p | pop p => cases p <;> rfl
  | _ => rfl

theorem load_effect_pc (l : Sm83.Load) : (bodyEffect n nn s (.load l)).pc = s.pc := by
  cases l with
  | hlSpOffset => rfl
  | _ => exact load_exec_pc _

theorem load_execMasked_pc (l : Sm83.Load) : (l.execMasked n nn s).pc = s.pc := by
  by_cases hl : l = .pop .AF
  · subst hl
    rfl
  · rw [Sm83.Load.execMasked_eq l hl, load_exec_pc]

theorem load_step_eq_iff (l : Sm83.Load) (hs : ∀ q, l = .pop q → s.sp ≠ 0xFFFF) (pc : U16) :
    (bodyEffect n nn s (.load l)).setPc pc = (l.execMasked n nn s).setPc pc ↔
      loadFaithful n s l := by
  have hpc : (bodyEffect n nn s (.load l)).pc = (l.execMasked n nn s).pc :=
    (load_effect_pc l).trans (load_execMasked_pc l).symm
  exact (setPc_inj_iff hpc pc).trans (load_eq_iff l hs)

/-- BIT has its complement missing, RES and SET are right, and a rotation is not done. -/
theorem cb_step_eq_iff (c : Sm83.Cb) :
    (bodyEffect n nn s (.cb c)).setPc (s.pc + BitVec.ofNat 16 (fetchedBytes (.cb c))) =
      (c.exec s).setPc (s.pc + 2) ↔ faithful n nn s (.cb c) := by
  cases c with
  | rot op o => exact iff_of_false (setPc_ne_setPc (succ_ne_add_two s.pc)) id
  | bits op k o =>
    cases op with
    | bit =>
      have hpc : (s.setZnh ((s.operand8 o).getLsbD k.toNat) false true).pc =
          (Sm83.BitOp.bit.exec k o s).pc := rfl
      exact iff_of_false (fun h => bit_ne k o ((setPc_inj_iff hpc _).mp h)) id
    | res | set => exact iff_of_true rfl trivial

/-- The states from which an instruction leaves what the instruction set says. -/
theorem step_eq_iff (o : Sm83.Opcode) (ho : ¬ PopsPastEnd s o) :
    some ((bodyEffect n nn s o).setPc (s.pc + BitVec.ofNat 16 (fetchedBytes o))) =
      o.exec n nn s ↔ faithful n nn s o := by
  cases o with
  | load l =>
    have hl : ∀ q, l = .pop q → s.sp ≠ 0xFFFF := fun q h hs =>
      ho ⟨hs, q, congrArg Sm83.Opcode.load h⟩
    exact Option.some_inj.trans (load_step_eq_iff l hl _)
  | arith a => exact Option.some_inj.trans (arith_step_eq_iff a)
  | cb c => exact Option.some_inj.trans (cb_step_eq_iff c)
  | rotA r =>
    have hpc : s.pc = (r.exec s).pc := rfl
    exact Option.some_inj.trans ((setPc_inj_iff hpc _).trans (rotA_eq_iff r))
  | jump j => exact Option.some_inj.trans (jump_eq_iff j)
  | system r =>
    cases r with
    | stop =>
      refine iff_of_false (fun h => ?_) id
      exact setPc_ne_setPc (succ_ne_add_two s.pc) (Option.some.inj h)
    | _ => exact iff_of_true rfl trivial
  | illegal b => exact iff_of_false nofun id

end Opcodes

/-! ## Words and runs -/

/-- The SM83 takes a word from one state to another. -/
def Sm83Step (s : Sm83.State) (w : CodeWord) (t : Sm83.State) : Prop :=
  w.opcode.exec w.firstOperand w.immediate s = some t

/-- One word run after the trace so far, tokenized, parsed and applied. -/
def EmulatorStep (e : Executed) (w : CodeWord) (e' : Executed) : Prop :=
  step e.machine w = .ok e'

def FaithfulAt (s : Sm83.State) (w : CodeWord) : Prop :=
  faithful w.firstOperand w.immediate s w.opcode

/-- A step of the emulator is a step of the SM83 from the faithful states. -/
theorem sm83Step_iff (m : Machine) (w : CodeWord) :
    (∃ e, step m w = .ok e ∧ Sm83Step m.abs w e.machine.abs) ↔ FaithfulAt m.abs w := by
  by_cases hp : PopsPastEnd m.abs w.opcode
  · have hf : ¬ FaithfulAt m.abs w := by
      obtain ⟨hs, q, hq⟩ := hp
      rw [FaithfulAt, hq]
      exact fun h => h.1 hs
    refine iff_of_false ?_ hf
    rintro ⟨e, he, -⟩
    exact (step_ok_iff m w).mp ⟨e, he⟩ hp
  · obtain ⟨e, he, hs'⟩ := step_effect m w hp
    rw [exists_ok_iff he, Sm83Step, hs']
    exact eq_comm.trans (step_eq_iff w.opcode hp)

theorem emulatorStep_unique (d : Executed) (w : CodeWord) (e e' : Executed)
    (h : EmulatorStep d w e) (h' : EmulatorStep d w e') : e = e' :=
  Except.ok.inj (h.symm.trans h')

theorem sm83Step_unique (s : Sm83.State) (w : CodeWord) (t u : Sm83.State)
    (ht : Sm83Step s w t) (hu : Sm83Step s w u) : t = u :=
  Option.some.inj (ht.symm.trans hu)

theorem run_eq_ok_iff (e : Executed) (ws : List CodeWord) (es : List Executed) :
    run e.machine ws = .ok es ↔ Trace EmulatorStep e ws es := by
  induction ws generalizing e es with
  | nil =>
    constructor
    · rintro ⟨⟩
      exact .nil e
    · rintro ⟨⟩
      rfl
  | cons w ws ih =>
    rw [Tracing.trace_cons_iff]
    constructor
    · intro h
      rw [run] at h
      cases hs : step e.machine w with
      | error err => rw [hs] at h; cases h
      | ok d =>
        rw [hs, ok_bind] at h
        cases hr : run d.machine ws with
        | error err => rw [hr] at h; cases h
        | ok rest =>
          rw [hr, ok_bind] at h
          obtain rfl := Except.ok.inj h
          exact ⟨d, rest, rfl, hs, (ih d rest).mp hr⟩
    · rintro ⟨d, rest, rfl, hs, ht⟩
      exact run_cons_eq e.machine w ws d rest hs ((ih d rest).mpr ht)

/-- The states that a run passes are those of the SM83 on the same words exactly when each word
finds a faithful state of the SM83 when its turn comes. -/
theorem run_refines_iff (m : Machine) (ws : List CodeWord) :
    (∃ es, run m ws = .ok es ∧ Trace Sm83Step m.abs ws (es.map fun e => e.machine.abs)) ↔
      Throughout FaithfulAt Sm83Step m.abs ws := by
  have hstep : ∀ e w, (∃ e', EmulatorStep e w e' ∧ Sm83Step e.machine.abs w e'.machine.abs) ↔
      FaithfulAt e.machine.abs w := fun e w => sm83Step_iff e.machine w
  have h := Tracing.trace_map_iff (fun e : Executed => e.machine.abs) sm83Step_unique hstep
    ⟨[], m⟩ ws
  simpa only [← run_eq_ok_iff] using h

end Beemu
