import Beemu.Effect.Arithmatic
import Beemu.Lib.History
import Beemu.Sm83.Bits

/-!
# The effect of BIT, RES and SET

RES and SET force one bit and touch nothing else, so that after any run on one operand each of
its bits is as it was last forced. BIT writes the bit itself where Z asks for its complement.
-/

namespace Beemu

open Sm83 (Force ForcesBit)
open History (lastWrite)

/-- The queue of a bit operation fetches two bytes and then does the operation. -/
theorem bitwise_queue (w : CodeWord) (m : Machine) (op : Sm83.BitOp) (n : BitVec 3)
    (o : Sm83.Operand8) (hw : w.opcode = .cb (.bits op n o)) :
    ∃ queue m', parserParse m.processor w.token = .ok queue ∧ m'.abs = m.abs.setPc (m.abs.pc + 2) ∧
      applyQueue m queue = applyQueue m' (bitwiseCommands m.abs op n o) := by
  have hq := parserParse_eq w m.processor (by rw [hw]; nofun)
  rw [hw, bodyCommands, ← List.append_assoc] at hq
  refine ⟨_, _, hq, ?_, applyQueue_append m _ _⟩
  exact applyQueue_fetchCommands m m.abs.pc w.opcodeByte [w.firstOperand]

/-! ## BIT -/

/-- What BIT has to do to a machine: Z is the complement of the bit, N is reset, H is set, and
nothing else is written but PC. -/
def BitEffect (w : CodeWord) (m : Machine) (n : BitVec 3) (o : Sm83.Operand8) : Prop :=
  ∃ t queue pc, tokenizerTokenize (w.setWidth 32) = .ok t ∧
    parserParse m.processor t = .ok queue ∧
    (applyQueue m queue).abs = (Sm83.BitOp.bit.exec n o m.abs).setPc pc

/-- Two words run one right after the other leave Z at `z`. -/
def LeavesZ (m : Machine) (first second : CodeWord) (z : Bool) : Prop :=
  ∃ e e', step m first = .ok e ∧ step e.machine second = .ok e' ∧ e'.machine.abs.flag .Z = z

/-- Z is written with the bit itself. -/
theorem bit_queue (w : CodeWord) (m : Machine) (n : BitVec 3) (o : Sm83.Operand8)
    (hw : w.opcode = .cb (.bits .bit n o)) :
    ∃ queue, parserParse m.processor w.token = .ok queue ∧
      (applyQueue m queue).abs =
        (m.abs.setZnh ((m.abs.operand8 o).getLsbD n.toNat) false true).setPc (m.abs.pc + 2) := by
  obtain ⟨queue, m', hq, hm, he⟩ := bitwise_queue w m .bit n o hw
  refine ⟨queue, hq, ?_⟩
  have hb : bitwiseCommands m.abs .bit n o = haltIf (o = .indHL) ++
      flagCommands ((m.abs.operand8 o).getLsbD n.toNat) false true none := rfl
  rw [he, hb, applyQueue_append, applyQueue_flagCommands_none, applyQueue_haltIf, hm]
  rfl

theorem step_bit (w : CodeWord) (m : Machine) (n : BitVec 3) (o : Sm83.Operand8)
    (hw : w.opcode = .cb (.bits .bit n o)) :
    ∃ e, step m w = .ok e ∧ e.machine.abs.flag .Z = (m.abs.operand8 o).getLsbD n.toNat := by
  obtain ⟨queue, hq, he⟩ := bit_queue w m n o hw
  refine ⟨_, step_eq m w queue hq, ?_⟩
  change (applyQueue m queue).abs.flag .Z = _
  rw [he, Sm83.State.flag_setPc, Sm83.State.flag_setZnh]

/-! ## RES and SET -/

theorem step_force (w : CodeWord) (m : Machine) (f : Force) (hw : w.opcode = f.opcode) :
    ∃ e, step m w = .ok e ∧ ForcesBit f m.abs e.machine.abs := by
  obtain ⟨queue, m', hq, hm, he⟩ := bitwise_queue w m f.op f.place f.operand hw
  have hb : bitwiseCommands m.abs f.op f.place f.operand = haltIf (f.operand = .indHL) ++
      writeOperand m.abs f.operand (Sm83.putBit (m.abs.operand8 f.operand) f.place f.value) ::
        haltIf (f.operand = .indHL) := by
    cases hv : f.value <;> rw [Force.op, hv] <;> rfl
  refine ⟨_, step_eq m w queue hq, ?_⟩
  change ForcesBit f m.abs (applyQueue m queue).abs
  rw [he, hb, applyQueue_append, applyQueue_cons, applyQueue_haltIf,
    apply_writeOperand _ m.abs _ ((applyQueue_haltIf m' _).trans hm), ← f.exec_eq]
  exact Sm83.forcesBit_exec f m.abs _

/-! ## BIT against RES and SET -/

theorem not_bitEffect (w : CodeWord) (m : Machine) (n : BitVec 3) (o : Sm83.Operand8)
    (hw : w.opcode = .cb (.bits .bit n o)) : ¬ BitEffect w m n o := by
  rintro ⟨t, queue, pc, ht, hq, he⟩
  obtain ⟨queue', hq', he'⟩ := bit_queue w m n o hw
  obtain ⟨rfl, rfl⟩ := parsed_unique ht hq hq'
  have hz := congrArg (Sm83.State.flag · .Z) (he'.symm.trans he)
  simp only [Sm83.BitOp.exec, Sm83.State.flag_setPc, Sm83.State.flag_setZnh] at hz
  cases hb : (m.abs.operand8 o).getLsbD n.toNat <;> rw [hb] at hz <;> cases hz

/-- A bit that has just been forced is what BIT leaves in Z. -/
theorem leavesZ_iff (wf wb : CodeWord) (m : Machine) (f : Force) (hf : wf.opcode = f.opcode)
    (hb : wb.opcode = .cb (.bits .bit f.place f.operand)) (z : Bool) :
    LeavesZ m wf wb z ↔ z = f.value := by
  obtain ⟨e, he, hforce⟩ := step_force wf m f hf
  obtain ⟨e', he', hz⟩ := step_bit wb e.machine f.place f.operand hb
  have hv : e'.machine.abs.flag .Z = f.value := hz.trans hforce.forced
  constructor
  · rintro ⟨d, d', hd, hd', rfl⟩
    obtain rfl := Except.ok.inj (he.symm.trans hd)
    obtain rfl := Except.ok.inj (he'.symm.trans hd')
    exact hv
  · rintro rfl
    exact ⟨e, e', he, he', hv⟩

/-- BIT is wrong about every bit, and so it is after a RES and after a SET of that bit. -/
theorem bit_effect_never (wb wr ws : CodeWord) (n : BitVec 3) (o : Sm83.Operand8)
    (hb : wb.opcode = .cb (.bits .bit n o)) (hr : wr.opcode = .cb (.bits .res n o))
    (hs : ws.opcode = .cb (.bits .set n o)) (m : Machine) :
    ¬ BitEffect wb m n o ∧ ¬ LeavesZ m wr wb true ∧ ¬ LeavesZ m ws wb false := by
  refine ⟨not_bitEffect wb m n o hb, ?_, ?_⟩
  · rw [leavesZ_iff wr wb m ⟨o, n, false⟩ hr hb]
    exact Bool.noConfusion
  · rw [leavesZ_iff ws wb m ⟨o, n, true⟩ hs hb]
    exact Bool.noConfusion

/-- Bit 0 of B. -/
theorem bit_effect_never_B :
    ¬ BitEffect 0xCB4000 machineAtZero 0 (.reg .B) ∧
      ¬ LeavesZ machineAtZero 0xCB8000 0xCB4000 true ∧
      ¬ LeavesZ machineAtZero 0xCBC000 0xCB4000 false :=
  bit_effect_never 0xCB4000 0xCB8000 0xCBC000 0 (.reg .B) rfl rfl rfl machineAtZero

/-- `BIT 0, B` with B at 0 leaves Z reset. -/
theorem bit_of_zero_resets_z : ¬ BitEffect 0xCB4000 machineAtZero 0 (.reg .B) :=
  not_bitEffect 0xCB4000 machineAtZero 0 (.reg .B) rfl

/-! ## Runs of RES and SET -/

/-- A trace in which each step forces its bit. -/
def ForcesBits : Sm83.State → List Force → List Executed → Prop
  | _, [], [] => True
  | s, f :: fs, e :: es => ForcesBit f s e.machine.abs ∧ ForcesBits e.machine.abs fs es
  | _, _, _ => False

/-- The machine that a trace ends with. -/
def lastMachine : Machine → List Executed → Machine
  | m, [] => m
  | _, e :: es => lastMachine e.machine es

/-- A step of a trace on one operand. -/
def ForcesOn (o : Sm83.Operand8) (s : Sm83.State) (f : Force) (t : Sm83.State) : Prop :=
  f.operand = o ∧ ForcesBit f s t

theorem ForcesBits.run {o : Sm83.Operand8} {m : Machine} {fs : List Force} {es : List Executed}
    (h : ForcesBits m.abs fs es) (ho : ∀ f ∈ fs, f.operand = o) :
    History.Run (ForcesOn o) m.abs fs (lastMachine m es).abs := by
  induction fs generalizing m es with
  | nil =>
    cases es with
    | nil => exact .nil _
    | cons e es => exact h.elim
  | cons f fs ih =>
    cases es with
    | nil => exact h.elim
    | cons e es =>
      obtain ⟨hf, ho⟩ := List.forall_mem_cons.mp ho
      exact .cons ⟨hf, h.1⟩ (ih h.2 ho)

theorem ForcesOn.read {o : Sm83.Operand8} {s t : Sm83.State} {f : Force} (h : ForcesOn o s f t)
    (i : BitVec 3) : (t.operand8 o).getLsbD i.toNat =
      if f.place = i then f.value else (s.operand8 o).getLsbD i.toNat := by
  obtain ⟨rfl, hf⟩ := h
  exact hf.read i

theorem run_forces (ws : List CodeWord) (fs : List Force)
    (hw : ws.map (·.opcode) = fs.map Force.opcode) (m : Machine) :
    ∃ es, run m ws = .ok es ∧ ForcesBits m.abs fs es := by
  induction ws generalizing fs m with
  | nil =>
    obtain rfl := List.map_eq_nil_iff.mp hw.symm
    exact ⟨[], rfl, trivial⟩
  | cons w ws ih =>
    obtain ⟨f, fs, rfl, hf, hfs⟩ := List.map_eq_cons_iff.mp hw.symm
    obtain ⟨e, he, hb⟩ := step_force w m f hf.symm
    obtain ⟨es, hes, hbs⟩ := ih fs hfs.symm e.machine
    exact ⟨e :: es, run_cons_eq m w ws e es he hes, hb, hbs⟩

/-- Every step of a run of RES and SET forces one bit of its own operand. A run on one operand
leaves in each bit what was forced on it last, or what was there. -/
theorem res_set_run (ws : List CodeWord) (fs : List Force)
    (hw : ws.map (·.opcode) = fs.map Force.opcode) (m : Machine) :
    ∃ es, run m ws = .ok es ∧ ForcesBits m.abs fs es ∧
      ∀ o, (∀ f ∈ fs, f.operand = o) → ∀ i : BitVec 3,
        ((lastMachine m es).abs.operand8 o).getLsbD i.toNat =
          (lastWrite i (fs.map fun f => (f.place, f.value))).getD
            ((m.abs.operand8 o).getLsbD i.toNat) := by
  obtain ⟨es, hes, hb⟩ := run_forces ws fs hw m
  refine ⟨es, hes, hb, fun o ho i => ?_⟩
  exact History.Run.read (fun s k => (s.operand8 o).getLsbD k.toNat) (fun f => (f.place, f.value))
    (fun _ _ _ h k => h.read k) (hb.run ho) i

/-- `SET 1, (HL)`, `RES 1, (HL)` and `SET 7, (HL)` on a machine of zeros. -/
theorem res_set_run_hl :
    let fs : List Force := [⟨.indHL, 1, true⟩, ⟨.indHL, 1, false⟩, ⟨.indHL, 7, true⟩]
    ∃ es, run machineAtZero [0xCBCE00, 0xCB8E00, 0xCBFE00] = .ok es ∧
      ForcesBits machineAtZero.abs fs es ∧
      ∀ o, (∀ f ∈ fs, f.operand = o) → ∀ i : BitVec 3,
        ((lastMachine machineAtZero es).abs.operand8 o).getLsbD i.toNat =
          (lastWrite i (fs.map fun f => (f.place, f.value))).getD
            ((machineAtZero.abs.operand8 o).getLsbD i.toNat) :=
  res_set_run _ _ (by decide) machineAtZero

end Beemu
