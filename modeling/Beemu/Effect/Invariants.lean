import Beemu.Effect.Order
import Beemu.Effect.Shape

/-!
# What runs keep

Four bits of the flag byte have no flag in them and stay as they are under everything but a POP AF.
The interrupt switch and the buses are places that commands can name, and no instruction does.
-/

namespace Beemu

open History (lastWrite)
open MachineCommand
open Tracing (Trace Throughout)

/-! ## The low half of F -/

@[simp] theorem lowHalf_setFlag (k : Sm83.Flag) (b : Bool) :
    ∀ f : U8, lowHalf (Sm83.setFlag f k b) = lowHalf f := by
  cases k <;> cases b <;> decide +kernel

section LowHalf

variable (s : Sm83.State) (n : U8) (nn : U16)

@[simp] theorem lowHalf_setZnh (z k h : Bool) : lowHalf (s.setZnh z k h).f = lowHalf s.f := by
  simp [Sm83.State.setZnh, Sm83.State.setFlag]

@[simp] theorem lowHalf_setZnhc (z k h c : Bool) :
    lowHalf (s.setZnhc z k h c).f = lowHalf s.f := by
  simp [Sm83.State.setZnhc, Sm83.State.setFlag]

@[simp] theorem setPair_f (q : Sm83.Pair) (v : U16) : (s.setPair q v).f = s.f := by
  cases q <;> rfl

@[simp] theorem setOperand8_f (o : Sm83.Operand8) (v : U8) : (s.setOperand8 o v).f = s.f := by
  cases o <;> rfl

theorem lowHalf_load (l : Sm83.Load) (hl : l ≠ .pop .AF) :
    lowHalf (bodyEffect n nn s (.load l)).f = lowHalf s.f := by
  cases l with
  | pop r =>
    cases r with
    | AF => exact absurd rfl hl
    | BC | DE | HL => rfl
  | ptrA p | aPtr p => cases p <;> rfl
  | pairImm q => exact congrArg lowHalf (setPair_f s q nn)
  | hlSpOffset =>
    exact (lowHalf_setZnhc _ _ _ _ _).trans (congrArg lowHalf (setPair_f s .HL _))
  | _ => rfl

theorem lowHalf_alu (op : Sm83.AluOp) (y : U8) : lowHalf (s.alu op y).f = lowHalf s.f := by
  rw [Sm83.State.alu, lowHalf_setZnhc]
  split_ifs <;> rfl

theorem lowHalf_arith (a : Sm83.Arith) :
    lowHalf (bodyEffect n nn s (.arith a)).f = lowHalf s.f := by
  cases a with
  | alu op o => exact lowHalf_alu s op _
  | aluImm op => exact lowHalf_alu s op n
  | inc8 o | dec8 o => simp [bodyEffect, Sm83.Arith.exec]
  | incPair q | decPair q => simp [bodyEffect, Sm83.Arith.exec]
  | addHL q | addSP => simp [bodyEffect]
  | daa | cpl | scf | ccf => simp [bodyEffect, unknownEffect]

theorem lowHalf_cb (c : Sm83.Cb) : lowHalf (bodyEffect n nn s (.cb c)).f = lowHalf s.f := by
  cases c with
  | rot op o => rfl
  | bits op k o => cases op <;> simp [bodyEffect, Sm83.BitOp.exec]

/-- Every instruction but one leaves them alone. -/
theorem lowHalf_effect (o : Sm83.Opcode) (ho : o ≠ .load (.pop .AF)) :
    lowHalf (bodyEffect n nn s o).f = lowHalf s.f := by
  cases o with
  | load l => exact lowHalf_load s n nn l fun h => ho (congrArg Sm83.Opcode.load h)
  | arith a => exact lowHalf_arith s n nn a
  | cb c => exact lowHalf_cb s n nn c
  | rotA r | jump j | system r | illegal b => rfl

theorem lowHalf_popAF : lowHalf (bodyEffect n nn s (.load (.pop .AF))).f =
    lowHalf (s.mem s.sp) := by
  change lowHalf (Sm83.lo (Sm83.word (s.mem (s.sp + 1)) (s.mem s.sp))) = _
  rw [Sm83.lo_word]

end LowHalf

/-- A POP AF finds a byte on the stack whose low half is clear. -/
def PopsClean (e : Executed) (w : CodeWord) : Prop :=
  w.opcode = .load (.pop .AF) → lowHalf (e.machine.abs.mem e.machine.abs.sp) = 0

/-- A step keeps the low half clear unless it is a POP AF that finds another one on the stack. -/
theorem lowHalf_step {e e' : Executed} {w : CodeWord} (h : EmulatorStep e w e')
    (hf : lowHalf e.machine.abs.f = 0) : lowHalf e'.machine.abs.f = 0 ↔ PopsClean e w := by
  have he : lowHalf e'.machine.abs.f =
      lowHalf (bodyEffect w.firstOperand w.immediate e.machine.abs w.opcode).f := by
    rw [effect_of_step h]
    rfl
  rw [he, PopsClean]
  by_cases ho : w.opcode = .load (.pop .AF)
  · rw [ho, lowHalf_popAF]
    exact ⟨fun h _ => h, fun h => h rfl⟩
  · rw [lowHalf_effect _ _ _ _ ho]
    exact iff_of_true hf fun h => absurd h ho

theorem lowHalf_trace {d : Executed} {ws : List CodeWord} {es : List Executed}
    (h : Trace EmulatorStep d ws es) (hf : lowHalf d.machine.abs.f = 0) :
    (∀ e ∈ es, lowHalf e.machine.abs.f = 0) ↔ Throughout PopsClean EmulatorStep d ws := by
  induction h with
  | nil s => exact iff_of_true nofun (.nil s)
  | @cons s e w ws es hs _ ih =>
    rw [List.forall_mem_cons, Tracing.throughout_cons_iff_of_step emulatorStep_unique hs,
      lowHalf_step hs hf]
    exact and_congr_right fun hp => ih ((lowHalf_step hs hf).mpr hp)

/-- From a machine in which they are clear, the bits of F that are no flags are clear in every
machine of a run just when every POP AF of it finds them clear on the stack. -/
theorem run_low_half (m : Machine) (ws : List CodeWord) (es : List Executed)
    (hf : lowHalf m.abs.f = 0) (h : run m ws = .ok es) :
    (∀ e ∈ es, lowHalf e.machine.abs.f = 0) ↔ Throughout PopsClean EmulatorStep ⟨[], m⟩ ws :=
  lowHalf_trace ((run_eq_ok_iff ⟨[], m⟩ ws es).mp h) hf

/-- `LD A, n` and `PUSH AF` from a machine of zeros. -/
theorem run_low_half_push :
    ∃ es, run machineAtZero [0x3E4200, 0xF50000] = .ok es ∧
      ((∀ e ∈ es, lowHalf e.machine.abs.f = 0) ↔
        Throughout PopsClean EmulatorStep ⟨[], machineAtZero⟩ [0x3E4200, 0xF50000]) := by
  obtain ⟨es, h⟩ := run_ok machineAtZero [0x3E4200, 0xF50000]
    (List.forall_mem_cons.mpr ⟨rfl, List.forall_mem_singleton.mpr rfl⟩)
  exact ⟨es, h, run_low_half machineAtZero _ es rfl h⟩

/-! ## The places inside the processor -/

/-- A command that names neither the interrupt switch nor a bus. -/
def namesNoBus : MachineCommand → Bool
  | .write .ime _ | .write (.internal .addressBus) _ | .write (.internal .dataBus) _ => false
  | _ => true

/-- Two machines with the same interrupt switch and the same buses. -/
structure SameBuses (m n : Machine) : Prop where
  ime : m.ime = n.ime
  addressBus : m.addressBus = n.addressBus
  dataBus : m.dataBus = n.dataBus

theorem sameBuses_applyCommand (m : Machine) (c : MachineCommand) (h : namesNoBus c = true) :
    SameBuses (applyCommand m c) m := by
  cases c with
  | halt b => exact ⟨rfl, rfl, rfl⟩
  | write t v =>
    cases t with
    | ime => cases h
    | internal i =>
      cases i with
      | addressBus | dataBus => cases h
      | programCounter | instructionRegister => exact ⟨rfl, rfl, rfl⟩
    | _ => exact ⟨rfl, rfl, rfl⟩

theorem sameBuses_applyQueue (m : Machine) (q : CommandQueue) (h : q.all namesNoBus = true) :
    SameBuses (applyQueue m q) m := by
  induction q generalizing m with
  | nil => exact ⟨rfl, rfl, rfl⟩
  | cons c q ih =>
    rw [List.all_cons, Bool.and_eq_true] at h
    obtain ⟨hi, ha, hd⟩ := ih (applyCommand m c) h.2
    obtain ⟨hi', ha', hd'⟩ := sameBuses_applyCommand m c h.1
    exact ⟨hi.trans hi', ha.trans ha', hd.trans hd'⟩

section Buses

variable (s : Sm83.State) (n : U8)

theorem namesNoBus_fetchCommands (pc : U16) (bytes : List U8) :
    (fetchCommands pc bytes).all namesNoBus = true := by
  induction bytes generalizing pc with
  | nil => rfl
  | cons b bs ih => exact ih (pc + 1)

theorem namesNoBus_loadCommands (nn : U16) (l : Sm83.Load) :
    (loadCommands s n nn l).all namesNoBus = true := by
  cases l with
  | ptrA p | aPtr p => cases p <;> rfl
  | _ => rfl

theorem namesNoBus_arithmaticCommands (a : Sm83.Arith) :
    (arithmaticCommands s n a).all namesNoBus = true := by
  cases a with
  | alu op o => cases op <;> cases o <;> rfl
  | aluImm op => cases op <;> rfl
  | inc8 o | dec8 o => cases o <;> rfl
  | _ => rfl

theorem namesNoBus_bodyCommands (n' : U8) (o : Sm83.Opcode) :
    (bodyCommands s n n' o).all namesNoBus = true := by
  cases o with
  | load l =>
    rw [bodyCommands, List.all_append, namesNoBus_fetchCommands, namesNoBus_loadCommands]
    rfl
  | arith a => exact namesNoBus_arithmaticCommands s n a
  | cb c =>
    cases c with
    | rot op o => rfl
    | bits op k o => cases op <;> cases o <;> rfl
  | rotA r | jump j | system r | illegal b => rfl

end Buses

/-- The bytes of a word that are fetched. -/
def CodeWord.fetched (w : CodeWord) : List U8 :=
  w.opcodeByte :: operandBytes (fetchedBytes w.opcode) w.firstOperand w.secondOperand

theorem ir_of_not_isFetch (m : Machine) (c : MachineCommand) (h : c.isFetch = false) :
    (applyCommand m c).instructionRegister = m.instructionRegister := by
  cases c with
  | halt b => rfl
  | write t v =>
    cases t with
    | internal i =>
      cases i with
      | instructionRegister => cases h
      | programCounter | addressBus | dataBus => rfl
    | _ => rfl

theorem ir_of_fetches_nil (m : Machine) (q : CommandQueue) (h : fetches q = []) :
    (applyQueue m q).instructionRegister = m.instructionRegister := by
  induction q generalizing m with
  | nil => rfl
  | cons c q ih =>
    rw [fetches_cons] at h
    cases hc : c.isFetch with
    | true => rw [hc] at h; cases h
    | false =>
      rw [hc] at h
      rw [applyQueue_cons, ih _ h, ir_of_not_isFetch m c hc]

theorem ir_fetchCommands (m : Machine) (pc : U16) (bytes : List U8) :
    (applyQueue m (fetchCommands pc bytes)).instructionRegister =
      bytes.getLastD m.instructionRegister := by
  induction bytes generalizing m pc with
  | nil => rfl
  | cons b bs ih =>
    rw [fetchCommands, applyQueue_cons, applyQueue_cons, applyQueue_cons, ih, List.getLastD_cons]
    rfl

theorem ir_bodyCommands (m : Machine) (s : Sm83.State) (n n' : U8) (o : Sm83.Opcode) :
    (applyQueue m (bodyCommands s n n' o)).instructionRegister =
      (operandBytes (fetchedBytes o) n n').getLastD m.instructionRegister := by
  cases o with
  | load l =>
    rw [bodyCommands, applyQueue_append, ir_of_fetches_nil _ _ (fetches_loadCommands _ _ _ l),
      ir_fetchCommands]
    rfl
  | arith a => exact ir_of_fetches_nil m _ (fetches_arithmaticCommands s n a)
  | cb c =>
    cases c with
    | rot op o => rfl
    | bits op k o =>
      rw [bodyCommands, applyQueue_append, ir_of_fetches_nil _ _ (fetches_bitwiseCommands ..),
        ir_fetchCommands]
      rfl
  | rotA r | jump j | system r | illegal b => rfl

/-- A step writes neither the buses nor the interrupt switch, and IR holds the byte that was fetched
last. -/
theorem step_internal {m : Machine} {w : CodeWord} {e : Executed} (h : step m w = .ok e) :
    SameBuses e.machine m ∧
      e.machine.instructionRegister = w.fetched.getLastD m.instructionRegister := by
  rw [step_machine h, step_queue h]
  constructor
  · refine sameBuses_applyQueue m _ ?_
    rw [List.all_append, namesNoBus_fetchCommands, namesNoBus_bodyCommands]
    rfl
  · rw [applyQueue_append, ir_bodyCommands, ir_fetchCommands, CodeWord.fetched, List.getLastD_cons,
      List.getLastD_cons]
    rfl

theorem getLastD_append {α : Type} (xs ys : List α) (d : α) :
    (xs ++ ys).getLastD d = ys.getLastD (xs.getLastD d) := by
  rw [List.getLastD_eq_getLast?, List.getLastD_eq_getLast?, List.getLastD_eq_getLast?,
    List.getLast?_append, Option.getD_or]

theorem internal_trace {d : Executed} {ws : List CodeWord} {es : List Executed}
    (h : Trace EmulatorStep d ws es) :
    SameBuses (lastMachine d.machine es) d.machine ∧
      (lastMachine d.machine es).instructionRegister =
        (ws.flatMap CodeWord.fetched).getLastD d.machine.instructionRegister := by
  induction h with
  | nil s => exact ⟨⟨rfl, rfl, rfl⟩, rfl⟩
  | @cons s e w ws es hs _ ih =>
    obtain ⟨⟨hi, ha, hd⟩, hir⟩ := ih
    obtain ⟨⟨hi', ha', hd'⟩, hir'⟩ := step_internal hs
    refine ⟨⟨hi.trans hi', ha.trans ha', hd.trans hd'⟩, ?_⟩
    rw [lastMachine, hir, hir', List.flatMap_cons, getLastD_append]

/-- No run moves the interrupt switch or a bus, whether or not it has an EI, a DI or a RETI, and
IR ends with the byte that was fetched last. -/
theorem run_internal (m : Machine) (ws : List CodeWord) (es : List Executed)
    (h : run m ws = .ok es) :
    SameBuses (lastMachine m es) m ∧ (lastMachine m es).instructionRegister =
      (ws.flatMap CodeWord.fetched).getLastD m.instructionRegister :=
  internal_trace ((run_eq_ok_iff ⟨[], m⟩ ws es).mp h)

/-- `LD A, n` and EI from a machine of zeros. -/
theorem run_internal_ei :
    ∃ es, run machineAtZero [0x3E4200, 0xFB0000] = .ok es ∧
      SameBuses (lastMachine machineAtZero es) machineAtZero ∧
      (lastMachine machineAtZero es).instructionRegister =
        ([0x3E4200, 0xFB0000].flatMap CodeWord.fetched).getLastD
          machineAtZero.instructionRegister := by
  obtain ⟨es, h⟩ := run_ok machineAtZero [0x3E4200, 0xFB0000]
    (List.forall_mem_cons.mpr ⟨rfl, List.forall_mem_singleton.mpr rfl⟩)
  exact ⟨es, h, run_internal machineAtZero _ es h⟩

end Beemu
