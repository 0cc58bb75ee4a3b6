import Beemu.Effect.Invariants

/-!
# Programs that run to their end

Only a POP at the last address stops a run, and where SP stands is said by the words alone, as long
as it is not loaded from HL. A new processor has an even SP, which PUSH and POP keep even.
-/

namespace Beemu

open Tracing (Trace)

/-! ## A new processor -/

/-- `calloc` of the size. -/
def memoryNew (size : Nat) : Memory size := ⟨fun _ => 0⟩

/-- The registers as a boot ROM leaves them, or zeros in a build with the macro. -/
def registersNew (skipBootromEmulation : Bool) : Registers :=
  if skipBootromEmulation then
    { programCounter := 0x0, stackPointer := 0x0, flags := 0x0, registers := fun _ => 0x0 }
  else
    { programCounter := 0x0100
      stackPointer := 0xFFFE
      flags := 0x0
      registers := fun
        | .A => 0x01
        | .B => 0xFF
        | .C => 0x13
        | .D => 0x00
        | .E => 0xC1
        | .H => 0x84
        | .L => 0x03 }

def deviceMemoryRomLocation : U16 := 200

def processorNew (skipBootromEmulation : Bool) : Checked Processor := do
  let memory := memoryNew deviceMemorySize
  let registers ← registersWriteRegisterValue (registersNew skipBootromEmulation)
    (.sixteenBit .PC) deviceMemoryRomLocation
  .ok ⟨registers, memory⟩

def bootSp (skipBootromEmulation : Bool) : U16 := if skipBootromEmulation then 0 else 0xFFFE

theorem processorNew_abs (skip : Bool) : ∃ p, processorNew skip = .ok p ∧
    p.abs.sp = bootSp skip ∧ p.abs.pc = deviceMemoryRomLocation := by
  cases skip <;> exact ⟨_, rfl, rfl, rfl⟩

/-! ## Where SP stands -/

/-- Where a word leaves SP, when it does not load it from HL. -/
def CodeWord.spAfter (w : CodeWord) (sp : U16) : U16 :=
  match w.opcode with
  | .load (.push _) => sp - 2
  | .load (.pop _) => sp + 2
  | .load (.pairImm .SP) => w.immediate
  | .arith (.incPair .SP) => sp + 1
  | .arith (.decPair .SP) => sp - 1
  | _ => sp

/-- No POP of a program finds SP at the last address. -/
def endsFrom (sp : U16) : List CodeWord → Bool
  | [] => true
  | w :: ws => !(sp = 0xFFFF && isPop w.opcode) && endsFrom (w.spAfter sp) ws

section StackPointer

variable (s : Sm83.State) (n : U8) (nn : U16)

theorem setStackPair_sp (r : Sm83.StackPair) (v : U16) : (s.setStackPair r v).sp = s.sp := by
  cases r <;> rfl

theorem setOperand8_sp (o : Sm83.Operand8) (v : U8) : (s.setOperand8 o v).sp = s.sp := by
  cases o <;> rfl

theorem alu_sp (op : Sm83.AluOp) (y : U8) : (s.alu op y).sp = s.sp := by
  cases op <;> rfl

theorem effect_sp (w : CodeWord) (hw : w.opcode ≠ .load .spHL) :
    (w.effect s).sp = w.spAfter s.sp := by
  change (bodyEffect w.firstOperand w.immediate s w.opcode).sp = _
  rw [CodeWord.spAfter]
  cases ho : w.opcode with
  | load l =>
    cases l with
    | spHL => exact absurd ho hw
    | pop r => exact setStackPair_sp _ r _
    | ptrA p | aPtr p => cases p <;> rfl
    | pairImm q => cases q <;> rfl
    | _ => rfl
  | arith a =>
    cases a with
    | alu op o | aluImm op => exact alu_sp s op _
    | inc8 o | dec8 o => exact setOperand8_sp s o _
    | incPair q | decPair q => cases q <;> rfl
    | addHL q | addSP | daa | cpl | scf | ccf => rfl
  | cb c =>
    cases c with
    | rot op o => rfl
    | bits op k o =>
      cases op with
      | bit => rfl
      | res | set => exact setOperand8_sp s o _
  | rotA r | jump j | system r | illegal b => rfl

theorem popsPastEnd_iff (o : Sm83.Opcode) : PopsPastEnd s o ↔ s.sp = 0xFFFF ∧ isPop o = true := by
  apply and_congr_right
  intro _
  constructor
  · rintro ⟨q, rfl⟩
    rfl
  · intro h
    cases o with
    | load l =>
      cases l with
      | pop q => exact ⟨q, rfl⟩
      | _ => cases h
    | _ => cases h

end StackPointer

theorem run_cons_ok_iff (m : Machine) (w : CodeWord) (ws : List CodeWord) :
    (∃ es, run m (w :: ws) = .ok es) ↔
      ∃ e, step m w = .ok e ∧ ∃ es, run e.machine ws = .ok es := by
  constructor
  · rintro ⟨es, h⟩
    obtain ⟨e, rest, -, hs, ht⟩ :=
      Tracing.trace_cons_iff.mp ((run_eq_ok_iff ⟨[], m⟩ (w :: ws) es).mp h)
    exact ⟨e, hs, rest, (run_eq_ok_iff e ws rest).mpr ht⟩
  · rintro ⟨e, he, es, hes⟩
    exact ⟨e :: es, run_cons_eq m w ws e es he hes⟩

/-- Whether a program that does not load SP from HL runs to its end is told by its words and by
where SP starts. -/
theorem run_ends_iff (m : Machine) (ws : List CodeWord)
    (h : ∀ w ∈ ws, w.opcode ≠ .load .spHL) :
    (∃ es, run m ws = .ok es) ↔ endsFrom m.abs.sp ws = true := by
  induction ws generalizing m with
  | nil => exact iff_of_true ⟨[], rfl⟩ rfl
  | cons w ws ih =>
    rw [List.forall_mem_cons] at h
    have hstep : (!(m.abs.sp = 0xFFFF && isPop w.opcode)) = true ↔
        ¬ PopsPastEnd m.abs w.opcode := by
      rw [popsPastEnd_iff, Bool.not_eq_true', Bool.eq_false_iff, ne_eq, Bool.and_eq_true,
        decide_eq_true_iff]
    rw [run_cons_ok_iff, endsFrom, Bool.and_eq_true, hstep, ← step_ok_iff]
    constructor
    · rintro ⟨e, he, hes⟩
      have hsp := effect_sp m.abs w h.1
      rw [← effect_of_step he] at hsp
      refine ⟨⟨e, he⟩, ?_⟩
      rw [← hsp]
      exact (ih e.machine h.2).mp hes
    · rintro ⟨⟨e, he⟩, hends⟩
      have hsp := effect_sp m.abs w h.1
      rw [← effect_of_step he] at hsp
      rw [← hsp] at hends
      exact ⟨e, he, (ih e.machine h.2).mpr hends⟩

/-- `LD SP, 0xFFFF` and `POP BC`. -/
theorem run_ends_iff_pop :
    (∃ es, run machineAtZero [0x31FFFF, 0xC10000] = .ok es) ↔
      endsFrom machineAtZero.abs.sp [0x31FFFF, 0xC10000] = true :=
  run_ends_iff machineAtZero _
    (List.forall_mem_cons.mpr ⟨nofun, List.forall_mem_singleton.mpr nofun⟩)

/-! ## From a new processor -/

/-- Every instruction but a load of SP and a step of it. `ADD SP` has no effect on SP. -/
def movesSpByTwo : Sm83.Opcode → Bool
  | .load (.pairImm .SP) | .load .spHL | .arith (.incPair .SP) | .arith (.decPair .SP) => false
  | _ => true

def stackMove : Sm83.Opcode → U16
  | .load (.push _) => -2
  | .load (.pop _) => 2
  | _ => 0

/-- What the words of a program add to SP. -/
def stackMoves (ws : List CodeWord) : U16 := (ws.map fun w => stackMove w.opcode).sum

theorem spAfter_eq (w : CodeWord) (sp : U16) (h : movesSpByTwo w.opcode = true) :
    w.spAfter sp = sp + stackMove w.opcode := by
  rw [CodeWord.spAfter]
  cases ho : w.opcode with
  | load l =>
    rw [ho] at h
    cases l with
    | push q => exact BitVec.sub_eq_add_neg sp (2 : U16)
    | pop q => rfl
    | spHL => cases h
    | pairImm q =>
      cases q with
      | SP => cases h
      | BC | DE | HL => exact (BitVec.add_zero sp).symm
    | _ => exact (BitVec.add_zero sp).symm
  | arith a =>
    rw [ho] at h
    cases a with
    | incPair q | decPair q =>
      cases q with
      | SP => cases h
      | BC | DE | HL => exact (BitVec.add_zero sp).symm
    | _ => exact (BitVec.add_zero sp).symm
  | cb c | rotA r | jump j | system r | illegal b => exact (BitVec.add_zero sp).symm

theorem not_spHL_of_movesSpByTwo {o : Sm83.Opcode} (h : movesSpByTwo o = true) :
    o ≠ .load .spHL := by
  rintro rfl
  cases h

theorem even_add_stackMove (sp : U16) (o : Sm83.Opcode) (h : sp.toNat % 2 = 0) :
    (sp + stackMove o).toNat % 2 = 0 := by
  have hm : (stackMove o).toNat % 2 = 0 := by
    cases o with
    | load l => cases l <;> simp [stackMove]
    | _ => rfl
  rw [BitVec.toNat_add]
  omega

/-- An even SP is never the last address, and stays even. -/
theorem run_of_even (m : Machine) (ws : List CodeWord) (hsp : m.abs.sp.toNat % 2 = 0)
    (h : ∀ w ∈ ws, movesSpByTwo w.opcode = true) :
    ∃ es, run m ws = .ok es ∧ (lastMachine m es).abs.sp = m.abs.sp + stackMoves ws := by
  induction ws generalizing m with
  | nil => exact ⟨[], rfl, (BitVec.add_zero _).symm⟩
  | cons w ws ih =>
    rw [List.forall_mem_cons] at h
    have hne : ¬ PopsPastEnd m.abs w.opcode := fun hp => by
      rw [hp.1] at hsp
      cases hsp
    obtain ⟨e, he, habs⟩ := step_effect m w hne
    have hsp' : e.machine.abs.sp = m.abs.sp + stackMove w.opcode := by
      rw [habs, effect_sp _ w (not_spHL_of_movesSpByTwo h.1), spAfter_eq w _ h.1]
    obtain ⟨es, hes, hs⟩ := ih e.machine (hsp' ▸ even_add_stackMove _ _ hsp) h.2
    refine ⟨e :: es, run_cons_eq m w ws e es he hes, ?_⟩
    rw [lastMachine, hs, hsp', stackMoves, stackMoves, List.map_cons, List.sum_cons,
      BitVec.add_assoc]

/-- On a new processor every program that moves SP by PUSH and POP alone runs to its end, whatever
it pops. SP is then as much below its start as the words that are still pushed, and PC as far
above the ROM as the bytes that were fetched. -/
theorem boot_run (skip : Bool) (m : Machine) (ws : List CodeWord)
    (hm : processorNew skip = .ok m.processor)
    (h : ∀ w ∈ ws, movesSpByTwo w.opcode = true) :
    ∃ es, run m ws = .ok es ∧ (lastMachine m es).abs.sp = bootSp skip + stackMoves ws ∧
      (lastMachine m es).abs.pc = deviceMemoryRomLocation + BitVec.ofNat 16 (totalFetched ws) := by
  obtain ⟨p, hp, hsp, hpc⟩ := processorNew_abs skip
  obtain rfl := Except.ok.inj (hp.symm.trans hm)
  change m.abs.sp = _ at hsp
  change m.abs.pc = _ at hpc
  have heven : m.abs.sp.toNat % 2 = 0 := by
    rw [hsp]
    cases skip <;> rfl
  obtain ⟨es, hes, hs⟩ := run_of_even m ws heven h
  refine ⟨es, hes, ?_, ?_⟩
  · rw [hs, hsp]
  · rw [← hpc]
    exact pc_trace ((run_eq_ok_iff ⟨[], m⟩ ws es).mp hes)

/-- `PUSH BC` and `POP AF`, without the macro. -/
theorem boot_run_pop :
    ∃ p es, processorNew false = .ok p ∧
      run ⟨p, true, 0, 0, 0⟩ [0xC50000, 0xF10000] = .ok es ∧
      (lastMachine ⟨p, true, 0, 0, 0⟩ es).abs.sp =
        bootSp false + stackMoves [0xC50000, 0xF10000] ∧
      (lastMachine ⟨p, true, 0, 0, 0⟩ es).abs.pc =
        deviceMemoryRomLocation + BitVec.ofNat 16 (totalFetched [0xC50000, 0xF10000]) := by
  obtain ⟨p, hp, -, -⟩ := processorNew_abs false
  obtain ⟨es, h⟩ := boot_run false ⟨p, true, 0, 0, 0⟩ [0xC50000, 0xF10000] hp
    (List.forall_mem_cons.mpr ⟨rfl, List.forall_mem_singleton.mpr rfl⟩)
  exact ⟨p, es, hp, h⟩

end Beemu
