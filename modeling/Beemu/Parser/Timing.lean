import Beemu.Parser.Parser

/-!
# The duration of an instruction

The tokenizer computes a duration from the shape of the operands, and the parser emits a halt
wherever a step ends a cycle. The two agree, and no cycle writes the memory twice.
-/

namespace Beemu

open MachineCommand

/-- Whether a command is a write to memory. -/
def MachineCommand.writesMemory : MachineCommand → Bool
  | .write (.memoryAddress _) _ => true
  | _ => false

/-- The number of cycles that a queue ends. -/
def haltCount (queue : CommandQueue) : Nat := queue.countP isHalt

/-- The commands between two halts, before the first and after the last. -/
def cycles (queue : CommandQueue) : List CommandQueue := queue.splitOnP isHalt

/-- The memory has one port: a cycle writes it at most once. -/
def OneWritePerCycle (queue : CommandQueue) : Prop :=
  ∀ cycle ∈ cycles queue, cycle.countP writesMemory ≤ 1

section Commands

variable (s : Sm83.State) (n : U8) (nn : U16)

@[simp] theorem isHalt_haltCycle : haltCycle.isHalt = true := rfl
@[simp] theorem isHalt_writeReg8 (r : Register8) (v : U8) : (writeReg8 r v).isHalt = false := rfl
@[simp] theorem isHalt_writeReg16 (r : Register16) (v : U16) :
    (writeReg16 r v).isHalt = false := rfl
@[simp] theorem isHalt_writeFlag (f : Flag) (v : U8) : (writeFlag f v).isHalt = false := rfl
@[simp] theorem isHalt_writeMemory (a : U16) (v : U8) : (writeMemory a v).isHalt = false := rfl
@[simp] theorem isHalt_writePc (v : U16) : (writePc v).isHalt = false := rfl
@[simp] theorem isHalt_writeIr (v : U8) : (writeIr v).isHalt = false := rfl

@[simp] theorem writesMemory_haltCycle : haltCycle.writesMemory = false := rfl
@[simp] theorem writesMemory_writeReg8 (r : Register8) (v : U8) :
    (writeReg8 r v).writesMemory = false := rfl
@[simp] theorem writesMemory_writeReg16 (r : Register16) (v : U16) :
    (writeReg16 r v).writesMemory = false := rfl
@[simp] theorem writesMemory_writeFlag (f : Flag) (v : U8) :
    (writeFlag f v).writesMemory = false := rfl
@[simp] theorem writesMemory_writeMemory (a : U16) (v : U8) :
    (writeMemory a v).writesMemory = true := rfl
@[simp] theorem writesMemory_writePc (v : U16) : (writePc v).writesMemory = false := rfl
@[simp] theorem writesMemory_writeIr (v : U8) : (writeIr v).writesMemory = false := rfl

/-! ## Counting halts -/

@[simp] theorem haltCount_append (q q' : CommandQueue) :
    haltCount (q ++ q') = haltCount q + haltCount q' := List.countP_append

/-- Each fetched byte ends a cycle. -/
@[simp] theorem haltCount_fetchCommands (pc : U16) (bytes : List U8) :
    haltCount (fetchCommands pc bytes) = bytes.length := by
  induction bytes generalizing pc with
  | nil => rfl
  | cons b bs ih =>
    have h : haltCount (fetchCommands pc (b :: bs)) =
        haltCount (fetchCommands (pc + 1) bs) + 1 := by
      simp [haltCount, fetchCommands, List.countP_cons]
    rw [h, ih, List.length_cons]

/-- A load ends as many cycles as it lasts, with a fetch for each of its bytes. -/
theorem haltCount_loadCommands (l : Sm83.Load) :
    l.length + haltCount (loadCommands s n nn l) = (loadCycles l).toNat := by
  cases l with
  | ptrA p | aPtr p => cases p <;> rfl
  | _ => rfl

/-- The opcode is the only byte that is fetched, also where an operand follows it. -/
theorem haltCount_arithmaticCommands (a : Sm83.Arith) (ha : a ≠ .addSP) :
    1 + haltCount (arithmaticCommands s n a) = (arithmaticCycles a).toNat := by
  cases a with
  | alu op o => cases op <;> cases o <;> rfl
  | aluImm op => cases op <;> rfl
  | inc8 o | dec8 o => cases o <;> rfl
  | incPair q | decPair q | addHL q => rfl
  | addSP => exact absurd rfl ha
  | daa | cpl | scf | ccf => rfl

/-- The prefix and the second byte are both fetched. -/
theorem haltCount_bitwiseCommands (op : Sm83.BitOp) (k : BitVec 3) (o : Sm83.Operand8) :
    2 + haltCount (bitwiseCommands s op k o) = (cbCycles (.bits op k o)).toNat := by
  cases op <;> cases o <;> rfl

/-! ## One write in a cycle -/

/-- Fetching bytes writes no memory. -/
theorem oneWritePerCycle_fetchCommands (pc : U16) (bytes : List U8) (q : CommandQueue) :
    OneWritePerCycle (fetchCommands pc bytes ++ q) ↔ OneWritePerCycle q := by
  induction bytes generalizing pc with
  | nil => rfl
  | cons b bs ih =>
    rw [← ih (pc + 1)]
    simp [fetchCommands, OneWritePerCycle, cycles, List.splitOnP_cons_eq_if_modifyHead]

/-- The two bytes of a push, and those of SP, are in cycles of their own. -/
theorem oneWritePerCycle_loadCommands (l : Sm83.Load) :
    OneWritePerCycle (loadCommands s n nn l) := by
  cases l with
  | ptrA p | aPtr p =>
    cases p <;> simp [OneWritePerCycle, cycles, loadCommands, stepCommands,
      List.splitOnP_cons_eq_if_modifyHead, List.countP_cons]
  | _ =>
    simp [OneWritePerCycle, cycles, loadCommands, List.splitOnP_cons_eq_if_modifyHead,
      List.countP_cons]

/-- A part of a split list keeps the order of its elements. -/
theorem sublist_of_mem_splitOnP {α : Type} (p : α → Bool) (part xs : List α)
    (h : part ∈ xs.splitOnP p) : part.Sublist xs := by
  induction xs generalizing part with
  | nil =>
    rw [List.splitOnP_nil, List.mem_singleton] at h
    rw [h]
  | cons x xs ih =>
    rw [List.splitOnP_cons_eq_if_modifyHead] at h
    split at h
    · rcases List.mem_cons.mp h with rfl | h
      · exact List.nil_sublist _
      · exact (ih _ h).cons x
    · cases hs : xs.splitOnP p with
      | nil => exact absurd hs (List.splitOnP_ne_nil p xs)
      | cons first rest =>
        rw [hs, List.modifyHead_cons] at h
        rcases List.mem_cons.mp h with rfl | h
        · exact (ih first (by rw [hs]; exact List.mem_cons_self)).cons_cons x
        · exact (ih part (by rw [hs]; exact List.mem_cons_of_mem _ h)).cons x

/-- A queue with one memory write in it has no more in a cycle. -/
theorem oneWritePerCycle_of_countP (q : CommandQueue) (h : q.countP writesMemory ≤ 1) :
    OneWritePerCycle q := fun _ hc =>
  (sublist_of_mem_splitOnP isHalt _ q hc).countP_le.trans h

@[simp] theorem countP_writesMemory_flagCommands (z k h : Bool) (c : Option Bool) :
    (flagCommands z k h c).countP writesMemory = 0 := by
  cases c <;> rfl

@[simp] theorem countP_writesMemory_haltIf (b : Bool) : (haltIf b).countP writesMemory = 0 := by
  cases b <;> rfl

theorem countP_writesMemory_accumulatorCommands (op : Sm83.AluOp) (y : U8) :
    (accumulatorCommands s op y).countP writesMemory = 0 := by
  cases op <;> rfl

/-- Only INC and DEC of the byte at HL write memory, and they do it once. -/
theorem oneWritePerCycle_arithmaticCommands (a : Sm83.Arith) :
    OneWritePerCycle (arithmaticCommands s n a) := by
  apply oneWritePerCycle_of_countP
  cases a with
  | inc8 o | dec8 o => cases o <;> simp [arithmaticCommands, writeOperand, List.countP_cons]
  | _ =>
    simp [arithmaticCommands, countP_writesMemory_accumulatorCommands, wordAddCommands]

/-- RES and SET write the byte at HL once. -/
theorem oneWritePerCycle_bitwiseCommands (op : Sm83.BitOp) (k : BitVec 3) (o : Sm83.Operand8) :
    OneWritePerCycle (bitwiseCommands s op k o) := by
  apply oneWritePerCycle_of_countP
  cases op <;> cases o <;> simp [bitwiseCommands, writeOperand, List.countP_cons]

end Commands

/-! ## The two timing models -/

/-- The loads, the arithmetic instructions other than `ADD SP`, and the bit operations. -/
def IsTimed : Sm83.Opcode → Prop
  | .load _ => True
  | .arith a => a ≠ .addSP
  | .cb (.bits _ _ _) => True
  | _ => False

/-- A queue takes the cycles that its token was given, and writes once in each at most. -/
theorem halts_eq_duration (w : CodeWord) (p : Processor) (t : Instruction)
    (queue : CommandQueue) (hw : IsTimed w.opcode)
    (ht : tokenizerTokenize (w.setWidth 32) = .ok t) (hq : parserParse p t = .ok queue) :
    haltCount queue = t.durationInClockCycles.toNat ∧ OneWritePerCycle queue := by
  rw [tokenizerTokenize_eq] at ht
  obtain rfl := Except.ok.inj ht
  have hp : ¬ PopsPastEnd p.abs w.opcode := fun h => by
    rw [parserParse_popsPastEnd w p h] at hq
    exact nomatch hq
  rw [parserParse_eq w p hp] at hq
  obtain rfl := Except.ok.inj hq
  have hd : w.token.durationInClockCycles = cyclesOf w.opcode := rfl
  rw [hd, haltCount_append, haltCount_fetchCommands, oneWritePerCycle_fetchCommands]
  cases ho : w.opcode with
  | load l =>
    rw [bodyCommands, haltCount_append, haltCount_fetchCommands, oneWritePerCycle_fetchCommands]
    refine ⟨?_, oneWritePerCycle_loadCommands _ _ _ l⟩
    have hl : l.length = 1 ∨ l.length = 2 ∨ l.length = 3 := Sm83.length_cases (.load l)
    rw [cyclesOf, ← haltCount_loadCommands p.abs w.firstOperand
      (Sm83.word w.secondOperand w.firstOperand) l, operandBytes, List.length_take,
      List.length_singleton, List.length_cons, List.length_singleton]
    omega
  | arith a =>
    rw [ho] at hw
    exact ⟨haltCount_arithmaticCommands _ _ a hw, oneWritePerCycle_arithmaticCommands _ _ a⟩
  | cb c =>
    cases c with
    | rot op o => rw [ho] at hw; exact hw.elim
    | bits op k o =>
      rw [bodyCommands, haltCount_append, haltCount_fetchCommands, oneWritePerCycle_fetchCommands]
      refine ⟨?_, oneWritePerCycle_bitwiseCommands _ op k o⟩
      rw [cyclesOf, ← haltCount_bitwiseCommands p.abs op k o, List.length_singleton,
        List.length_singleton]
      omega
  | rotA r | jump j | system s | illegal b => rw [ho] at hw; exact hw.elim

theorem halts_eq_duration_push :
    haltCount (fetchCommands 0 [0xC5] ++ loadCommands machineAtZero.abs 0 0 (.push .BC)) =
        (CodeWord.token 0xC50000).durationInClockCycles.toNat ∧
      OneWritePerCycle
        (fetchCommands 0 [0xC5] ++ loadCommands machineAtZero.abs 0 0 (.push .BC)) :=
  halts_eq_duration 0xC50000 machineAtZero.processor _ _ trivial (tokenizerTokenize_eq _)
    (parserParse_eq 0xC50000 _ nofun)

end Beemu
