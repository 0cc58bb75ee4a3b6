import Beemu.Parser.Parser

/-!
# Fetching the bytes of an instruction

Which of the commands of an instruction move PC and load IR. A load fetches every one of its
bytes and so does a prefixed instruction; the operand of an arithmetic instruction is not
fetched at all.
-/

namespace Beemu

open MachineCommand

/-- A write of PC or IR, under any of their names. -/
def MachineCommand.isFetch (c : MachineCommand) : Bool :=
  c.target? ∈ [some (.internal .programCounter), some (.internal .instructionRegister),
    some (.register16 .PC)]

/-- The writes of PC and IR in a queue. -/
def fetches (queue : CommandQueue) : CommandQueue := queue.filter isFetch

/-- PC and IR for each byte in turn, the `k`-th byte with PC at `pc + k`. -/
def byteFetches (pc : U16) (bytes : List U8) : CommandQueue :=
  (bytes.zipIdx 1).flatMap fun b => [writePc (pc + BitVec.ofNat 16 b.2), writeIr b.1]

@[simp] theorem fetches_append (q q' : CommandQueue) :
    fetches (q ++ q') = fetches q ++ fetches q' := List.filter_append q q'

section Fetches

variable (s : Sm83.State) (n : U8) (nn : U16)

theorem fetches_fetchCommands_from (pc : U16) (bytes : List U8) (k : Nat) :
    fetches (fetchCommands (pc + BitVec.ofNat 16 k) bytes) =
      (bytes.zipIdx (k + 1)).flatMap fun b =>
        [writePc (pc + BitVec.ofNat 16 b.2), writeIr b.1] := by
  induction bytes generalizing k with
  | nil => rfl
  | cons b bs ih =>
    rw [fetchCommands, add_ofNat_succ, List.zipIdx_cons, List.flatMap_cons, ← ih]
    rfl

@[simp] theorem fetches_fetchCommands (pc : U16) (bytes : List U8) :
    fetches (fetchCommands pc bytes) = byteFetches pc bytes := by
  have h := fetches_fetchCommands_from pc bytes 0
  rwa [BitVec.add_zero] at h

@[simp] theorem fetches_stepCommands (p : Sm83.Pointer) : fetches (stepCommands s p) = [] := by
  cases p <;> rfl

@[simp] theorem fetches_loadCommands (l : Sm83.Load) : fetches (loadCommands s n nn l) = [] := by
  cases l with
  | ptrA p | aPtr p => cases p <;> rfl
  | pairImm p | push p | pop p => cases p <;> rfl
  | _ => rfl

@[simp] theorem fetches_flagCommands (z n h : Bool) (c : Option Bool) :
    fetches (flagCommands z n h c) = [] := by
  cases c <;> rfl

@[simp] theorem fetches_haltIf (b : Bool) : fetches (haltIf b) = [] := by cases b <;> rfl

@[simp] theorem isFetch_writeOperand (o : Sm83.Operand8) (v : U8) :
    (writeOperand s o v).isFetch = false := by
  cases o <;> rfl

@[simp] theorem fetches_nil : fetches [] = [] := rfl

@[simp] theorem fetches_cons (c : MachineCommand) (q : CommandQueue) :
    fetches (c :: q) = if c.isFetch then c :: fetches q else fetches q := List.filter_cons

@[simp] theorem isFetch_haltCycle : haltCycle.isFetch = false := rfl
@[simp] theorem isFetch_writeReg8 (r : Register8) (v : U8) : (writeReg8 r v).isFetch = false := rfl
@[simp] theorem isFetch_writeFlag (f : Flag) (v : U8) : (writeFlag f v).isFetch = false := rfl
@[simp] theorem isFetch_writeMemory (a : U16) (v : U8) : (writeMemory a v).isFetch = false := rfl

@[simp] theorem isFetch_writePair (q : Sm83.Pair) (v : U16) :
    (writeReg16 (register16Of q) v).isFetch = false := by
  cases q <;> rfl

theorem fetches_accumulatorCommands (op : Sm83.AluOp) (y : U8) :
    fetches (accumulatorCommands s op y) = [] := by
  cases op <;> simp [accumulatorCommands]

@[simp] theorem fetches_arithmaticCommands (a : Sm83.Arith) :
    fetches (arithmaticCommands s n a) = [] := by
  cases a <;> simp [arithmaticCommands, fetches_accumulatorCommands, wordAddCommands]

@[simp] theorem fetches_bitwiseCommands (op : Sm83.BitOp) (k : BitVec 3) (o : Sm83.Operand8) :
    fetches (bitwiseCommands s op k o) = [] := by
  cases op <;> simp [bitwiseCommands]

end Fetches

section ProgramCounter

/-- Nothing but a fetch moves PC. -/
theorem pc_of_not_isFetch (m : Machine) (c : MachineCommand) (h : c.isFetch = false) :
    (applyCommand m c).abs.pc = m.abs.pc := by
  cases c with
  | halt c => rfl
  | write t v =>
    cases t with
    | register16 r =>
      cases r <;> first | rfl | cases h
    | register8 r => rfl
    | memoryAddress a => rfl
    | flag f => rfl
    | ime => rfl
    | internal i => cases i <;> first | rfl | cases h

theorem pc_of_fetches_nil (m : Machine) (q : CommandQueue) (h : fetches q = []) :
    (applyQueue m q).abs.pc = m.abs.pc := by
  induction q generalizing m with
  | nil => rfl
  | cons c q ih =>
    rw [fetches_cons] at h
    split at h
    · cases h
    · rename_i hc
      rw [applyQueue_cons, ih _ h]
      exact pc_of_not_isFetch m c (by simpa using hc)

/-- PC is past the bytes that were fetched, and nothing else has changed. -/
theorem applyQueue_fetchCommands (m : Machine) (pc : U16) (b : U8) (bytes : List U8) :
    (applyQueue m (fetchCommands pc (b :: bytes))).abs =
      m.abs.setPc (pc + BitVec.ofNat 16 (bytes.length + 1)) := by
  induction bytes generalizing m pc b with
  | nil => rfl
  | cons b' bs ih =>
    rw [fetchCommands, applyQueue_cons, applyQueue_cons, applyQueue_cons, ih, succ_add_ofNat]
    rfl

end ProgramCounter

/-! ## The bytes that an instruction fetches -/

theorem CodeWord.bytes_eq (w : CodeWord) :
    w.bytes = w.opcodeByte :: operandBytes w.length w.firstOperand w.secondOperand := by
  rcases w.length_cases with h | h | h <;> rw [CodeWord.bytes, operandBytes, h] <;> rfl

theorem CodeWord.bytes_length (w : CodeWord) : w.bytes.length = w.length := by
  rcases w.length_cases with h | h | h <;> rw [CodeWord.bytes, h] <;> rfl

/-- A load is the fetch of all of its bytes, and its own commands. -/
theorem parserParse_load (w : CodeWord) (p : Processor) (l : Sm83.Load) (ho : w.opcode = .load l)
    (hp : ∀ q, l = .pop q → p.abs.sp ≠ 0xFFFF) :
    parserParse p w.token = .ok (fetchCommands p.abs.pc w.bytes ++
      loadCommands p.abs w.firstOperand (Sm83.word w.secondOperand w.firstOperand) l) := by
  have hn : ¬ PopsPastEnd p.abs w.opcode := by
    rintro ⟨hs, q, hq⟩
    rw [ho] at hq
    exact hp q (Sm83.Opcode.load.inj hq) hs
  have hl : w.length = l.length := congrArg Sm83.Opcode.length ho
  rw [parserParse_eq w p hn, ho, bodyCommands, ← List.append_assoc, w.bytes_eq, hl]
  rfl

theorem byteFetches_length (pc : U16) (bytes : List U8) :
    (byteFetches pc bytes).length = 2 * bytes.length := by
  simp [byteFetches, List.length_flatMap, Nat.mul_comm]

/-- The operand byte of these is an operand of the arithmetic unit. -/
def immediateArithmeticBytes : List U8 := [0xC6, 0xCE, 0xD6, 0xDE, 0xE6, 0xE8, 0xEE, 0xF6, 0xFE]

theorem arith_length_eq_one_iff (a : Sm83.Arith) :
    a.length = 1 ↔ a.byte ∉ immediateArithmeticBytes := by
  cases a with
  | alu op o =>
    cases op <;> cases o with
    | reg r => cases r <;> decide
    | indHL => decide
  | inc8 o | dec8 o =>
    cases o with
    | reg r => cases r <;> decide
    | indHL => decide
  | incPair q | decPair q | addHL q => cases q <;> decide
  | aluImm op => cases op <;> decide
  | addSP | daa | cpl | scf | ccf => decide

/-- The queue of a token moves PC over the bytes of its word, one by one. -/
def FetchesAllBytes (w : CodeWord) (t : Instruction) (m : Machine) : Prop :=
  ∃ queue, parserParse m.processor t = .ok queue ∧
    fetches queue = byteFetches m.abs.pc w.bytes ∧
    (applyQueue m queue).abs.pc = m.abs.pc + BitVec.ofNat 16 t.byteLength.toNat

/-- A queue of fetches and of commands that leave PC and IR alone. -/
theorem fetchesAllBytes_iff (w : CodeWord) (m : Machine) (b : U8) (bytes : List U8)
    (commands : CommandQueue)
    (hq : parserParse m.processor w.token = .ok (fetchCommands m.abs.pc (b :: bytes) ++ commands))
    (hc : fetches commands = []) :
    FetchesAllBytes w w.token m ↔
      byteFetches m.abs.pc (b :: bytes) = byteFetches m.abs.pc w.bytes := by
  rw [FetchesAllBytes, hq]
  constructor
  · rintro ⟨queue, h, hf, -⟩
    rw [← Except.ok.inj h, fetches_append, fetches_fetchCommands, hc, List.append_nil] at hf
    exact hf
  · intro hf
    refine ⟨_, rfl, by rw [fetches_append, fetches_fetchCommands, hc, List.append_nil, hf], ?_⟩
    have hl := congrArg List.length hf
    rw [byteFetches_length, byteFetches_length, CodeWord.bytes_length, List.length_cons] at hl
    rw [applyQueue_append, pc_of_fetches_nil _ _ hc, applyQueue_fetchCommands,
      Sm83.State.setPc_pc, CodeWord.token_byteLength]
    congr 2
    omega

theorem byteFetches_opcode_iff (w : CodeWord) (pc : U16) :
    byteFetches pc [w.opcodeByte] = byteFetches pc w.bytes ↔ w.length = 1 := by
  constructor
  · intro h
    have hn := congrArg List.length h
    rw [byteFetches_length, byteFetches_length, CodeWord.bytes_length, List.length_singleton] at hn
    omega
  · intro h
    rw [w.bytes_eq, h]
    rfl

/-- An arithmetic instruction with an operand byte does not fetch it. -/
theorem fetches_all_bytes_iff (w : CodeWord) (t : Instruction) (m : Machine)
    (ht : tokenizerTokenize (w.setWidth 32) = .ok t)
    (hk : t.type = .arithmatic ∨ t.type = .bitwise) :
    FetchesAllBytes w t m ↔ w.opcodeByte ∉ immediateArithmeticBytes := by
  rw [tokenizerTokenize_eq] at ht
  obtain rfl := Except.ok.inj ht
  have hby := w.opcode_byte
  have hq := parserParse_eq w m.processor
  have hk : typeOf w.opcode = .arithmatic ∨ typeOf w.opcode = .bitwise := hk
  cases ho : w.opcode with
  | arith a =>
    have hl : w.length = a.length := congrArg Sm83.Opcode.length ho
    rw [ho] at hby hq
    rw [fetchesAllBytes_iff w m _ [] _ (hq nofun) (fetches_arithmaticCommands _ _ _),
      byteFetches_opcode_iff, hl, arith_length_eq_one_iff, ← hby]
    rfl
  | cb c =>
    cases c with
    | rot op o =>
      rw [ho] at hk
      rcases hk with hk | hk <;> cases hk
    | bits op n o =>
      have hl : w.length = 2 := congrArg Sm83.Opcode.length ho
      rw [ho] at hby hq
      rw [fetchesAllBytes_iff w m w.opcodeByte [w.firstOperand] _ (hq nofun)
        (fetches_bitwiseCommands _ _ _ _), w.bytes_eq, hl, ← hby]
      exact ⟨fun _ => (by decide : (0xCB : U8) ∉ immediateArithmeticBytes), fun _ => rfl⟩
  | load l | rotA r | jump j | system s | illegal b =>
    rw [ho] at hk
    rcases hk with hk | hk <;> cases hk

theorem fetches_all_bytes_add_B :
    FetchesAllBytes 0x800000 (CodeWord.token 0x800000) machineAtZero ↔
      CodeWord.opcodeByte 0x800000 ∉ immediateArithmeticBytes :=
  fetches_all_bytes_iff 0x800000 _ machineAtZero (tokenizerTokenize_eq _) (.inl rfl)

/-- The operand of `ADD A, 5` is not fetched. -/
theorem add_immediate_not_fetched :
    tokenizerTokenize 0xC60500 = .ok (CodeWord.token 0xC60500) ∧
      ¬ FetchesAllBytes 0xC60500 (CodeWord.token 0xC60500) machineAtZero := by
  refine ⟨tokenizerTokenize_eq 0xC60500, ?_⟩
  rw [fetchesAllBytes_iff 0xC60500 machineAtZero _ [] _ (parserParse_eq 0xC60500 _ nofun)
    (fetches_arithmaticCommands _ _ (.aluImm .add)), byteFetches_opcode_iff]
  decide

/-! ## The first cycle -/

/-- Every queue starts with the same cycle. The opcode in it is looked for in the shortened
machine code, and is the one that the tokenizer found, whatever the operands are. -/
theorem parse_first_cycle (w : CodeWord) (p : Processor) (t : Instruction) (queue : CommandQueue)
    (ht : tokenizerTokenize (w.setWidth 32) = .ok t) (hq : parserParse p t = .ok queue) :
    ∃ i opcode rest, determineByteLengthAndCleanup { Instruction.zeroed with
        originalMachineCode := w.setWidth 32 } = .ok (i, opcode) ∧
      opcode = w.opcodeByte ∧ i.originalMachineCode = t.originalMachineCode ∧
      m1Opcode t.originalMachineCode = opcode ∧
      queue = [writePc (p.registers.programCounter + 1), writeIr opcode, haltCycle] ++ rest := by
  rw [tokenizerTokenize_eq] at ht
  obtain rfl := Except.ok.inj ht
  have hp : ¬ PopsPastEnd p.abs w.opcode :=
    (parsesToEnd_iff_not_popsPastEnd w p).mp ⟨_, _, tokenizerTokenize_eq w, hq⟩
  rw [parserParse_eq w p hp] at hq
  exact ⟨_, _, _, determineByteLengthAndCleanup_eq w _ rfl, rfl, w.token_code.symm,
    m1Opcode_token w, (Except.ok.inj hq).symm⟩

/-- `LD BC, 0`: neither operand byte is taken for the opcode. -/
theorem parse_first_cycle_zeros :
    ∃ i opcode rest, determineByteLengthAndCleanup { Instruction.zeroed with
        originalMachineCode := (0x010000 : CodeWord).setWidth 32 } = .ok (i, opcode) ∧
      opcode = CodeWord.opcodeByte 0x010000 ∧
      i.originalMachineCode = (CodeWord.token 0x010000).originalMachineCode ∧
      m1Opcode (CodeWord.token 0x010000).originalMachineCode = opcode ∧
      fetchCommands 0 [0x01] ++ bodyCommands machineAtZero.abs 0 0 (.load (.pairImm .BC)) =
        [writePc 1, writeIr opcode, haltCycle] ++ rest :=
  parse_first_cycle 0x010000 machineAtZero.processor _ _ (tokenizerTokenize_eq 0x010000)
    (parserParse_eq 0x010000 _ nofun)

end Beemu
