import Beemu.Parser.Arithmatic
import Beemu.Parser.Bitwise
import Beemu.Parser.Load
import Beemu.Tokenizer.Tokenizer

/-!
# Parsing a token into commands
-/

namespace Beemu

open MachineCommand

/-- The opcode is looked for in the machine code, which has no leading zeros. -/
def m1Opcode (omc : U32) : U8 :=
  let opcode : U8 :=
    if omc &&& 0xFF0000 ≠ 0 then ((omc &&& 0xFF0000) >>> 16).setWidth 8
    else ((omc &&& 0xFF00) >>> 8).setWidth 8
  if opcode = 0 then (omc &&& 0xFF).setWidth 8 else opcode

def emitM1Commands (processor : Processor) (instruction : Instruction) (queue : CommandQueue) :
    CommandQueue :=
  let opcode := m1Opcode instruction.originalMachineCode
  let pcValue := processor.registers.programCounter + 1
  cqHaltCycle (cqWriteIr (cqWritePc queue pcValue) opcode)

def emitM2CommandsForCbxx (processor : Processor) (instruction : Instruction)
    (queue : CommandQueue) : CommandQueue :=
  let omc := instruction.originalMachineCode
  let actualOpcode : U8 := (omc &&& 0xFF).setWidth 8
  let pcValue := processor.registers.programCounter + 2
  cqHaltCycle (cqWriteIr (cqWritePc queue pcValue) actualOpcode)

/-- The source has no more than a placeholder here. -/
def parseJump (queue : CommandQueue) (_processor : Processor) (_instruction : Instruction) :
    CommandQueue :=
  queue

/-- The opcode is fetched first, and the type of the token chooses the parser for the rest. -/
def parserParse (processor : Processor) (instruction : Instruction) : Checked CommandQueue :=
  let queue := emitM1Commands processor instruction []
  let queue :=
    if instruction.type = .bitwise then emitM2CommandsForCbxx processor instruction queue
    else queue
  match instruction.type with
  | .arithmatic => parseArithmatic queue processor instruction
  | .bitwise => parseBitwise queue processor instruction
  | .load => parseLoad queue processor instruction
  | .jump => .ok (parseJump queue processor instruction)
  | .rotShift | .cpuControl => .ok queue

/-! ## The first cycle -/

/-- Only an opcode of one byte is zero, so that the search does not stop at an operand. -/
theorem opcodeByte_ne_zero (w : CodeWord) (h : w.length ≠ 1) : w.opcodeByte ≠ 0 := by
  intro h₀
  apply h
  rw [CodeWord.length, CodeWord.opcode, h₀]
  rfl

section Search

variable (b₀ b₁ b₂ : U8)

theorem high_one : machineCode b₀ b₁ b₂ 1 &&& 0xFF0000 = 0 := by
  ext i hi
  interval_cases i <;> simp [machineCode]

theorem middle_one : ((machineCode b₀ b₁ b₂ 1 &&& 0xFF00) >>> 8).setWidth 8 = (0 : U8) := by
  ext i hi
  interval_cases i <;> simp [machineCode]

theorem low_one : (machineCode b₀ b₁ b₂ 1 &&& 0xFF).setWidth 8 = b₀ := by
  ext i hi
  interval_cases i <;> simp [machineCode]

theorem high_two : machineCode b₀ b₁ b₂ 2 &&& 0xFF0000 = 0 := by
  ext i hi
  interval_cases i <;> simp [machineCode]

theorem middle_two : ((machineCode b₀ b₁ b₂ 2 &&& 0xFF00) >>> 8).setWidth 8 = b₀ := by
  ext i hi
  interval_cases i <;> simp [machineCode]

theorem high_three : ((machineCode b₀ b₁ b₂ 3 &&& 0xFF0000) >>> 16).setWidth 8 = b₀ := by
  ext i hi
  interval_cases i <;> simp [machineCode]

theorem m1Opcode_one : m1Opcode (machineCode b₀ b₁ b₂ 1) = b₀ := by
  simp only [m1Opcode, high_one, middle_one, low_one, ne_eq, not_true, if_false, if_true]

theorem m1Opcode_two (h : b₀ ≠ 0) : m1Opcode (machineCode b₀ b₁ b₂ 2) = b₀ := by
  simp only [m1Opcode, high_two, middle_two, ne_eq, not_true, if_false, h]

theorem m1Opcode_three (h : b₀ ≠ 0) : m1Opcode (machineCode b₀ b₁ b₂ 3) = b₀ := by
  have hh : machineCode b₀ b₁ b₂ 3 &&& 0xFF0000 ≠ 0 := by
    intro hz
    have hb := high_three b₀ b₁ b₂
    rw [hz] at hb
    exact h hb.symm
  simp only [m1Opcode, if_pos hh, high_three, if_neg h]

end Search

/-- Whatever its operands are, the opcode is found. -/
theorem m1Opcode_token (w : CodeWord) : m1Opcode w.token.originalMachineCode = w.opcodeByte := by
  have hn := opcodeByte_ne_zero w
  rw [CodeWord.token_code, CodeWord.code]
  rcases w.length_cases with h | h | h <;> rw [h] at hn ⊢
  · exact m1Opcode_one _ _ _
  · exact m1Opcode_two _ _ _ (hn (by decide))
  · exact m1Opcode_three _ _ _ (hn (by decide))

theorem emitM1Commands_eq (w : CodeWord) (p : Processor) :
    emitM1Commands p w.token [] = fetchCommands p.abs.pc [w.opcodeByte] := by
  rw [emitM1Commands, m1Opcode_token]
  rfl

theorem emitM2CommandsForCbxx_eq (c : Sm83.Cb) (b₁ b₂ : U8) (p : Processor)
    (queue : CommandQueue) :
    emitM2CommandsForCbxx p (token (.cb c) b₁ b₂) queue =
      queue ++ fetchCommands (p.abs.pc + 1) [b₁] := by
  have h : ((token (.cb c) b₁ b₂).originalMachineCode &&& 0xFF).setWidth 8 = b₁ :=
    machineCode_low_two 0xCB b₁ b₂
  have hp : p.abs.pc + 2 = p.abs.pc + 1 + 1 := by rw [BitVec.add_assoc]; rfl
  simp only [emitM2CommandsForCbxx, h, abs_programCounter, hp]
  simp [cqHaltCycle, cqWriteIr, cqWritePc, enqueue, fetchCommands]

/-! ## The commands of every instruction -/

/-- What an instruction emits after its first cycle. A rotation, a jump and a control
instruction emit nothing, and a byte that is no instruction loads A into A. -/
def bodyCommands (s : Sm83.State) (b₁ b₂ : U8) : Sm83.Opcode → CommandQueue
  | .load l => fetchCommands (s.pc + 1) (operandBytes l.length b₁ b₂) ++
      loadCommands s b₁ (Sm83.word b₂ b₁) l
  | .arith a => arithmaticCommands s b₁ a
  | .cb (.bits op n o) => fetchCommands (s.pc + 1) [b₁] ++ bitwiseCommands s op n o
  | .cb (.rot _ _) | .rotA _ | .jump _ | .system _ => []
  | .illegal _ => [writeReg8 (register8Of .A) (s.reg .A)]

/-- A POP that would read its second byte past the end of the memory. -/
def PopsPastEnd (s : Sm83.State) (o : Sm83.Opcode) : Prop :=
  s.sp = 0xFFFF ∧ ∃ q, o = .load (.pop q)

/-- A byte that is no instruction is parsed as a load. -/
theorem parseLoad_illegal (b : {b : U8 // b ∈ Sm83.illegalBytes}) (b₁ b₂ : U8) (p : Processor)
    (queue : CommandQueue) :
    parseLoad queue p (token (.illegal b) b₁ b₂) =
      .ok (queue ++ [writeReg8 (register8Of .A) (p.abs.reg .A)]) := by
  have h : (token (.illegal b) b₁ b₂).loadParams = .ok .zeroed := rfl
  rw [parseLoad, h, ok_bind, fetchCycleStart_plain _ queue rfl rfl (.inl rfl)]
  exact writeCycleStart_register ⟨p, token (.illegal b) b₁ b₂, .zeroed⟩ queue .A _ rfl rfl
    (resolve_registerParam p false .A) rfl (by simp [LoadParams.zeroed])

/-- What the parser emits for every word, where it emits anything. -/
theorem parserParse_eq (w : CodeWord) (p : Processor) (h : ¬ PopsPastEnd p.abs w.opcode) :
    parserParse p w.token = .ok (fetchCommands p.abs.pc [w.opcodeByte] ++
      bodyCommands p.abs w.firstOperand w.secondOperand w.opcode) := by
  rw [parserParse, emitM1Commands_eq, CodeWord.token]
  cases ho : w.opcode with
  | load l =>
    have hp (q : Sm83.StackPair) (hl : l = .pop q) : p.abs.sp ≠ 0xFFFF := fun hs =>
      h ⟨hs, q, by rw [ho, hl]⟩
    refine (parseLoad_eq l p _ w.firstOperand w.secondOperand hp).trans ?_
    rw [List.append_assoc]
    rfl
  | arith a => exact parseArithmatic_eq p _ w.firstOperand w.secondOperand a
  | cb c =>
    cases c with
    | rot op o => exact congrArg Except.ok (List.append_nil _).symm
    | bits op n o =>
      refine (parseBitwise_eq p _ op n o _ rfl).trans ?_
      refine (congrArg (fun q => Except.ok (q ++ bitwiseCommands p.abs op n o))
        (emitM2CommandsForCbxx_eq (.bits op n o) w.firstOperand w.secondOperand p _)).trans ?_
      rw [List.append_assoc]
      rfl
  | rotA r => exact congrArg Except.ok (List.append_nil _).symm
  | jump j => exact congrArg Except.ok (List.append_nil _).symm
  | system s => exact congrArg Except.ok (List.append_nil _).symm
  | illegal b => exact parseLoad_illegal b _ _ p _

/-- A POP with SP at the last address ends in a failed assertion. -/
theorem parserParse_popsPastEnd (w : CodeWord) (p : Processor) (h : PopsPastEnd p.abs w.opcode) :
    parserParse p w.token = .error .assertFailed := by
  obtain ⟨hs, q, ho⟩ := h
  rw [parserParse, CodeWord.token, ho]
  exact parseLoad_pop_last q p _ _ _ hs

/-! ## Parsing completes -/

/-- The opcodes of POP BC, DE, HL and AF. -/
def popBytes : List U8 := [0xC1, 0xD1, 0xE1, 0xF1]

theorem opcode_pop_iff (w : CodeWord) :
    (∃ q, w.opcode = .load (.pop q)) ↔ w.opcodeByte ∈ popBytes := by
  constructor
  · rintro ⟨q, hq⟩
    have h := w.opcode_byte
    rw [hq] at h
    rw [← h]
    cases q <;> decide
  · intro h
    simp only [popBytes, List.mem_cons, List.not_mem_nil, or_false] at h
    rw [CodeWord.opcode]
    rcases h with h | h | h | h <;> rw [h] <;> exact ⟨_, rfl⟩

/-- A word parses to the end on a processor when its token is made and turned into commands
without a fault: no failed assertion, no table and no memory subscript out of range. -/
def ParsesToEnd (w : CodeWord) (p : Processor) : Prop :=
  ∃ t queue, tokenizerTokenize (w.setWidth 32) = .ok t ∧ parserParse p t = .ok queue

theorem parsesToEnd_iff_not_popsPastEnd (w : CodeWord) (p : Processor) :
    ParsesToEnd w p ↔ ¬ PopsPastEnd p.abs w.opcode := by
  constructor
  · rintro ⟨t, queue, ht, hq⟩ h
    rw [tokenizerTokenize_eq, Except.ok.injEq] at ht
    rw [← ht, parserParse_popsPastEnd w p h] at hq
    exact nomatch hq
  · intro h
    exact ⟨_, _, tokenizerTokenize_eq w, parserParse_eq w p h⟩

theorem parses_to_end_iff (w : CodeWord) (p : Processor) :
    ParsesToEnd w p ↔ ¬ (w.opcodeByte ∈ popBytes ∧ p.registers.stackPointer = 0xFFFF) := by
  rw [parsesToEnd_iff_not_popsPastEnd, PopsPastEnd, opcode_pop_iff, and_comm]
  rfl

/-- A processor of zeros whose stack pointer is the last address. -/
def processorAtEnd : Processor where
  registers := ⟨fun _ => 0, 0, 0xFFFF, 0⟩
  memory := ⟨fun _ => 0⟩

/-- `POP BC` at the last address is not parsed. -/
theorem pop_at_last_address_aborts : ¬ ParsesToEnd 0xC10000 processorAtEnd := by
  intro h
  exact (parsesToEnd_iff_not_popsPastEnd 0xC10000 processorAtEnd).mp h ⟨rfl, .BC, rfl⟩

end Beemu
