import Beemu.Tokenizer.Arithmatic
import Beemu.Tokenizer.Cbxx
import Beemu.Tokenizer.Jump

/-!
# The tokenizer

One word of three bytes becomes one token. The tokenizer computes `token` on every word, and
what follows from that is stated for all words at once: it never faults, reads no byte past
the instruction, and almost determines the instruction.
-/

namespace Beemu

/-- `none` is the return value false, with which the instruction is left as it was. -/
def tokenizeSystem (instruction : Instruction) (opcode : U8) : Option Instruction :=
  let operation : Option SystemOperation :=
    match opcode with
    | 0x00#8 => some .nop
    | 0x10#8 => some .stop
    | 0x76#8 => some .halt
    | 0xF3#8 => some .disableInterrupts
    | 0xFB#8 => some .enableInterrupts
    | _ => none
  operation.map fun op =>
    { instruction with type := .cpuControl, durationInClockCycles := 1, params := .system op }

/-- `beemu_tokenizer_tokenize` after the clean-up. -/
def tokenizeCleaned (inst : Instruction) (opcode : U8) : Checked Instruction :=
  match tokenizeSystem inst opcode with
  | some inst => .ok inst
  | none =>
    if (inst.byteLength = 2 ∧ opcode = 0xCB) ∨ opcode &&& 0xE7 = 0x07 then tokenizeCbxx inst
    else do
      let loadSubtype ← loadSubtypeIfLoad opcode
      if loadSubtype ≠ 0 then tokenizeLoad inst opcode
      else do
        let arithmaticSubtype ← arithmaticSubtypeIfArithmatic opcode
        if arithmaticSubtype ≠ 0 then tokenizeArithmatic inst opcode
        else do
          let jumpSubtype ← jumpSubtypeIfJump opcode
          if jumpSubtype ≠ 0 then tokenizeJump inst opcode
          else .ok inst

def tokenizerTokenize (instruction : U32) : Checked Instruction := do
  let inst := { Instruction.zeroed with originalMachineCode := instruction }
  let cleaned ← determineByteLengthAndCleanup inst
  tokenizeCleaned cleaned.1 cleaned.2

theorem tokenizeCleaned_load (l : Sm83.Load) (omc : U32) :
    tokenizeCleaned (.fresh omc (BitVec.ofNat 8 l.length)) l.byte =
      tokenizeLoad (.fresh omc (BitVec.ofNat 8 l.length)) l.byte := by
  cases l with
  | regReg d s => cases d <;> cases s <;> rfl
  | regInd d | indReg d | regImm d => cases d <;> rfl
  | ptrA p | aPtr p | pairImm p | push p | pop p => cases p <;> rfl
  | _ => rfl

theorem tokenizeCleaned_arith (a : Sm83.Arith) (omc : U32) :
    tokenizeCleaned (.fresh omc (BitVec.ofNat 8 a.length)) a.byte =
      tokenizeArithmatic (.fresh omc (BitVec.ofNat 8 a.length)) a.byte := by
  cases a with
  | alu op o =>
    cases o with
    | reg r => cases op <;> cases r <;> rfl
    | indHL => cases op <;> rfl
  | aluImm op => cases op <;> rfl
  | inc8 o | dec8 o =>
    cases o with
    | reg r => cases r <;> rfl
    | indHL => rfl
  | incPair p | decPair p | addHL p => cases p <;> rfl
  | _ => rfl

theorem tokenizeCleaned_jump (j : Sm83.Jump) (omc : U32) :
    tokenizeCleaned (.fresh omc (BitVec.ofNat 8 j.length)) j.byte =
      tokenizeJump (.fresh omc (BitVec.ofNat 8 j.length)) j.byte := by
  cases j with
  | jrIf c | jpIf c | callIf c | retIf c => cases c <;> rfl
  | rst k =>
    revert k
    exact Sm83.forall_bits3 _ rfl rfl rfl rfl rfl rfl rfl rfl
  | _ => rfl

theorem tokenizeCleaned_rotA (r : Sm83.RotA) :
    tokenizeCleaned (.fresh (r.byte.setWidth 32) 1) r.byte =
      tokenizeCbxx (.fresh (r.byte.setWidth 32) 1) := by
  cases r <;> rfl

theorem tokenizeCleaned_illegal : ∀ b ∈ Sm83.illegalBytes,
    ∀ omc, tokenizeCleaned (.fresh omc 1) b = .ok (.fresh omc 1) := by
  simp only [Sm83.illegalBytes, List.forall_mem_cons]
  exact ⟨fun _ => rfl, fun _ => rfl, fun _ => rfl, fun _ => rfl, fun _ => rfl, fun _ => rfl,
    fun _ => rfl, fun _ => rfl, fun _ => rfl, fun _ => rfl, fun _ => rfl, by simp⟩

/-- The operand that the tokenizer cuts out of the machine code is the operand in memory. -/
theorem paramsOf_machineCode (o : Sm83.Opcode) (b₁ b₂ : U8) :
    paramsOf ((machineCode o.byte b₁ b₂ o.length &&& 0xFF).setWidth 8)
      (beemuParseUint16Operand (machineCode o.byte b₁ b₂ o.length)) o =
    paramsOf b₁ (Sm83.word b₂ b₁) o := by
  rcases Sm83.length_cases o with h | h | h
  · exact paramsOf_of_length_one o h _ _ _ _
  · rw [h, machineCode_low_two]
    exact paramsOf_of_length_two o h _ _ _
  · rw [h, beemuParseUint16Operand_machineCode]
    exact paramsOf_of_length_three o h _ _ _

theorem tokenizeCleaned_eq (o : Sm83.Opcode) (b₁ b₂ : U8)
    (hc : ∀ c, o = .cb c → c = Sm83.decodeCb b₁) :
    tokenizeCleaned (.fresh (machineCode o.byte b₁ b₂ o.length) (BitVec.ofNat 8 o.length)) o.byte =
      .ok (token o b₁ b₂) := by
  have hp := paramsOf_machineCode o b₁ b₂
  cases o with
  | load l =>
    refine (tokenizeCleaned_load l _).trans ((tokenizeLoad_eq l _ _).trans ?_)
    simp only [token, ← hp]
    rfl
  | arith a =>
    refine (tokenizeCleaned_arith a _).trans ((tokenizeArithmatic_eq a _ fun h => ?_).trans ?_)
    · exact congrArg (machineCode a.byte b₁ b₂) h
    · simp only [token, ← hp]
      rfl
  | rotA r => exact (tokenizeCleaned_rotA r).trans (tokenizeCbxx_rotA r)
  | cb c =>
    obtain rfl := hc c rfl
    exact tokenizeCbxx_cb b₁
  | jump j =>
    refine (tokenizeCleaned_jump j _).trans ((tokenizeJump_eq j _ _).trans ?_)
    simp only [token, ← hp]
    rfl
  | system s => cases s <;> rfl
  | illegal b => exact tokenizeCleaned_illegal b.val b.property _

/-- The tokenizer returns the token of the opcode and its operand bytes, on every word. -/
theorem tokenizerTokenize_eq (w : CodeWord) :
    tokenizerTokenize (w.setWidth 32) = .ok w.token := by
  have hc : ∀ c, w.opcode = .cb c → c = Sm83.decodeCb w.firstOperand := by
    intro c h
    have hp : w.opcodeByte = 0xCB := (Sm83.decode_cb_iff _ _).mp ⟨c, h⟩
    rw [CodeWord.opcode, hp, Sm83.decode_prefix] at h
    exact (Sm83.Opcode.cb.inj h).symm
  have h := tokenizeCleaned_eq w.opcode w.firstOperand w.secondOperand hc
  rw [CodeWord.opcode_byte] at h
  rw [tokenizerTokenize, determineByteLengthAndCleanup_eq w _ rfl, ok_bind]
  exact h

/-- Tokenizing never faults, finds the length of the instruction, keeps exactly its bytes, and
depends on no other byte of the word. -/
theorem tokenizerTokenize_total (w : CodeWord) :
    ∃ t, tokenizerTokenize (w.setWidth 32) = .ok t ∧ t.byteLength.toNat = w.length ∧
      t.originalMachineCode = w.leading t.byteLength.toNat ∧
      ∀ w' : CodeWord, w'.leading t.byteLength.toNat = w.leading t.byteLength.toNat →
        tokenizerTokenize (w'.setWidth 32) = .ok t := by
  refine ⟨w.token, tokenizerTokenize_eq w, w.token_byteLength, ?_, ?_⟩
  · rw [w.token_byteLength, w.token_originalMachineCode]
  · intro w' h
    rw [w.token_byteLength] at h
    rw [tokenizerTokenize_eq, CodeWord.token_of_leading h]

end Beemu
