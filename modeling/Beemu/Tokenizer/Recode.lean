import Beemu.Tokenizer.Tokenizer

/-!
# Reading an instruction back from its token

`recode` recovers the opcode from the decoded fields alone. It fails on one bit: the direction
of a prefixed rotation or shift is not in the token, so that a rotation to the right comes
back as the one to the left.
-/

namespace Beemu

open Sm83 (Reg8 Operand8 Pair StackPair AluOp Cond RotOp BitOp Opcode)

def reg8OfRegister8 : Register8 → Reg8
  | .A => .A
  | .B => .B
  | .C => .C
  | .D => .D
  | .E => .E
  | .H => .H
  | .L => .L

def Param.recodeReg8 (p : Param) : Reg8 :=
  match p.value with
  | .register8 r => reg8OfRegister8 r
  | _ => .A

def Param.recodeOperand8 (p : Param) : Operand8 :=
  match p.value with
  | .register8 r => .reg (reg8OfRegister8 r)
  | _ => .indHL

def Param.recodePair (p : Param) : Pair :=
  match p.value with
  | .register16 .BC => .BC
  | .register16 .DE => .DE
  | .register16 .HL => .HL
  | _ => .SP

def Param.recodeStackPair (p : Param) : StackPair :=
  match p.value with
  | .register16 .BC => .BC
  | .register16 .DE => .DE
  | .register16 .HL => .HL
  | _ => .AF

def recodePlainLoad (p : LoadParams) : Sm83.Load :=
  match p.dest.type, p.source.type with
  | .register8, .register8 =>
    if p.dest.pointer then .highCA
    else if p.source.pointer then .aHighC
    else .regReg p.dest.recodeReg8 p.source.recodeReg8
  | .register8, .register16 =>
    match p.source.recodePair with
    | .BC => .aPtr .BC
    | .DE => .aPtr .DE
    | _ => .regInd p.dest.recodeReg8
  | .register16, .register8 =>
    match p.dest.recodePair with
    | .BC => .ptrA .BC
    | .DE => .ptrA .DE
    | _ => .indReg p.source.recodeReg8
  | .register8, .uint8 => if p.source.pointer then .aHighImm else .regImm p.dest.recodeReg8
  | .register16, .uint8 => .indImm
  | .uint8, _ => .highImmA
  | .uint16, .register8 => .absA
  | .uint16, _ => .absSP
  | .register8, _ => .aAbs
  | .register16, .uint16 => .pairImm p.dest.recodePair
  | _, _ => .spHL

def recodeLoad (p : LoadParams) : Sm83.Load :=
  match p.postLoadOperation with
  | .nop => recodePlainLoad p
  | .incrementIndirectDestination => .ptrA .HLInc
  | .decrementIndirectDestination =>
    if p.source.type = .register16 then .push p.source.recodeStackPair else .ptrA .HLDec
  | .incrementIndirectSource =>
    if p.dest.type = .register16 then .pop p.dest.recodeStackPair else .aPtr .HLInc
  | .decrementIndirectSource => .aPtr .HLDec
  | .signedPayloadSum => .hlSpOffset

theorem recodeLoad_loadParamsOf (l : Sm83.Load) (n : U8) (nn : U16) :
    recodeLoad (loadParamsOf n nn l) = l := by
  cases l with
  | regReg d s => cases d <;> cases s <;> rfl
  | regInd d | indReg d | regImm d => cases d <;> rfl
  | ptrA p | aPtr p | pairImm p | push p | pop p => cases p <;> rfl
  | _ => rfl

def recodeAlu (op : AluOp) (source : Param) : Sm83.Arith :=
  if source.type = .uint8 then .aluImm op else .alu op source.recodeOperand8

def recodeArith (p : ArithmaticParams) : Sm83.Arith :=
  let isPair := p.destOrFirst.type = .register16 ∧ ¬ p.destOrFirst.pointer
  match p.operation with
  | .inc =>
    if isPair then .incPair p.destOrFirst.recodePair else .inc8 p.destOrFirst.recodeOperand8
  | .dec =>
    if isPair then .decPair p.destOrFirst.recodePair else .dec8 p.destOrFirst.recodeOperand8
  | .add =>
    if p.sourceOrSecond.type = .int8 then .addSP
    else if isPair then .addHL p.sourceOrSecond.recodePair
    else recodeAlu .add p.sourceOrSecond
  | .adc => recodeAlu .adc p.sourceOrSecond
  | .sub => recodeAlu .sub p.sourceOrSecond
  | .sbc => recodeAlu .sbc p.sourceOrSecond
  | .and => recodeAlu .and p.sourceOrSecond
  | .or => recodeAlu .or p.sourceOrSecond
  | .xor => recodeAlu .xor p.sourceOrSecond
  | .cp => recodeAlu .cp p.sourceOrSecond
  | .daa => .daa
  | .cpl => .cpl
  | .scf => .scf
  | .ccf => .ccf

theorem recodeArith_arithmaticParamsOf (a : Sm83.Arith) (n : U8) :
    recodeArith (arithmaticParamsOf n a) = a := by
  cases a with
  | alu op o =>
    cases o with
    | reg r => cases op <;> cases r <;> rfl
    | indHL => cases op <;> rfl
  | aluImm op => cases op <;> rfl
  | inc8 o | dec8 o =>
    cases o with
    | reg r => cases r <;> rfl
    | indHL => rfl
  | incPair p | decPair p | addHL p => cases p <;> rfl
  | _ => rfl

/-- The rotation to the left that has the same token. -/
def leftward : RotOp → RotOp
  | .rlc | .rrc => .rlc
  | .rl | .rr => .rl
  | .sla | .sra => .sla
  | .swap => .swap
  | .srl => .srl

def leftwardCb : Sm83.Cb → Sm83.Cb
  | .rot op t => .rot (leftward op) t
  | .bits op n t => .bits op n t

def leftwardOpcode : Opcode → Opcode
  | .cb c => .cb (leftwardCb c)
  | o => o

def recodeRotA (p : RotShiftParams) : Sm83.RotA :=
  match p.throughCarry, p.direction with
  | true, .left => .rlca
  | true, .right => .rrca
  | false, .left => .rla
  | false, .right => .rra

def recodeRot (p : RotShiftParams) : RotOp :=
  match p.operation with
  | .rotate => if p.throughCarry then .rlc else .rl
  | .shiftArithmatic => .sla
  | .swap => .swap
  | .shiftLogical => .srl

def recodeBitOp : BitOperation → BitOp
  | .bit => .bit
  | .res => .res
  | .set => .set

def recodeCond : JumpCondition → Cond
  | .ifNotZero => .NZ
  | .ifZero => .Z
  | .ifNotCarry => .NC
  | _ => .C

/-- The address of an RST is eight times its number. -/
def Param.recodeRst (p : Param) : BitVec 3 :=
  match p.value with
  | .value v => (v >>> 3).setWidth 3
  | _ => 0

def recodeJump (p : JumpParams) : Sm83.Jump :=
  match p.type with
  | .jump =>
    if p.isRelative then
      if p.isConditional then .jrIf (recodeCond p.condition) else .jr
    else if p.isConditional then .jpIf (recodeCond p.condition)
    else if p.param.type = .register16 then .jpHL
    else .jp
  | .call => if p.isConditional then .callIf (recodeCond p.condition) else .call
  | .ret =>
    if p.isConditional then .retIf (recodeCond p.condition)
    else if p.enableInterrupts then .reti
    else .ret
  | .rst => .rst p.param.recodeRst

theorem recodeJump_jumpParamsOf (j : Sm83.Jump) (n : U8) (nn : U16) :
    recodeJump (jumpParamsOf n nn j) = j := by
  cases j with
  | jrIf c | jpIf c | callIf c | retIf c => cases c <;> rfl
  | rst k =>
    revert k
    exact Sm83.forall_bits3 _ rfl rfl rfl rfl rfl rfl rfl rfl
  | _ => rfl

def recodeSystem : SystemOperation → Sm83.System
  | .nop => .nop
  | .stop => .stop
  | .halt => .halt
  | .disableInterrupts => .di
  | .enableInterrupts => .ei

/-- The opcode that a token's parameters stand for. -/
def recode : Params → Opcode
  | .load p => .load (recodeLoad p)
  | .arithmatic p => .arith (recodeArith p)
  | .rotShift p =>
    if p.setFlagsToZero then .rotA (recodeRotA p)
    else .cb (.rot (recodeRot p) p.target.recodeOperand8)
  | .bitwise p =>
    .cb (.bits (recodeBitOp p.operation) (p.bitNumber.setWidth 3) p.target.recodeOperand8)
  | .jump p => .jump (recodeJump p)
  | .system op => .system (recodeSystem op)

@[simp] theorem recodeOperand8_operandParam (o : Operand8) :
    (operandParam o).recodeOperand8 = o := by
  cases o with
  | reg r => cases r <;> rfl
  | indHL => rfl

/-- Reading back is exact up to the direction of prefixed rotations. -/
theorem recode_paramsOf (o : Opcode) (ho : ∀ b, o ≠ .illegal b) (n : U8) (nn : U16) :
    recode (paramsOf n nn o) = leftwardOpcode o := by
  cases o with
  | load l => exact congrArg _ (recodeLoad_loadParamsOf l n nn)
  | arith a => exact congrArg _ (recodeArith_arithmaticParamsOf a n)
  | rotA r => cases r <;> rfl
  | cb c =>
    cases c with
    | rot op t => cases op <;> simp [paramsOf, cbParams, recode, recodeRot, rotShiftOpOf,
        throughCarryOf, leftwardOpcode, leftwardCb, leftward]
    | bits op k t =>
      have hk : (k.setWidth 8).setWidth 3 = k := by simp
      cases op <;> simp [paramsOf, cbParams, recode, recodeBitOp, bitOperationOf,
        leftwardOpcode, leftwardCb, hk]
  | jump j => exact congrArg _ (recodeJump_jumpParamsOf j n nn)
  | system s => cases s <;> rfl
  | illegal b => exact absurd rfl (ho b)

/-! ## Operands -/

theorem setWidth16_injective {n n' : U8} (h : n.setWidth 16 = n'.setWidth 16) : n = n' := by
  have h8 := congrArg (BitVec.setWidth 8) h
  simpa using h8

/-- The byte operand of a two-byte instruction is in its parameters, STOP and the prefixed
instructions apart. -/
theorem byte_of_paramsOf (o : Opcode) (h : o.length = 2) (hs : o ≠ .system .stop)
    (hc : ∀ c, o ≠ .cb c) (n n' : U8) (nn nn' : U16)
    (hp : paramsOf n nn o = paramsOf n' nn' o) : n = n' := by
  cases o with
  | load l =>
    cases l with
    | regImm d =>
      exact setWidth16_injective (by simpa [paramsOf, loadParamsOf, byteParam] using hp)
    | indImm => exact setWidth16_injective (by simpa [paramsOf, loadParamsOf, byteParam] using hp)
    | highImmA | aHighImm =>
      exact setWidth16_injective (by simpa [paramsOf, loadParamsOf, highParam] using hp)
    | hlSpOffset => simpa [paramsOf, loadParamsOf, offsetParam] using hp
    | _ => cases h
  | arith a =>
    cases a with
    | aluImm op =>
      exact setWidth16_injective (by simpa [paramsOf, arithmaticParamsOf, byteParam] using hp)
    | addSP => simpa [paramsOf, arithmaticParamsOf, offsetParam] using hp
    | _ => cases h
  | jump j =>
    cases j with
    | jr | jrIf c => simpa [paramsOf, jumpParamsOf, offsetParam] using hp
    | _ => cases h
  | system s =>
    cases s with
    | stop => exact absurd rfl hs
    | _ => cases h
  | cb c => exact absurd rfl (hc c)
  | rotA _ | illegal _ => cases h

theorem word_of_paramsOf (o : Opcode) (h : o.length = 3) (n n' : U8) (nn nn' : U16)
    (hp : paramsOf n nn o = paramsOf n' nn' o) : nn = nn' := by
  cases o with
  | load l =>
    cases l with
    | absA | aAbs | absSP => simpa [paramsOf, loadParamsOf, addressParam] using hp
    | pairImm p => simpa [paramsOf, loadParamsOf, wordParam] using hp
    | _ => cases h
  | arith a => cases a <;> cases h
  | jump j =>
    cases j with
    | jp | jpIf c | call | callIf c => simpa [paramsOf, jumpParamsOf, wordParam] using hp
    | _ => cases h
  | system s => cases s <;> cases h
  | rotA _ | cb _ | illegal _ => cases h

/-! ## Faithfulness -/

def CodeWord.Legal (w : CodeWord) : Prop := w.opcodeByte ∉ Sm83.illegalBytes

/-- Tokens that agree but for the machine code and the duration. -/
def Instruction.SameOperation (t t' : Instruction) : Prop :=
  t.type = t'.type ∧ t.byteLength = t'.byteLength ∧ t.params = t'.params

/-- Two words are the same instruction. The second byte of a STOP is ignored. -/
def CodeWord.SameInstruction (w w' : CodeWord) (byteLength : Nat) : Prop :=
  w.leading byteLength = w'.leading byteLength ∨
    (w.opcodeByte = Sm83.System.stop.byte ∧ w'.opcodeByte = Sm83.System.stop.byte)

/-- Prefixed rotations or shifts that differ in their direction, bit 3 of the second byte. -/
def CodeWord.DirectionLost (w w' : CodeWord) : Prop :=
  w.opcodeByte = 0xCB ∧ w'.opcodeByte = 0xCB ∧ w.firstOperand < 0x30 ∧
    w'.firstOperand = w.firstOperand ^^^ 0x08

theorem opcode_legal (w : CodeWord) (h : w.Legal) (b : {b // b ∈ Sm83.illegalBytes}) :
    w.opcode ≠ .illegal b := by
  intro ho
  apply h
  rw [← w.opcode_byte, ho]
  exact b.property

theorem leftwardCb_eq (c c' : Sm83.Cb) (h : leftwardCb c = leftwardCb c') (hne : c ≠ c') :
    c.byte < 0x30 ∧ c'.byte = c.byte ^^^ 0x08 := by
  cases c with
  | rot op t =>
    cases c' with
    | rot op' t' =>
      obtain ⟨hop, rfl⟩ := Sm83.Cb.rot.inj h
      cases op <;> cases op' <;> first
        | exact absurd rfl hne
        | (cases t with
          | reg r => cases r <;> decide
          | indHL => decide)
        | cases hop
    | bits op n t' => cases h
  | bits op n t =>
    cases c' with
    | rot op' t' => cases h
    | bits op' n' t' => exact absurd h hne

theorem leftwardOpcode_eq (o o' : Opcode) (h : leftwardOpcode o = leftwardOpcode o') :
    o = o' ∨ ∃ c c', o = .cb c ∧ o' = .cb c' ∧ leftwardCb c = leftwardCb c' ∧ c ≠ c' := by
  by_cases he : o = o'
  · exact .inl he
  · right
    cases o with
    | cb c =>
      cases o' with
      | cb c' => exact ⟨c, c', rfl, rfl, Opcode.cb.inj h, fun hc => he (congrArg _ hc)⟩
      | _ => cases h
    | _ => cases o' <;> first | exact absurd h he | cases h

theorem opcode_cb (w : CodeWord) (c : Sm83.Cb) (h : w.opcode = .cb c) :
    w.opcodeByte = 0xCB ∧ w.firstOperand = c.byte := by
  have hp : w.opcodeByte = 0xCB := (Sm83.decode_cb_iff _ _).mp ⟨c, h⟩
  rw [CodeWord.opcode, hp, Sm83.decode_prefix] at h
  exact ⟨hp, by rw [← Sm83.Opcode.cb.inj h, Sm83.decodeCb_byte]⟩

/-- Equal opcodes with equal parameters are the same bytes. -/
theorem sameInstruction_of_opcode (w w' : CodeWord) (ho : w.opcode = w'.opcode)
    (hp : w.token.params = w'.token.params) : w.SameInstruction w' w.length := by
  have h₀ : w.opcodeByte = w'.opcodeByte := by rw [← w.opcode_byte, ho, w'.opcode_byte]
  have hlead := w.code_eq_leading _ w.length_cases
  have hlead' := w'.code_eq_leading _ w.length_cases
  simp only [CodeWord.token, token, ← ho] at hp
  rcases w.length_cases with h | h | h <;> rw [CodeWord.SameInstruction, ← hlead, ← hlead', h]
  · exact .inl (by simp only [CodeWord.code, machineCode, h₀])
  · by_cases hs : w.opcode = .system .stop
    · exact .inr ⟨by rw [← w.opcode_byte, hs]; rfl, by rw [← w'.opcode_byte, ← ho, hs]; rfl⟩
    · have h₁ : w.firstOperand = w'.firstOperand := by
        by_cases hc : ∃ c, w.opcode = .cb c
        · obtain ⟨c, hc⟩ := hc
          rw [(opcode_cb w c hc).2, (opcode_cb w' c (ho ▸ hc)).2]
        · exact byte_of_paramsOf _ h hs (fun c hc' => hc ⟨c, hc'⟩) _ _ _ _ hp
      exact .inl (by simp only [CodeWord.code, machineCode, h₀, h₁])
  · have hw := word_of_paramsOf _ h _ _ _ _ hp
    have h₁ := congrArg Sm83.lo hw
    have h₂ := congrArg Sm83.hi hw
    rw [Sm83.lo_word, Sm83.lo_word] at h₁
    rw [Sm83.hi_word, Sm83.hi_word] at h₂
    exact .inl (by simp only [CodeWord.code, machineCode, h₀, h₁, h₂])

theorem direction_not_in_params : ∀ b : U8, b < 0x30 →
    cbType (Sm83.decodeCb (b ^^^ 0x08)) = cbType (Sm83.decodeCb b) ∧
    cbParams (Sm83.decodeCb (b ^^^ 0x08)) = cbParams (Sm83.decodeCb b) := by
  decide +kernel

theorem sameOperation_of_directionLost (w w' : CodeWord) (h : w.DirectionLost w') :
    w.token.SameOperation w'.token := by
  obtain ⟨hp, hp', hlt, hx⟩ := h
  obtain ⟨ht, hpar⟩ := direction_not_in_params w.firstOperand hlt
  have ho : w.opcode = .cb (Sm83.decodeCb w.firstOperand) := by
    rw [CodeWord.opcode, hp, Sm83.decode_prefix]
  have ho' : w'.opcode = .cb (Sm83.decodeCb (w.firstOperand ^^^ 0x08)) := by
    rw [CodeWord.opcode, hp', Sm83.decode_prefix, hx]
  simp only [Instruction.SameOperation, CodeWord.token, token, ho, ho']
  exact ⟨ht.symm, rfl, hpar.symm⟩

theorem not_sameInstruction_of_directionLost (w w' : CodeWord) (h : w.DirectionLost w') :
    ¬ w.SameInstruction w' w.length := by
  obtain ⟨hp, hp', hlt, hx⟩ := h
  have hl : w.length = 2 := by
    rw [CodeWord.length, CodeWord.opcode, hp, Sm83.decode_prefix]
    rfl
  rw [hl]
  rintro (he | ⟨hs, -⟩)
  · have h₁ : w.firstOperand = w'.firstOperand := by
      rw [w.firstOperand_of_leading 2 (.inl rfl), he, ← w'.firstOperand_of_leading 2 (.inl rfl)]
    have hne : ∀ b : U8, b ≠ b ^^^ 0x08 := by decide +kernel
    exact hne _ (h₁.trans hx)
  · rw [hp] at hs
    exact absurd hs (by decide)

/-- Two words with the same token fields are the same instruction, except where the lost
direction of a prefixed rotation or shift makes two instructions one. -/
theorem token_fields_determine_iff (w w' : CodeWord) (t t' : Instruction)
    (hw : w.Legal) (hw' : w'.Legal)
    (ht : tokenizerTokenize (w.setWidth 32) = .ok t)
    (ht' : tokenizerTokenize (w'.setWidth 32) = .ok t') :
    (t.SameOperation t' → w.SameInstruction w' t.byteLength.toNat) ↔ ¬ w.DirectionLost w' := by
  rw [tokenizerTokenize_eq] at ht ht'
  obtain rfl := Except.ok.inj ht
  obtain rfl := Except.ok.inj ht'
  rw [w.token_byteLength]
  constructor
  · intro h hl
    exact not_sameInstruction_of_directionLost w w' hl
      (h (sameOperation_of_directionLost w w' hl))
  · intro hl hs
    have hr : leftwardOpcode w.opcode = leftwardOpcode w'.opcode := by
      rw [← recode_paramsOf w.opcode (opcode_legal w hw) w.firstOperand
        (Sm83.word w.secondOperand w.firstOperand),
        ← recode_paramsOf w'.opcode (opcode_legal w' hw') w'.firstOperand
        (Sm83.word w'.secondOperand w'.firstOperand)]
      exact congrArg recode hs.2.2
    rcases leftwardOpcode_eq _ _ hr with ho | ⟨c, c', hc, hc', hcc, hne⟩
    · exact sameInstruction_of_opcode w w' ho hs.2.2
    · obtain ⟨hlt, hx⟩ := leftwardCb_eq c c' hcc hne
      obtain ⟨hp, h₁⟩ := opcode_cb w c hc
      obtain ⟨hp', h₁'⟩ := opcode_cb w' c' hc'
      exact absurd ⟨hp, hp', by rw [h₁]; exact hlt, by rw [h₁, h₁']; exact hx⟩ hl

theorem token_fields_determine_jump :
    ((CodeWord.token 0xC30150).SameOperation (CodeWord.token 0xCD0150) →
      CodeWord.SameInstruction 0xC30150 0xCD0150 (CodeWord.token 0xC30150).byteLength.toNat) ↔
    ¬ CodeWord.DirectionLost 0xC30150 0xCD0150 :=
  token_fields_determine_iff 0xC30150 0xCD0150 _ _ (by unfold CodeWord.Legal; decide)
    (by unfold CodeWord.Legal; decide) (tokenizerTokenize_eq _) (tokenizerTokenize_eq _)

/-- RLC B and RRC B have the same token fields and differ in their second byte. -/
theorem rlc_rrc_merged :
    CodeWord.Legal 0xCB0000 ∧ CodeWord.Legal 0xCB0800 ∧
    ∃ t t', tokenizerTokenize 0xCB0000 = .ok t ∧ tokenizerTokenize 0xCB0800 = .ok t' ∧
      t.SameOperation t' ∧ ¬ CodeWord.SameInstruction 0xCB0000 0xCB0800 t.byteLength.toNat := by
  refine ⟨by unfold CodeWord.Legal; decide, by unfold CodeWord.Legal; decide,
    CodeWord.token 0xCB0000, CodeWord.token 0xCB0800,
    tokenizerTokenize_eq 0xCB0000, tokenizerTokenize_eq 0xCB0800, ?_, ?_⟩
  · unfold Instruction.SameOperation
    decide
  · unfold CodeWord.SameInstruction
    decide

end Beemu
