import Beemu.Effect.Run

/-!
# The effect of arithmetic

The commands of an operation on A, of INC and of DEC, applied in order, have the effect that
the instruction set gives them, and write nothing else on the way.
-/

namespace Beemu

open MachineCommand

section Flags

variable (m : Machine) (z n h c : Bool)

@[simp] theorem applyQueue_flagCommands_none :
    (applyQueue m (flagCommands z n h none)).abs = m.abs.setZnh z n h := by
  simp [flagCommands, Sm83.State.setZnh, flagOf]

@[simp] theorem applyQueue_flagCommands_some :
    (applyQueue m (flagCommands z n h (some c))).abs = m.abs.setZnhc z n h c := by
  simp [flagCommands, Sm83.State.setZnhc, Sm83.State.setZnh, flagOf]

end Flags

section Commands

variable (m : Machine) (s : Sm83.State) (pc : U16)

@[simp] theorem applyQueue_haltIf (b : Bool) : (applyQueue m (haltIf b)).abs = m.abs := by
  cases b <;> rfl

theorem apply_writeOperand (hm : m.abs = s.setPc pc) (o : Sm83.Operand8) (v : U8) :
    (applyCommand m (writeOperand s o v)).abs = (s.setOperand8 o v).setPc pc := by
  cases o <;> simp [writeOperand, hm, Sm83.State.setOperand8]

theorem applyQueue_accumulatorCommands (hm : m.abs = s.setPc pc) (op : Sm83.AluOp) (y : U8) :
    (applyQueue m (accumulatorCommands s op y)).abs = (s.alu op y).setPc pc := by
  by_cases h : op = .cp <;> simp [accumulatorCommands, Sm83.State.alu, h, hm]

end Commands

/-- The operations on A, and INC and DEC of a byte or a pair. -/
def aluOrIncDec : Sm83.Arith → Bool
  | .alu _ _ | .aluImm _ | .inc8 _ | .dec8 _ | .incPair _ | .decPair _ => true
  | .addHL _ | .addSP | .daa | .cpl | .scf | .ccf => false

/-- The commands of an operation, once its opcode is fetched. -/
theorem applyQueue_arithmaticCommands (a : Sm83.Arith) (ha : aluOrIncDec a) (m : Machine)
    (s : Sm83.State) (pc : U16) (hm : m.abs = s.setPc pc) (n : U8) :
    (applyQueue m (arithmaticCommands s n a)).abs = (a.exec n s).setPc pc := by
  cases a with
  | alu op o =>
    rw [arithmaticCommands, applyQueue_append,
      applyQueue_accumulatorCommands _ s pc ((applyQueue_haltIf m _).trans hm)]
    rfl
  | aluImm op => exact applyQueue_accumulatorCommands m s pc hm op n
  | inc8 o | dec8 o =>
    have h (v : U8) := apply_writeOperand (applyQueue m (haltIf (o = .indHL))) s pc
      ((applyQueue_haltIf m _).trans hm) o v
    simp [arithmaticCommands, applyQueue_append, h, Sm83.Arith.exec]
  | incPair q | decPair q => simp [arithmaticCommands, Sm83.Arith.exec, hm]
  | addHL q | addSP | daa | cpl | scf | ccf => cases ha

/-! ## What is written -/

def operandTarget (s : Sm83.State) : Sm83.Operand8 → WriteTarget
  | .reg r => .register8 (register8Of r)
  | .indHL => .memoryAddress (s.pair .HL)

/-- The targets that an instruction writes besides PC and IR, in order. -/
def arithmaticTargets (s : Sm83.State) : Sm83.Arith → List WriteTarget
  | .alu op _ | .aluImm op =>
    (if op = .cp then [] else [.register8 .A]) ++ [.flag .Z, .flag .N, .flag .H, .flag .C]
  | .inc8 o | .dec8 o => [operandTarget s o, .flag .Z, .flag .N, .flag .H]
  | .incPair q | .decPair q => [.register16 (register16Of q)]
  | .addHL _ => [.register8 .L, .flag .Z, .flag .N, .flag .H, .flag .C,
      .register8 .H, .flag .Z, .flag .N, .flag .H, .flag .C]
  | .addSP => [.flag .Z, .flag .N, .flag .H, .flag .C, .flag .Z, .flag .N, .flag .H, .flag .C]
  | .daa | .cpl | .scf | .ccf => [.register8 .A, .flag .Z, .flag .N, .flag .H]

theorem targets_arithmaticCommands (s : Sm83.State) (n : U8) (a : Sm83.Arith) :
    targets (arithmaticCommands s n a) = arithmaticTargets s a := by
  cases a with
  | alu op o => cases op <;> cases o <;> rfl
  | aluImm op => cases op <;> rfl
  | inc8 o | dec8 o => cases o <;> rfl
  | incPair q | decPair q | addHL q | addSP => rfl
  | daa | cpl | scf | ccf => rfl

/-! ## Which words are these operations -/

def isAluOrIncDec : Sm83.Opcode → Bool
  | .arith a => aluOrIncDec a
  | _ => false

/-- The block of operations on A, those on an immediate byte, and in the first quarter the
columns of INC and DEC of a pair and of a byte. -/
def aluOrIncDecByte (b : U8) : Bool :=
  (0x80 ≤ b && b ≤ 0xBF) || [0xC6, 0xCE, 0xD6, 0xDE, 0xE6, 0xEE, 0xF6, 0xFE].contains b ||
    (b < 0x40 && [3, 4, 5].contains (b &&& 7))

theorem isAluOrIncDec_of_byte : ∀ b : U8, aluOrIncDecByte b →
    (Sm83.decodeMain b).any isAluOrIncDec := by
  decide +kernel

theorem opcode_arith_of_byte (w : CodeWord) (hb : aluOrIncDecByte w.opcodeByte) :
    ∃ a, w.opcode = .arith a ∧ aluOrIncDec a := by
  have h : isAluOrIncDec w.opcode :=
    Sm83.decode_of_any (isAluOrIncDec_of_byte w.opcodeByte hb) _
  cases ho : w.opcode with
  | arith a => rw [ho] at h; exact ⟨a, rfl, h⟩
  | _ => rw [ho] at h; cases h

/-- The queue of an operation has its effect, whatever it does to PC, and writes its
destination, its flags and nothing else. -/
theorem arithmetic_effect (w : CodeWord) (m : Machine) (hb : aluOrIncDecByte w.opcodeByte) :
    ∃ a t queue pc, w.opcode = .arith a ∧ tokenizerTokenize (w.setWidth 32) = .ok t ∧
      parserParse m.processor t = .ok queue ∧
      (applyQueue m queue).abs = (a.exec w.firstOperand m.abs).setPc pc ∧
      targets queue = [.internal .programCounter, .internal .instructionRegister] ++
        arithmaticTargets m.abs a := by
  obtain ⟨a, ho, ha⟩ := opcode_arith_of_byte w hb
  have hq := parserParse_eq w m.processor (by rw [ho]; nofun)
  rw [ho, bodyCommands] at hq
  refine ⟨a, w.token, _, m.abs.pc + 1, ho, tokenizerTokenize_eq w, hq, ?_, ?_⟩
  · rw [applyQueue_append]
    exact applyQueue_arithmaticCommands a ha _ m.abs _
      (applyQueue_fetchCommands m _ w.opcodeByte []) _
  · rw [targets, List.filterMap_append]
    exact congrArg (_ ++ ·) (targets_arithmaticCommands m.abs w.firstOperand a)

/-- `SBC A, (HL)` on a machine of zeros. -/
theorem arithmetic_effect_sbc :
    ∃ a t queue pc, CodeWord.opcode 0x9E0000 = .arith a ∧
      tokenizerTokenize (BitVec.setWidth 32 (0x9E0000 : CodeWord)) = .ok t ∧
      parserParse machineAtZero.processor t = .ok queue ∧
      (applyQueue machineAtZero queue).abs =
        (a.exec (CodeWord.firstOperand 0x9E0000) machineAtZero.abs).setPc pc ∧
      targets queue = [.internal .programCounter, .internal .instructionRegister] ++
        arithmaticTargets machineAtZero.abs a :=
  arithmetic_effect 0x9E0000 machineAtZero rfl

end Beemu
