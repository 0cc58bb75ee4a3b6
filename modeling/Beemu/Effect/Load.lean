import Beemu.Effect.Run

/-!
# The effect of loads

The commands of a load, applied in order, have the effect that the instruction set gives it.
-/

namespace Beemu

/-- The commands of a load, once it is fetched. -/
theorem applyQueue_loadCommands (l : Sm83.Load) (hl : l ≠ .hlSpOffset) (m : Machine)
    (s : Sm83.State) (pc : U16) (hm : m.abs = s.setPc pc) (n : U8) (nn : U16) :
    (applyQueue m (loadCommands s n nn l)).abs = (l.exec n nn s).setPc pc := by
  cases l with
  | ptrA p | aPtr p =>
    cases p <;> simp [loadCommands, stepCommands, Sm83.Load.exec, Sm83.State.stepPointer, hm]
  | push p =>
    have h : s.sp - 1 - 1 = s.sp - 2 := by rw [BitVec.sub_sub]; rfl
    simp only [loadCommands, h]
    simp [Sm83.Load.exec, hm]
  | hlSpOffset => exact absurd rfl hl
  | _ => simp [loadCommands, Sm83.Load.exec, hm]

/-! ## Which words are loads -/

def isLoad : Sm83.Opcode → Bool
  | .load _ => true
  | _ => false

/-- The tokenizer takes 0x76 for a control instruction before it looks for a load. -/
theorem isLoad_of_subtype : ∀ b : U8, loadSubtypeIfLoad b ≠ .ok 0 → b ≠ 0x76 →
    (Sm83.decodeMain b).any isLoad := by
  decide +kernel

theorem opcode_load_of_subtype (w : CodeWord) (hl : loadSubtypeIfLoad w.opcodeByte ≠ .ok 0)
    (hh : w.opcodeByte ≠ 0x76) : ∃ l, w.opcode = .load l := by
  have h : isLoad w.opcode := Sm83.decode_of_any (isLoad_of_subtype w.opcodeByte hl hh) _
  cases ho : w.opcode with
  | load l => exact ⟨l, rfl⟩
  | _ => rw [ho] at h; cases h

/-- PUSH, POP and `LD HL, SP+e`. -/
def stackLoadBytes : List U8 := [0xC5, 0xD5, 0xE5, 0xF5, 0xC1, 0xD1, 0xE1, 0xF1, 0xF8]

theorem direct_of_byte (l : Sm83.Load) (h : l.byte ∉ stackLoadBytes) :
    (∀ q, l ≠ .pop q) ∧ l ≠ .hlSpOffset := by
  constructor
  · rintro q rfl
    cases q <;> exact absurd h (by decide)
  · rintro rfl
    exact absurd h (by decide)

/-- The queue of a load fetches every byte and has the effect of the load. -/
theorem load_effect (w : CodeWord) (m : Machine)
    (hl : loadSubtypeIfLoad w.opcodeByte ≠ .ok 0) (hh : w.opcodeByte ≠ 0x76)
    (hs : w.opcodeByte ∉ stackLoadBytes) :
    ∃ l t queue, w.opcode = .load l ∧ tokenizerTokenize (w.setWidth 32) = .ok t ∧
      parserParse m.processor t = .ok queue ∧
      (applyQueue m queue).abs =
        (l.exec w.firstOperand (Sm83.word w.secondOperand w.firstOperand) m.abs).setPc
          (m.abs.pc + BitVec.ofNat 16 t.byteLength.toNat) ∧
      fetches queue = byteFetches m.abs.pc w.bytes ∧ w.bytes.length = t.byteLength.toNat := by
  obtain ⟨l, ho⟩ := opcode_load_of_subtype w hl hh
  have hby := w.opcode_byte
  rw [ho] at hby
  obtain ⟨hpop, hoff⟩ := direct_of_byte l (by rw [← hby] at hs; exact hs)
  have hq := parserParse_load w m.processor l ho fun q h => absurd h (hpop q)
  have hb := w.bytes_eq
  have hlen := w.bytes_length
  refine ⟨l, w.token, _, ho, tokenizerTokenize_eq w, hq, ?_, ?_, ?_⟩
  · have hm := applyQueue_fetchCommands m m.abs.pc w.opcodeByte
      (operandBytes w.length w.firstOperand w.secondOperand)
    rw [← List.length_cons, ← hb, hlen] at hm
    rw [applyQueue_append, w.token_byteLength]
    exact applyQueue_loadCommands l hoff _ m.abs _ hm _ _
  · simp [fetches_loadCommands, Machine.abs]
  · rw [hlen, w.token_byteLength]

/-- `LD (HL+), A` on a machine of zeros. -/
theorem load_effect_hl_inc :
    ∃ l t queue, CodeWord.opcode 0x220000 = .load l ∧
      tokenizerTokenize (BitVec.setWidth 32 (0x220000 : CodeWord)) = .ok t ∧
      parserParse machineAtZero.processor t = .ok queue ∧
      (applyQueue machineAtZero queue).abs = (l.exec (CodeWord.firstOperand 0x220000)
        (Sm83.word (CodeWord.secondOperand 0x220000) (CodeWord.firstOperand 0x220000))
          machineAtZero.abs).setPc (machineAtZero.abs.pc + BitVec.ofNat 16 t.byteLength.toNat) ∧
      fetches queue = byteFetches machineAtZero.abs.pc (CodeWord.bytes 0x220000) ∧
      (CodeWord.bytes 0x220000).length = t.byteLength.toNat :=
  load_effect 0x220000 machineAtZero (by decide) (by decide) (by decide)

end Beemu
