import Beemu.Parser.Common
import Beemu.Sm83.Word

/-!
# Exploding an operand

The two bytes of a 16-bit operand, as two parameters: byte registers for a pair that is made of
them, numbers for SP and for an immediate.
-/

namespace Beemu

open Sm83 (hi lo)

/-- A pair, or an immediate that can be read as a number. -/
inductive WordOperand : Param → Prop where
  | pair (q : Sm83.Pair) : WordOperand (pairParam (register16Of q))
  | immediate (value : ParamValue) (v : U16) (h : value.asValue = .ok v) :
      WordOperand ⟨false, .uint16, value⟩

/-- The parameters resolve to two bytes, and these make the number that the operand resolves to. -/
def HalvesOf (p : Processor) (param : Param) (t : ParamTuple) : Prop :=
  ∃ value higher lower : U16,
    resolveInstructionParameterUnsigned param p true = .ok value ∧
    resolveInstructionParameterUnsigned t.higher p true = .ok higher ∧
    resolveInstructionParameterUnsigned t.lower p true = .ok lower ∧
    higher.toNat < 256 ∧ lower.toNat < 256 ∧ higher.toNat * 256 + lower.toNat = value.toNat

/-- The parameters are byte registers, and two bytes written to these are written to the pair and
to nothing else. -/
def WritesExactly (registers : Registers) (r : Register16) (t : ParamTuple) : Prop :=
  ∃ h l, t.higher = ⟨false, .register8, .register8 h⟩ ∧
    t.lower = ⟨false, .register8, .register8 l⟩ ∧
    ∀ x y : U8, ∃ s s',
      registersWriteRegisterValue registers (.eightBit h) (x.setWidth 16) = .ok s ∧
      registersWriteRegisterValue s (.eightBit l) (y.setWidth 16) = .ok s' ∧
      registersReadRegisterValue s' (.sixteenBit r) = .ok (Sm83.word x y) ∧
      ∀ c, c ∉ (Register.sixteenBit r).cells → s'.cell c = registers.cell c

section Halves

variable (p : Processor)

theorem halvesOf_word {param : Param} {t : ParamTuple} (v : U16)
    (hv : resolveInstructionParameterUnsigned param p true = .ok v)
    (hh : resolveInstructionParameterUnsigned t.higher p true = .ok ((hi v).setWidth 16))
    (hl : resolveInstructionParameterUnsigned t.lower p true = .ok ((lo v).setWidth 16)) :
    HalvesOf p param t := by
  have hhi : ((hi v).setWidth 16).toNat = v.toNat / 256 := by
    rw [BitVec.toNat_setWidth_of_le (by decide), Sm83.toNat_hi]
  have hlo : ((lo v).setWidth 16).toNat = v.toNat % 256 := by
    rw [BitVec.toNat_setWidth_of_le (by decide), Sm83.toNat_lo]
  have hlt := v.isLt
  exact ⟨v, _, _, hv, hh, hl, by omega, by omega, by omega⟩

/-- A number is stored as a register and read as a number. -/
theorem explode_immediate (value : ParamValue) (v : U16) (h : value.asValue = .ok v) :
    explodeBeemuParam ⟨false, .uint16, value⟩ p =
      .ok ⟨⟨false, .uint8, .register8Byte (hi v)⟩, ⟨false, .uint8, .register8Byte (lo v)⟩⟩ := by
  obtain ⟨hl, hh⟩ := setWidth_halves v
  simp only [explodeBeemuParam, h, ok_bind, hl, hh]

theorem explode_halves (param : Param) (h : WordOperand param) :
    ∃ t, explodeBeemuParam param p = .ok t ∧ HalvesOf p param t := by
  cases h with
  | pair q =>
    obtain ⟨t, ht, hlo, hhi⟩ := explode_pairParam p q
    refine ⟨t, ht, halvesOf_word p (p.abs.pair q) ?_ hhi hlo⟩
    rw [resolve_pairParam, read_register16Of]
  | immediate value v h =>
    refine ⟨_, explode_immediate p value v h, halvesOf_word p v ?_ rfl rfl⟩
    simp [resolveInstructionParameterUnsigned, h]

end Halves

section Registers

variable (registers : Registers) (r : Register16) (h l : Register8)

/-- Two byte registers that are the cells of a pair. -/
theorem put_put_eq_store (hc : (Register.sixteenBit r).cells = [.byte h, .byte l]) (x y : U8) :
    (registers.put h x).put l y = registers.store (.sixteenBit r) (Sm83.word x y) := by
  simp only [Registers.store, hc, Registers.setCell, word_shiftRight, word_and, narrow_widen]

theorem writesExactly (hr : r ≠ .M) (hc : (Register.sixteenBit r).cells = [.byte h, .byte l]) :
    WritesExactly registers r
      ⟨⟨false, .register8, .register8 h⟩, ⟨false, .register8, .register8 l⟩⟩ := by
  refine ⟨h, l, rfl, rfl, fun x y => ⟨_, _, rfl, rfl, ?_, ?_⟩⟩
  · rw [narrow_widen, narrow_widen, put_put_eq_store registers r h l hc]
    exact (store_written registers _ _ fun he => hr (Register.sixteenBit.inj he)).reads_back
  · intro c hn
    rw [narrow_widen, narrow_widen, put_put_eq_store registers r h l hc]
    exact store_cell_other registers _ _ c hn

end Registers

theorem explode_writes (p : Processor) (q : Sm83.Pair) (hq : q ≠ .SP) :
    ∃ t, explodeBeemuParam (pairParam (register16Of q)) p = .ok t ∧
      WritesExactly p.registers (register16Of q) t := by
  cases q with
  | BC => exact ⟨_, explode_BC p, writesExactly _ .BC .B .C nofun rfl⟩
  | DE => exact ⟨_, explode_DE p, writesExactly _ .DE .D .E nofun rfl⟩
  | HL => exact ⟨_, explode_HL p, writesExactly _ .HL .H .L nofun rfl⟩
  | SP => exact absurd rfl hq

/-- Exploding an operand loses nothing of what it stands for. -/
theorem explode_lossless (p : Processor) (param : Param) (h : WordOperand param) :
    ∃ t, explodeBeemuParam param p = .ok t ∧ HalvesOf p param t ∧
      ∀ q : Sm83.Pair, q ≠ .SP → param = pairParam (register16Of q) →
        WritesExactly p.registers (register16Of q) t := by
  obtain ⟨t, ht, hhalves⟩ := explode_halves p param h
  refine ⟨t, ht, hhalves, ?_⟩
  rintro q hq rfl
  obtain ⟨t', ht', hwrites⟩ := explode_writes p q hq
  rwa [Except.ok.inj (ht.symm.trans ht')]

theorem explode_lossless_DE :
    ∃ t, explodeBeemuParam (pairParam .DE) machineAtZero.processor = .ok t ∧
      HalvesOf machineAtZero.processor (pairParam .DE) t ∧
      ∀ q : Sm83.Pair, q ≠ .SP → pairParam .DE = pairParam (register16Of q) →
        WritesExactly machineAtZero.processor.registers (register16Of q) t :=
  explode_lossless machineAtZero.processor _ (.pair .DE)

end Beemu
