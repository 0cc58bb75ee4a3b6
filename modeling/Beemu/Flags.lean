import Beemu.Lib.History
import Beemu.Registers

/-!
# Histories of flag writes

Four flags share a byte. Setting one keeps the rest of the byte, but it ors its bit in and so
never clears it: a flag that was once set stays set.
-/

namespace Beemu

open History (lastWrite)

/-- The value of a flag as the source gives it. -/
def flagValue (b : Bool) : U8 := (BitVec.ofBool b).setWidth 8

def Registers.flagBit (s : Registers) (f : Flag) : Bool := s.flags.getLsbD f.bit

/-- A history of calls of `beemu_registers_flags_set_flag`, each with the value 0 or 1. -/
def setFlags (s : Registers) (calls : List (Flag × Bool)) : Registers :=
  calls.foldl (fun s call => registersFlagsSetFlag s call.1 (flagValue call.2)) s

theorem getFlag_eq_flagBit (s : Registers) (f : Flag) :
    registersFlagsGetFlag s f = flagValue (s.flagBit f) := by
  have h : (s.flags >>> f.bit).getLsbD 0 = s.flagBit f := BitVec.getLsbD_ushiftRight ..
  rw [registersFlagsGetFlag, flagValue, ← h]
  exact BitVec.and_one_eq_setWidth_ofBool_getLsbD

theorem flagValue_inj {a b : Bool} : flagValue a = flagValue b ↔ a = b := by
  cases a <;> cases b <;> decide

/-- Setting a flag can add its bit and touches no other. -/
theorem flagBit_setFlag (s : Registers) (f g : Flag) (b : Bool) :
    (registersFlagsSetFlag s f (flagValue b)).flagBit g =
      (s.flagBit g || (decide (f = g) && b)) := by
  have h : (flagValue b <<< f.bit).getLsbD g.bit = (decide (f = g) && b) := by
    cases f <;> cases g <;> cases b <;> decide
  rw [Registers.flagBit, registersFlagsSetFlag, BitVec.getLsbD_or, h]
  rfl

theorem setFlag_lowNibble (s : Registers) (f : Flag) (b : Bool) :
    (registersFlagsSetFlag s f (flagValue b)).flags &&& 0x0F = s.flags &&& 0x0F := by
  have h : ∀ v : U8, (v ||| flagValue b <<< f.bit) &&& 0x0F = v &&& 0x0F := by
    cases f <;> cases b <;> decide +kernel
  exact h s.flags

/-- A flag is set at the end when it was at the start or when some call set it. -/
theorem flagBit_setFlags (s : Registers) (calls : List (Flag × Bool)) (f : Flag) :
    (setFlags s calls).flagBit f = (s.flagBit f || decide ((f, true) ∈ calls)) := by
  induction calls generalizing s with
  | nil => simp [setFlags]
  | cons call calls ih =>
    obtain ⟨g, b⟩ := call
    have hs : setFlags s ((g, b) :: calls) =
        setFlags (registersFlagsSetFlag s g (flagValue b)) calls := rfl
    rw [hs, ih, flagBit_setFlag, Bool.or_assoc]
    congr 1
    by_cases hg : g = f
    · subst hg
      cases b <;> simp
    · simp [hg, Ne.symm hg]

/-- What a history of flag writes has to leave behind. -/
structure FlagsHold (s : Registers) (calls : List (Flag × Bool)) (s' : Registers) : Prop where
  last : ∀ f, registersFlagsGetFlag s' f =
    ((lastWrite f calls).map flagValue).getD (registersFlagsGetFlag s f)
  registers : s'.registers = s.registers
  stackPointer : s'.stackPointer = s.stackPointer
  programCounter : s'.programCounter = s.programCounter
  lowNibble : s'.flags &&& 0x0F = s.flags &&& 0x0F

/-- Apart from the flags themselves, a history of flag writes keeps everything. -/
theorem setFlags_frame (s : Registers) (calls : List (Flag × Bool)) :
    (setFlags s calls).registers = s.registers ∧
      (setFlags s calls).stackPointer = s.stackPointer ∧
      (setFlags s calls).programCounter = s.programCounter ∧
      (setFlags s calls).flags &&& 0x0F = s.flags &&& 0x0F := by
  induction calls generalizing s with
  | nil => exact ⟨rfl, rfl, rfl, rfl⟩
  | cons call calls ih =>
    obtain ⟨hr, hs, hp, hl⟩ := ih (registersFlagsSetFlag s call.1 (flagValue call.2))
    exact ⟨hr, hs, hp, hl.trans (setFlag_lowNibble s call.1 call.2)⟩

/-- Oring a history into a flag gives the last write except where that write clears it. -/
theorem or_eq_lastWrite_iff (calls : List (Flag × Bool)) (f : Flag) (b : Bool) :
    ((b || decide ((f, true) ∈ calls)) = (lastWrite f calls).getD b) ↔
      (lastWrite f calls = some false → b = false ∧ (f, true) ∉ calls) := by
  cases h : lastWrite f calls with
  | none =>
    have hn := History.lastWrite_eq_none_iff.mp h true
    simp [hn]
  | some v =>
    cases v with
    | true =>
      have hm := History.mem_of_lastWrite h
      simp [hm]
    | false => simp

/-- The flags are independent cells over a history just when it clears no flag that is set. -/
theorem flags_hold_iff (s : Registers) (calls : List (Flag × Bool)) :
    FlagsHold s calls (setFlags s calls) ↔
      ∀ f, lastWrite f calls = some false →
        registersFlagsGetFlag s f = 0 ∧ (f, true) ∉ calls := by
  have hlast (f : Flag) : registersFlagsGetFlag (setFlags s calls) f =
      ((lastWrite f calls).map flagValue).getD (registersFlagsGetFlag s f) ↔
        (lastWrite f calls = some false →
          registersFlagsGetFlag s f = 0 ∧ (f, true) ∉ calls) := by
    have hz : registersFlagsGetFlag s f = 0 ↔ s.flagBit f = false := by
      rw [getFlag_eq_flagBit]
      exact flagValue_inj (b := false)
    rw [getFlag_eq_flagBit, hz, getFlag_eq_flagBit, Option.getD_map, flagValue_inj,
      flagBit_setFlags, or_eq_lastWrite_iff]
  constructor
  · intro h f
    exact (hlast f).mp (h.last f)
  · intro h
    obtain ⟨hr, hs, hp, hl⟩ := setFlags_frame s calls
    exact ⟨fun f => (hlast f).mpr (h f), hr, hs, hp, hl⟩

/-- Z set to 1 and then to 0 is 1. -/
theorem flag_not_cleared : ¬ FlagsHold ⟨fun _ => 0, 0, 0, 0⟩ [(.Z, true), (.Z, false)]
    (setFlags ⟨fun _ => 0, 0, 0, 0⟩ [(.Z, true), (.Z, false)]) := by
  intro h
  exact absurd (h.last .Z) (by decide)

end Beemu
