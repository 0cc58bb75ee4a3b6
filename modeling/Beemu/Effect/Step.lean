import Beemu.Effect.Accumulator
import Beemu.Effect.Bitwise
import Beemu.Effect.SpOffset
import Beemu.Effect.Stack

/-!
# The effect of every word

One step of any word, in terms of the state before it: how far PC moves, and what is left of
everything else.
-/

namespace Beemu

open Sm83 (hi lo)

/-- How many bytes of an instruction its commands fetch. -/
def fetchedBytes : Sm83.Opcode → Nat
  | .load l => l.length
  | .cb (.bits _ _ _) => 2
  | .arith _ | .cb (.rot _ _) | .rotA _ | .jump _ | .system _ | .illegal _ => 1

/-- What the commands of an instruction leave, PC apart. -/
def bodyEffect (n : U8) (nn : U16) (s : Sm83.State) : Sm83.Opcode → Sm83.State
  | .load .hlSpOffset => (s.setPair .HL (s.sp + n.setWidth 16)).setSpOffsetFlags n
  | .load l => l.exec n nn s
  | .arith (.addHL q) =>
    let sum := s.pair .HL + s.pair q
    (s.setPair .HL sum).setZnhc (hi sum = 0) false (highHalfCarry (s.pair .HL) (s.pair q))
      (BitVec.carry 16 (s.pair .HL) (s.pair q) false)
  | .arith .addSP => s.setZnhc (hi s.sp = 0) false false false
  | .arith .daa | .arith .cpl | .arith .scf | .arith .ccf => unknownEffect s
  | .arith a => a.exec n s
  | .cb (.bits .bit k o) => s.setZnh ((s.operand8 o).getLsbD k.toNat) false true
  | .cb (.bits op k o) => op.exec k o s
  | .cb (.rot _ _) | .rotA _ | .jump _ | .system _ | .illegal _ => s

section Body

variable (m : Machine) (s : Sm83.State) (pc : U16) (n : U8)

theorem applyQueue_load_body (hm : m.abs = s.setPc pc) (nn : U16) (l : Sm83.Load) :
    (applyQueue m (loadCommands s n nn l)).abs = (bodyEffect n nn s (.load l)).setPc pc := by
  by_cases hl : l = .hlSpOffset
  · subst hl
    exact applyQueue_hlSpOffset m s pc hm n nn
  · have hb : bodyEffect n nn s (.load l) = l.exec n nn s := by
      cases l <;> first | rfl | exact absurd rfl hl
    rw [hb]
    exact applyQueue_loadCommands l hl m s pc hm n nn

theorem applyQueue_unknown (hm : m.abs = s.setPc pc) :
    (applyQueue m (.writeReg8 (register8Of .A) 0xFF :: flagCommands false false false none)).abs =
      (unknownEffect s).setPc pc := by
  rw [applyQueue_cons, applyQueue_flagCommands_none, apply_writeReg8, hm,
    Sm83.State.setReg_setPc, Sm83.State.setZnh_setPc, Sm83.State.setZnh_eq]
  rfl

theorem applyQueue_arith_body (hm : m.abs = s.setPc pc) (nn : U16) (a : Sm83.Arith) :
    (applyQueue m (arithmaticCommands s n a)).abs = (bodyEffect n nn s (.arith a)).setPc pc := by
  cases a with
  | alu op o => exact applyQueue_arithmaticCommands (.alu op o) rfl m s pc hm n
  | aluImm op => exact applyQueue_arithmaticCommands (.aluImm op) rfl m s pc hm n
  | inc8 o => exact applyQueue_arithmaticCommands (.inc8 o) rfl m s pc hm n
  | dec8 o => exact applyQueue_arithmaticCommands (.dec8 o) rfl m s pc hm n
  | incPair q => exact applyQueue_arithmaticCommands (.incPair q) rfl m s pc hm n
  | decPair q => exact applyQueue_arithmaticCommands (.decPair q) rfl m s pc hm n
  | addHL q => exact applyQueue_wordAdd_HL m s pc _ _ hm
  | addSP =>
    have h := applyQueue_wordAdd_none m s pc s.sp 0 hm
    have ha : s.sp + 0 = s.sp := BitVec.add_zero _
    have hh : highHalfCarry s.sp 0 = false := Sm83.carry_zero_right 4 _
    have hc : BitVec.carry 16 s.sp 0 false = false := Sm83.carry_zero_right 16 _
    rw [ha, hh, hc] at h
    exact h
  | daa | cpl | scf | ccf => exact applyQueue_unknown m s pc hm

theorem applyQueue_bitwise_body (hm : m.abs = s.setPc pc) (nn : U16) (op : Sm83.BitOp)
    (k : BitVec 3) (o : Sm83.Operand8) :
    (applyQueue m (bitwiseCommands s op k o)).abs =
      (bodyEffect n nn s (.cb (.bits op k o))).setPc pc := by
  have hh : (applyQueue m (haltIf (o = .indHL))).abs = s.setPc pc :=
    (applyQueue_haltIf m _).trans hm
  cases op with
  | bit =>
    have hb : bitwiseCommands s .bit k o = haltIf (o = .indHL) ++
        flagCommands ((s.operand8 o).getLsbD k.toNat) false true none := rfl
    rw [hb, applyQueue_append, applyQueue_flagCommands_none, hh]
    rfl
  | res | set =>
    rw [bitwiseCommands, applyQueue_append, applyQueue_cons, applyQueue_haltIf,
      apply_writeOperand _ s pc hh]
    rfl

/-- The commands after the first cycle fetch the rest and leave the effect. -/
theorem applyQueue_bodyCommands (hm : m.abs = s.setPc (s.pc + 1)) (n' : U8) (o : Sm83.Opcode) :
    (applyQueue m (bodyCommands s n n' o)).abs =
      (bodyEffect n (Sm83.word n' n) s o).setPc (s.pc + BitVec.ofNat 16 (fetchedBytes o)) := by
  cases o with
  | load l =>
    rw [bodyCommands, applyQueue_append]
    refine applyQueue_load_body _ s _ n ?_ _ l
    have hl : l.length = 1 ∨ l.length = 2 ∨ l.length = 3 := Sm83.length_cases (.load l)
    rcases hl with h | h | h <;> simp only [fetchedBytes, h, operandBytes]
    · exact hm
    · refine (applyQueue_fetchCommands m (s.pc + 1) n []).trans ?_
      rw [hm, BitVec.add_assoc]
      rfl
    · refine (applyQueue_fetchCommands m (s.pc + 1) n [n']).trans ?_
      rw [hm, BitVec.add_assoc]
      rfl
  | arith a => exact applyQueue_arith_body m s _ n hm _ a
  | cb c =>
    cases c with
    | rot op o => exact hm
    | bits op k o =>
      rw [bodyCommands, applyQueue_append]
      refine applyQueue_bitwise_body _ s _ n ?_ _ op k o
      refine (applyQueue_fetchCommands m (s.pc + 1) n []).trans ?_
      rw [hm, BitVec.add_assoc]
      rfl
  | rotA r | jump j | system r => exact hm
  | illegal b =>
    rw [bodyCommands, applyQueue_cons, applyQueue_nil, apply_writeReg8, hm,
      Sm83.State.setReg_setPc, Sm83.State.setReg_self]
    rfl

end Body

/-- The operand bytes of a word as one word. -/
def CodeWord.immediate (w : CodeWord) : U16 := Sm83.word w.secondOperand w.firstOperand

/-- What a step leaves of the state before it. -/
def CodeWord.effect (w : CodeWord) (s : Sm83.State) : Sm83.State :=
  (bodyEffect w.firstOperand w.immediate s w.opcode).setPc
    (s.pc + BitVec.ofNat 16 (fetchedBytes w.opcode))

/-- Only a POP at the last address is no step. -/
theorem step_effect (m : Machine) (w : CodeWord) (h : ¬ PopsPastEnd m.abs w.opcode) :
    ∃ e, step m w = .ok e ∧ e.machine.abs = w.effect m.abs := by
  refine ⟨_, step_eq m w _ (parserParse_eq w m.processor h), ?_⟩
  change (applyQueue m _).abs = _
  rw [applyQueue_append]
  exact applyQueue_bodyCommands _ m.abs _ (applyQueue_fetchCommands m _ w.opcodeByte []) _ _

theorem not_step_of_popsPastEnd (m : Machine) (w : CodeWord) (h : PopsPastEnd m.abs w.opcode) :
    step m w = .error .assertFailed := by
  rw [step, tokenizerTokenize_eq, ok_bind, parserParse_popsPastEnd w m.processor h]
  rfl

theorem step_ok_iff (m : Machine) (w : CodeWord) :
    (∃ e, step m w = .ok e) ↔ ¬ PopsPastEnd m.abs w.opcode := by
  constructor
  · rintro ⟨e, he⟩ h
    rw [not_step_of_popsPastEnd m w h] at he
    cases he
  · intro h
    obtain ⟨e, he, -⟩ := step_effect m w h
    exact ⟨e, he⟩

theorem effect_of_step {m : Machine} {w : CodeWord} {e : Executed} (he : step m w = .ok e) :
    e.machine.abs = w.effect m.abs := by
  obtain ⟨d, hd, hs⟩ := step_effect m w ((step_ok_iff m w).mp ⟨e, he⟩)
  obtain rfl := Except.ok.inj (hd.symm.trans he)
  exact hs

def isPop : Sm83.Opcode → Bool
  | .load (.pop _) => true
  | _ => false

theorem not_popsPastEnd_of_isPop {s : Sm83.State} {o : Sm83.Opcode} (h : isPop o = false) :
    ¬ PopsPastEnd s o := by
  rintro ⟨-, q, rfl⟩
  cases h

/-- A run without a POP does not stop. -/
theorem run_ok (m : Machine) (ws : List CodeWord) (h : ∀ w ∈ ws, isPop w.opcode = false) :
    ∃ es, run m ws = .ok es := by
  induction ws generalizing m with
  | nil => exact ⟨[], rfl⟩
  | cons w ws ih =>
    rw [List.forall_mem_cons] at h
    obtain ⟨e, he, -⟩ := step_effect m w (not_popsPastEnd_of_isPop h.1)
    obtain ⟨es, hes⟩ := ih e.machine h.2
    exact ⟨e :: es, run_cons_eq m w ws e es he hes⟩

end Beemu
