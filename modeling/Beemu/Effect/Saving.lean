import Beemu.Effect.Footprint
import Beemu.Effect.Stack

/-!
# Registers saved on the stack

A program pushes the pairs it is about to use and pops them again in the end. Whatever it runs in
between, the pairs are as they were, as long as SP comes back and no byte of the stack is written.
-/

namespace Beemu

open Sm83 (HoldsStack StackPair)
open History (lastWrite)

/-- Words that push, or pop, the pairs of a list. -/
def AreLoads (l : StackPair → Sm83.Load) : List CodeWord → List StackPair → Prop :=
  List.Forall₂ fun w r => w.opcode = .load (l r)

section Pairs

variable {s t : Sm83.State}

theorem stackPair_congr (hr : s.reg = t.reg) (hf : s.f = t.f) (r : StackPair) :
    s.stackPair r = t.stackPair r := by
  cases r <;> simp only [Sm83.State.stackPair, Sm83.State.pair, hr, hf]

/-- The pairs on the stack have no register in common. -/
theorem stackPair_setStackPair (q r : StackPair) (v : U16) :
    (s.setStackPair q v).stackPair r = if r = q then v else s.stackPair r := by
  cases q <;> cases r <;>
    simp [Sm83.State.setStackPair, Sm83.State.stackPair, Sm83.State.setPair, Sm83.State.pair,
      Sm83.State.setRegs]

end Pairs

section Stack

variable {s0 : Nat} (hs : s0 < 65536)
include hs

theorem run_pushes {ws : List CodeWord} {rs : List StackPair} (hw : AreLoads .push ws rs)
    {m : Machine} {items : List U16} (h : HoldsStack s0 m.abs items)
    (hroom : 2 * (items.length + rs.length) ≤ s0) :
    ∃ es, run m ws = .ok es ∧
      HoldsStack s0 (lastMachine m es).abs ((rs.map m.abs.stackPair).reverse ++ items) ∧
      ∀ r, (lastMachine m es).abs.stackPair r = m.abs.stackPair r := by
  induction hw generalizing m items with
  | nil => exact ⟨[], rfl, h, fun _ => rfl⟩
  | @cons w r ws rs hw _ ih =>
    rw [List.length_cons] at hroom
    obtain ⟨e, he, h₁, ⟨-, hr, hf⟩, -⟩ := step_push m items w r hw h (by omega) hs
    have hpairs := stackPair_congr hr hf
    obtain ⟨es, hes, h₂, hkeep⟩ := ih h₁ (by rw [List.length_cons]; omega)
    refine ⟨e :: es, run_cons_eq m w ws e es he hes, ?_, fun q => (hkeep q).trans (hpairs q)⟩
    rw [lastMachine, List.map_cons, List.reverse_cons, List.append_assoc]
    rwa [List.map_congr_left fun q _ => hpairs q] at h₂

/-- Pops give each pair what is at its place in the list, and keep the others. -/
theorem run_pops {ws : List CodeWord} {rs : List StackPair} (hw : AreLoads .pop ws rs)
    (value : StackPair → U16) {m : Machine} {items : List U16}
    (h : HoldsStack s0 m.abs (rs.map value ++ items)) :
    ∃ es, run m ws = .ok es ∧ HoldsStack s0 (lastMachine m es).abs items ∧
      ∀ r, (lastMachine m es).abs.stackPair r =
        if r ∈ rs then value r else m.abs.stackPair r := by
  induction hw generalizing m with
  | nil => exact ⟨[], rfl, h, fun _ => rfl⟩
  | @cons w q ws rs hw _ ih =>
    obtain ⟨e, he, h₁, ⟨v, hv, hr, hf⟩, -⟩ := step_pop m _ w q (value q) hw h hs
    obtain ⟨rfl, -⟩ := List.cons.inj hv
    obtain ⟨es, hes, h₂, hp⟩ := ih h₁
    refine ⟨e :: es, run_cons_eq m w ws e es he hes, h₂, fun r => ?_⟩
    rw [lastMachine, hp, stackPair_congr hr hf, stackPair_setStackPair]
    by_cases hm : r ∈ rs
    · rw [if_pos hm, if_pos (List.mem_cons_of_mem q hm)]
    · by_cases hq : r = q
      · subst hq
        rw [if_neg hm, if_pos rfl, if_pos List.mem_cons_self]
      · rw [if_neg hm, if_neg hq, if_neg (List.not_mem_cons_of_ne_of_not_mem hq hm)]

end Stack

/-- A run that writes none of the bytes of a stack, and comes back to it, keeps it. -/
theorem holdsStack_of_run {s0 : Nat} {m : Machine} {ws : List CodeWord} {es : List Executed}
    {items : List U16} (hrun : run m ws = .ok es) (hs : s0 < 65536)
    (h : HoldsStack s0 m.abs items) (hsp : (lastMachine m es).abs.sp = m.abs.sp)
    (hmem : ∀ a, InRoom s0 items.length a → lastWrite (memoryPlace a) (logOf es) = none) :
    HoldsStack s0 (lastMachine m es).abs items := by
  have hlen := h.sp
  refine ⟨by rw [hsp, hlen], ?_⟩
  rw [hsp]
  refine h.stored.congr fun b hb hb' => mem_of_same ?_
  have hin : InRoom s0 items.length (BitVec.ofNat 16 b) := by
    rw [InRoom, BitVec.toNat_ofNat, Nat.mod_eq_of_lt (by omega)]
    omega
  rw [run_log m ws es hrun, hmem _ hin]
  rfl

/-- Pairs that are pushed before a run and popped after it, in the opposite order, have their values
back, and so has SP, if there is room for them below the first SP and the run comes back to the SP
it started with and writes none of the bytes that were pushed. -/
theorem run_restores (m : Machine) (rs : List StackPair) (pushes body pops : List CodeWord)
    (es es' : List Executed) (hpush : AreLoads .push pushes rs)
    (hpop : AreLoads .pop pops rs.reverse) (hroom : 2 * rs.length ≤ m.abs.sp.toNat)
    (h : run m pushes = .ok es) (h' : run (lastMachine m es) body = .ok es')
    (hsp : (lastMachine (lastMachine m es) es').abs.sp = (lastMachine m es).abs.sp)
    (hmem : ∀ a, InRoom m.abs.sp.toNat rs.length a →
      lastWrite (memoryPlace a) (logOf es') = none) :
    ∃ es'', run (lastMachine (lastMachine m es) es') pops = .ok es'' ∧
      (lastMachine (lastMachine (lastMachine m es) es') es'').abs.sp = m.abs.sp ∧
      ∀ r ∈ rs, (lastMachine (lastMachine (lastMachine m es) es') es'').abs.stackPair r =
        m.abs.stackPair r := by
  have hs : m.abs.sp.toNat < 65536 := m.abs.sp.isLt
  obtain ⟨ds, hds, h₁, -⟩ := run_pushes hs hpush (HoldsStack.empty m.abs) (by simpa using hroom)
  obtain rfl := Except.ok.inj (hds.symm.trans h)
  have h₂ := holdsStack_of_run h' hs h₁ hsp (by simpa using hmem)
  rw [← List.map_reverse] at h₂
  obtain ⟨es'', hes'', h₃, hp⟩ := run_pops hs hpop m.abs.stackPair h₂
  refine ⟨es'', hes'', BitVec.eq_of_toNat_eq h₃.sp, fun r hr => ?_⟩
  rw [hp r, if_pos (List.mem_reverse.mpr hr)]

/-- `LD C, 0x42` between `PUSH BC` and `POP BC`. -/
theorem run_restores_BC :
    ∃ es es' es'', run machineWithStack [0xC50000] = .ok es ∧
      run (lastMachine machineWithStack es) [0x0E4200] = .ok es' ∧
      run (lastMachine (lastMachine machineWithStack es) es') [0xC10000] = .ok es'' ∧
      (lastMachine (lastMachine (lastMachine machineWithStack es) es') es'').abs.sp =
        machineWithStack.abs.sp ∧
      ∀ r ∈ [StackPair.BC],
        (lastMachine (lastMachine (lastMachine machineWithStack es) es') es'').abs.stackPair r =
          machineWithStack.abs.stackPair r := by
  obtain ⟨e, he⟩ := (step_ok_iff machineWithStack 0xC50000).mpr (not_popsPastEnd_of_isPop rfl)
  obtain ⟨e', he'⟩ := (step_ok_iff e.machine 0x0E4200).mpr (not_popsPastEnd_of_isPop rfl)
  have h : run machineWithStack [0xC50000] = .ok [e] := run_cons_eq _ _ _ e [] he rfl
  have h' : run e.machine [0x0E4200] = .ok [e'] := run_cons_eq _ _ _ e' [] he' rfl
  have hsp : e'.machine.abs.sp = e.machine.abs.sp := by
    rw [effect_of_step he']
    rfl
  have hmem (a : U16) : lastWrite (memoryPlace a) (logOf [e']) = none := by
    have hlog : logOf [e'] = writesOf e'.queue := List.append_nil _
    rw [hlog, step_queue he']
    rfl
  obtain ⟨es'', hes, hr⟩ := run_restores machineWithStack [.BC] [0xC50000] [0x0E4200] [0xC10000]
    [e] [e'] (.cons rfl .nil) (.cons rfl .nil) (by decide) h h' hsp fun a _ => hmem a
  exact ⟨[e], [e'], es'', h, h', hes, hr⟩

end Beemu
