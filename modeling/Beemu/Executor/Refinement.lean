import Beemu.Effect.Agreement
import Beemu.Executor.Load
import Beemu.Executor.Jump

/-!
# What the executor shares with the instruction set

For the executor SP names the free word below the stack. With SP two higher a call, a return and
a plain jump are what the instruction set makes of them when they are taken; nothing else is,
since PC is left at the instruction, or moved to another place. A state has no interrupt switch, so
that a RETI is a RET here.
-/

namespace Beemu

open Sm83 (State hi lo word)
open Tracing (Trace Throughout)

/-- A state of the executor with SP at the top of its stack. -/
def raised (s : State) : State := s.setSp (s.sp + 2)

/-- Where a jump that is taken goes right. The executor's SP is two lower than that of `s`: with SP
at 1 a call would write at the last address, writes nothing, and is right when both bytes of its
return address are there already. -/
def landsRight (s : State) : Sm83.Jump → Prop
  | .jp | .jpIf _ | .jpHL => True
  | .call | .callIf _ =>
    s.sp = 1 → s.mem 0xFFFF = lo (s.pc + 3) ∧ s.mem 0 = hi (s.pc + 3)
  | .ret | .retIf _ | .reti => s.sp ≠ 0xFFFF
  | .jr | .jrIf _ | .rst _ => False

def Steers (s : State) (w : CodeWord) : Prop :=
  match w.opcode with
  | .jump j => j.taken s = true ∧ landsRight s j
  | _ => False

def ExecutorStep (p : Processor) (w : CodeWord) (q : Processor) : Prop := executeWord p w = .ok q

/-! ## Steps that leave PC alone -/

theorem next_ne (pc : U16) (w : CodeWord) : pc + BitVec.ofNat 16 w.opcode.length ≠ pc := by
  rcases w.length_cases with hl | hl | hl <;> rw [CodeWord.length] at hl <;> rw [hl] <;> bv_omega

theorem executedLoad_pc (l : Sm83.Load) (n : U8) (nn : U16) (s : State) :
    (executedLoad l n nn s).pc = s.pc := by
  cases l with
  | pairImm q => cases q <;> rfl
  | pop r => cases r <;> rfl
  | _ => rfl

/-- The executor does nothing with a token that is neither a load nor a jump. -/
theorem executeWord_idle {p : Processor} {w : CodeWord} (hl : w.token.type ≠ .load)
    (hj : w.token.type ≠ .jump) : executeWord p w = .ok p := by
  rw [executeWord, tokenizerTokenize_eq, ok_bind, executeInstruction]
  cases htype : w.token.type with
  | load => exact absurd htype hl
  | jump => exact absurd htype hj
  | arithmatic | rotShift | bitwise | cpuControl => rfl

/-- Only a jump moves PC. -/
theorem pc_of_not_jump {p q : Processor} {w : CodeWord} (h : ExecutorStep p w q)
    (hw : ∀ j, w.opcode ≠ .jump j) (hi : ∀ b, w.opcode ≠ .illegal b) : q.abs.pc = p.abs.pc := by
  by_cases hl : ∃ l, w.opcode = .load l
  · obtain ⟨l, hl⟩ := hl
    obtain ⟨q', hq, he⟩ := executeWord_load p w l hl
    obtain rfl := Except.ok.inj (hq.symm.trans h)
    rw [he, executedLoad_pc]
  · have ht : w.token.type ≠ .load ∧ w.token.type ≠ .jump := by
      rw [CodeWord.token]
      cases ho : w.opcode with
      | load l => exact absurd ⟨l, ho⟩ hl
      | jump j => exact absurd ho (hw j)
      | illegal b => exact absurd ho (hi b)
      | arith a | rotA r | system y => constructor <;> intro h <;> cases h
      | cb c => cases c <;> constructor <;> intro h <;> cases h
    obtain rfl := Except.ok.inj ((executeWord_idle ht.1 ht.2).symm.trans h)
    rfl

theorem sm83Step_pc {s t : State} {w : CodeWord} (h : Sm83Step s w t)
    (hw : ∀ j, w.opcode ≠ .jump j) : t.pc ≠ s.pc := by
  have hpc : t.pc = s.pc + BitVec.ofNat 16 w.opcode.length := by
    rw [Sm83Step] at h
    cases ho : w.opcode with
    | jump j => exact absurd ho (hw j)
    | illegal b => rw [ho] at h; cases h
    | load l | arith a | rotA r | cb c | system y =>
      rw [ho] at h
      rw [← Option.some.inj h]
      rfl
  rw [hpc]
  exact next_ne s.pc w

/-! ## Jumps -/

section Jumps

variable (p : Processor) (w : CodeWord) (j : Sm83.Jump)

/-- The parameters of a jump are those of its opcode and operands. -/
def CodeWord.jump (w : CodeWord) (j : Sm83.Jump) : JumpParams :=
  jumpParamsOf w.firstOperand (word w.secondOperand w.firstOperand) j

theorem executeWord_taken (a : U32) (hw : w.opcode = .jump j) (ht : j.taken p.abs = true)
    (ha : resolveParam p (w.jump j).param = .ok a) :
    executeWord p w = takeJump p (w.jump j) a := by
  rw [executeWord_jump p w j a hw ha, if_pos ht]
  rfl

/-- A call with SP at the last address moves SP and PC, and writes nothing. -/
theorem takeJump_call_last (params : JumpParams) (a : U32) (ht : params.type = .call)
    (hr : params.isRelative = false) (h : p.abs.sp = 0xFFFF) :
    ∃ q, takeJump p params a = .ok q ∧
      q.abs = (p.abs.setSp (p.abs.sp - 2)).setPc (a.setWidth 16) := by
  have hm : memoryWrite16 p.memory p.abs.sp (p.abs.pc + 3) = .ok p.memory := by
    rw [h]
    exact memoryWrite16_last _ _
  have hp : pushStack p (p.abs.pc + 3) =
      .ok (p.write (.sixteenBit .SP) (p.abs.sp - 2)) := by
    rw [pushStack, read_SP, ok_bind, hm, ok_bind, write_eq_store _ _ _ (by decide), ok_bind]
    rfl
  rw [takeJump, ht, hr]
  simp only [abs_programCounter, reduceCtorEq, if_false, if_true, ok_bind, hp]
  exact ⟨_, rfl, congrArg (State.setPc · _) (write_register16_abs p .SP (p.abs.sp - 2))⟩

/-- A return whose second byte is past the end of memory fails. -/
theorem takeJump_ret_last (params : JumpParams) (a : U32) (ht : params.type = .ret)
    (h : p.abs.sp = 0xFFFD) : ¬ ∃ q, takeJump p params a = .ok q := by
  have hlast : memoryRead16 p.memory (p.abs.sp + 2) = .error .assertFailed := by
    rw [h]
    exact memoryRead16_last p.memory
  have hp : popStack p = .error .assertFailed := by
    rw [popStack, read_SP, ok_bind, write_eq_store _ _ _ (by decide), ok_bind, hlast, error_bind]
  rw [takeJump, ht]
  simp only [if_true, hp, error_bind]
  rintro ⟨q, hq⟩
  cases hq

/-- The executor and the instruction set take a word to the same state. -/
def StepsAgree (p : Processor) (w : CodeWord) : Prop :=
  ∃ q, ExecutorStep p w q ∧ Sm83Step (raised p.abs) w (raised q.abs)

theorem stepsAgree_taken {q : Processor} {a : U32} (hw : w.opcode = .jump j)
    (ht : j.taken p.abs = true) (ha : resolveParam p (w.jump j).param = .ok a)
    (hq : takeJump p (w.jump j) a = .ok q) :
    StepsAgree p w ↔ j.land w.firstOperand w.immediate (raised p.abs) = raised q.abs := by
  change (∃ q, executeWord p w = .ok q ∧ Sm83Step (raised p.abs) w (raised q.abs)) ↔ _
  rw [executeWord_taken p w j a hw ht ha, exists_ok_iff hq, Sm83Step, hw]
  have ht' : j.taken (raised p.abs) = true := ht
  simp only [Sm83.Opcode.exec, Sm83.Jump.exec, if_pos ht', Option.some.injEq]

theorem not_stepsAgree_of_not_taken (hw : w.opcode = .jump j) (ht : j.taken p.abs = false) :
    ¬ StepsAgree p w := by
  rintro ⟨q, hq, hs⟩
  obtain ⟨a, ha⟩ := resolveParam_jumpParam w.firstOperand
    (word w.secondOperand w.firstOperand) j p
  rw [ExecutorStep, executeWord_jump p w j a hw ha, ht] at hq
  obtain rfl := Except.ok.inj hq
  have ht' : ¬ j.taken (raised p.abs) = true := by
    rw [Bool.not_eq_true]
    exact ht
  rw [Sm83Step, hw] at hs
  simp only [Sm83.Opcode.exec, Sm83.Jump.exec, if_neg ht', Option.some.injEq] at hs
  have hpc := next_ne p.abs.pc w
  rw [hw] at hpc
  exact hpc (congrArg State.pc hs)

theorem stepsAgree_plain {a : U32} {pc : U16} (hw : w.opcode = .jump j)
    (ht : j.taken p.abs = true) (ha : resolveParam p (w.jump j).param = .ok a)
    (hpc : a.setWidth 16 = pc) (htype : (w.jump j).type = .jump ∨ (w.jump j).type = .rst)
    (hr : (w.jump j).isRelative = false) :
    StepsAgree p w ↔
      j.land w.firstOperand w.immediate (raised p.abs) = (raised p.abs).setPc pc := by
  obtain ⟨q, hq, he⟩ := takeJump_jump p (w.jump j) a htype hr
  rw [stepsAgree_taken p w j hw ht ha hq, he, hpc]
  rfl

/-- The offset is counted from the instruction and not from its end. -/
theorem not_stepsAgree_relative (hw : w.opcode = .jump j) (ht : j.taken p.abs = true)
    (ha : resolveParam p (w.jump j).param = .ok ((w.firstOperand.signExtend 16).setWidth 32))
    (hland : ∀ s, j.land w.firstOperand w.immediate s =
      s.setPc (Sm83.Jump.relativeTarget s.pc w.firstOperand))
    (htype : (w.jump j).type = .jump) (hr : (w.jump j).isRelative = true) :
    ¬ StepsAgree p w := by
  obtain ⟨q, hq, he⟩ := takeJump_relative p (w.jump j) _ htype hr
  rw [stepsAgree_taken p w j hw ht ha hq, he, setWidth_int, hland]
  intro h
  have hpc : Sm83.Jump.relativeTarget p.abs.pc w.firstOperand =
      p.abs.pc + w.firstOperand.signExtend 16 := congrArg State.pc h
  rw [Sm83.Jump.relativeTarget] at hpc
  bv_omega

/-- A call writes its return address where the instruction set does, two below SP. -/
theorem raised_pushed (s : State) (v : U16) : raised (pushed s v) = (raised s).pushWord v := by
  have h₁ : s.sp + 2 - 1 = s.sp + 1 := by bv_omega
  have h₂ : s.sp + 2 - 2 = s.sp := by bv_omega
  have h₃ : s.sp - 2 + 2 = s.sp := by bv_omega
  have hne : s.sp ≠ s.sp + 1 := by bv_omega
  refine State.ext rfl rfl ?_ rfl ?_
  · exact h₃.trans h₂.symm
  · simp only [raised, pushed, State.pushWord, Sm83.State.setSp_mem, Sm83.State.setMem_mem,
      Sm83.State.setSp_sp, h₁, h₂]
    exact Function.update_comm hne (lo v) (hi v) s.mem

/-- A push writes nothing new where the word is already below SP. -/
theorem pushWord_eq_setSp_iff (s : State) (v pc : U16) :
    (s.pushWord v).setPc pc = (s.setSp (s.sp - 2)).setPc pc ↔
      s.mem (s.sp - 2) = lo v ∧ s.mem (s.sp - 1) = hi v := by
  have hne : s.sp - 1 ≠ s.sp - 2 := by bv_omega
  constructor
  · intro h
    have hmem : Function.update (Function.update s.mem (s.sp - 1) (hi v)) (s.sp - 2) (lo v) =
        s.mem := congrArg State.mem h
    have hl := congrFun hmem (s.sp - 2)
    have hh := congrFun hmem (s.sp - 1)
    rw [Function.update_self] at hl
    rw [Function.update_of_ne hne, Function.update_self] at hh
    exact ⟨hl.symm, hh.symm⟩
  · rintro ⟨hl, hh⟩
    refine State.ext rfl rfl rfl rfl ?_
    change Function.update (Function.update s.mem (s.sp - 1) (hi v)) (s.sp - 2) (lo v) = s.mem
    rw [← hl, ← hh, Function.update_eq_self, Function.update_eq_self]

theorem stepsAgree_call_iff {nn : U16} (hw : w.opcode = .jump j) (ht : j.taken p.abs = true)
    (ha : resolveParam p (w.jump j).param = .ok (nn.setWidth 32))
    (hland : ∀ s, j.land w.firstOperand w.immediate s = (s.pushWord (s.pc + 3)).setPc nn)
    (htype : (w.jump j).type = .call) (hr : (w.jump j).isRelative = false) :
    StepsAgree p w ↔ landsRight (raised p.abs) .call := by
  have hsp : (raised p.abs).sp = p.abs.sp + 2 := rfl
  rw [landsRight, hsp]
  by_cases h : p.abs.sp = 0xFFFF
  · obtain ⟨q, hq, he⟩ := takeJump_call_last p (w.jump j) _ htype hr h
    rw [stepsAgree_taken p w j hw ht ha hq, he, setWidth_int, hland]
    have hraised : raised ((p.abs.setSp (p.abs.sp - 2)).setPc nn) =
        ((raised p.abs).setSp ((raised p.abs).sp - 2)).setPc nn := by
      refine State.ext rfl rfl ?_ rfl rfl
      change p.abs.sp - 2 + 2 = p.abs.sp + 2 - 2
      bv_omega
    have hone : p.abs.sp + 2 = 1 := by
      rw [h]
      rfl
    rw [hraised, pushWord_eq_setSp_iff, hsp, hone]
    exact (true_imp_iff.symm.trans (imp_congr_left (iff_of_true trivial rfl)))
  · obtain ⟨q, hq, he⟩ := takeJump_call p (w.jump j) _ htype hr h
    rw [stepsAgree_taken p w j hw ht ha hq, he, setWidth_int, hland]
    refine iff_of_true ?_ fun h₁ => absurd h₁ (by bv_omega)
    exact congrArg (State.setPc · nn) (raised_pushed p.abs (p.abs.pc + 3)).symm

theorem stepsAgree_ret_iff {a : U32} (hw : w.opcode = .jump j) (ht : j.taken p.abs = true)
    (ha : resolveParam p (w.jump j).param = .ok a)
    (hland : ∀ s, j.land w.firstOperand w.immediate s = (s.setSp (s.sp + 2)).setPc s.topWord)
    (htype : (w.jump j).type = .ret) : StepsAgree p w ↔ landsRight (raised p.abs) .ret := by
  have hsp : (raised p.abs).sp = p.abs.sp + 2 := rfl
  rw [landsRight, hsp]
  by_cases h : p.abs.sp = 0xFFFD
  · refine iff_of_false ?_ fun hne => hne ?_
    · rintro ⟨q, hq, -⟩
      rw [ExecutorStep, executeWord_taken p w j a hw ht ha] at hq
      exact takeJump_ret_last p (w.jump j) a htype h ⟨q, hq⟩
    · rw [h]
      rfl
  · obtain ⟨q, hq, he⟩ := takeJump_ret p (w.jump j) a htype h
    rw [stepsAgree_taken p w j hw ht ha hq, he, hland]
    exact iff_of_true rfl fun h₁ => h (by bv_omega)

theorem stepsAgree_jump_iff (hw : w.opcode = .jump j) :
    StepsAgree p w ↔ j.taken p.abs = true ∧ landsRight (raised p.abs) j := by
  cases ht : j.taken p.abs with
  | false => exact iff_of_false (not_stepsAgree_of_not_taken p w j hw ht) nofun
  | true =>
    rw [and_iff_right rfl]
    cases j with
    | jp | jpIf c =>
      rw [stepsAgree_plain p w _ hw ht (resolveParam_wordParam p _) (setWidth_int _) (.inl rfl) rfl]
      exact iff_of_true rfl trivial
    | jpHL =>
      rw [stepsAgree_plain p w _ hw ht (resolveParam_pairParam p .HL _ (read_HL p))
        (setWidth_int _) (.inl rfl) rfl]
      exact iff_of_true rfl trivial
    | rst k =>
      rw [stepsAgree_plain p w _ hw ht (resolveParam_wordParam p _) (setWidth_int _) (.inr rfl) rfl]
      refine iff_of_false (fun h => ?_) id
      have hsp : p.abs.sp + 2 - 2 = p.abs.sp + 2 := congrArg State.sp h
      bv_omega
    | jr | jrIf c =>
      exact iff_of_false (not_stepsAgree_relative p w _ hw ht (resolveParam_offsetParam p _)
        (fun _ => rfl) rfl rfl) id
    | call | callIf c =>
      exact stepsAgree_call_iff p w _ hw ht (resolveParam_wordParam p _) (fun _ => rfl) rfl rfl
    | ret | retIf c | reti =>
      exact stepsAgree_ret_iff p w _ hw ht (resolveParam_pointerParam p .SP) (fun _ => rfl) rfl

end Jumps

theorem stepsAgree_iff (p : Processor) (w : CodeWord) :
    StepsAgree p w ↔ Steers (raised p.abs) w := by
  by_cases hj : ∃ j, w.opcode = .jump j
  · obtain ⟨j, hj⟩ := hj
    rw [stepsAgree_jump_iff p w j hj, Steers, hj]
    rfl
  · have hn : ∀ j, w.opcode ≠ .jump j := fun j h => hj ⟨j, h⟩
    refine iff_of_false ?_ fun hs => ?_
    · rintro ⟨q, hq, hs⟩
      refine sm83Step_pc hs hn (pc_of_not_jump hq hn fun b hb => ?_)
      rw [Sm83Step, hb] at hs
      cases hs
    · rw [Steers] at hs
      cases ho : w.opcode with
      | jump j => exact hn j ho
      | load l | arith a | rotA r | cb c | system y | illegal b =>
        rw [ho] at hs
        exact hs

/-- With SP two higher, a run of the executor is a run of the instruction set exactly when each
word of it is a jump that steers right where its turn comes. -/
theorem executor_refines_iff (p : Processor) (ws : List CodeWord) :
    (∃ qs, Trace ExecutorStep p ws qs ∧
      Trace Sm83Step (raised p.abs) ws (qs.map fun q => raised q.abs)) ↔
        Throughout Steers Sm83Step (raised p.abs) ws :=
  Tracing.trace_map_iff (fun q : Processor => raised q.abs) sm83Step_unique stepsAgree_iff p ws

/-! ## Instructions of one kind, PC apart -/

section Kind

variable {κ : Type} (kind : κ → Sm83.Opcode) (meant : κ → CodeWord → State → State)
  (good : κ → CodeWord → State → Prop)

/-- A word of a kind does what is meant by it. -/
def KindStep (s : State) (w : CodeWord) (t : State) : Prop :=
  ∃ k, w.opcode = kind k ∧ meant k w s = t

def KindGood (s : State) (w : CodeWord) : Prop := ∃ k, w.opcode = kind k ∧ good k w s

variable {kind meant good}

theorem kindStep_unique (hk : Function.Injective kind) (s : State) (w : CodeWord) (t u : State)
    (ht : KindStep kind meant s w t) (hu : KindStep kind meant s w u) : t = u := by
  obtain ⟨k, hw, rfl⟩ := ht
  obtain ⟨k', hw', rfl⟩ := hu
  obtain rfl := hk (hw.symm.trans hw')
  rfl

variable {run : Processor → CodeWord → Checked Processor} {made : κ → CodeWord → State → State}

/-- What is made of a kind of words is what is meant by them in the good states. -/
theorem kind_trace_iff (hk : Function.Injective kind)
    (hrun : ∀ p w k, w.opcode = kind k → ∃ q, run p w = .ok q ∧ q.abs = made k w p.abs)
    (hmade : ∀ k w s, made k w s = meant k w s ↔ good k w s) (p : Processor)
    (ws : List CodeWord) :
    (∃ qs, Trace (fun p w q => run p w = .ok q) p ws qs ∧
      Trace (KindStep kind meant) p.abs ws (qs.map Processor.abs)) ↔
        Throughout (KindGood kind good) (KindStep kind meant) p.abs ws := by
  refine Tracing.trace_map_iff Processor.abs (kindStep_unique hk) (fun p w => ?_) p ws
  constructor
  · rintro ⟨q, hq, k, hw, hs⟩
    obtain ⟨q', hq', he⟩ := hrun p w k hw
    obtain rfl := Except.ok.inj (hq'.symm.trans hq)
    exact ⟨k, hw, (hmade k w p.abs).mp (he.symm.trans hs.symm)⟩
  · rintro ⟨k, hw, hg⟩
    obtain ⟨q, hq, he⟩ := hrun p w k hw
    exact ⟨q, hq, k, hw, (he.trans ((hmade k w p.abs).mpr hg)).symm⟩

end Kind

section Loads

variable (s : State) (n : U8) (nn : U16)

theorem hlSpOffset_executed_iff :
    executedLoad .hlSpOffset n nn s = Sm83.Load.hlSpOffset.exec n nn s ↔
      AgreesOn .hlSpOffset n nn s := by
  have hx : executedLoad .hlSpOffset n nn s = s.setPair .HL s.sp := rfl
  have he (h : n.signExtend 16 = n.setWidth 16) : Sm83.Load.hlSpOffset.exec n nn s =
      (s.setPair .HL (s.sp + n.setWidth 16)).setSpOffsetFlags n := by
    rw [← h]
    rfl
  rw [hx, AgreesOn]
  constructor
  · intro h
    have hp := congrArg (State.pair · .HL) h
    change (s.setPair .HL s.sp).pair .HL = (s.setPair .HL (s.spOffset n)).pair .HL at hp
    rw [State.pair_setPair, State.pair_setPair, State.spOffset, left_eq_add,
      signExtend_eq_zero_iff] at hp
    subst hp
    rw [he rfl] at h
    exact (sameData_hlSpOffset_iff s s.pc 0).mp (h ▸ SameData.setPc _ _)
  · rintro ⟨rfl, hf⟩
    obtain ⟨hr, hflags, hsp, hmem⟩ := (sameData_hlSpOffset_iff s s.pc 0).mpr ⟨rfl, hf⟩
    rw [he rfl]
    exact State.ext hr hflags hsp rfl hmem

/-- A load is executed as the instruction set says where it is executed as it is parsed. -/
theorem executedLoad_eq_iff (l : Sm83.Load) :
    executedLoad l n nn s = l.exec n nn s ↔ AgreesOn l n nn s := by
  by_cases hl : l = .hlSpOffset
  · subst hl
    exact hlSpOffset_executed_iff s n nn
  · rw [← sameData_exec_iff s s.pc n nn l hl]
    constructor
    · intro h
      rw [h]
      exact SameData.setPc _ _
    · intro h
      have hpc : (executedLoad l n nn s).pc = (l.exec n nn s).pc :=
        (executedLoad_pc l n nn s).trans (load_exec_pc l).symm
      exact State.ext h.reg h.flags h.sp hpc h.mem

end Loads

/-- A load of the instruction set, PC apart. -/
def LoadStep : State → CodeWord → State → Prop :=
  KindStep .load fun l w s => l.exec w.firstOperand w.immediate s

def LoadRight : State → CodeWord → Prop :=
  KindGood .load fun l w s => AgreesOn l w.firstOperand w.immediate s

/-- A run of the executor is a run of loads, PC apart, exactly when each word of it is a load that
finds memory and registers such that the executor's own rules for its operands do no harm. -/
theorem executor_loads_iff (p : Processor) (ws : List CodeWord) :
    (∃ qs, Trace ExecutorStep p ws qs ∧ Trace LoadStep p.abs ws (qs.map Processor.abs)) ↔
      Throughout LoadRight LoadStep p.abs ws :=
  kind_trace_iff (fun _ _ => Sm83.Opcode.load.inj) (fun p w l => executeWord_load p w l)
    (fun l w s => executedLoad_eq_iff s w.firstOperand w.immediate l) p ws

end Beemu
