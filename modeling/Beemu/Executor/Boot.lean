import Beemu.Effect.Boot
import Beemu.Executor.Refinement

/-!
# Programs that the executor runs to their end

The executor fails at a return only, and only where the second byte of the address is past the end
of memory. A new processor has an even SP, which calls and returns keep even, so that only a load
of SP can bring it there.
-/

namespace Beemu

open Sm83 (Load State word)
open Tracing (Trace Meets)

def EvenSp (p : Processor) : Prop := p.abs.sp.toNat % 2 = 0

/-- A word does not load an odd value into SP. -/
def LoadsSpEven (p : Processor) (w : CodeWord) : Prop :=
  match w.opcode with
  | .load (.pairImm .SP) => w.immediate.toNat % 2 = 0
  | .load .spHL => (p.abs.pair .HL).toNat % 2 = 0
  | _ => True

theorem executedLoad_sp_even_iff (p : Processor) (w : CodeWord) (l : Load)
    (hw : w.opcode = .load l) (hs : EvenSp p) :
    (executedLoad l w.firstOperand w.immediate p.abs).sp.toNat % 2 = 0 ↔ LoadsSpEven p w := by
  rw [LoadsSpEven, hw]
  cases l with
  | pairImm q =>
    cases q with
    | SP => exact Iff.rfl
    | BC | DE | HL => exact iff_of_true hs trivial
  | spHL => exact Iff.rfl
  | pop r => cases r <;> exact iff_of_true hs trivial
  | _ => exact iff_of_true hs trivial

section Jumps

variable {p : Processor} (w : CodeWord)

theorem even_of_abs {x : Checked Processor} {s : State} (h : ∃ q, x = .ok q ∧ q.abs = s)
    (hs : s.sp.toNat % 2 = 0) : ∃ q, x = .ok q ∧ EvenSp q := by
  obtain ⟨q, hq, rfl⟩ := h
  exact ⟨q, hq, hs⟩

/-- A jump that is taken moves SP by two or not at all. -/
theorem takeJump_even (j : Sm83.Jump) (a : U32) (h : EvenSp p) :
    ∃ q, takeJump p (w.jump j) a = .ok q ∧ EvenSp q := by
  rw [EvenSp] at h
  have hne (x : U16) (hx : x.toNat % 2 = 1) : p.abs.sp ≠ x := by
    rintro rfl
    omega
  have hbelow : (p.abs.sp - 2).toNat % 2 = 0 := by bv_omega
  have habove : (p.abs.sp + 2).toNat % 2 = 0 := by bv_omega
  cases j with
  | jr => exact even_of_abs (takeJump_relative p (w.jump .jr) a rfl rfl) h
  | jrIf c => exact even_of_abs (takeJump_relative p (w.jump (.jrIf c)) a rfl rfl) h
  | jp => exact even_of_abs (takeJump_jump p (w.jump .jp) a (.inl rfl) rfl) h
  | jpIf c => exact even_of_abs (takeJump_jump p (w.jump (.jpIf c)) a (.inl rfl) rfl) h
  | jpHL => exact even_of_abs (takeJump_jump p (w.jump .jpHL) a (.inl rfl) rfl) h
  | rst k => exact even_of_abs (takeJump_jump p (w.jump (.rst k)) a (.inr rfl) rfl) h
  | call => exact even_of_abs (takeJump_call p (w.jump .call) a rfl rfl (hne _ rfl)) hbelow
  | callIf c =>
    exact even_of_abs (takeJump_call p (w.jump (.callIf c)) a rfl rfl (hne _ rfl)) hbelow
  | ret => exact even_of_abs (takeJump_ret p (w.jump .ret) a rfl (hne _ rfl)) habove
  | retIf c => exact even_of_abs (takeJump_ret p (w.jump (.retIf c)) a rfl (hne _ rfl)) habove
  | reti => exact even_of_abs (takeJump_ret p (w.jump .reti) a rfl (hne _ rfl)) habove

theorem executeWord_jump_even (j : Sm83.Jump) (hw : w.opcode = .jump j) (h : EvenSp p) :
    ∃ q, executeWord p w = .ok q ∧ EvenSp q := by
  obtain ⟨a, ha⟩ := resolveParam_jumpParam w.firstOperand
    (word w.secondOperand w.firstOperand) j p
  rw [executeWord_jump p w j a hw ha]
  split
  · exact takeJump_even w j a h
  · exact ⟨p, rfl, h⟩

end Jumps

/-- An illegal byte has a token of zeros, which is a load of A from A. -/
theorem executeWord_illegal {p : Processor} {w : CodeWord} {b : { b // b ∈ Sm83.illegalBytes }}
    (hw : w.opcode = .illegal b) :
    ∃ q, executeWord p w = .ok q ∧ q.abs = p.abs := by
  have ht : w.token.type = .load ∧ w.token.loadParams = .ok .zeroed := by
    rw [CodeWord.token, hw]
    exact ⟨rfl, rfl⟩
  have habs := write_register8_abs p .A ((p.abs.reg .A).setWidth 16)
  rw [narrow_widen, Sm83.State.setReg_self] at habs
  refine ⟨_, executeWord_eq p _ w w.token.durationInClockCycles ?_, habs⟩
  have hv : resolveParam p LoadParams.zeroed.source =
      .ok (((p.abs.reg .A).setWidth 16).setWidth 32) := resolveParam_registerParam p .A
  have hq : writeToParam p LoadParams.zeroed.dest
      ((((p.abs.reg .A).setWidth 16).setWidth 32).setWidth 16) true =
        .ok (p.write (.eightBit .A) ((p.abs.reg .A).setWidth 16)) := by
    rw [setWidth_int]
    exact writeToParam_registerParam p .A _ true
  simp only [executeInstruction, ht.1, executeLoad, ht.2, ok_bind, hv, decide_true, hq]
  rfl

/-- A word that is no load keeps an even SP even, and the executor goes on. -/
theorem executor_even {p : Processor} {w : CodeWord} (hl : ∀ l, w.opcode ≠ .load l)
    (h : EvenSp p) : ∃ q, ExecutorStep p w q ∧ EvenSp q := by
  have hidle (hl : w.token.type ≠ .load) (hj : w.token.type ≠ .jump) :
      ∃ q, ExecutorStep p w q ∧ EvenSp q := ⟨p, executeWord_idle hl hj, h⟩
  have htype : w.token.type = typeOf w.opcode := rfl
  cases ho : w.opcode with
  | load l => exact absurd ho (hl l)
  | jump j => exact executeWord_jump_even w j ho h
  | illegal b => exact even_of_abs (executeWord_illegal ho) h
  | arith a | rotA r | system y =>
    rw [ho] at htype
    exact hidle (by rw [htype]; nofun) (by rw [htype]; nofun)
  | cb c =>
    rw [ho] at htype
    cases c <;> exact hidle (by rw [htype]; nofun) (by rw [htype]; nofun)

/-- From an even SP the executor goes on to an even SP unless it loads an odd one. -/
theorem executor_even_iff (p : Processor) (w : CodeWord) (h : EvenSp p) :
    (∃ q, ExecutorStep p w q ∧ EvenSp q) ↔ LoadsSpEven p w := by
  by_cases hl : ∃ l, w.opcode = .load l
  · obtain ⟨l, hl⟩ := hl
    obtain ⟨q, hq, he⟩ := executeWord_load p w l hl
    change q.abs = executedLoad l w.firstOperand w.immediate p.abs at he
    rw [← executedLoad_sp_even_iff p w l hl h, ← he]
    exact exists_ok_iff hq EvenSp
  · have hn : ∀ l, w.opcode ≠ .load l := fun l hw => hl ⟨l, hw⟩
    refine iff_of_true (executor_even hn h) ?_
    rw [LoadsSpEven]
    cases ho : w.opcode with
    | load l => exact absurd ho (hn l)
    | arith a | cb c | rotA r | jump j | system y | illegal b => trivial

theorem executorStep_unique (p : Processor) (w : CodeWord) (q q' : Processor)
    (h : ExecutorStep p w q) (h' : ExecutorStep p w q') : q = q' :=
  Except.ok.inj (h.symm.trans h')

/-- On a new processor the executor runs a program to its end, with an even SP all the way, exactly
when no load that it comes to puts an odd value in SP. All other words may come in any order, legal
or not, however the calls and returns match. -/
theorem executor_boot_run (skip : Bool) (p : Processor) (ws : List CodeWord)
    (hp : processorNew skip = .ok p) :
    (∃ qs, Trace ExecutorStep p ws qs ∧ ∀ q ∈ qs, EvenSp q) ↔
      Meets LoadsSpEven ExecutorStep p ws := by
  obtain ⟨p', hp', hsp, -⟩ := processorNew_abs skip
  obtain rfl := Except.ok.inj (hp'.symm.trans hp)
  refine Tracing.invariant_trace_iff executorStep_unique executor_even_iff ?_ ws
  rw [EvenSp, hsp]
  cases skip <;> rfl

/-- `LD SP, HL` and RET. -/
theorem executor_boot_run_ret :
    ∃ p, processorNew true = .ok p ∧
      ((∃ qs, Trace ExecutorStep p [0xF90000, 0xC90000] qs ∧ ∀ q ∈ qs, EvenSp q) ↔
        Meets LoadsSpEven ExecutorStep p [0xF90000, 0xC90000]) := by
  obtain ⟨p, hp, -⟩ := processorNew_abs true
  exact ⟨p, hp, executor_boot_run true p [0xF90000, 0xC90000] hp⟩

end Beemu
