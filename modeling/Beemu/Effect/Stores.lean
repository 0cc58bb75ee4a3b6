import Beemu.Effect.Order
import Beemu.Sm83.Stores

/-!
# What a run stores

The bytes that the commands of a run put in memory, in their order, against those that the
instruction set stores. A call, a restart and a rotation in memory are never carried out, and what
they store is missing; everything else is there, and nothing more.
-/

namespace Beemu

open MachineCommand
open Sm83 (Store storeAll pushStores)
open Tracing (Trace Throughout)

/-- What a command puts in memory, and where. -/
def MachineCommand.store? : MachineCommand → Option Store
  | .write (.memoryAddress a) v => some (a, v.byte)
  | _ => none

/-- The stores of a queue, in order. -/
def storesOf (queue : CommandQueue) : List Store := queue.filterMap store?

@[simp] theorem storesOf_append (q q' : CommandQueue) :
    storesOf (q ++ q') = storesOf q ++ storesOf q' := List.filterMap_append

/-- Memory is moved by the stores of a queue alone. -/
theorem mem_applyQueue (m : Machine) (q : CommandQueue) :
    (applyQueue m q).abs.mem = storeAll m.abs.mem (storesOf q) := by
  have hc (m : Machine) (c : MachineCommand) :
      (applyCommand m c).abs.mem = storeAll m.abs.mem c.store?.toList := by
    cases c with
    | halt b => rfl
    | write t v =>
      cases t with
      | memoryAddress a => exact congrArg Sm83.State.mem (writeMemory_abs m.processor a v.byte)
      | internal i => cases i <;> rfl
      | _ => rfl
  induction q generalizing m with
  | nil => rfl
  | cons c q ih =>
    have hs : storesOf (c :: q) = c.store?.toList ++ storesOf q := by
      cases c with
      | halt b => rfl
      | write t v => cases t <;> rfl
    rw [applyQueue_cons, ih, hc, hs, Sm83.storeAll_append]

section Commands

variable (s : Sm83.State) (n : U8)

theorem storesOf_fetchCommands (pc : U16) (bytes : List U8) :
    storesOf (fetchCommands pc bytes) = [] := by
  induction bytes generalizing pc with
  | nil => rfl
  | cons b bs ih => exact ih (pc + 1)

theorem storesOf_loadCommands (nn : U16) (l : Sm83.Load) :
    storesOf (loadCommands s n nn l) = l.stores n nn s := by
  cases l with
  | ptrA p | aPtr p => cases p <;> rfl
  | push p =>
    have hsp : s.sp - 1 - 1 = s.sp - 2 := by bv_omega
    rw [loadCommands, hsp]
    rfl
  | _ => rfl

theorem storesOf_haltIf (b : Bool) : storesOf (haltIf b) = [] := by cases b <;> rfl

theorem storesOf_accumulatorCommands (op : Sm83.AluOp) (y : U8) :
    storesOf (accumulatorCommands s op y) = [] := by
  cases op <;> rfl

/-- A byte written to an operand, with halts before and after it where it is in memory. -/
theorem storesOf_writeOperand (o : Sm83.Operand8) (v : U8) (q : CommandQueue)
    (hq : storesOf q = []) :
    storesOf (haltIf (o = .indHL) ++ writeOperand s o v :: q) = o.stores s v := by
  rw [storesOf_append, storesOf_haltIf, List.nil_append]
  cases o with
  | reg r => exact hq
  | indHL => exact congrArg (_ :: ·) hq

theorem storesOf_arithmaticCommands (a : Sm83.Arith) :
    storesOf (arithmaticCommands s n a) = a.stores s := by
  cases a with
  | alu op o =>
    rw [arithmaticCommands, storesOf_append, storesOf_haltIf, storesOf_accumulatorCommands]
    rfl
  | aluImm op => exact storesOf_accumulatorCommands s op n
  | inc8 o | dec8 o =>
    rw [arithmaticCommands, List.append_assoc, List.cons_append]
    exact storesOf_writeOperand s o _ _ (storesOf_haltIf _)
  | _ => rfl

theorem storesOf_bitwiseCommands (op : Sm83.BitOp) (k : BitVec 3) (o : Sm83.Operand8) :
    storesOf (bitwiseCommands s op k o) = (Sm83.Cb.bits op k o).stores s := by
  cases op with
  | bit =>
    rw [bitwiseCommands, storesOf_append, storesOf_haltIf]
    rfl
  | res | set => exact storesOf_writeOperand s o _ _ (storesOf_haltIf _)

end Commands

/-- Whether the bytes that an instruction stores are put in memory at all. -/
def storesReach (s : Sm83.State) : Sm83.Opcode → Prop
  | .cb (.rot _ o) => o ≠ .indHL
  | .jump .call | .jump (.rst _) => False
  | .jump (.callIf c) => c.holds s = false
  | _ => True

section Body

variable (s : Sm83.State) (n n' : U8)

theorem storesOf_jump (j : Sm83.Jump) (h : storesReach s (.jump j)) :
    (Sm83.Opcode.jump j).stores n (Sm83.word n' n) s = [] := by
  cases j with
  | call | rst k => exact absurd h id
  | callIf c =>
    have ht : ¬ (Sm83.Jump.callIf c).taken s = true := by
      rw [Sm83.Jump.taken_of_condition s _ c rfl, h]
      exact Bool.false_ne_true
    exact if_neg ht
  | jrIf c | jpIf c | retIf c => exact ite_self _
  | jr | jp | jpHL | ret | reti => rfl

/-- The commands of an instruction store what it stores in the order in which it does. -/
theorem storesOf_bodyCommands (o : Sm83.Opcode) (h : storesReach s o) :
    storesOf (bodyCommands s n n' o) = o.stores n (Sm83.word n' n) s := by
  cases o with
  | load l =>
    rw [bodyCommands, storesOf_append, storesOf_fetchCommands, storesOf_loadCommands]
    rfl
  | arith a => exact storesOf_arithmaticCommands s n a
  | cb c =>
    cases c with
    | rot op o =>
      cases o with
      | reg r => rfl
      | indHL => exact absurd rfl h
    | bits op k o =>
      rw [bodyCommands, storesOf_append, storesOf_fetchCommands, storesOf_bitwiseCommands]
      rfl
  | jump j => exact (storesOf_jump s n n' j h).symm
  | rotA r | system r | illegal b => rfl

/-- The instructions that are not carried out have something to store, and store nothing. -/
theorem stores_missing (o : Sm83.Opcode) (h : ¬ storesReach s o) :
    storesOf (bodyCommands s n n' o) = [] ∧ o.stores n (Sm83.word n' n) s ≠ [] := by
  cases o with
  | cb c =>
    cases c with
    | rot op o =>
      obtain rfl : o = .indHL := not_not.mp h
      exact ⟨rfl, List.cons_ne_nil _ _⟩
    | bits op k o => exact absurd trivial h
  | jump j =>
    refine ⟨rfl, ?_⟩
    have ht : j.taken s = true → (Sm83.Opcode.jump j).stores n (Sm83.word n' n) s =
        j.landStores s := fun ht => if_pos ht
    cases j with
    | call | rst k =>
      rw [ht rfl]
      exact List.cons_ne_nil _ _
    | callIf c =>
      rw [ht (Bool.not_eq_false _ ▸ h)]
      exact List.cons_ne_nil _ _
    | _ => exact absurd trivial h
  | load l | arith a | rotA r | system r | illegal b => exact absurd trivial h

end Body

/-! ## Runs -/

/-- What the instruction set stores for a word in a state. -/
def CodeWord.stores (w : CodeWord) (s : Sm83.State) : List Store :=
  w.opcode.stores w.firstOperand w.immediate s

/-- What the instruction set stores for the words of a run, each in the state that the run is in
when its turn comes. -/
def meantStores (m : Machine) : List CodeWord → List Executed → List Store
  | w :: ws, e :: es => w.stores m.abs ++ meantStores e.machine ws es
  | _, _ => []

def StoresReach (e : Executed) (w : CodeWord) : Prop := storesReach e.machine.abs w.opcode

theorem storesOf_step {m : Machine} {w : CodeWord} {e : Executed} (h : step m w = .ok e) :
    (storesReach m.abs w.opcode → storesOf e.queue = w.stores m.abs) ∧
      (¬ storesReach m.abs w.opcode → storesOf e.queue = [] ∧ w.stores m.abs ≠ []) := by
  rw [step_queue h, storesOf_append, storesOf_fetchCommands, List.nil_append]
  exact ⟨storesOf_bodyCommands m.abs w.firstOperand w.secondOperand w.opcode,
    stores_missing m.abs w.firstOperand w.secondOperand w.opcode⟩

theorem stores_trace {d : Executed} {ws : List CodeWord} {es : List Executed}
    (h : Trace EmulatorStep d ws es) :
    (storesOf (runQueue es)).Sublist (meantStores d.machine ws es) ∧
      (storesOf (runQueue es) = meantStores d.machine ws es ↔
        Throughout StoresReach EmulatorStep d ws) := by
  induction h with
  | nil s => exact ⟨List.Sublist.refl [], iff_of_true rfl (.nil s)⟩
  | @cons s e w ws es hs _ ih =>
    obtain ⟨hsub, hiff⟩ := ih
    obtain ⟨hreach, hmiss⟩ := storesOf_step hs
    have hq : storesOf (runQueue (e :: es)) = storesOf e.queue ++ storesOf (runQueue es) := by
      rw [runQueue, List.flatMap_cons, storesOf_append]
      rfl
    rw [hq, meantStores, Tracing.throughout_cons_iff_of_step emulatorStep_unique hs, StoresReach]
    by_cases hr : storesReach s.machine.abs w.opcode
    · rw [hreach hr, List.append_right_inj, hiff, and_iff_right hr]
      exact ⟨hsub.append_left _, Iff.rfl⟩
    · obtain ⟨hnil, hne⟩ := hmiss hr
      rw [hnil, List.nil_append]
      refine ⟨hsub.trans (List.sublist_append_right _ _), iff_of_false (fun he => ?_) fun hc =>
        hr hc.1⟩
      -- the rest has no bytes to make up for those that are missing
      have hlen := hsub.length_le
      have hpos := List.length_pos_iff.mpr hne
      rw [he, List.length_append] at hlen
      omega

theorem mem_trace {d : Executed} {ws : List CodeWord} {es : List Executed}
    (h : Trace EmulatorStep d ws es) :
    (lastMachine d.machine es).abs.mem = storeAll d.machine.abs.mem (storesOf (runQueue es)) := by
  rw [← applyQueue_trace h, mem_applyQueue]

/-- The commands of a run put in memory what the instruction set stores for the same words, in its
order and nothing else, all of it just when no word is a call that is taken, a restart or a rotation
in memory. Memory ends as these stores leave it. -/
theorem run_stores_iff (m : Machine) (ws : List CodeWord) (es : List Executed)
    (h : run m ws = .ok es) :
    (storesOf (runQueue es)).Sublist (meantStores m ws es) ∧
      (storesOf (runQueue es) = meantStores m ws es ↔
        Throughout StoresReach EmulatorStep ⟨[], m⟩ ws) ∧
      (lastMachine m es).abs.mem = storeAll m.abs.mem (storesOf (runQueue es)) := by
  have ht := (run_eq_ok_iff ⟨[], m⟩ ws es).mp h
  obtain ⟨hsub, hiff⟩ := stores_trace ht
  exact ⟨hsub, hiff, mem_trace ht⟩

/-- `LD A, 0x42` and `PUSH AF` from a machine of zeros. -/
theorem run_stores_push :
    ∃ es, run machineAtZero [0x3E4200, 0xF50000] = .ok es ∧
      (storesOf (runQueue es)).Sublist (meantStores machineAtZero [0x3E4200, 0xF50000] es) ∧
      (storesOf (runQueue es) = meantStores machineAtZero [0x3E4200, 0xF50000] es ↔
        Throughout StoresReach EmulatorStep ⟨[], machineAtZero⟩ [0x3E4200, 0xF50000]) ∧
      (lastMachine machineAtZero es).abs.mem =
        storeAll machineAtZero.abs.mem (storesOf (runQueue es)) := by
  obtain ⟨es, h⟩ := run_ok machineAtZero [0x3E4200, 0xF50000]
    (List.forall_mem_cons.mpr ⟨rfl, List.forall_mem_singleton.mpr rfl⟩)
  exact ⟨es, h, run_stores_iff machineAtZero _ es h⟩

end Beemu
