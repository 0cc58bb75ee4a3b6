import Beemu.Effect.Shape
import Beemu.Lib.Sharing
import Beemu.Places

/-!
# What a cycle can be asked for

The commands of a cycle come in some order, as if they were done at once. That takes that no two of
them write one place, and that of the bytes that commands move one at most is moved, into memory or
into IR. A byte that an instruction reads as data is in no command: the parser has read it. The last
cycle of an instruction goes on into the next one, whose opcode is fetched in it.
-/

namespace Beemu

open MachineCommand
open Tracing (Trace)

/-- What the commands of a cycle have to share: the places, and the one byte that may be stored or
fetched. -/
inductive Resource where
  | place : Place → Resource
  | transfer : Resource
  deriving DecidableEq

/-- Whether a byte is stored in memory, or fetched into IR. -/
def MachineCommand.storesOrFetches : MachineCommand → Bool
  | .write (.memoryAddress _) _ | .write (.internal .instructionRegister) _ => true
  | _ => false

def MachineCommand.claims (c : MachineCommand) : List Resource :=
  c.writes.map (fun w => .place w.1) ++ if c.storesOrFetches then [.transfer] else []

/-- No resource is claimed twice in a cycle. -/
def SharesCycles (queue : CommandQueue) : Prop :=
  ∀ cycle ∈ cycles queue, (cycle.flatMap claims).Nodup

theorem count_transfer_claims (c : MachineCommand) :
    c.claims.count .transfer = if c.storesOrFetches then 1 else 0 := by
  have hw : (c.writes.map fun w => Resource.place w.1).count .transfer = 0 := by
    rw [List.count_eq_zero, List.mem_map]
    rintro ⟨w, -, hw⟩
    cases hw
  rw [MachineCommand.claims, List.count_append, hw, Nat.zero_add]
  split_ifs <;> rfl

/-- One byte at most is stored or fetched in a cycle. -/
theorem SharesCycles.transfer {queue : CommandQueue} (h : SharesCycles queue) :
    ∀ cycle ∈ cycles queue, cycle.countP storesOrFetches ≤ 1 := by
  have hcount (cycle : CommandQueue) :
      (cycle.flatMap claims).count .transfer = cycle.countP storesOrFetches := by
    induction cycle with
    | nil => rfl
    | cons c cycle ih =>
      rw [List.flatMap_cons, List.count_append, ih, count_transfer_claims, List.countP_cons,
        Nat.add_comm]
  intro cycle hc
  rw [← hcount]
  exact List.nodup_iff_count_le_one.mp (h cycle hc) .transfer

/-- What a fetch does not ask for. -/
def besideFetch : Resource → Bool
  | .place .programCounter | .place .instructionRegister | .transfer => false
  | _ => true

/-- A queue whose cycles are shared, and whose last cycle leaves room for a fetch. -/
def settles (queue : CommandQueue) : Bool :=
  Sharing.clear isHalt claims [] queue && (Sharing.pending isHalt claims [] queue).all besideFetch

section Commands

variable (s : Sm83.State) (n : U8) (nn : U16)

theorem settles_fetchCommands (pc : U16) (bytes : List U8) (q : CommandQueue) :
    settles (fetchCommands pc bytes ++ q) = settles q := by
  induction bytes generalizing pc with
  | nil => rfl
  | cons b bs ih => exact ih (pc + 1)

theorem settles_loadCommands (l : Sm83.Load) : settles (loadCommands s n nn l) = true := by
  cases l with
  | regReg d r | regInd d | regImm d => cases d <;> rfl
  | ptrA p | aPtr p => cases p <;> rfl
  | pairImm p | push p | pop p => cases p <;> rfl
  | _ => rfl

theorem settles_haltIf (b : Bool) (q : CommandQueue) : settles (haltIf b ++ q) = settles q := by
  cases b <;> rfl

theorem settles_accumulatorCommands (op : Sm83.AluOp) (y : U8) :
    settles (accumulatorCommands s op y) = true := by
  rw [accumulatorCommands]
  split_ifs <;> rfl

theorem settles_arithmaticCommands (a : Sm83.Arith) :
    settles (arithmaticCommands s n a) = true := by
  cases a with
  | alu op o => exact (settles_haltIf _ _).trans (settles_accumulatorCommands s op _)
  | aluImm op => exact settles_accumulatorCommands s op n
  | inc8 o | dec8 o =>
    cases o with
    | reg r => cases r <;> rfl
    | indHL => rfl
  | incPair q | decPair q => cases q <;> rfl
  | addHL q | addSP | daa | cpl | scf | ccf => rfl

theorem settles_bitwiseCommands (op : Sm83.BitOp) (k : BitVec 3) (o : Sm83.Operand8) :
    settles (bitwiseCommands s op k o) = true := by
  refine (settles_haltIf _ _).trans ?_
  cases op with
  | bit => rfl
  | res | set =>
    cases o with
    | reg r => cases r <;> rfl
    | indHL => rfl

theorem settles_bodyCommands (n' : U8) (o : Sm83.Opcode) :
    settles (bodyCommands s n n' o) = true := by
  cases o with
  | load l => exact (settles_fetchCommands _ _ _).trans (settles_loadCommands s n _ l)
  | arith a => exact settles_arithmaticCommands s n a
  | cb c =>
    cases c with
    | rot op o => rfl
    | bits op k o => exact (settles_fetchCommands _ _ _).trans (settles_bitwiseCommands s op k o)
  | rotA r | jump j | system r | illegal b => rfl

end Commands

/-! ## Runs -/

/-- The commands of a run, one queue after the other. -/
def runQueue (es : List Executed) : CommandQueue := es.flatMap Executed.queue

/-- The claims of a cycle that a fetch can still be put in. -/
structure Open (seen : List Resource) : Prop where
  nodup : seen.Nodup
  beside : seen.all besideFetch = true

theorem open_nil : Open [] := ⟨List.nodup_nil, rfl⟩

theorem not_mem_of_beside {seen : List Resource} (h : seen.all besideFetch = true) {r : Resource}
    (hr : besideFetch r = false) : r ∉ seen := fun hm => by
  rw [List.all_eq_true.mp h r hm] at hr
  cases hr

/-- The first cycle of an instruction shares the last one of the instruction before it. -/
theorem clear_first_fetch {seen : List Resource} (h : Open seen) (pc : U16) (b : U8)
    (q : CommandQueue) :
    Sharing.clear isHalt claims seen (fetchCommands pc [b] ++ q) =
      Sharing.clear isHalt claims [] q := by
  have hpc := not_mem_of_beside h.beside (r := .place .programCounter) rfl
  have hir := not_mem_of_beside h.beside (r := .place .instructionRegister) rfl
  have htransfer := not_mem_of_beside h.beside (r := .transfer) rfl
  have h₁ : ((writePc (pc + 1)).claims ++ seen).Nodup := List.nodup_cons.mpr ⟨hpc, h.nodup⟩
  have h₂ : ((writeIr b).claims ++ ((writePc (pc + 1)).claims ++ seen)).Nodup := by
    refine List.nodup_cons.mpr ⟨?_, List.nodup_cons.mpr ⟨?_, h₁⟩⟩
    · exact List.not_mem_cons_of_ne_of_not_mem nofun (List.not_mem_cons_of_ne_of_not_mem nofun hir)
    · exact List.not_mem_cons_of_ne_of_not_mem nofun htransfer
  have hc : Sharing.clear isHalt claims seen (fetchCommands pc [b] ++ q) =
      (decide ((writePc (pc + 1)).claims ++ seen).Nodup &&
        (decide ((writeIr b).claims ++ ((writePc (pc + 1)).claims ++ seen)).Nodup &&
          Sharing.clear isHalt claims [] q)) := rfl
  rw [hc, decide_eq_true h₁, decide_eq_true h₂, Bool.true_and, Bool.true_and]

theorem clear_trace {d : Executed} {ws : List CodeWord} {es : List Executed}
    (h : Trace EmulatorStep d ws es) {seen : List Resource} (hs : Open seen) :
    Sharing.clear isHalt claims seen (runQueue es) = true := by
  induction h generalizing seen with
  | nil d => rfl
  | @cons d e w ws es he _ ih =>
    have hq := step_queue he
    have hb := settles_bodyCommands d.machine.abs w.firstOperand w.secondOperand w.opcode
    rw [settles, Bool.and_eq_true] at hb
    have hr : runQueue (e :: es) = fetchCommands d.machine.abs.pc [w.opcodeByte] ++
        (bodyCommands d.machine.abs w.firstOperand w.secondOperand w.opcode ++ runQueue es) := by
      rw [runQueue, List.flatMap_cons, hq, List.append_assoc]
      rfl
    rw [hr, clear_first_fetch hs, Sharing.clear_append, hb.1, Bool.true_and]
    exact ih ⟨Sharing.nodup_pending isHalt claims List.nodup_nil hb.1, hb.2⟩

theorem sharesCycles_run {m : Machine} {ws : List CodeWord} {es : List Executed}
    (h : run m ws = .ok es) : SharesCycles (runQueue es) :=
  Sharing.nodup_of_clear isHalt claims
    (clear_trace ((run_eq_ok_iff ⟨[], m⟩ ws es).mp h) open_nil)

end Beemu
