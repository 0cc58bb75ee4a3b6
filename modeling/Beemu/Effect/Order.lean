import Beemu.Effect.Cycles
import Mathlib.Data.List.Flatten

/-!
# The order of commands

A queue says in which order its commands come, and a machine that runs it may be stopped between
any two of them. Inside a cycle the order does not matter, and what has been done of a queue may
be done again.
-/

namespace Beemu

open History (lastWrite)
open MachineCommand
open Tracing (Trace)

/-! ## Replays -/

theorem mem_writesOf {queue : CommandQueue} {w : Place × U16} :
    w ∈ writesOf queue ↔ ∃ c ∈ queue, w ∈ c.writes := List.mem_flatMap

/-- A queue ends in the same machine when any of its commands have been applied before it, in any
order and any number of times. -/
theorem applyQueue_replayed (m : Machine) (done queue : CommandQueue) (h : done ⊆ queue) :
    applyQueue (applyQueue m done) queue = applyQueue m queue := by
  apply Machine.ext_read
  intro p
  rw [read_applyQueue, read_applyQueue, read_applyQueue]
  cases hq : lastWrite p (writesOf queue) with
  | some v => rfl
  | none =>
    -- what the queue does not write was not written before it either
    have hd : lastWrite p (writesOf done) = none := by
      rw [History.lastWrite_eq_none_iff] at hq ⊢
      intro v hv
      obtain ⟨c, hc, hw⟩ := mem_writesOf.mp hv
      exact hq v (mem_writesOf.mpr ⟨c, h hc, hw⟩)
    rw [hd]
    rfl

/-! ## Cycles -/

/-- The same cycles, each with its commands in another order. -/
def Shuffles (queue queue' : CommandQueue) : Prop :=
  List.Forall₂ List.Perm (cycles queue) (cycles queue')

/-- No place is written by two commands. -/
def WritesOnce (cycle : CommandQueue) : Prop := ((writesOf cycle).map Prod.fst).Nodup

def EachOnce (queue : CommandQueue) : Prop := ∀ cycle ∈ cycles queue, WritesOnce cycle

/-- A halt writes nothing, so that the cycles have all the writes. -/
theorem writesOf_cycles (queue : CommandQueue) :
    (cycles queue).flatMap writesOf = writesOf queue := by
  induction queue with
  | nil => rfl
  | cons c queue ih =>
    rw [cycles, List.splitOnP_cons_eq_if_modifyHead]
    have hw : writesOf (c :: queue) = c.writes ++ writesOf queue := List.flatMap_cons
    rw [hw, ← ih]
    cases c with
    | halt h => rfl
    | write t v =>
      rw [if_neg (by exact Bool.false_ne_true)]
      cases hs : cycles queue with
      | nil => exact absurd hs (List.splitOnP_ne_nil _ _)
      | cons first rest =>
        rw [cycles] at hs
        rw [hs, List.modifyHead_cons, List.flatMap_cons, List.flatMap_cons, ← List.append_assoc]
        rfl

theorem lastWrite_shuffled (p : Place) {parts parts' : List CommandQueue}
    (h : List.Forall₂ List.Perm parts parts') (hn : ∀ part ∈ parts, WritesOnce part) :
    lastWrite p (parts.flatMap writesOf) = lastWrite p (parts'.flatMap writesOf) := by
  induction h with
  | nil => rfl
  | cons hp _ ih =>
    rw [List.forall_mem_cons] at hn
    have hw := History.lastWrite_perm (k := p) (hp.flatMap_right MachineCommand.writes) hn.1
    rw [List.flatMap_cons, List.flatMap_cons, History.lastWrite_append, History.lastWrite_append,
      ih hn.2]
    exact congrArg _ hw

theorem applyQueue_shuffled (m : Machine) {queue queue' : CommandQueue}
    (h : Shuffles queue queue') (hn : EachOnce queue) :
    applyQueue m queue' = applyQueue m queue := by
  apply Machine.ext_read
  intro p
  rw [read_applyQueue, read_applyQueue, ← writesOf_cycles, ← writesOf_cycles,
    lastWrite_shuffled p h hn]

theorem sublist_claims (cycle : CommandQueue) :
    (((writesOf cycle).map Prod.fst).map Resource.place).Sublist (cycle.flatMap claims) := by
  rw [List.map_map, writesOf, List.map_flatMap]
  exact List.Sublist.flatMap_right _ fun c _ => List.sublist_append_left _ _

theorem eachOnce_of_shares {queue : CommandQueue} (h : SharesCycles queue) : EachOnce queue :=
  fun cycle hc => ((h cycle hc).sublist (sublist_claims cycle)).of_map

/-- The queue that a parsed token comes with writes each place once in a cycle. -/
theorem eachOnce_parsed {w : CodeWord} {p : Processor} {t : Instruction} {queue : CommandQueue}
    (ht : tokenizerTokenize (w.setWidth 32) = .ok t) (hq : parserParse p t = .ok queue) :
    EachOnce queue := by
  rw [tokenizerTokenize_eq] at ht
  obtain rfl := Except.ok.inj ht
  have hp : ¬ PopsPastEnd p.abs w.opcode := fun h => by
    rw [parserParse_popsPastEnd w p h] at hq
    exact nomatch hq
  rw [parserParse_eq w p hp] at hq
  obtain rfl := Except.ok.inj hq
  have hb := settles_bodyCommands p.abs w.firstOperand w.secondOperand w.opcode
  rw [settles, Bool.and_eq_true] at hb
  apply eachOnce_of_shares
  apply Sharing.nodup_of_clear isHalt claims
  rw [clear_first_fetch open_nil]
  exact hb.1

/-! ## Schedules -/

/-- One word run by some schedule: any of its commands are tried first, in any order and any number
of times, and then the queue is applied with the commands of each of its cycles in some order. -/
def ScheduledStep (e : Executed) (w : CodeWord) (e' : Executed) : Prop :=
  ∃ t queue tried, tokenizerTokenize (w.setWidth 32) = .ok t ∧
    parserParse e.machine.processor t = .ok queue ∧ tried ⊆ queue ∧ Shuffles queue e'.queue ∧
    e'.machine = applyQueue (applyQueue e.machine tried) e'.queue

theorem Shuffles.refl (queue : CommandQueue) : Shuffles queue queue :=
  List.forall₂_same.mpr fun _ _ => .refl _

theorem ScheduledStep.step {e e' : Executed} {w : CodeWord} (h : ScheduledStep e w e') :
    ∃ d, step e.machine w = .ok d ∧ d.machine = e'.machine := by
  obtain ⟨t, queue, tried, ht, hq, htried, hs, he⟩ := h
  refine ⟨⟨queue, applyQueue e.machine queue⟩, ?_, ?_⟩
  · rw [Beemu.step, ht, ok_bind, hq, ok_bind]
  · rw [he, applyQueue_shuffled _ hs (eachOnce_parsed ht hq), applyQueue_replayed _ _ _ htried]

theorem scheduledStep_of_step {e e' : Executed} {w : CodeWord} (h : EmulatorStep e w e') :
    ScheduledStep e w e' := by
  rw [EmulatorStep, Beemu.step, tokenizerTokenize_eq, ok_bind] at h
  cases hq : parserParse e.machine.processor w.token with
  | error err => rw [hq] at h; cases h
  | ok queue =>
    rw [hq, ok_bind] at h
    obtain rfl := Except.ok.inj h
    exact ⟨_, queue, [], tokenizerTokenize_eq w, hq, List.nil_subset _, .refl queue, rfl⟩

theorem run_of_scheduled {ws : List CodeWord} {d e : Executed} {es : List Executed}
    (hd : d.machine = e.machine) (h : Trace ScheduledStep e ws es) :
    ∃ ds, run d.machine ws = .ok ds ∧ ds.map Executed.machine = es.map Executed.machine := by
  induction ws generalizing d e es with
  | nil =>
    cases h
    exact ⟨[], rfl, rfl⟩
  | cons w ws ih =>
    obtain ⟨e', rest, rfl, hs, ht⟩ := Tracing.trace_cons_iff.mp h
    obtain ⟨d', hd', hm⟩ := hs.step
    obtain ⟨ds, hds, hms⟩ := ih hm ht
    refine ⟨d' :: ds, run_cons_eq _ _ _ _ _ ?_ hds, ?_⟩
    · rw [hd]
      exact hd'
    · rw [List.map_cons, List.map_cons, hm, hms]

theorem scheduled_of_run {ws : List CodeWord} {e : Executed} {es : List Executed}
    (h : Trace EmulatorStep e ws es) : Trace ScheduledStep e ws es := by
  induction h with
  | nil s => exact .nil s
  | cons hs _ ih => exact .cons (scheduledStep_of_step hs) ih

/-- A run passes the same machines however its commands are scheduled. -/
theorem scheduled_run_iff (m : Machine) (ws : List CodeWord) (machines : List Machine) :
    (∃ es, Trace ScheduledStep ⟨[], m⟩ ws es ∧ es.map Executed.machine = machines) ↔
      ∃ es, run m ws = .ok es ∧ es.map Executed.machine = machines := by
  constructor
  · rintro ⟨es, h, rfl⟩
    exact run_of_scheduled rfl h
  · rintro ⟨es, h, hm⟩
    exact ⟨es, scheduled_of_run ((run_eq_ok_iff ⟨[], m⟩ ws es).mp h), hm⟩

/-! ## The log of a run -/

/-- What the queues of a trace write, in order. -/
def logOf (es : List Executed) : List (Place × U16) := es.flatMap fun e => writesOf e.queue

theorem step_machine {m : Machine} {w : CodeWord} {e : Executed} (h : step m w = .ok e) :
    e.machine = applyQueue m e.queue := by
  rw [step, tokenizerTokenize_eq, ok_bind] at h
  cases hq : parserParse m.processor w.token with
  | error err => rw [hq] at h; cases h
  | ok queue =>
    rw [hq, ok_bind] at h
    rw [← Except.ok.inj h]

theorem read_trace {d : Executed} {ws : List CodeWord} {es : List Executed}
    (h : Trace EmulatorStep d ws es) (p : Place) :
    (lastMachine d.machine es).read p = (lastWrite p (logOf es)).getD (d.machine.read p) := by
  induction h with
  | nil s => rfl
  | @cons s e w ws es hs _ ih =>
    have hlog : logOf (e :: es) = writesOf e.queue ++ logOf es := List.flatMap_cons
    rw [lastMachine, ih, hlog, History.lastWrite_append, Option.getD_or, step_machine hs,
      read_applyQueue]

/-- Whatever the queues of a run are, its last machine has in each place what they wrote there last,
and what the first machine had where they wrote nothing. -/
theorem run_log (m : Machine) (ws : List CodeWord) (es : List Executed) (h : run m ws = .ok es)
    (p : Place) : (lastMachine m es).read p = (lastWrite p (logOf es)).getD (m.read p) :=
  read_trace ((run_eq_ok_iff ⟨[], m⟩ ws es).mp h) p

/-! ## Cycles that two instructions share -/

theorem applyQueue_trace {d : Executed} {ws : List CodeWord} {es : List Executed}
    (h : Trace EmulatorStep d ws es) :
    applyQueue d.machine (runQueue es) = lastMachine d.machine es := by
  induction h with
  | nil s => rfl
  | @cons s e w ws es hs _ ih =>
    have hq : runQueue (e :: es) = e.queue ++ runQueue es := List.flatMap_cons
    rw [hq, applyQueue_append, ← step_machine hs, lastMachine, ih]

theorem transfers_shuffled {parts parts' : List CommandQueue}
    (h : List.Forall₂ List.Perm parts parts')
    (hn : ∀ part ∈ parts, part.countP storesOrFetches ≤ 1) :
    ∀ part ∈ parts', part.countP storesOrFetches ≤ 1 := by
  induction h with
  | nil => nofun
  | cons hp _ ih =>
    rw [List.forall_mem_cons] at hn ⊢
    rw [← hp.countP_eq]
    exact ⟨hn.1, ih hn.2⟩

/-- Any order of the commands in each cycle of a run, those of two instructions mixed where a cycle
has both, leaves the machine that the run leaves, with one byte at most stored or fetched in a
cycle. -/
theorem run_overlapped (m : Machine) (ws : List CodeWord) (es : List Executed)
    (queue : CommandQueue) (h : run m ws = .ok es) (hs : Shuffles (runQueue es) queue) :
    applyQueue m queue = lastMachine m es ∧
      ∀ cycle ∈ cycles queue, cycle.countP storesOrFetches ≤ 1 := by
  have hc := sharesCycles_run h
  constructor
  · rw [applyQueue_shuffled m hs (eachOnce_of_shares hc)]
    exact applyQueue_trace ((run_eq_ok_iff ⟨[], m⟩ ws es).mp h)
  · exact transfers_shuffled hs hc.transfer

/-- `LD A, 0x42` and `LD (HL+), A`, in the order of the run. -/
theorem run_overlapped_load :
    ∃ es, run machineAtZero [0x3E4200, 0x220000] = .ok es ∧
      applyQueue machineAtZero (runQueue es) = lastMachine machineAtZero es ∧
      ∀ cycle ∈ cycles (runQueue es), cycle.countP storesOrFetches ≤ 1 := by
  obtain ⟨es, h⟩ := run_ok machineAtZero [0x3E4200, 0x220000]
    (List.forall_mem_cons.mpr ⟨rfl, List.forall_mem_singleton.mpr rfl⟩)
  exact ⟨es, h, run_overlapped machineAtZero _ es _ h (Shuffles.refl (runQueue es))⟩

end Beemu
