import Beemu.Parser.Fetch

/-!
# Running instructions

A word is tokenized, parsed against the machine as it is, and its commands are applied in
order, as one step.
-/

namespace Beemu

open MachineCommand

/-- The places that a queue writes, in order. -/
def targets (queue : CommandQueue) : List WriteTarget := queue.filterMap target?

@[simp] theorem targets_append (q q' : CommandQueue) :
    targets (q ++ q') = targets q ++ targets q' := List.filterMap_append

theorem targets_fetchCommands (pc : U16) (bytes : List U8) (a : U16) :
    .memoryAddress a ∉ targets (fetchCommands pc bytes) := by
  induction bytes generalizing pc with
  | nil => exact List.not_mem_nil
  | cons b bs ih =>
    have h : targets (fetchCommands pc (b :: bs)) = .internal .programCounter ::
        .internal .instructionRegister :: targets (fetchCommands (pc + 1) bs) := rfl
    rw [h]
    simp [ih]

/-- The bytes of memory that a queue writes are written once the instruction is fetched. -/
theorem mem_targets_fetch_append (pc : U16) (bytes : List U8) (queue : CommandQueue) (a : U16) :
    .memoryAddress a ∈ targets (fetchCommands pc bytes ++ queue) ↔
      .memoryAddress a ∈ targets queue := by
  rw [targets_append, List.mem_append]
  exact or_iff_right (targets_fetchCommands pc bytes a)

/-- A word has one token, and a token has one queue on a processor. -/
theorem parsed_unique {w : CodeWord} {p : Processor} {t : Instruction}
    {queue queue' : CommandQueue} (ht : tokenizerTokenize (w.setWidth 32) = .ok t)
    (hq : parserParse p t = .ok queue) (hq' : parserParse p w.token = .ok queue') :
    t = w.token ∧ queue = queue' := by
  rw [tokenizerTokenize_eq] at ht
  obtain rfl := Except.ok.inj ht
  exact ⟨rfl, Except.ok.inj (hq.symm.trans hq')⟩

/-- What a step leaves behind: the queue, and the machine after it. -/
structure Executed where
  queue : CommandQueue
  machine : Machine

def step (m : Machine) (w : CodeWord) : Checked Executed := do
  let t ← tokenizerTokenize (w.setWidth 32)
  let queue ← parserParse m.processor t
  .ok ⟨queue, applyQueue m queue⟩

/-- One step after the other, each on the machine that the last one left. -/
def run (m : Machine) : List CodeWord → Checked (List Executed)
  | [] => .ok []
  | w :: ws => do
    let e ← step m w
    let es ← run e.machine ws
    .ok (e :: es)

theorem step_eq (m : Machine) (w : CodeWord) (queue : CommandQueue)
    (h : parserParse m.processor w.token = .ok queue) :
    step m w = .ok ⟨queue, applyQueue m queue⟩ := by
  rw [step, tokenizerTokenize_eq, ok_bind, h, ok_bind]

theorem run_cons_eq (m : Machine) (w : CodeWord) (ws : List CodeWord) (e : Executed)
    (es : List Executed) (he : step m w = .ok e) (hs : run e.machine ws = .ok es) :
    run m (w :: ws) = .ok (e :: es) := by
  rw [run, he, ok_bind, hs, ok_bind]

end Beemu
