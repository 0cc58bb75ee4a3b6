import Beemu.Effect.Agreement

/-!
# What data cannot change

The parser reads registers and memory for the values and the addresses of its commands, and for
nothing else. The commands that a run emits, these apart, their cycles, and how far PC moves, come
from the opcodes alone.
-/

namespace Beemu

open MachineCommand
open Tracing (Trace)

def WriteTarget.blank : WriteTarget → WriteTarget
  | .memoryAddress _ => .memoryAddress 0
  | t => t

def WriteValue.blank : WriteValue → WriteValue
  | .byteValue _ => .byteValue 0
  | .doubleValue _ => .doubleValue 0

/-- A command without its value, and without its address where it writes to memory. -/
def MachineCommand.blank : MachineCommand → MachineCommand
  | .halt h => .halt h
  | .write target value => .write target.blank value.blank

/-- A queue without its values and addresses. -/
def shape (queue : CommandQueue) : CommandQueue := queue.map MachineCommand.blank

@[simp] theorem shape_append (q q' : CommandQueue) : shape (q ++ q') = shape q ++ shape q' :=
  List.map_append

section Blank

@[simp] theorem blank_haltCycle : haltCycle.blank = haltCycle := rfl
@[simp] theorem blank_writeReg8 (r : Register8) (v : U8) :
    (writeReg8 r v).blank = writeReg8 r 0 := rfl
@[simp] theorem blank_writeReg16 (r : Register16) (v : U16) :
    (writeReg16 r v).blank = writeReg16 r 0 := rfl
@[simp] theorem blank_writeFlag (f : Flag) (v : U8) : (writeFlag f v).blank = writeFlag f 0 := rfl
@[simp] theorem blank_writeMemory (a : U16) (v : U8) :
    (writeMemory a v).blank = writeMemory 0 0 := rfl
@[simp] theorem blank_writePc (v : U16) : (writePc v).blank = writePc 0 := rfl
@[simp] theorem blank_writeIr (v : U8) : (writeIr v).blank = writeIr 0 := rfl

@[simp] theorem shape_nil : shape [] = [] := rfl
@[simp] theorem shape_cons (c : MachineCommand) (q : CommandQueue) :
    shape (c :: q) = c.blank :: shape q := List.map_cons

@[simp] theorem shape_flagCommands_none (z n h : Bool) : shape (flagCommands z n h none) =
    [writeFlag .Z 0, writeFlag .N 0, writeFlag .H 0] := rfl
@[simp] theorem shape_flagCommands_some (z n h c : Bool) : shape (flagCommands z n h (some c)) =
    [writeFlag .Z 0, writeFlag .N 0, writeFlag .H 0, writeFlag .C 0] := rfl

end Blank

section Body

variable (s s' : Sm83.State)

theorem shape_fetchCommands (pc pc' : U16) {bytes bytes' : List U8}
    (h : bytes.length = bytes'.length) :
    shape (fetchCommands pc bytes) = shape (fetchCommands pc' bytes') := by
  induction bytes generalizing pc pc' bytes' with
  | nil =>
    obtain rfl := List.length_eq_zero_iff.mp h.symm
    rfl
  | cons b bs ih =>
    cases bytes' with
    | nil => cases h
    | cons b' bs' =>
      have hr := ih (pc + 1) (pc' + 1) (Nat.succ.inj h)
      simpa [fetchCommands] using hr

theorem shape_loadCommands (n n' : U8) (nn nn' : U16) (l : Sm83.Load) :
    shape (loadCommands s n nn l) = shape (loadCommands s' n' nn' l) := by
  cases l with
  | ptrA p | aPtr p => cases p <;> simp [loadCommands, stepCommands]
  | _ => simp [loadCommands]

theorem shape_arithmaticCommands (n n' : U8) (a : Sm83.Arith) :
    shape (arithmaticCommands s n a) = shape (arithmaticCommands s' n' a) := by
  cases a with
  | alu op o | aluImm op => simp [arithmaticCommands, accumulatorCommands, apply_ite shape]
  | inc8 o | dec8 o => cases o <;> simp [arithmaticCommands, writeOperand]
  | _ => simp [arithmaticCommands, wordAddCommands]

theorem shape_bitwiseCommands (op : Sm83.BitOp) (k : BitVec 3) (o : Sm83.Operand8) :
    shape (bitwiseCommands s op k o) = shape (bitwiseCommands s' op k o) := by
  cases op <;> cases o <;> simp [bitwiseCommands, writeOperand]

theorem shape_bodyCommands (n n' k k' : U8) (o : Sm83.Opcode) :
    shape (bodyCommands s n n' o) = shape (bodyCommands s' k k' o) := by
  cases o with
  | load l =>
    have hl : (operandBytes l.length n n').length = (operandBytes l.length k k').length := by
      rw [operandBytes, operandBytes, List.length_take, List.length_take]
      rfl
    rw [bodyCommands, bodyCommands, shape_append, shape_append, shape_fetchCommands _ _ hl,
      shape_loadCommands s s']
  | arith a => exact shape_arithmaticCommands s s' n k a
  | cb c =>
    cases c with
    | rot op o => rfl
    | bits op b o =>
      rw [bodyCommands, bodyCommands, shape_append, shape_append, shape_bitwiseCommands s s']
      rfl
  | rotA r | jump j | system r | illegal b => rfl

end Body

/-- The shape of the queue of an instruction, wherever it is parsed. -/
def shapeOf (o : Sm83.Opcode) : CommandQueue :=
  shape (fetchCommands 0 [o.byte] ++ bodyCommands machineAtZero.abs 0 0 o)

theorem step_queue {m : Machine} {w : CodeWord} {e : Executed} (h : step m w = .ok e) :
    e.queue = fetchCommands m.abs.pc [w.opcodeByte] ++
      bodyCommands m.abs w.firstOperand w.secondOperand w.opcode := by
  have hp := (step_ok_iff m w).mp ⟨e, h⟩
  have hq := step_eq m w _ (parserParse_eq w m.processor hp)
  rw [← Except.ok.inj (hq.symm.trans h)]
  rfl

/-- The shape of the queue of a step goes by the opcode alone. -/
theorem shape_step {m : Machine} {w : CodeWord} {e : Executed} (h : step m w = .ok e) :
    shape e.queue = shapeOf w.opcode := by
  rw [step_queue h, shapeOf, shape_append, shape_append, w.opcode_byte,
    shape_fetchCommands m.abs.pc 0 rfl, shape_bodyCommands m.abs machineAtZero.abs _ _ 0 0]

/-- A step moves the program counter past the bytes that it fetches. -/
theorem pc_step {m : Machine} {w : CodeWord} {e : Executed} (h : step m w = .ok e) :
    e.machine.abs.pc = m.abs.pc + BitVec.ofNat 16 (fetchedBytes w.opcode) := by
  rw [effect_of_step h]
  rfl

/-! ## Runs -/

/-- The bytes that the words of a list fetch. -/
def totalFetched (ws : List CodeWord) : Nat := (ws.map fun w => fetchedBytes w.opcode).sum

theorem shape_trace {d : Executed} {ws : List CodeWord} {es : List Executed}
    (h : Trace EmulatorStep d ws es) :
    es.map (fun e => shape e.queue) = ws.map (fun w => shapeOf w.opcode) := by
  induction h with
  | nil s => rfl
  | cons hs _ ih => rw [List.map_cons, List.map_cons, ih, shape_step hs]

theorem pc_trace {d : Executed} {ws : List CodeWord} {es : List Executed}
    (h : Trace EmulatorStep d ws es) :
    (lastMachine d.machine es).abs.pc = d.machine.abs.pc + BitVec.ofNat 16 (totalFetched ws) := by
  induction h with
  | nil s => exact (BitVec.add_zero _).symm
  | @cons s e w ws es hs _ ih =>
    have ht : totalFetched (w :: ws) = fetchedBytes w.opcode + totalFetched ws := List.sum_cons
    rw [lastMachine, ih, pc_step hs, ht, BitVec.ofNat_add, BitVec.add_assoc]

/-- Two runs of the same opcodes, from any machines and with any operands, emit the same commands
up to values and addresses, and move PC by the same distance: no jump of a run is ever taken. -/
theorem run_shape (m m' : Machine) (ws ws' : List CodeWord) (es es' : List Executed)
    (hw : ws.map (·.opcode) = ws'.map (·.opcode)) (h : run m ws = .ok es)
    (h' : run m' ws' = .ok es') :
    es.map (fun e => shape e.queue) = es'.map (fun e => shape e.queue) ∧
      (lastMachine m es).abs.pc = m.abs.pc + BitVec.ofNat 16 (totalFetched ws) ∧
      (lastMachine m' es').abs.pc = m'.abs.pc + BitVec.ofNat 16 (totalFetched ws) := by
  have ht := (run_eq_ok_iff ⟨[], m⟩ ws es).mp h
  have ht' := (run_eq_ok_iff ⟨[], m'⟩ ws' es').mp h'
  have hf : totalFetched ws = totalFetched ws' := by
    have hm := congrArg (List.map fetchedBytes) hw
    rw [List.map_map, List.map_map] at hm
    exact congrArg List.sum hm
  refine ⟨?_, pc_trace ht, ?_⟩
  · have hm := congrArg (List.map shapeOf) hw
    rw [List.map_map, List.map_map] at hm
    exact (shape_trace ht).trans (hm.trans (shape_trace ht').symm)
  · rw [hf]
    exact pc_trace ht'

/-- `LD A, n` and `ADD A, B`, from two machines and with two operands. -/
theorem run_shape_add :
    ∃ es es', run machineAtZero [0x3E4200, 0x800000] = .ok es ∧
      run machineAtNibble [0x3E0700, 0x800000] = .ok es' ∧
      es.map (fun e => shape e.queue) = es'.map (fun e => shape e.queue) ∧
      (lastMachine machineAtZero es).abs.pc =
        machineAtZero.abs.pc + BitVec.ofNat 16 (totalFetched [0x3E4200, 0x800000]) ∧
      (lastMachine machineAtNibble es').abs.pc =
        machineAtNibble.abs.pc + BitVec.ofNat 16 (totalFetched [0x3E4200, 0x800000]) := by
  obtain ⟨es, h⟩ := run_ok machineAtZero [0x3E4200, 0x800000]
    (List.forall_mem_cons.mpr ⟨rfl, List.forall_mem_singleton.mpr rfl⟩)
  obtain ⟨es', h'⟩ := run_ok machineAtNibble [0x3E0700, 0x800000]
    (List.forall_mem_cons.mpr ⟨rfl, List.forall_mem_singleton.mpr rfl⟩)
  have ho : CodeWord.opcode 0x3E4200 = .load (.regImm .A) := rfl
  have ho' : CodeWord.opcode 0x3E0700 = .load (.regImm .A) := rfl
  refine ⟨es, es', h, h', run_shape _ _ _ _ es es' ?_ h h'⟩
  exact congrArg (· :: [CodeWord.opcode 0x800000]) (ho.trans ho'.symm)

/-! ## The time that a run takes -/

end Beemu
