import Beemu.Effect.Order
import Beemu.Effect.Shape
import Beemu.Lib.Dependence

/-!
# The places that an instruction reads

The commands of an instruction depend on the places it reads, on its own bytes and on nothing
else. What is in all other places is carried through a run unseen.
-/

namespace Beemu

open History (lastWrite)

def pairPlaces : Sm83.Pair → List Place
  | .BC => [.byte .B, .byte .C]
  | .DE => [.byte .D, .byte .E]
  | .HL => [.byte .H, .byte .L]
  | .SP => [.stackPointer]

def flagBytePlaces : List Place := (List.finRange 8).map .flagBit

def stackPairPlaces : Sm83.StackPair → List Place
  | .BC => pairPlaces .BC
  | .DE => pairPlaces .DE
  | .HL => pairPlaces .HL
  | .AF => .byte .A :: flagBytePlaces

def memoryPlace (a : U16) : Place := .memory (deviceCell a)

section Reads

variable (s : Sm83.State) (n : U8) (nn : U16)

def operandPlaces : Sm83.Operand8 → List Place
  | .reg r => [.byte (register8Of r)]
  | .indHL => memoryPlace (s.pair .HL) :: pairPlaces .HL

def loadPlaces : Sm83.Load → List Place
  | .regReg _ r => [.byte (register8Of r)]
  | .regInd _ => memoryPlace (s.pair .HL) :: pairPlaces .HL
  | .indReg r => .byte (register8Of r) :: pairPlaces .HL
  | .regImm _ | .pairImm _ => []
  | .indImm | .spHL => pairPlaces .HL
  | .ptrA p => .byte .A :: pairPlaces p.pair
  | .aPtr p => memoryPlace (s.pair p.pair) :: pairPlaces p.pair
  | .highImmA | .absA => [.byte .A]
  | .aHighImm => [memoryPlace (Sm83.highAddress n)]
  | .highCA => [.byte .A, .byte .C]
  | .aHighC => [memoryPlace (Sm83.highAddress (s.reg .C)), .byte .C]
  | .aAbs => [memoryPlace nn]
  | .absSP | .hlSpOffset => [.stackPointer]
  | .push r => .stackPointer :: stackPairPlaces r
  | .pop _ => [.stackPointer, memoryPlace (s.sp + 1), memoryPlace s.sp]

/-- Only sums and differences with a carry look at C. -/
def carryPlaces : Sm83.AluOp → List Place
  | .adc | .sbc => [.flagBit Flag.C.place]
  | _ => []

def arithPlaces : Sm83.Arith → List Place
  | .alu op o => operandPlaces s o ++ .byte .A :: carryPlaces op
  | .aluImm op => .byte .A :: carryPlaces op
  | .inc8 o | .dec8 o => operandPlaces s o
  | .incPair q | .decPair q => pairPlaces q
  | .addHL q => pairPlaces .HL ++ pairPlaces q
  | .addSP => [.stackPointer]
  | .daa | .cpl | .scf | .ccf => []

/-- The places that an instruction reads besides PC. -/
def opcodePlaces : Sm83.Opcode → List Place
  | .load l => loadPlaces s n nn l
  | .arith a => arithPlaces s a
  | .cb (.bits _ _ o) => operandPlaces s o
  | .illegal _ => [.byte .A]
  | .cb (.rot _ _) | .rotA _ | .jump _ | .system _ => []

end Reads

/-- The places that the commands of a word depend on. -/
def CodeWord.reads (w : CodeWord) (s : Sm83.State) : List Place :=
  .programCounter :: opcodePlaces s w.firstOperand w.immediate w.opcode

/-! ## What is read from the same places is the same -/

/-- Two machines that agree in some places. -/
def SameAt (m m' : Machine) (ps : List Place) : Prop := ∀ p ∈ ps, m.read p = m'.read p

section Same

variable {m m' : Machine}

theorem sameAt_cons {p : Place} {ps : List Place} :
    SameAt m m' (p :: ps) ↔ m.read p = m'.read p ∧ SameAt m m' ps := List.forall_mem_cons

theorem sameAt_append {ps qs : List Place} :
    SameAt m m' (ps ++ qs) ↔ SameAt m m' ps ∧ SameAt m m' qs := List.forall_mem_append

theorem reg_of_same {r : Sm83.Reg8}
    (h : m.read (.byte (register8Of r)) = m'.read (.byte (register8Of r))) :
    m.abs.reg r = m'.abs.reg r := widen_inj h

theorem sp_of_same (h : m.read .stackPointer = m'.read .stackPointer) : m.abs.sp = m'.abs.sp := h

theorem mem_of_same {a : U16} (h : m.read (memoryPlace a) = m'.read (memoryPlace a)) :
    m.abs.mem a = m'.abs.mem a := widen_inj h

theorem pair_of_same {q : Sm83.Pair} (h : SameAt m m' (pairPlaces q)) :
    m.abs.pair q = m'.abs.pair q := by
  cases q with
  | BC | DE | HL =>
    obtain ⟨hh, hl⟩ := sameAt_cons.mp h
    exact congrArg₂ Sm83.word (widen_inj hh) (widen_inj (sameAt_cons.mp hl).1)
  | SP => exact h _ List.mem_cons_self

theorem f_of_same (h : SameAt m m' flagBytePlaces) : m.abs.f = m'.abs.f := by
  ext i hi
  exact bitValue_inj (h _ (List.mem_map_of_mem (List.mem_finRange ⟨i, hi⟩)))

theorem carry_of_same (h : m.read (.flagBit Flag.C.place) = m'.read (.flagBit Flag.C.place)) :
    m.abs.flag .C = m'.abs.flag .C := bitValue_inj h

theorem stackPair_of_same {r : Sm83.StackPair} (h : SameAt m m' (stackPairPlaces r)) :
    m.abs.stackPair r = m'.abs.stackPair r := by
  cases r with
  | BC => exact (pair_of_same h : m.abs.pair .BC = m'.abs.pair .BC)
  | DE => exact (pair_of_same h : m.abs.pair .DE = m'.abs.pair .DE)
  | HL => exact (pair_of_same h : m.abs.pair .HL = m'.abs.pair .HL)
  | AF =>
    obtain ⟨ha, hf⟩ := sameAt_cons.mp h
    exact congrArg₂ Sm83.word (widen_inj ha) (f_of_same hf)

/-- A byte in memory and the pair that points to it. -/
theorem indirect_of_same {q : Sm83.Pair}
    (h : SameAt m m' (memoryPlace (m.abs.pair q) :: pairPlaces q)) :
    m.abs.pair q = m'.abs.pair q ∧ m.abs.mem (m.abs.pair q) = m'.abs.mem (m'.abs.pair q) := by
  obtain ⟨hm, hp⟩ := sameAt_cons.mp h
  have hq := pair_of_same hp
  exact ⟨hq, (mem_of_same hm).trans (congrArg m'.abs.mem hq)⟩

theorem operand8_of_same {o : Sm83.Operand8} (h : SameAt m m' (operandPlaces m.abs o)) :
    m.abs.operand8 o = m'.abs.operand8 o ∧
      ∀ v, writeOperand m.abs o v = writeOperand m'.abs o v := by
  cases o with
  | reg r => exact ⟨widen_inj (h _ List.mem_cons_self), fun _ => rfl⟩
  | indHL =>
    obtain ⟨hp, hm⟩ := indirect_of_same h
    refine ⟨hm, fun v => ?_⟩
    rw [writeOperand, writeOperand, hp]

theorem accumulatorCommands_of_same {op : Sm83.AluOp} (y : U8)
    (h : SameAt m m' (.byte .A :: carryPlaces op)) :
    accumulatorCommands m.abs op y = accumulatorCommands m'.abs op y := by
  obtain ⟨ha, hc⟩ := sameAt_cons.mp h
  have hA : m.abs.reg .A = m'.abs.reg .A := reg_of_same ha
  cases op with
  | adc | sbc =>
    have hC := carry_of_same (hc _ List.mem_cons_self)
    rw [accumulatorCommands, accumulatorCommands, hA, hC]
  | add | sub | and | xor | or | cp =>
    rw [accumulatorCommands, accumulatorCommands, hA]
    rfl

theorem stepCommands_of_same {p : Sm83.Pointer} (h : m.abs.pair p.pair = m'.abs.pair p.pair) :
    stepCommands m.abs p = stepCommands m'.abs p := by
  cases p with
  | BC | DE => rfl
  | HLInc | HLDec =>
    have hHL : m.abs.pair .HL = m'.abs.pair .HL := h
    rw [stepCommands, stepCommands, hHL]

theorem loadCommands_of_same (n : U8) (nn : U16) (l : Sm83.Load)
    (h : SameAt m m' (loadPlaces m.abs n nn l)) :
    loadCommands m.abs n nn l = loadCommands m'.abs n nn l := by
  cases l with
  | regReg d r =>
    have hr : m.abs.reg r = m'.abs.reg r := reg_of_same (h _ List.mem_cons_self)
    rw [loadCommands, loadCommands, hr]
  | regInd d =>
    rw [loadCommands, loadCommands, (indirect_of_same h).2]
  | indReg r =>
    obtain ⟨hr, hp⟩ := sameAt_cons.mp h
    rw [loadCommands, loadCommands, reg_of_same hr, pair_of_same hp]
  | regImm d | pairImm q => rfl
  | indImm | spHL =>
    have hp : m.abs.pair .HL = m'.abs.pair .HL := pair_of_same h
    rw [loadCommands, loadCommands, hp]
  | ptrA p =>
    obtain ⟨ha, hp⟩ := sameAt_cons.mp h
    have hA : m.abs.reg .A = m'.abs.reg .A := reg_of_same ha
    have hq := pair_of_same hp
    rw [loadCommands, loadCommands, hA, hq, stepCommands_of_same hq]
  | aPtr p =>
    obtain ⟨hp, hm⟩ := indirect_of_same h
    rw [loadCommands, loadCommands, hm, stepCommands_of_same hp]
  | highImmA | absA =>
    have hA : m.abs.reg .A = m'.abs.reg .A := reg_of_same (h _ List.mem_cons_self)
    rw [loadCommands, loadCommands, hA]
  | aHighImm | aAbs =>
    rw [loadCommands, loadCommands, mem_of_same (h _ List.mem_cons_self)]
  | highCA =>
    obtain ⟨ha, hc⟩ := sameAt_cons.mp h
    have hA : m.abs.reg .A = m'.abs.reg .A := reg_of_same ha
    have hC : m.abs.reg .C = m'.abs.reg .C := reg_of_same (hc _ List.mem_cons_self)
    rw [loadCommands, loadCommands, hA, hC]
  | aHighC =>
    obtain ⟨hm, hc⟩ := sameAt_cons.mp h
    have hC : m.abs.reg .C = m'.abs.reg .C := reg_of_same (hc _ List.mem_cons_self)
    rw [loadCommands, loadCommands, mem_of_same hm, hC]
  | absSP | hlSpOffset =>
    rw [loadCommands, loadCommands, sp_of_same (h _ List.mem_cons_self)]
  | push r =>
    obtain ⟨hs, hr⟩ := sameAt_cons.mp h
    rw [loadCommands, loadCommands, sp_of_same hs, stackPair_of_same hr]
  | pop r =>
    obtain ⟨hs, hr⟩ := sameAt_cons.mp h
    obtain ⟨hh, hl⟩ := sameAt_cons.mp hr
    rw [loadCommands, loadCommands, mem_of_same hh, mem_of_same (hl _ List.mem_cons_self),
      sp_of_same hs]

theorem arithmaticCommands_of_same (n : U8) (a : Sm83.Arith)
    (h : SameAt m m' (arithPlaces m.abs a)) :
    arithmaticCommands m.abs n a = arithmaticCommands m'.abs n a := by
  cases a with
  | alu op o =>
    obtain ⟨ho, ha⟩ := sameAt_append.mp h
    rw [arithmaticCommands, arithmaticCommands, (operand8_of_same ho).1,
      accumulatorCommands_of_same _ ha]
  | aluImm op => rw [arithmaticCommands, arithmaticCommands, accumulatorCommands_of_same n h]
  | inc8 o | dec8 o =>
    obtain ⟨hv, hw⟩ := operand8_of_same h
    rw [arithmaticCommands, arithmaticCommands, hv, hw]
  | incPair q | decPair q =>
    rw [arithmaticCommands, arithmaticCommands, pair_of_same h]
  | addHL q =>
    obtain ⟨hl, hq⟩ := sameAt_append.mp h
    rw [arithmaticCommands, arithmaticCommands, pair_of_same hl, pair_of_same hq]
  | addSP => rw [arithmaticCommands, arithmaticCommands, sp_of_same (h _ List.mem_cons_self)]
  | daa | cpl | scf | ccf => rfl

/-- Two machines that agree on what a word reads emit the same commands for it. -/
theorem bodyCommands_of_same (n n' : U8) (o : Sm83.Opcode) (hpc : m.abs.pc = m'.abs.pc)
    (h : SameAt m m' (opcodePlaces m.abs n (Sm83.word n' n) o)) :
    bodyCommands m.abs n n' o = bodyCommands m'.abs n n' o := by
  cases o with
  | load l => rw [bodyCommands, bodyCommands, hpc, loadCommands_of_same n _ l h]
  | arith a => exact arithmaticCommands_of_same n a h
  | cb c =>
    cases c with
    | rot op o => rfl
    | bits op k o =>
      obtain ⟨hv, hw⟩ := operand8_of_same h
      simp only [bodyCommands, hpc, bitwiseCommands, hv, hw]
  | illegal b =>
    have hA : m.abs.reg .A = m'.abs.reg .A := reg_of_same (h _ List.mem_cons_self)
    rw [bodyCommands, bodyCommands, hA]
  | rotA r | jump j | system r => rfl

end Same

/-! ## Runs -/

/-- The emulator, seen by the queues it emits. -/
def interpreter : Dependence.Machine Executed CodeWord Place U16 CommandQueue where
  read e := e.machine.read
  reads e w := w.reads e.machine.abs
  step := EmulatorStep
  seen e := e.queue
  writes := writesOf

theorem popsPastEnd_of_same {m m' : Machine} {w : CodeWord} (h : SameAt m m' (w.reads m.abs))
    (hp : PopsPastEnd m'.abs w.opcode) : PopsPastEnd m.abs w.opcode := by
  obtain ⟨hs, q, hq⟩ := hp
  rw [CodeWord.reads, hq, sameAt_cons] at h
  exact ⟨(sp_of_same (h.2 _ List.mem_cons_self)).trans hs, q, hq⟩

/-- A step that reads the same does the same. -/
theorem step_of_same {m m' : Machine} {w : CodeWord} {e : Executed} (he : step m w = .ok e)
    (h : SameAt m m' (w.reads m.abs)) : ∃ e', step m' w = .ok e' ∧ e'.queue = e.queue := by
  have hn := (step_ok_iff m w).mp ⟨e, he⟩
  obtain ⟨e', he'⟩ := (step_ok_iff m' w).mpr fun hp => hn (popsPastEnd_of_same h hp)
  refine ⟨e', he', ?_⟩
  obtain ⟨hpc, hbody⟩ := sameAt_cons.mp h
  have hpc' : m.abs.pc = m'.abs.pc := hpc
  rw [step_queue he', step_queue he, hpc', bodyCommands_of_same _ _ _ hpc' hbody]

theorem interpreter_lawful : interpreter.Lawful where
  next := by
    intro s w t h p
    exact (congrArg (Machine.read · p) (step_machine h)).trans (read_applyQueue s.machine t.queue p)
  local_step := by
    intro s s' w t h hsame
    exact step_of_same h hsame

theorem machine_getLastD (e : Executed) (es : List Executed) :
    (es.getLastD e).machine = lastMachine e.machine es := by
  induction es generalizing e with
  | nil => rfl
  | cons e' es ih =>
    rw [List.getLastD_cons, ih]
    rfl

/-- Two machines that differ in places which a run does not read, or reads only once it has written
them, have the same run: the same commands, and in the end they differ in none of the places that
were written. -/
theorem run_noninterference (X : Set Place) (m m' : Machine) (ws : List CodeWord)
    (es : List Executed) (h : run m ws = .ok es) (hr : interpreter.ReadsNone X ⟨[], m⟩ ws es)
    (ha : ∀ p ∉ X, m.read p = m'.read p) :
    ∃ es', run m' ws = .ok es' ∧ es'.map Executed.queue = es.map Executed.queue ∧
      ∀ p, p ∉ X ∨ lastWrite p (logOf es) ≠ none →
        (lastMachine m es).read p = (lastMachine m' es').read p := by
  have ht := (run_eq_ok_iff ⟨[], m⟩ ws es).mp h
  have ha' : ∀ p ∉ X, interpreter.read ⟨[], m⟩ p = interpreter.read ⟨[], m'⟩ p := ha
  obtain ⟨es', ht, hq, hp⟩ := interpreter_lawful.trace_agree ht hr ha'
  refine ⟨es', (run_eq_ok_iff ⟨[], m'⟩ ws es').mpr ht, hq, fun p hx => ?_⟩
  have hlast : (es.getLastD ⟨[], m⟩).machine.read p = (es'.getLastD ⟨[], m'⟩).machine.read p :=
    hp p hx
  rw [machine_getLastD, machine_getLastD] at hlast
  exact hlast

/-- A machine of zeros, B apart. -/
def machineWithB (v : U8) : Machine :=
  { machineAtZero with
    processor := machineAtZero.processor.setRegisters (machineAtZero.processor.registers.put .B v) }

theorem machineWithB_read (v : U8) (p : Place) (hp : p ≠ .byte .B) :
    machineAtZero.read p = (machineWithB v).read p := by
  cases p with
  | byte r =>
    have hr : r ≠ .B := fun h => hp (congrArg Place.byte h)
    exact congrArg (BitVec.setWidth 16) (put_other _ .B r v hr).symm
  | _ => rfl

/-- `LD A, 0x42` and `LD (HL+), A` do not look at B. -/
theorem run_noninterference_B :
    ∃ es es', run machineAtZero [0x3E4200, 0x220000] = .ok es ∧
      run (machineWithB 5) [0x3E4200, 0x220000] = .ok es' ∧
      es'.map Executed.queue = es.map Executed.queue ∧
      ∀ p, p ∉ ({.byte .B} : Set Place) ∨ lastWrite p (logOf es) ≠ none →
        (lastMachine machineAtZero es).read p = (lastMachine (machineWithB 5) es').read p := by
  obtain ⟨es, h⟩ := run_ok machineAtZero [0x3E4200, 0x220000]
    (List.forall_mem_cons.mpr ⟨rfl, List.forall_mem_singleton.mpr rfl⟩)
  have hr : interpreter.ReadsNone {.byte .B} ⟨[], machineAtZero⟩ [0x3E4200, 0x220000] es := by
    refine Dependence.Machine.readsNone_of_forall _ es ?_
    have h₁ (s : Executed) : interpreter.reads s 0x3E4200 = [.programCounter] := rfl
    have h₂ (s : Executed) : interpreter.reads s 0x220000 =
        [.programCounter, .byte .A, .byte .H, .byte .L] := rfl
    rw [List.forall_mem_cons, List.forall_mem_singleton]
    simp only [h₁, h₂]
    exact ⟨by simp, by simp⟩
  obtain ⟨es', h', hq, hp⟩ :=
    run_noninterference {.byte .B} machineAtZero (machineWithB 5) _ es h hr (machineWithB_read 5)
  exact ⟨es, es', h, h', hq, hp⟩

end Beemu
