import Beemu.Lib.History
import Beemu.Machine

/-!
# The places of a machine

A machine is a set of places that are stored apart, down to the bits of the flag byte, and a
command is a list of writes to them. No command reads a place, so that a queue of commands is a
log: it leaves in each place what the log wrote there last.
-/

namespace Beemu

open History (lastWrite)

/-- What a command can write, cut so small that two writes meet in all of a place or not at all. -/
inductive Place where
  | byte : Register8 → Place
  | flagBit : Fin 8 → Place
  | stackPointer : Place
  | programCounter : Place
  | memory : Fin deviceMemorySize → Place
  | ime : Place
  | addressBus : Place
  | dataBus : Place
  | instructionRegister : Place
  deriving DecidableEq

/-- A truth value as a place holds it. -/
def bitValue (b : Bool) : U16 := (BitVec.ofBool b).setWidth 16

def Registers.read (s : Registers) : Place → U16
  | .byte r => (s.registers r).setWidth 16
  | .flagBit i => bitValue (s.flags.getLsbD i)
  | .stackPointer => s.stackPointer
  | .programCounter => s.programCounter
  | _ => 0

def Machine.read (m : Machine) : Place → U16
  | .memory i => (m.processor.memory.memory i).setWidth 16
  | .ime => bitValue m.ime
  | .addressBus => m.addressBus
  | .dataBus => m.dataBus.setWidth 16
  | .instructionRegister => m.instructionRegister.setWidth 16
  | p => m.processor.registers.read p

def Cell.writes (v : U16) : Cell → List (Place × U16)
  | .byte r => [(.byte r, (v.setWidth 8).setWidth 16)]
  | .flags => (List.finRange 8).map fun i => (.flagBit i, bitValue (v.getLsbD i))
  | .stackPointer => [(.stackPointer, v)]
  | .programCounter => [(.programCounter, v)]

/-- A named register that has two cells takes a half of the value in each. -/
def Register.writes (r : Register) (v : U16) : List (Place × U16) :=
  match r.cells with
  | [hi, lo] => hi.writes (v >>> 8) ++ lo.writes (v &&& 0xFF)
  | [c] => c.writes v
  | _ => []

def Flag.place (f : Flag) : Fin 8 :=
  match f with
  | .Z => 7
  | .N => 6
  | .H => 5
  | .C => 4

def WriteTarget.writes (target : WriteTarget) (value : WriteValue) : List (Place × U16) :=
  match target with
  | .register16 r => (Register.sixteenBit r).writes value.double
  | .register8 r => (Register.eightBit r).writes value.double
  | .memoryAddress a => [(.memory (deviceCell a), value.byte.setWidth 16)]
  | .flag f => [(.flagBit f.place, bitValue (value.byte != 0))]
  | .ime => [(.ime, bitValue (value.byte != 0))]
  | .internal .addressBus => [(.addressBus, value.double)]
  | .internal .dataBus => [(.dataBus, value.byte.setWidth 16)]
  | .internal .programCounter => [(.programCounter, value.double)]
  | .internal .instructionRegister => [(.instructionRegister, value.byte.setWidth 16)]

def MachineCommand.writes : MachineCommand → List (Place × U16)
  | .halt _ => []
  | .write target value => target.writes value

/-- What the commands of a queue write, in order. -/
def writesOf (queue : CommandQueue) : List (Place × U16) := queue.flatMap MachineCommand.writes

section Read

theorem widen_inj {a b : U8} (h : a.setWidth 16 = b.setWidth 16) : a = b := by
  rw [← narrow_widen a, ← narrow_widen b, h]

theorem bitValue_inj : ∀ {a b : Bool}, bitValue a = bitValue b → a = b := by decide

theorem Registers.ext_read {s t : Registers} (h : ∀ p, s.read p = t.read p) : s = t := by
  have hr : s.registers = t.registers := by
    funext r
    exact widen_inj (h (.byte r))
  have hf : s.flags = t.flags := by
    ext i hi
    exact bitValue_inj (h (.flagBit ⟨i, hi⟩))
  have hs : s.stackPointer = t.stackPointer := h .stackPointer
  have hp : s.programCounter = t.programCounter := h .programCounter
  cases s
  cases t
  simp only [Registers.mk.injEq]
  exact ⟨hr, hf, hs, hp⟩

/-- Machines with the same places are the same. -/
theorem Machine.ext_read {m n : Machine} (h : ∀ p, m.read p = n.read p) : m = n := by
  have hr : m.processor.registers = n.processor.registers := by
    apply Registers.ext_read
    intro p
    cases p <;> first | rfl | exact h (.byte _) | exact h (.flagBit _) | exact h .stackPointer |
      exact h .programCounter
  have hm : m.processor.memory.memory = n.processor.memory.memory := by
    funext i
    exact widen_inj (h (.memory i))
  have hi : m.ime = n.ime := bitValue_inj (h .ime)
  have ha : m.addressBus = n.addressBus := h .addressBus
  have hd : m.dataBus = n.dataBus := widen_inj (h .dataBus)
  have hir : m.instructionRegister = n.instructionRegister := widen_inj (h .instructionRegister)
  obtain ⟨⟨mr, ⟨mm⟩⟩, _, _, _, _⟩ := m
  obtain ⟨⟨nr, ⟨nm⟩⟩, _, _, _, _⟩ := n
  simp only [Machine.mk.injEq, Processor.mk.injEq, Memory.mk.injEq]
  exact ⟨⟨hr, hm⟩, hi, ha, hd, hir⟩

end Read

section Write

variable (m : Machine) (s : Registers) (v : U16) (p : Place)

theorem read_setCell (c : Cell) :
    (s.setCell c v).read p = (lastWrite p (c.writes v)).getD (s.read p) := by
  cases c with
  | byte r =>
    cases p with
    | byte q =>
      by_cases h : r = q
      · subst h
        simp [Registers.setCell, Registers.read, Cell.writes, lastWrite]
      · simp [Registers.setCell, Registers.read, Cell.writes, lastWrite, h,
          put_other _ _ _ _ (Ne.symm h)]
    | _ => rfl
  | flags =>
    cases p with
    | flagBit i =>
      have hf : Function.Injective Place.flagBit := fun _ _ h => Place.flagBit.inj h
      have hb : (v.setWidth 8).getLsbD i.val = v.getLsbD i.val := by simp
      rw [Cell.writes, History.lastWrite_map _ hf, if_pos (List.mem_finRange i), Option.getD_some,
        ← hb]
      rfl
    | _ => rfl
  | stackPointer | programCounter => cases p <;> rfl

/-- A register write is the writes to the places that it is made of. -/
theorem read_store (r : Register) :
    (s.store r v).read p = (lastWrite p (r.writes v)).getD (s.read p) := by
  unfold Registers.store Register.writes
  generalize r.cells = cells
  match cells with
  | [hi, lo] => rw [read_setCell, read_setCell, History.lastWrite_append, Option.getD_or]
  | [c] => exact read_setCell s v p c
  | [] | _ :: _ :: _ :: _ => rfl

def Place.inRegisters : Place → Bool
  | .byte _ | .flagBit _ | .stackPointer | .programCounter => true
  | .memory _ | .ime | .addressBus | .dataBus | .instructionRegister => false

theorem lastWrite_register_of_not (r : Register) (h : p.inRegisters = false) :
    lastWrite p (r.writes v) = none := by
  cases p with
  | byte q | flagBit i | stackPointer | programCounter => cases h
  | memory i | ime | addressBus | dataBus | instructionRegister =>
    cases r with
    | eightBit r => rfl
    | sixteenBit r => cases r <;> rfl

theorem read_write (r : Register) :
    Machine.read { m with processor := m.processor.write r v } p =
      (lastWrite p (r.writes v)).getD (m.read p) := by
  have hstore := read_store m.processor.registers v p r
  have hother := lastWrite_register_of_not v p r
  cases p with
  | byte q | flagBit i | stackPointer | programCounter => exact hstore
  | memory i | ime | addressBus | dataBus | instructionRegister =>
    rw [hother rfl]
    rfl

theorem read_writeMemory (a : U16) (b : U8) :
    Machine.read { m with processor := m.processor.writeMemory a b } p =
      (lastWrite p [(.memory (deviceCell a), b.setWidth 16)]).getD (m.read p) := by
  cases p with
  | memory i =>
    rw [History.lastWrite_singleton]
    by_cases h : deviceCell a = i
    · subst h
      rw [if_pos rfl]
      exact congrArg (BitVec.setWidth 16) (Function.update_self ..)
    · rw [if_neg fun he => h (Place.memory.inj he)]
      exact congrArg (BitVec.setWidth 16) (Function.update_of_ne (Ne.symm h) ..)
  | _ => rfl

theorem place_pos (f : Flag) : f.place.val = (flagOf f).pos := by cases f <;> rfl

theorem read_writeFlag (f : Flag) (b : U8) :
    Machine.read { m with processor := m.processor.writeFlag f b } p =
      (lastWrite p [(.flagBit f.place, bitValue (b != 0))]).getD (m.read p) := by
  cases p with
  | flagBit i =>
    rw [History.lastWrite_singleton]
    refine (congrArg bitValue (Sm83.getLsbD_setFlag _ (flagOf f) (b != 0) i)).trans ?_
    by_cases h : i.val = (flagOf f).pos
    · have hi : f.place = i := Fin.ext ((place_pos f).trans h.symm)
      rw [if_pos h, hi, if_pos rfl]
      rfl
    · have hi : f.place ≠ i := fun he => h (by rw [← he, place_pos])
      rw [if_neg h, if_neg fun he => hi (Place.flagBit.inj he)]
      rfl
  | _ => rfl

/-- A write leaves its own values in its places, and every other place as it is. -/
theorem read_set (target : WriteTarget) (value : WriteValue) :
    (m.set target value).read p = (lastWrite p (target.writes value)).getD (m.read p) := by
  cases target with
  | register16 r => exact read_write m value.double p (.sixteenBit r)
  | register8 r => exact read_write m value.double p (.eightBit r)
  | memoryAddress a => exact read_writeMemory m p a value.byte
  | flag f => exact read_writeFlag m p f value.byte
  | ime => cases p <;> rfl
  | internal i =>
    cases i with
    | programCounter => exact read_write m value.double p (.sixteenBit .PC)
    | addressBus | dataBus | instructionRegister => cases p <;> rfl

/-- A command leaves in each place the last value that it writes there, and the other places alone.
-/
theorem read_applyCommand (c : MachineCommand) :
    (applyCommand m c).read p = (lastWrite p c.writes).getD (m.read p) := by
  cases c with
  | halt h => rfl
  | write target value => exact read_set m p target value

end Write

/-- A queue is a log: each place ends with what was written to it last, or keeps what it held. -/
theorem read_applyQueue (m : Machine) (queue : CommandQueue) (p : Place) :
    (applyQueue m queue).read p = (lastWrite p (writesOf queue)).getD (m.read p) := by
  induction queue generalizing m with
  | nil => rfl
  | cons c queue ih =>
    have hw : writesOf (c :: queue) = c.writes ++ writesOf queue := List.flatMap_cons
    rw [applyQueue_cons, ih, read_applyCommand, hw, History.lastWrite_append, Option.getD_or]

end Beemu
