import Beemu.Command
import Beemu.Memory
import Beemu.Sm83.Exec
import Beemu.Token

/-!
# The machine that commands act on

`docs/interpreter.md` gives the commands their meaning: a write sets its place to its value, a
halt waits for the next cycle. `abs` forgets the layout of the registers and the memory, and
every write becomes a `set` of the abstract state.
-/

namespace Beemu

open Sm83 (Reg8 Pair StackPair)

/-- The processor, and the internal places that a command can name. -/
structure Machine where
  processor : Processor
  ime : Bool
  addressBus : U16
  dataBus : U8
  instructionRegister : U8

/-- A machine of zeros. -/
def machineAtZero : Machine := ⟨⟨⟨fun _ => 0, 0, 0, 0⟩, ⟨fun _ => 0⟩⟩, false, 0, 0, 0⟩

/-- The flag of the instruction set that a flag of the code stands for. -/
def flagOf : Flag → Sm83.Flag
  | .Z => .Z
  | .N => .N
  | .H => .H
  | .C => .C

/-- The value as a byte, a double one cut to its low half. -/
def WriteValue.byte : WriteValue → U8
  | .byteValue v => v
  | .doubleValue v => v.setWidth 8

/-- The value as a word. -/
def WriteValue.double : WriteValue → U16
  | .byteValue v => v.setWidth 16
  | .doubleValue v => v

namespace Processor

def setRegisters (p : Processor) (r : Registers) : Processor := { p with registers := r }

/-- A named register with a value stored in it, BC as well: a command is not carried out by the
write function of the register file. -/
def write (p : Processor) (r : Register) (v : U16) : Processor :=
  p.setRegisters (p.registers.store r v)

/-- A byte stored at an address, all of which are inside the memory. -/
def writeMemory (p : Processor) (a : U16) (v : U8) : Processor :=
  { p with memory := { p.memory with
    memory := Function.update p.memory.memory (deviceCell a) v } }

/-- A flag is set by every value but zero. -/
def writeFlag (p : Processor) (f : Flag) (v : U8) : Processor :=
  p.setRegisters { p.registers with
    flags := Sm83.setFlag p.registers.flags (flagOf f) (v != 0) }

end Processor

/-- What a write does to its target. -/
def Machine.set (m : Machine) (target : WriteTarget) (value : WriteValue) : Machine :=
  match target with
  | .register16 r => { m with processor := m.processor.write (.sixteenBit r) value.double }
  | .register8 r => { m with processor := m.processor.write (.eightBit r) value.double }
  | .memoryAddress a => { m with processor := m.processor.writeMemory a value.byte }
  | .flag f => { m with processor := m.processor.writeFlag f value.byte }
  | .ime => { m with ime := value.byte != 0 }
  | .internal .addressBus => { m with addressBus := value.double }
  | .internal .dataBus => { m with dataBus := value.byte }
  | .internal .programCounter =>
    { m with processor := m.processor.write (.sixteenBit .PC) value.double }
  | .internal .instructionRegister => { m with instructionRegister := value.byte }

/-- A halt ends a cycle and does nothing else. -/
def applyCommand (m : Machine) : MachineCommand → Machine
  | .halt _ => m
  | .write target value => m.set target value

/-- The commands of a queue carried out in order. -/
def applyQueue (m : Machine) (queue : CommandQueue) : Machine := queue.foldl applyCommand m

@[simp] theorem applyQueue_nil (m : Machine) : applyQueue m [] = m := rfl
@[simp] theorem applyQueue_cons (m : Machine) (c : MachineCommand) (q : CommandQueue) :
    applyQueue m (c :: q) = applyQueue (applyCommand m c) q := rfl
theorem applyQueue_append (m : Machine) (q q' : CommandQueue) :
    applyQueue m (q ++ q') = applyQueue (applyQueue m q) q' := List.foldl_append

/-! ## The abstract state -/

/-- What an instruction can see of a processor. -/
def Processor.abs (p : Processor) : Sm83.State where
  reg r := p.registers.registers (register8Of r)
  f := p.registers.flags
  sp := p.registers.stackPointer
  pc := p.registers.programCounter
  mem a := p.memory.at a

def Machine.abs (m : Machine) : Sm83.State := m.processor.abs

section Reads

variable (p : Processor)

@[simp] theorem abs_reg (r : Reg8) : p.registers.registers (register8Of r) = p.abs.reg r := rfl
@[simp] theorem abs_flags : p.registers.flags = p.abs.f := rfl
@[simp] theorem abs_stackPointer : p.registers.stackPointer = p.abs.sp := rfl
@[simp] theorem abs_programCounter : p.registers.programCounter = p.abs.pc := rfl
@[simp] theorem abs_mem (a : U16) : p.memory.at a = p.abs.mem a := rfl

@[simp] theorem read_register8Of (r : Reg8) :
    registersReadRegisterValue p.registers (.eightBit (register8Of r)) =
      .ok ((p.abs.reg r).setWidth 16) := rfl

/-- A pair is read as the word of its two halves. -/
@[simp] theorem read_register16Of (q : Pair) :
    registersReadRegisterValue p.registers (.sixteenBit (register16Of q)) =
      .ok (p.abs.pair q) := by
  cases q <;> exact read_eq_value _ _ (by decide)

@[simp] theorem read_stackRegister16Of (q : StackPair) :
    registersReadRegisterValue p.registers (.sixteenBit (stackRegister16Of q)) =
      .ok (p.abs.stackPair q) := by
  cases q <;> exact read_eq_value _ _ (by decide)

end Reads

section Writes

variable (p : Processor)

/-- One byte register is set and the others are kept. -/
theorem put_abs (r : Reg8) (v : U8) :
    (p.setRegisters (p.registers.put (register8Of r) v)).abs = p.abs.setReg r v := by
  have h : (fun q => (p.registers.put (register8Of r) v).registers (register8Of q)) =
      Function.update p.abs.reg r v :=
    Function.update_comp_eq_of_injective _ register8Of_injective r v
  exact Sm83.State.ext h rfl rfl rfl rfl

/-- The low byte of a word, masked first or not. -/
theorem setWidth_and_low (v : U16) : (v &&& 0xFF).setWidth 8 = Sm83.lo v := by
  ext i hi
  interval_cases i <;> simp [Sm83.lo]

/-- Two byte registers are stored one after the other. -/
theorem putPair_abs (h l : Reg8) (v : U16) :
    (p.setRegisters ((p.registers.put (register8Of h) ((v >>> 8).setWidth 8)).put (register8Of l)
      ((v &&& 0xFF).setWidth 8))).abs = p.abs.setRegs h l v := by
  rw [setWidth_and_low]
  refine (put_abs (p.setRegisters (p.registers.put (register8Of h) (Sm83.hi v))) l _).trans ?_
  rw [put_abs p h]
  rfl

/-- A byte register takes the low byte of the value. -/
theorem write_register8_abs (r : Reg8) (v : U16) :
    (p.write (.eightBit (register8Of r)) v).abs = p.abs.setReg r (v.setWidth 8) :=
  put_abs p r _

/-- A pair that is written is set. -/
theorem write_register16_abs (q : Pair) (v : U16) :
    (p.write (.sixteenBit (register16Of q)) v).abs = p.abs.setPair q v := by
  cases q with
  | BC => exact putPair_abs p .B .C v
  | DE => exact putPair_abs p .D .E v
  | HL => exact putPair_abs p .H .L v
  | SP => rfl

/-- AF is set as A and the flag byte. -/
theorem write_stackRegister16_abs (q : StackPair) (v : U16) :
    (p.write (.sixteenBit (stackRegister16Of q)) v).abs = p.abs.setStackPair q v := by
  cases q with
  | BC => exact write_register16_abs p .BC v
  | DE => exact write_register16_abs p .DE v
  | HL => exact write_register16_abs p .HL v
  | AF =>
    have h : (p.write (.sixteenBit .AF) v).abs =
        (p.setRegisters (p.registers.put (register8Of .A) ((v >>> 8).setWidth 8))).abs.setF
          ((v &&& 0xFF).setWidth 8) := rfl
    rw [stackRegister16Of, h, put_abs, setWidth_and_low]
    rfl

/-- One byte of memory is set and the others are kept. -/
theorem writeMemory_abs (a : U16) (v : U8) :
    (p.writeMemory a v).abs = p.abs.setMem a v :=
  Sm83.State.ext rfl rfl rfl rfl (p.memory.at_update a v)

end Writes

section Commands

variable (m : Machine)

/-- The commands of the parser, each as a `set` of the abstract state. A halt is none. -/
@[simp] theorem apply_haltCycle : (applyCommand m .haltCycle).abs = m.abs := rfl

@[simp] theorem apply_writeReg8 (r : Reg8) (v : U8) :
    (applyCommand m (.writeReg8 (register8Of r) v)).abs = m.abs.setReg r v := by
  refine (write_register8_abs m.processor r _).trans ?_
  simp [WriteValue.double, Machine.abs]

@[simp] theorem apply_writeReg16 (q : Pair) (v : U16) :
    (applyCommand m (.writeReg16 (register16Of q) v)).abs = m.abs.setPair q v :=
  write_register16_abs m.processor q v

@[simp] theorem apply_writeStackReg16 (q : StackPair) (v : U16) :
    (applyCommand m (.writeReg16 (stackRegister16Of q) v)).abs = m.abs.setStackPair q v :=
  write_stackRegister16_abs m.processor q v

@[simp] theorem apply_writeMemory (a : U16) (v : U8) :
    (applyCommand m (.writeMemory a v)).abs = m.abs.setMem a v :=
  writeMemory_abs m.processor a v

@[simp] theorem apply_writeFlag (f : Flag) (v : U8) :
    (applyCommand m (.writeFlag f v)).abs = m.abs.setFlag (flagOf f) (v != 0) := rfl

@[simp] theorem apply_writePc (v : U16) : (applyCommand m (.writePc v)).abs = m.abs.setPc v := rfl

/-- IR is not part of the abstract state. -/
@[simp] theorem apply_writeIr (v : U8) : (applyCommand m (.writeIr v)).abs = m.abs := rfl

end Commands

end Beemu
