import Beemu.Registers

/-!
# Machine commands

A command is a write of a value into a named place of the machine, or a halt that ends the
cycle. The parser hands its commands on in a queue, here the list of them in order.
-/

namespace Beemu

/-- The operation of a halt is `none` where the code stores nothing in it. -/
structure HaltCommand where
  isCycleTerminator : Bool
  haltOperation : Option SystemOperation
  deriving DecidableEq, Repr

inductive InternalTarget where
  | addressBus | dataBus | programCounter | instructionRegister
  deriving DecidableEq, Repr

inductive WriteTarget where
  | register16 : Register16 → WriteTarget
  | register8 : Register8 → WriteTarget
  | memoryAddress : U16 → WriteTarget
  | flag : Flag → WriteTarget
  | ime : WriteTarget
  | internal : InternalTarget → WriteTarget
  deriving DecidableEq, Repr

/-- `is_16` is the choice of the constructor. -/
inductive WriteValue where
  | byteValue : U8 → WriteValue
  | doubleValue : U16 → WriteValue
  deriving DecidableEq, Repr

inductive MachineCommand where
  | halt : HaltCommand → MachineCommand
  | write : WriteTarget → WriteValue → MachineCommand
  deriving DecidableEq, Repr

abbrev CommandQueue := List MachineCommand

def enqueue (queue : CommandQueue) (command : MachineCommand) : CommandQueue := queue ++ [command]

namespace MachineCommand

/-- The command of `beemu_cq_halt_cycle`, and below those of the `beemu_cq_write` functions. -/
def haltCycle : MachineCommand := .halt ⟨true, none⟩

def writeReg8 (reg : Register8) (value : U8) : MachineCommand :=
  .write (.register8 reg) (.byteValue value)

def writeReg16 (reg : Register16) (value : U16) : MachineCommand :=
  .write (.register16 reg) (.doubleValue value)

def writeFlag (flag : Flag) (value : U8) : MachineCommand :=
  .write (.flag flag) (.byteValue value)

def writeIr (instructionOpcode : U8) : MachineCommand :=
  .write (.internal .instructionRegister) (.byteValue instructionOpcode)

def writePc (programCounterValue : U16) : MachineCommand :=
  .write (.internal .programCounter) (.doubleValue programCounterValue)

def writeMemory (memoryAddress : U16) (memoryValue : U8) : MachineCommand :=
  .write (.memoryAddress memoryAddress) (.byteValue memoryValue)

def isHalt : MachineCommand → Bool
  | .halt _ => true
  | .write _ _ => false

def target? : MachineCommand → Option WriteTarget
  | .halt _ => none
  | .write t _ => some t

end MachineCommand

end Beemu
