import Beemu.Sm83.State

/-!
# Conditional jumps

A conditional jump asks for a flag, and is otherwise the jump of its kind that asks for none.
-/

namespace Sm83

/-- Whether the flags are as a condition asks. -/
def Cond.holds (s : State) : Cond → Bool
  | .NZ => !s.flag .Z
  | .Z => s.flag .Z
  | .NC => !s.flag .C
  | .C => s.flag .C

namespace Jump

def condition? : Jump → Option Cond
  | .jrIf c | .jpIf c | .callIf c | .retIf c => some c
  | .jr | .jp | .jpHL | .call | .ret | .reti | .rst _ => none

/-- The jump of the same kind that is always taken. -/
def always : Jump → Jump
  | .jrIf _ => .jr
  | .jpIf _ => .jp
  | .callIf _ => .call
  | .retIf _ => .ret
  | j => j

/-- The condition is written in bits 3 and 4 of the opcode. -/
theorem condition?_eq_ofBits (j : Jump) (h : j.condition? ≠ none) :
    j.condition? = some (Cond.ofBits (j.byte.extractLsb' 3 2)) := by
  cases j with
  | jrIf c | jpIf c | callIf c | retIf c => cases c <;> rfl
  | _ => exact absurd rfl h

/-- A relative jump counts from the end of its two bytes. -/
def relativeTarget (pc : Word) (e : Byte) : Word := pc + 2 + e.signExtend 16

/-- The address of a restart is a field of its opcode. -/
theorem restart_address (k : BitVec 3) :
    k.setWidth 16 * 8 = ((Jump.rst k).byte &&& 0x38).setWidth 16 :=
  forall_bits3 (fun k => k.setWidth 16 * 8 = ((Jump.rst k).byte &&& 0x38).setWidth 16)
    rfl rfl rfl rfl rfl rfl rfl rfl k

theorem decode_byte (j : Jump) (b : Byte) : decode j.byte b = .jump j := by
  cases j with
  | jrIf c | jpIf c | callIf c | retIf c => cases c <;> rfl
  | rst n =>
    exact forall_bits3 (fun n => decode (Jump.rst n).byte b = .jump (.rst n))
      rfl rfl rfl rfl rfl rfl rfl rfl n
  | _ => rfl

/-- Whether a jump is taken in a state. -/
def taken (s : State) (j : Jump) : Bool := j.condition?.all (·.holds s)

@[simp] theorem condition?_always (j : Jump) : j.always.condition? = none := by cases j <;> rfl

theorem taken_of_unconditional (s : State) (j : Jump) (h : j.condition? = none) :
    j.taken s = true := by
  rw [taken, h]
  rfl

theorem taken_of_condition (s : State) (j : Jump) (c : Cond) (h : j.condition? = some c) :
    j.taken s = c.holds s := by
  rw [taken, h]
  rfl

end Jump

end Sm83
