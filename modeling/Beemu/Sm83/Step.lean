import Beemu.Sm83.Bits
import Beemu.Sm83.Jump

/-!
# Whole instructions

What an instruction does to a state, PC included, which stands at the opcode before and at the
next instruction after. A byte that is no instruction has no state after it. The interrupt switch
and the halted mode are not part of a state, so that EI, DI and HALT only move PC.
-/

namespace Sm83

namespace RotOp

/-- The bit that a rotation or a shift moves out of a byte, none for a swap. -/
def carryOut (op : RotOp) (v : Byte) : Bool :=
  match op with
  | .rlc | .rl | .sla => v.getLsbD 7
  | .rrc | .rr | .sra | .srl => v.getLsbD 0
  | .swap => false

/-- The byte that is left, with `c` moved in by a rotation through C. -/
def result (op : RotOp) (v : Byte) (c : Bool) : Byte :=
  match op with
  | .rlc => v.rotateLeft 1
  | .rrc => v.rotateRight 1
  | .rl => v <<< 1 ||| (BitVec.ofBool c).setWidth 8
  | .rr => v >>> 1 ||| (BitVec.ofBool c).setWidth 8 <<< 7
  | .sla => v <<< 1
  | .sra => v.sshiftRight 1
  | .swap => v.rotateLeft 4
  | .srl => v >>> 1

def exec (op : RotOp) (o : Operand8) (s : State) : State :=
  let v := s.operand8 o
  let r := op.result v (s.flag .C)
  (s.setOperand8 o r).setZnhc (r = 0) false false (op.carryOut v)

end RotOp

namespace RotA

/-- The rotation with a CB prefix that does the same to A. -/
def rotOp : RotA → RotOp
  | .rlca => .rlc
  | .rrca => .rrc
  | .rla => .rl
  | .rra => .rr

/-- Z is reset, whatever is left in A. -/
def exec (r : RotA) (s : State) : State :=
  (s.setReg .A (r.rotOp.result (s.reg .A) (s.flag .C))).setZnhc false false false
    (r.rotOp.carryOut (s.reg .A))

end RotA

def Cb.exec (c : Cb) (s : State) : State :=
  match c with
  | .rot op o => op.exec o s
  | .bits op n o => op.exec n o s

/-- The flag byte with the bits cleared that are no flags. -/
def State.maskF (s : State) : State := s.setF (s.f &&& 0xF0)

/-- A load as an instruction. F has no bits but its flags, so that a POP AF drops the low half of
the byte that it finds. -/
def Load.execMasked (l : Load) (n : Byte) (nn : Word) (s : State) : State :=
  match l with
  | .pop .AF => ((Load.pop .AF).exec n nn s).maskF
  | l => l.exec n nn s

theorem Load.execMasked_eq (l : Load) (hl : l ≠ .pop .AF) (n : Byte) (nn : Word) (s : State) :
    l.execMasked n nn s = l.exec n nn s := by
  cases l with
  | pop p =>
    cases p with
    | AF => exact absurd rfl hl
    | BC | DE | HL => rfl
  | _ => rfl

/-- A word put on the stack, high byte first. -/
def State.pushWord (s : State) (v : Word) : State :=
  ((s.setMem (s.sp - 1) (hi v)).setMem (s.sp - 2) (lo v)).setSp (s.sp - 2)

/-- The word on top of the stack. -/
def State.topWord (s : State) : Word := word (s.mem (s.sp + 1)) (s.mem s.sp)

/-- Where a jump goes that is taken. -/
def Jump.land (j : Jump) (n : Byte) (nn : Word) (s : State) : State :=
  let next := s.pc + BitVec.ofNat 16 j.length
  match j with
  | .jr | .jrIf _ => s.setPc (relativeTarget s.pc n)
  | .jp | .jpIf _ => s.setPc nn
  | .jpHL => s.setPc (s.pair .HL)
  | .call | .callIf _ => (s.pushWord next).setPc nn
  | .ret | .retIf _ | .reti => (s.setSp (s.sp + 2)).setPc s.topWord
  | .rst k => (s.pushWord next).setPc (k.setWidth 16 * 8)

def Jump.exec (j : Jump) (n : Byte) (nn : Word) (s : State) : State :=
  if j.taken s then j.land n nn s else s.setPc (s.pc + BitVec.ofNat 16 j.length)

/-- An instruction with its operand as a byte and as a word. -/
def Opcode.exec (o : Opcode) (n : Byte) (nn : Word) (s : State) : Option State :=
  let next := s.pc + BitVec.ofNat 16 o.length
  match o with
  | .load l => some ((l.execMasked n nn s).setPc next)
  | .arith a => some ((a.exec n s).setPc next)
  | .rotA r => some ((r.exec s).setPc next)
  | .cb c => some ((c.exec s).setPc next)
  | .jump j => some (j.exec n nn s)
  | .system _ => some (s.setPc next)
  | .illegal _ => none

end Sm83
