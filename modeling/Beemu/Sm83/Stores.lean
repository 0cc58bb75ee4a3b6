import Beemu.Sm83.Step

/-!
# What instructions store

The bytes that an instruction stores in memory with their addresses, in the order in which it
stores them. An instruction does nothing else to memory.
-/

namespace Sm83

/-- An address, and the byte that is stored there. -/
abbrev Store := Word × Byte

/-- Memory after some stores, one after the other. -/
def storeAll (mem : Word → Byte) (stores : List Store) : Word → Byte :=
  stores.foldl (fun mem w => Function.update mem w.1 w.2) mem

theorem storeAll_append (mem : Word → Byte) (stores stores' : List Store) :
    storeAll mem (stores ++ stores') = storeAll (storeAll mem stores) stores' :=
  List.foldl_append

section Stores

variable (n : Byte) (nn : Word) (s : State)

/-- A word that is put on the stack has its high byte stored first. -/
def pushStores (v : Word) : List Store := [(s.sp - 1, hi v), (s.sp - 2, lo v)]

/-- A byte written to an operand is stored when the operand is in memory. -/
def Operand8.stores (o : Operand8) (v : Byte) : List Store :=
  match o with
  | .reg _ => []
  | .indHL => [(s.pair .HL, v)]

def Load.stores (l : Load) : List Store :=
  match l with
  | .indReg r => [(s.pair .HL, s.reg r)]
  | .indImm => [(s.pair .HL, n)]
  | .ptrA p => [(s.pair p.pair, s.reg .A)]
  | .highImmA => [(highAddress n, s.reg .A)]
  | .highCA => [(highAddress (s.reg .C), s.reg .A)]
  | .absA => [(nn, s.reg .A)]
  | .absSP => [(nn, lo s.sp), (nn + 1, hi s.sp)]
  | .push p => pushStores s (s.stackPair p)
  | .regReg _ _ | .regInd _ | .regImm _ | .aPtr _ | .aHighImm | .aHighC | .aAbs | .pairImm _
  | .pop _ | .hlSpOffset | .spHL => []

def Arith.stores (a : Arith) : List Store :=
  match a with
  | .inc8 o => o.stores s (s.operand8 o + 1)
  | .dec8 o => o.stores s (s.operand8 o - 1)
  | .alu _ _ | .aluImm _ | .incPair _ | .decPair _ | .addHL _ | .addSP | .daa | .cpl | .scf
  | .ccf => []

def Cb.stores (c : Cb) : List Store :=
  match c with
  | .rot op o => o.stores s (op.result (s.operand8 o) (s.flag .C))
  | .bits .bit _ _ => []
  | .bits .res k o => o.stores s (putBit (s.operand8 o) k false)
  | .bits .set k o => o.stores s (putBit (s.operand8 o) k true)

/-- The stores of a jump that is taken: a call leaves the address of the next instruction. -/
def Jump.landStores (j : Jump) : List Store :=
  match j with
  | .call | .callIf _ | .rst _ => pushStores s (s.pc + BitVec.ofNat 16 j.length)
  | .jr | .jrIf _ | .jp | .jpIf _ | .jpHL | .ret | .retIf _ | .reti => []

/-- The bytes that an instruction stores, with their addresses and in the order of the bus. -/
def Opcode.stores (o : Opcode) : List Store :=
  match o with
  | .load l => l.stores n nn s
  | .arith a => a.stores s
  | .cb c => c.stores s
  | .jump j => if j.taken s then j.landStores s else []
  | .rotA _ | .system _ | .illegal _ => []

theorem setMem_eq_storeAll (a : Word) (v : Byte) :
    (s.setMem a v).mem = storeAll s.mem [(a, v)] := rfl

theorem setMem_setMem_eq_storeAll (a b : Word) (v w : Byte) :
    ((s.setMem a v).setMem b w).mem = storeAll s.mem [(a, v), (b, w)] := rfl

theorem Load.exec_mem (l : Load) : (l.exec n nn s).mem = storeAll s.mem (l.stores n nn s) := by
  cases l with
  | ptrA p | aPtr p => cases p <;> rfl
  | pairImm p | pop p => cases p <;> rfl
  | highImmA | highCA => exact setMem_eq_storeAll s _ _
  | absSP | push p => exact setMem_setMem_eq_storeAll s _ _ _ _
  | _ => rfl

theorem Load.execMasked_mem (l : Load) :
    (l.execMasked n nn s).mem = storeAll s.mem (l.stores n nn s) := by
  by_cases hl : l = .pop .AF
  · subst hl
    rfl
  · rw [l.execMasked_eq hl, l.exec_mem]

theorem setOperand8_mem (o : Operand8) (v : Byte) :
    (s.setOperand8 o v).mem = storeAll s.mem (o.stores s v) := by
  cases o <;> rfl

theorem Arith.exec_mem (a : Arith) : (a.exec n s).mem = storeAll s.mem (a.stores s) := by
  cases a with
  | inc8 o | dec8 o => exact setOperand8_mem s o _
  | alu op o | aluImm op => cases op <;> rfl
  | incPair q | decPair q => cases q <;> rfl
  | addHL q | addSP | daa | cpl | scf | ccf => rfl

theorem Cb.exec_mem (c : Cb) : (c.exec s).mem = storeAll s.mem (c.stores s) := by
  cases c with
  | rot op o => exact setOperand8_mem s o _
  | bits op k o =>
    cases op with
    | bit => rfl
    | res | set => exact setOperand8_mem s o _

theorem Jump.land_mem (j : Jump) : (j.land n nn s).mem = storeAll s.mem (j.landStores s) := by
  cases j <;> rfl

/-- The stores of an instruction are all that it does to memory. -/
theorem Opcode.exec_mem (o : Opcode) (t : State) (h : o.exec n nn s = some t) :
    t.mem = storeAll s.mem (o.stores n nn s) := by
  cases o with
  | load l =>
    rw [← Option.some.inj h]
    exact l.execMasked_mem n nn s
  | arith a =>
    rw [← Option.some.inj h]
    exact a.exec_mem n s
  | cb c =>
    rw [← Option.some.inj h]
    exact c.exec_mem s
  | jump j =>
    rw [← Option.some.inj h, Jump.exec, Opcode.stores]
    split_ifs
    · exact j.land_mem n nn s
    · rfl
  | rotA r | system r =>
    rw [← Option.some.inj h]
    rfl
  | illegal b => cases h

end Stores

end Sm83
