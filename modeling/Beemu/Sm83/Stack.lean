import Beemu.Sm83.Exec

/-!
# PUSH and POP as a list of words

The memory from SP upwards holds a list of words, low byte first, the last one pushed foremost.
A PUSH puts a word in front of the list and a POP takes it away, as long as the list does not
run into address 0.
-/

namespace Sm83

inductive StackOp where
  | push : StackPair → StackOp
  | pop : StackPair → StackOp
  deriving DecidableEq, Repr

namespace StackOp

def load : StackOp → Load
  | .push p => .push p
  | .pop p => .pop p

def delta : StackOp → Int
  | .push _ => 1
  | .pop _ => -1

/-- What an operation does to the registers and to a list of words. -/
def Acts (op : StackOp) (s s' : State) (items items' : List Word) : Prop :=
  match op with
  | .push p => items' = s.stackPair p :: items ∧ s'.reg = s.reg ∧ s'.f = s.f
  | .pop p => ∃ v, items = v :: items' ∧ s'.reg = (s.setStackPair p v).reg ∧
      s'.f = (s.setStackPair p v).f

end StackOp

/-- The number of pushes that are not popped. -/
def depth (ops : List StackOp) : Int := (ops.map StackOp.delta).sum

@[simp] theorem depth_nil : depth [] = 0 := rfl
@[simp] theorem depth_cons (op : StackOp) (ops : List StackOp) :
    depth (op :: ops) = op.delta + depth ops := List.sum_cons

/-- The words of a list are stored from address `a` on. -/
def StoredAt (mem : Word → Byte) : Nat → List Word → Prop
  | _, [] => True
  | a, v :: vs => mem (BitVec.ofNat 16 a) = lo v ∧ mem (BitVec.ofNat 16 (a + 1)) = hi v ∧
      StoredAt mem (a + 2) vs

theorem StoredAt.congr {mem mem' : Word → Byte} {a : Nat} {items : List Word}
    (h : StoredAt mem a items)
    (hm : ∀ b, a ≤ b → b < a + 2 * items.length →
      mem' (BitVec.ofNat 16 b) = mem (BitVec.ofNat 16 b)) : StoredAt mem' a items := by
  induction items generalizing a with
  | nil => trivial
  | cons v vs ih =>
    obtain ⟨h₀, h₁, hs⟩ := h
    rw [List.length_cons] at hm
    refine ⟨?_, ?_, ih hs fun b hb hb' => hm b (by omega) (by omega)⟩
    · rw [hm a (by omega) (by omega), h₀]
    · rw [hm (a + 1) (by omega) (by omega), h₁]

/-- Addresses below 2 ^ 16 are different when their numbers are. -/
theorem ofNat_ne {a b : Nat} (ha : a < 65536) (hb : b < 65536) (hab : a ≠ b) :
    BitVec.ofNat 16 a ≠ BitVec.ofNat 16 b := by
  intro he
  have ht := congrArg BitVec.toNat he
  rw [BitVec.toNat_ofNat, BitVec.toNat_ofNat] at ht
  omega

theorem sub_eq_ofNat (w : Word) (k : Nat) (hk : k ≤ w.toNat) :
    w - BitVec.ofNat 16 k = BitVec.ofNat 16 (w.toNat - k) := by
  have hw := w.isLt
  apply BitVec.eq_of_toNat_eq
  rw [BitVec.toNat_sub, BitVec.toNat_ofNat, BitVec.toNat_ofNat]
  omega

theorem toNat_sub_ofNat (w : Word) (k : Nat) (hk : k ≤ w.toNat) :
    (w - BitVec.ofNat 16 k).toNat = w.toNat - k := by
  have hw := w.isLt
  rw [sub_eq_ofNat w k hk, BitVec.toNat_ofNat]
  omega

theorem add_eq_ofNat (w : Word) (k : Nat) :
    w + BitVec.ofNat 16 k = BitVec.ofNat 16 (w.toNat + k) := by
  rw [BitVec.ofNat_add, BitVec.ofNat_toNat, BitVec.setWidth_eq]

theorem toNat_add_ofNat (w : Word) (k : Nat) (hk : w.toNat + k < 65536) :
    (w + BitVec.ofNat 16 k).toNat = w.toNat + k := by
  rw [add_eq_ofNat, BitVec.toNat_ofNat]
  omega

/-- A word stored below a list is the first one of a longer list. -/
theorem StoredAt.cons {mem : Word → Byte} {a : Nat} {items : List Word}
    (h : StoredAt mem (a + 2) items) (ha : a + 2 * (items.length + 1) ≤ 65536) (v : Word) :
    StoredAt (Function.update (Function.update mem (BitVec.ofNat 16 a) (lo v))
      (BitVec.ofNat 16 (a + 1)) (hi v)) a (v :: items) := by
  refine ⟨?_, Function.update_self .., h.congr fun b hb hb' => ?_⟩
  · rw [Function.update_of_ne (ofNat_ne (by omega) (by omega) (by omega)), Function.update_self]
  · rw [Function.update_of_ne (ofNat_ne (by omega) (by omega) (by omega)),
      Function.update_of_ne (ofNat_ne (by omega) (by omega) (by omega))]

theorem StoredAt.head {mem : Word → Byte} {a : Nat} {v : Word} {items : List Word}
    (h : StoredAt mem a (v :: items)) :
    word (mem (BitVec.ofNat 16 (a + 1))) (mem (BitVec.ofNat 16 a)) = v := by
  obtain ⟨hl, hh, -⟩ := h
  rw [hl, hh]
  exact word_hi_lo v

/-- A list of words between SP and the address `s0` where the stack started. -/
structure HoldsStack (s0 : Nat) (s : State) (items : List Word) : Prop where
  sp : s.sp.toNat + 2 * items.length = s0
  stored : StoredAt s.mem s.sp.toNat items

namespace HoldsStack

variable {s0 : Nat} {s : State} {items : List Word}

theorem empty (s : State) : HoldsStack s.sp.toNat s [] := ⟨rfl, trivial⟩

theorem setPc (h : HoldsStack s0 s items) (pc : Word) : HoldsStack s0 (s.setPc pc) items :=
  ⟨h.sp, h.stored⟩

/-- A PUSH writes the two bytes below the list. -/
theorem push (h : HoldsStack s0 s items) (hr : 2 * (items.length + 1) ≤ s0) (hs : s0 < 65536)
    (p : StackPair) (n : Byte) (nn : Word) :
    HoldsStack s0 ((Load.push p).exec n nn s) (s.stackPair p :: items) := by
  have hsp := h.sp
  have h₁ : s.sp - 1 = BitVec.ofNat 16 (s.sp.toNat - 1) := sub_eq_ofNat _ 1 (by omega)
  have h₂ : s.sp - 2 = BitVec.ofNat 16 (s.sp.toNat - 2) := sub_eq_ofNat _ 2 (by omega)
  have ht : (s.sp - 2).toNat = s.sp.toNat - 2 := toNat_sub_ofNat _ 2 (by omega)
  constructor
  · change (s.sp - 2).toNat + 2 * (items.length + 1) = s0
    omega
  · have ha₁ : s.sp.toNat - 1 = s.sp.toNat - 2 + 1 := by omega
    have ha₂ : s.sp.toNat - 2 + 2 = s.sp.toNat := by omega
    change StoredAt (Function.update (Function.update s.mem (s.sp - 1) (hi (s.stackPair p)))
      (s.sp - 2) (lo (s.stackPair p))) (s.sp - 2).toNat (s.stackPair p :: items)
    -- the high byte is written first, the other way round than in `StoredAt.cons`
    rw [ht, h₁, h₂, ha₁, Function.update_comm (ofNat_ne (by omega) (by omega) (by omega))]
    apply StoredAt.cons
    · rw [ha₂]
      exact h.stored
    · omega

/-- A POP reads the two bytes at the front of the list. -/
theorem popped {v : Word} (h : HoldsStack s0 s (v :: items)) :
    word (s.mem (s.sp + 1)) (s.mem s.sp) = v := by
  have hv := h.stored.head
  have h₁ : s.sp + 1 = BitVec.ofNat 16 (s.sp.toNat + 1) := add_eq_ofNat _ 1
  rwa [← h₁, BitVec.ofNat_toNat, BitVec.setWidth_eq] at hv

theorem pop {v : Word} (h : HoldsStack s0 s (v :: items)) (hs : s0 < 65536) (p : StackPair)
    (n : Byte) (nn : Word) : HoldsStack s0 ((Load.pop p).exec n nn s) items := by
  have hsp := h.sp
  rw [List.length_cons] at hsp
  have ht : (s.sp + 2).toNat = s.sp.toNat + 2 := toNat_add_ofNat _ 2 (by omega)
  have hsp' : ((Load.pop p).exec n nn s).sp = s.sp + 2 := by cases p <;> rfl
  have hmem : ((Load.pop p).exec n nn s).mem = s.mem := by cases p <;> rfl
  constructor
  · rw [hsp', ht]
    omega
  · rw [hsp', hmem, ht]
    exact h.stored.2.2

/-- There is room for another byte above the one that SP points at. -/
theorem sp_ne_last {v : Word} (h : HoldsStack s0 s (v :: items)) (hs : s0 < 65536) :
    s.sp ≠ 0xFFFF := by
  intro he
  have hsp := h.sp
  rw [List.length_cons, he] at hsp
  change 65535 + 2 * (items.length + 1) = s0 at hsp
  omega

end HoldsStack

end Sm83
