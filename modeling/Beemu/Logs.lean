import Beemu.Buffer
import Beemu.Lib.History

/-!
# Logs of the memory and of the register file

What a call stores is known before it is made: the cells and their values are in its arguments.
After any calls each cell holds what was last stored there.
-/

namespace Beemu

open History (lastWrite)

/-! ## The memory -/

/-- The cells of a block with what is stored there. -/
def cellsFrom (a : Nat) : List U8 → List (Nat × U8)
  | [] => []
  | x :: xs => (a, x) :: cellsFrom (a + 1) xs

theorem lastWrite_cellsFrom (k a : Nat) (xs : List U8) :
    lastWrite k (cellsFrom a xs) = if a ≤ k then xs[k - a]? else none := by
  induction xs generalizing a with
  | nil => simp [cellsFrom, lastWrite]
  | cons x xs ih =>
    rw [cellsFrom, lastWrite, ih]
    rcases Nat.lt_trichotomy a k with hlt | rfl | hgt
    · have hs : k - a = k - (a + 1) + 1 := by omega
      rw [if_pos (Nat.succ_le_of_lt hlt), if_pos (Nat.le_of_lt hlt), if_neg (Nat.ne_of_lt hlt), hs,
        List.getElem?_cons_succ, Option.or_none]
    · rw [if_neg (Nat.not_succ_le_self a), if_pos rfl, if_pos (Nat.le_refl a), Nat.sub_self]
      rfl
    · rw [if_neg (by omega), if_neg (Nat.ne_of_gt hgt), if_neg (by omega)]
      rfl

/-- The memory with a log stored in it. -/
def Memory.stored {n : Nat} (memory : Memory n) (log : List (Nat × U8)) : Memory n where
  memory i := (lastWrite i.val log).getD (memory.memory i)

section Stored

variable {n : Nat} (memory : Memory n)

theorem stored_nil : memory.stored [] = memory := rfl

theorem stored_append (log log' : List (Nat × U8)) :
    memory.stored (log ++ log') = (memory.stored log).stored log' := by
  rw [Memory.stored, Memory.mk.injEq]
  funext i
  rw [History.lastWrite_append, Option.getD_or]
  rfl

/-- A block is stored as its cells are. -/
theorem copyIn_eq_stored (a : Nat) (xs : List U8) :
    memory.copyIn a xs = memory.stored (cellsFrom a xs) := by
  rw [copyIn_eq, Memory.stored, Memory.mk.injEq]
  funext i
  rw [lastWrite_cellsFrom, Block.put]
  split <;> rfl

end Stored

/-- A call that writes to a memory. A copy reads another one. -/
inductive MemoryCall where
  | write : Int → U8 → MemoryCall
  | writeBuffer : Int → List U8 → MemoryCall
  | write16 : U16 → U16 → MemoryCall
  | copyFrom : (k : Nat) → Memory k → Int → Int → Int → MemoryCall

namespace MemoryCall

def exec {n : Nat} (memory : Memory n) : MemoryCall → Checked (Memory n)
  | .write address value => memoryWrite memory address value
  | .writeBuffer address buffer => do
    let written ← memoryWriteBuffer memory address buffer
    .ok written.2
  | .write16 address value => memoryWrite16 memory address value
  | .copyFrom _ source start dstStart size => do
    let copied ← memoryCopy source memory start dstStart size
    .ok copied.2

/-- The values of type `int` in a call on a memory of `n` bytes: sizes, addresses and their sums. -/
def ints (n : Nat) : MemoryCall → List Int
  | .write address _ => [n, address]
  | .writeBuffer address buffer =>
    [n, address, buffer.length, address + buffer.length, address + buffer.length - 1]
  | .write16 address _ => [n, address.toNat + 2, address.toNat + 2 - 1]
  | .copyFrom k _ start dstStart size =>
    [n, k, start, dstStart, size, start + size, dstStart + size]

/-- The calls that stay inside the arrays. The others abort or go outside of them. A block without
bytes is nowhere outside. -/
def Inside (n : Nat) : MemoryCall → Prop
  | .write address _ => 0 ≤ address ∧ address < n
  | .writeBuffer address buffer => 0 ≤ address ∨ buffer = [] ∨ n < address + buffer.length
  | .write16 _ _ => True
  | .copyFrom k _ start dstStart size =>
    size = 0 ∨ (0 ≤ start ∧ 0 ≤ dstStart ∧ 0 ≤ size) ∨ k ≤ start + size ∨ n ≤ dstStart + size

/-- What a call stores in a memory of `n` bytes. -/
def log (n : Nat) : MemoryCall → List (Nat × U8)
  | .write address value => [(address.toNat, value)]
  | .writeBuffer address buffer =>
    if address + buffer.length ≤ n then cellsFrom address.toNat buffer else []
  | .write16 address value =>
    if address.toNat + 2 ≤ n then cellsFrom address.toNat [Sm83.lo value, Sm83.hi value] else []
  | .copyFrom k source start dstStart size =>
    if h : start.toNat + size.toNat < k ∧ dstStart.toNat + size.toNat < n then
      cellsFrom dstStart.toNat (Block.get source.memory start.toNat size.toNat (Nat.le_of_lt h.1))
    else []

section Exec

variable {n : Nat} (memory : Memory n)

theorem write_inside (a : Nat) (value : U8) (h : a < n) :
    memoryWrite memory a value = .ok (memory.stored [((a : Int).toNat, value)]) := by
  have hp : place n a = .ok ⟨a, h⟩ := by
    have ha : (n : Int) > a := by omega
    simp [place, assertThat, h]
  rw [memoryWrite, hp, ok_bind]
  refine congrArg Except.ok ?_
  rw [Memory.stored, Memory.mk.injEq]
  funext i
  rw [History.lastWrite_singleton, Int.toNat_natCast]
  by_cases hi : i.val = a
  · have hia : i = ⟨a, h⟩ := Fin.ext hi
    simp [hia]
  · have hia : i ≠ ⟨a, h⟩ := fun he => hi (congrArg Fin.val he)
    simp [hia, Ne.symm hi]

theorem writeBuffer_inside (a : Nat) (buffer : List U8) :
    memoryWriteBuffer memory a buffer = .ok (decide (a + buffer.length ≤ n),
      memory.stored (if a + buffer.length ≤ n then cellsFrom a buffer else [])) := by
  by_cases h : a + buffer.length ≤ n
  · rw [memoryWriteBuffer_inside memory a buffer h, if_pos h, copyIn_eq_stored, decide_eq_true h]
  · rw [memoryWriteBuffer_past memory a buffer (by omega), if_neg h, stored_nil,
      decide_eq_false h]

theorem exec_writeBuffer_inside (address : Int) (buffer : List U8)
    (h : Inside n (.writeBuffer address buffer)) :
    exec memory (.writeBuffer address buffer) =
      .ok (memory.stored (log n (.writeBuffer address buffer))) := by
  rw [exec, log]
  by_cases hpast : n < address + buffer.length
  · rw [memoryWriteBuffer_past memory address buffer hpast, ok_bind, if_neg (by omega)]
    rfl
  · rcases h with ha | rfl | hb
    · obtain ⟨a, rfl⟩ := Int.eq_ofNat_of_zero_le ha
      rw [writeBuffer_inside memory a buffer, ok_bind, Int.toNat_natCast, if_pos (by omega),
        if_pos (by omega)]
    · have hle : address ≤ n := by
        rw [List.length_nil] at hpast
        omega
      rw [memoryWriteBuffer_nil memory address hle, ok_bind, cellsFrom, ite_self, stored_nil]
    · exact absurd hb hpast

theorem exec_copyFrom_inside (k : Nat) (source : Memory k) (start dstStart size : Int)
    (h : Inside n (.copyFrom k source start dstStart size)) :
    exec memory (.copyFrom k source start dstStart size) =
      .ok (memory.stored (log n (.copyFrom k source start dstStart size))) := by
  rw [exec, log]
  by_cases hpast : k ≤ start + size ∨ n ≤ dstStart + size
  · rw [memoryCopy_past source memory start dstStart size hpast, ok_bind, dif_neg (by omega)]
    rfl
  · rcases h with rfl | ⟨hs, hd, hz⟩ | hout
    · rw [memoryCopy_zero source memory start dstStart (by omega) (by omega), ok_bind]
      split <;> rfl
    · obtain ⟨s, rfl⟩ := Int.eq_ofNat_of_zero_le hs
      obtain ⟨d, rfl⟩ := Int.eq_ofNat_of_zero_le hd
      obtain ⟨z, rfl⟩ := Int.eq_ofNat_of_zero_le hz
      have hs : s + z < k := by omega
      have hd : d + z < n := by omega
      rw [memoryCopy_inside source memory s d z hs hd, ok_bind, copyIn_eq_stored]
      simp only [Int.toNat_natCast]
      rw [dif_pos ⟨hs, hd⟩]
    · exact absurd hout hpast

/-- Inside of the arrays a call completes and stores what its log says. -/
theorem exec_inside (c : MemoryCall) (h : c.Inside n) :
    c.exec memory = .ok (memory.stored (c.log n)) := by
  cases c with
  | write address value =>
    obtain ⟨a, rfl⟩ := Int.eq_ofNat_of_zero_le h.1
    exact write_inside memory a value (Int.ofNat_lt.mp h.2)
  | writeBuffer address buffer => exact exec_writeBuffer_inside memory address buffer h
  | write16 address value =>
    obtain ⟨hl, hh⟩ := setWidth_halves value
    rw [exec, log, memoryWrite16, hl, hh, writeBuffer_inside, ok_bind]
    rfl
  | copyFrom k source start dstStart size =>
    exact exec_copyFrom_inside memory k source start dstStart size h

/-- Outside of the arrays a call is a fault, whatever is in them. -/
theorem exec_outside (c : MemoryCall) (h : ¬ c.Inside n) : ∃ e, c.exec memory = .error e := by
  cases c with
  | write address value =>
    rw [exec, memoryWrite]
    by_cases hn : n ≤ address
    · exact ⟨_, by rw [place_assert n address hn, error_bind]⟩
    · have hneg : ¬ (0 ≤ address ∧ address.toNat < n) := fun ha => h ⟨ha.1, by omega⟩
      refine ⟨.indexOutOfRange, ?_⟩
      have hlt : (n : Int) > address := by omega
      simp [place, assertThat, hlt, hneg]
  | writeBuffer address buffer =>
    rw [Inside, not_or, not_or] at h
    obtain ⟨hneg, hne, hpast⟩ := h
    refine ⟨.indexOutOfRange, ?_⟩
    rw [exec, memoryWriteBuffer_before memory address buffer (by omega)
      (List.length_pos_iff.mpr hne) (by omega), error_bind]
  | write16 address value => exact absurd trivial h
  | copyFrom k source start dstStart size =>
    rw [Inside, not_or, not_or, not_or] at h
    refine ⟨.indexOutOfRange, ?_⟩
    rw [exec, memoryCopy, dif_neg (by omega), if_neg (by omega), dif_neg (by omega), error_bind]

end Exec

end MemoryCall

/-- The values of an `int`. -/
def IsInt (x : Int) : Prop := -2147483648 ≤ x ∧ x ≤ 2147483647

/-- A call on a memory of `n` bytes of which no `int` overflows. -/
structure IntCall (n : Nat) where
  call : MemoryCall
  isInt : ∀ x ∈ call.ints n, IsInt x

/-- Calls made in turn. -/
def memoryRun {n : Nat} (memory : Memory n) : List (IntCall n) → Checked (Memory n)
  | [] => .ok memory
  | c :: cs => do
    let memory ← c.call.exec memory
    memoryRun memory cs

def logOfCalls {n : Nat} (calls : List (IntCall n)) : List (Nat × U8) :=
  calls.flatMap fun c => c.call.log n

theorem memoryRun_inside {n : Nat} (memory : Memory n) (calls : List (IntCall n))
    (h : ∀ c ∈ calls, c.call.Inside n) :
    memoryRun memory calls = .ok (memory.stored (logOfCalls calls)) := by
  induction calls generalizing memory with
  | nil => rfl
  | cons c cs ih =>
    rw [List.forall_mem_cons] at h
    rw [memoryRun, MemoryCall.exec_inside memory c.call h.1, ok_bind, ih _ h.2, logOfCalls,
      logOfCalls, List.flatMap_cons, stored_append]

theorem inside_of_memoryRun {n : Nat} {memory memory' : Memory n} {calls : List (IntCall n)}
    (h : memoryRun memory calls = .ok memory') : ∀ c ∈ calls, c.call.Inside n := by
  induction calls generalizing memory with
  | nil => nofun
  | cons c cs ih =>
    obtain ⟨next, hn, h⟩ := bind_eq_ok_iff.mp h
    rw [List.forall_mem_cons]
    refine ⟨?_, ih h⟩
    by_contra hc
    obtain ⟨e, he⟩ := MemoryCall.exec_outside memory c.call hc
    cases hn.symm.trans he

/-- Calls in turn of which no `int` overflows complete exactly when each of them stays inside the
arrays, whatever is in them, and leave in each byte what was stored there last. -/
theorem memory_run_iff {n : Nat} (memory memory' : Memory n) (calls : List (IntCall n)) :
    memoryRun memory calls = .ok memory' ↔ (∀ c ∈ calls, c.call.Inside n) ∧ ∀ i : Fin n,
      memory'.memory i = (lastWrite i.val (logOfCalls calls)).getD (memory.memory i) := by
  constructor
  · intro h
    have hi := inside_of_memoryRun h
    rw [memoryRun_inside memory calls hi] at h
    rw [← Except.ok.inj h]
    exact ⟨hi, fun _ => rfl⟩
  · rintro ⟨hi, hm⟩
    rw [memoryRun_inside memory calls hi]
    refine congrArg Except.ok ?_
    rw [Memory.stored, Memory.mk.injEq]
    exact (funext hm).symm

/-! ## The register file -/

/-- The register that a write to a name goes to: BC has no row of its own. -/
def Register.landsIn : Register → Register
  | .sixteenBit .BC => .sixteenBit .HL
  | r => r

/-- What storing a value into a register stores in its cells. -/
def Register.halves (r : Register) (v : U16) : List (Cell × U16) :=
  match r.cells with
  | [hi, lo] => [(hi, v >>> 8), (lo, v &&& 0xFF)]
  | [c] => [(c, r.fit v)]
  | _ => []

def cellsWritten (w : Register × U16) : List (Cell × U16) := w.1.landsIn.halves w.2

theorem write_eq_landing (s : Registers) (r : Register) (v : U16) :
    registersWriteRegisterValue s r v = .ok (s.store r.landsIn v) := by
  by_cases hr : r = .sixteenBit .BC
  · subst hr
    exact write_BC s v
  · have hl : r.landsIn = r := by
      cases r with
      | eightBit q => rfl
      | sixteenBit q => cases q <;> first | rfl | exact absurd rfl hr
    rw [hl, write_eq_store s r v hr]

section StoreCell

variable (s : Registers) (r : Register) (v : U16) (c : Cell)

theorem store_cell_pair {hi lo : Cell} (h : r.cells = [hi, lo]) :
    (s.store r v).cell c = (lastWrite c (r.halves v)).getD (s.cell c) := by
  have hne := cells_ne r hi lo h
  have hs := store_halves s r v hi lo h
  have hw : r.halves v = [(hi, v >>> 8), (lo, v &&& 0xFF)] := by
    rw [Register.halves, h]
  rw [hw, lastWrite, History.lastWrite_singleton]
  by_cases hlo : c = lo
  · subst hlo
    rw [hs.2]
    simp
  · by_cases hhi : c = hi
    · subst hhi
      rw [hs.1]
      simp [Ne.symm hlo]
    · rw [store_cell_other s r v c (by simp [h, hhi, hlo])]
      simp [Ne.symm hlo, Ne.symm hhi]

theorem store_cell_single {d : Cell} (h : r.cells = [d]) (hr : r ≠ .sixteenBit .M) :
    (s.store r v).cell c = (lastWrite c (r.halves v)).getD (s.cell c) := by
  have hv : (s.store r v).cell d = r.fit v := by
    have hs := store_value s r v hr
    rwa [Registers.value, h] at hs
  have hw : r.halves v = [(d, r.fit v)] := by
    rw [Register.halves, h]
  rw [hw, History.lastWrite_singleton]
  by_cases hd : c = d
  · subst hd
    rw [hv]
    simp
  · rw [store_cell_other s r v c (by simp [h, hd])]
    simp [Ne.symm hd]

theorem store_cell : (s.store r v).cell c = (lastWrite c (r.halves v)).getD (s.cell c) := by
  cases r with
  | eightBit q => exact store_cell_single s _ v c rfl nofun
  | sixteenBit q =>
    cases q with
    | BC | DE | HL | AF => exact store_cell_pair s _ v c rfl
    | SP | PC => exact store_cell_single s _ v c rfl nofun
    | M => rfl

end StoreCell

def registersRun (s : Registers) : List (Register × U16) → Checked Registers
  | [] => .ok s
  | w :: ws => do
    let s ← registersWriteRegisterValue s w.1 w.2
    registersRun s ws

theorem registersRun_cell (s : Registers) (ws : List (Register × U16)) :
    ∃ s', registersRun s ws = .ok s' ∧
      ∀ c, s'.cell c = (lastWrite c (ws.flatMap cellsWritten)).getD (s.cell c) := by
  induction ws generalizing s with
  | nil => exact ⟨s, rfl, fun _ => rfl⟩
  | cons w ws ih =>
    obtain ⟨s', hs, hc⟩ := ih (s.store w.1.landsIn w.2)
    refine ⟨s', ?_, fun c => ?_⟩
    · rw [registersRun, write_eq_landing, ok_bind, hs]
    · rw [hc, store_cell, List.flatMap_cons, History.lastWrite_append, Option.getD_or]
      rfl

/-- After any writes to named registers every register reads as what its cells were last written,
where a write to BC is one to H and L. -/
theorem register_log (s : Registers) (ws : List (Register × U16)) :
    ∃ s', registersRun s ws = .ok s' ∧ ∀ r, r ≠ .sixteenBit .M →
      registersReadRegisterValue s' r = .ok (wordOfCells (r.cells.map fun c =>
        (lastWrite c (ws.flatMap cellsWritten)).getD (s.cell c))) := by
  obtain ⟨s', hs, hc⟩ := registersRun_cell s ws
  refine ⟨s', hs, fun r hr => ?_⟩
  rw [read_eq_value s' r hr, Registers.value]
  exact congrArg (fun f => Except.ok (wordOfCells (r.cells.map f))) (funext hc)

end Beemu
