import Beemu.Lib.Block
import Beemu.Registers

/-!
# Memory and the processor

Addresses are C `int`s: the assertion bounds them from above only, and a negative one is a
subscript outside the array.
-/

namespace Beemu

/-- `memory_size` is the index, and the array has that many bytes. -/
structure Memory (memorySize : Nat) where
  memory : Fin memorySize → U8

/-- The array cell that `memory->memory[address]` names. -/
def place (memorySize : Nat) (address : Int) : Checked (Fin memorySize) := do
  assertThat (memorySize > address)
  if h : 0 ≤ address ∧ address.toNat < memorySize then .ok ⟨address.toNat, h.2⟩
  else .error .indexOutOfRange

def memoryRead {n : Nat} (memory : Memory n) (address : Int) : Checked U8 := do
  let i ← place n address
  .ok (memory.memory i)

def memoryWrite {n : Nat} (memory : Memory n) (address : Int) (value : U8) :
    Checked (Memory n) := do
  let i ← place n address
  .ok { memory with memory := Function.update memory.memory i value }

/-- `address + 1` is an `int`, so it does not wrap. -/
def memoryRead16 {n : Nat} (memory : Memory n) (address : U16) : Checked U16 := do
  let lower ← memoryRead memory (address.toNat + 1)
  let higher ← memoryRead memory address.toNat
  .ok ((lower.setWidth 16 <<< 8) ||| higher.setWidth 16)

/-- `memcpy` into the array. -/
def Memory.copyIn {n : Nat} (memory : Memory n) (start : Nat) (buffer : List U8) : Memory n :=
  { memory with
    memory := fun i =>
      if start ≤ i.val then (buffer[i.val - start]?).getD (memory.memory i) else memory.memory i }

/-- The size of the buffer is its length. Only the last address is checked; bytes at a negative one
are outside the array. -/
def memoryWriteBuffer {n : Nat} (memory : Memory n) (address : Int) (buffer : List U8) :
    Checked (Bool × Memory n) :=
  if n ≤ address + buffer.length - 1 then .ok (false, memory)
  else if address < 0 ∧ 0 < buffer.length then .error .indexOutOfRange
  else .ok (true, memory.copyIn address.toNat buffer)

/-- Whether the buffer was written is not looked at. -/
def memoryWrite16 {n : Nat} (memory : Memory n) (address value : U16) : Checked (Memory n) := do
  let deconstructed : List U8 :=
    [(value &&& 0x00FF).setWidth 8, ((value &&& 0xFF00) >>> 8).setWidth 8]
  let written ← memoryWriteBuffer memory address.toNat deconstructed
  .ok written.2

def deviceMemorySize : Nat := 65536

structure Processor where
  registers : Registers
  memory : Memory deviceMemorySize

/-- The cell of an address that fits in 16 bits. -/
abbrev deviceCell (address : U16) : Fin deviceMemorySize := ⟨address.toNat, address.isLt⟩

def Memory.at (memory : Memory deviceMemorySize) (address : U16) : U8 :=
  memory.memory (deviceCell address)

theorem deviceCell_injective : Function.Injective deviceCell := fun _ _ h =>
  BitVec.eq_of_toNat_eq (Fin.val_eq_of_eq h)

theorem Memory.at_update (memory : Memory deviceMemorySize) (address : U16) (v : U8) :
    (⟨Function.update memory.memory (deviceCell address) v⟩ : Memory deviceMemorySize).at =
      Function.update memory.at address v :=
  Function.update_comp_eq_of_injective memory.memory deviceCell_injective address v

/-- Every cell has an address. -/
theorem Memory.ext_at {memory memory' : Memory deviceMemorySize} (h : memory.at = memory'.at) :
    memory = memory' := by
  rw [Memory.mk.injEq]
  funext i
  exact congrFun h (BitVec.ofFin i)

@[simp] theorem place_toNat (address : U16) :
    place deviceMemorySize address.toNat = .ok (deviceCell address) := by
  have h : address.toNat < deviceMemorySize := address.isLt
  simp [place, assertThat, h]

/-- A 16-bit address is always inside the memory of the device. -/
@[simp] theorem memoryRead_toNat (memory : Memory deviceMemorySize) (address : U16) :
    memoryRead memory address.toNat = .ok (memory.at address) := by
  simp [memoryRead, Memory.at]

@[simp] theorem memoryWrite_toNat (memory : Memory deviceMemorySize) (address : U16) (v : U8) :
    memoryWrite memory address.toNat v = .ok { memory with
      memory := Function.update memory.memory (deviceCell address) v } := by
  simp [memoryWrite]

theorem toNat_succ (address : U16) (h : address ≠ 0xFFFF) :
    (address.toNat : Int) + 1 = (address + 1).toNat := by
  bv_omega

theorem memoryRead16_of_ne (memory : Memory deviceMemorySize) (address : U16)
    (h : address ≠ 0xFFFF) :
    memoryRead16 memory address =
      .ok (Sm83.word (memory.at (address + 1)) (memory.at address)) := by
  rw [memoryRead16, toNat_succ address h, memoryRead_toNat, memoryRead_toNat]
  rfl

theorem place_assert (n : Nat) (address : Int) (h : n ≤ address) :
    place n address = .error .assertFailed := by
  have hn : ¬ (n : Int) > address := by omega
  simp [place, assertThat, hn]

/-- The second byte of a word at the last address is outside the memory. -/
theorem memoryRead16_last (memory : Memory deviceMemorySize) :
    memoryRead16 memory 0xFFFF = .error .assertFailed := by
  rw [memoryRead16, memoryRead, place_assert _ _ (by decide)]
  rfl

theorem copyIn_eq {n : Nat} (memory : Memory n) (start : Nat) (buffer : List U8) :
    memory.copyIn start buffer = ⟨Block.put memory.memory start buffer⟩ := rfl

theorem copyIn_pair {n : Nat} (memory : Memory n) (i j : Fin n) (x y : U8)
    (hj : j.val = i.val + 1) :
    memory.copyIn i.val [x, y] =
      ⟨Function.update (Function.update memory.memory i x) j y⟩ := by
  rw [copyIn_eq, Block.put_cons _ _ _ x rfl, Block.put_cons _ _ _ y hj, Block.put_nil]

theorem setWidth_halves (v : U16) :
    (v &&& 0x00FF).setWidth 8 = Sm83.lo v ∧ ((v &&& 0xFF00) >>> 8).setWidth 8 = Sm83.hi v := by
  constructor <;> ext i hi <;> interval_cases i <;> simp [Sm83.lo, Sm83.hi]

/-- A word is written low byte first. -/
theorem memoryWrite16_of_ne (memory : Memory deviceMemorySize) (address v : U16)
    (h : address ≠ 0xFFFF) :
    memoryWrite16 memory address v = .ok ⟨Function.update (Function.update memory.memory
      (deviceCell address) (Sm83.lo v)) (deviceCell (address + 1)) (Sm83.hi v)⟩ := by
  have ha : address.toNat + 1 = (address + 1).toNat := by bv_omega
  have hlt : (address + 1).toNat < deviceMemorySize := (address + 1).isLt
  have hroom : ¬ (deviceMemorySize : Int) ≤ address.toNat + 2 - 1 := by omega
  have hneg : ¬ (address.toNat : Int) < 0 := by omega
  obtain ⟨hl, hh⟩ := setWidth_halves v
  simp only [memoryWrite16, memoryWriteBuffer, List.length_cons, List.length_nil, hl, hh]
  have hc := copyIn_pair memory (deviceCell address) (deviceCell (address + 1)) (Sm83.lo v)
    (Sm83.hi v) ha.symm
  simpa [hroom, hneg] using hc

/-- A word at the last address is not written at all. -/
theorem memoryWrite16_last (memory : Memory deviceMemorySize) (v : U16) :
    memoryWrite16 memory 0xFFFF v = .ok memory := by
  rw [memoryWrite16, memoryWriteBuffer, if_pos (by simp [deviceMemorySize])]
  rfl

theorem memoryRead16_ok_iff (memory : Memory deviceMemorySize) (address : U16) :
    (∃ v, memoryRead16 memory address = .ok v) ↔ address ≠ 0xFFFF := by
  constructor
  · rintro ⟨v, h⟩ rfl
    rw [memoryRead16_last] at h
    cases h
  · intro h
    exact ⟨_, memoryRead16_of_ne memory address h⟩

end Beemu
