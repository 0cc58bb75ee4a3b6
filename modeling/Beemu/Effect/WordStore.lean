import Beemu.Effect.Stack
import Beemu.Parser.Timing

/-!
# Words in memory

A word is stored in two ways: by one buffered write, or by the two memory writes that the parser
emits for `LD (nn), SP`. The first takes its addresses for `int`s and the second for 16 bits, so
that they part at the last address.
-/

namespace Beemu

open MachineCommand
open Sm83 (hi lo)

/-- The memory writes of a queue, in order. -/
def memoryWrites (queue : CommandQueue) : CommandQueue := queue.filter writesMemory

/-- A word is at an address, low byte first, and the rest of the memory is as it was. -/
structure StoresWord (memory memory' : Memory deviceMemorySize) (a v : U16) : Prop where
  low : memory'.at a = lo v
  high : memory'.at (a + 1) = hi v
  others : ∀ b, b ≠ a → b ≠ a + 1 → memory'.at b = memory.at b

/-- `LD (a), SP` with SP = `v` makes the two writes, and leaves the memory `memory'` behind. -/
def StoredByLoad (memory memory' : Memory deviceMemorySize) (a v : U16) : Prop :=
  ∀ (m : Machine) (w : CodeWord), m.processor.memory = memory → m.abs.sp = v →
    w.opcode = .load .absSP → Sm83.word w.secondOperand w.firstOperand = a →
    ∃ e, step m w = .ok e ∧
      memoryWrites e.queue = [writeMemory a (lo v), writeMemory (a + 1) (hi v)] ∧
      e.machine.processor.memory = memory'

/-- A word that is written is stored, as the parser stores it, and is read back. -/
def WordAccess (memory : Memory deviceMemorySize) (a v : U16) : Prop :=
  ∃ memory', memoryWrite16 memory a v = .ok memory' ∧ StoresWord memory memory' a v ∧
    StoredByLoad memory memory' a v ∧ memoryRead16 memory' a = .ok v

/-- The bytes of a memory after the two writes. -/
def wordStored (bytes : U16 → U8) (a v : U16) : U16 → U8 :=
  Function.update (Function.update bytes a (lo v)) (a + 1) (hi v)

section Word

variable (memory : Memory deviceMemorySize) (a v : U16)

theorem ne_succ : a ≠ a + 1 := by bv_omega

theorem storesWord {memory' : Memory deviceMemorySize}
    (h : memory'.at = wordStored memory.at a v) : StoresWord memory memory' a v := by
  constructor
  · rw [h, wordStored, Function.update_of_ne (ne_succ a), Function.update_self]
  · rw [h, wordStored, Function.update_self]
  · intro b hb hb'
    rw [h, wordStored, Function.update_of_ne hb', Function.update_of_ne hb]

theorem memoryWrites_fetchCommands (pc : U16) (bytes : List U8) :
    memoryWrites (fetchCommands pc bytes) = [] := by
  induction bytes generalizing pc with
  | nil => rfl
  | cons b bs ih =>
    have h : memoryWrites (fetchCommands pc (b :: bs)) = memoryWrites (fetchCommands (pc + 1) bs) :=
      rfl
    rw [h, ih]

/-- The parser stores a word at every address, the last one included. -/
theorem storedByLoad {memory' : Memory deviceMemorySize}
    (h : memory'.at = wordStored memory.at a v) : StoredByLoad memory memory' a v := by
  rintro m w rfl rfl hw rfl
  obtain ⟨pc, he⟩ := applyQueue_load m w .absSP nofun
  refine ⟨_, step_eq m w _ (parserParse_load w m.processor .absSP hw nofun), ?_, ?_⟩
  · have hf := memoryWrites_fetchCommands m.abs.pc w.bytes
    rw [memoryWrites] at hf ⊢
    rw [List.filter_append]
    exact congrArg (· ++ _) hf
  · apply Memory.ext_at
    rw [h]
    exact congrArg Sm83.State.mem he

theorem wordAccess_of_ne (h : a ≠ 0xFFFF) : WordAccess memory a v := by
  have hat : (⟨Function.update (Function.update memory.memory (deviceCell a) (lo v))
      (deviceCell (a + 1)) (hi v)⟩ : Memory deviceMemorySize).at = wordStored memory.at a v := by
    rw [wordStored, ← memory.at_update a (lo v)]
    exact Memory.at_update ⟨Function.update memory.memory (deviceCell a) (lo v)⟩ (a + 1) (hi v)
  have hstores := storesWord memory a v hat
  refine ⟨_, memoryWrite16_of_ne memory a v h, hstores, storedByLoad memory a v hat, ?_⟩
  rw [memoryRead16_of_ne _ a h, hstores.low, hstores.high, Sm83.word_hi_lo]

end Word

/-- At the last address nothing is written, and nothing can be read. -/
theorem word_access_iff (memory : Memory deviceMemorySize) (a v : U16) :
    WordAccess memory a v ↔ a ≠ 0xFFFF := by
  constructor
  · rintro ⟨memory', -, -, -, hread⟩
    exact (memoryRead16_ok_iff memory' a).mp ⟨v, hread⟩
  · exact wordAccess_of_ne memory a v

/-- 0x1234 at 0xFFFF is neither stored nor read. -/
theorem word_at_last_address :
    memoryWrite16 machineAtZero.processor.memory 0xFFFF 0x1234 =
        .ok machineAtZero.processor.memory ∧
      ¬ WordAccess machineAtZero.processor.memory 0xFFFF 0x1234 := by
  refine ⟨memoryWrite16_last _ _, ?_⟩
  rintro ⟨memory', -, -, -, hread⟩
  rw [memoryRead16_last] at hread
  cases hread

end Beemu
