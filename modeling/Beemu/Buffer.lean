import Beemu.Memory

/-!
# Buffers

Whole blocks of bytes are read, written and copied. Each of the three checks where the block
ends, in its own way, and none of them where it starts.
-/

namespace Beemu

/-- The bytes fill the buffer, and the length of the buffer is the size. -/
def memoryReadBuffer {n : Nat} (memory : Memory n) (address : Int) (buffer : List U8) :
    Checked (Bool × List U8) :=
  if hsize : n ≤ address + buffer.length - 1 then .ok (false, buffer)
  else if hneg : address < 0 ∧ 0 < buffer.length then .error .indexOutOfRange
  else .ok (true, Block.get memory.memory address.toNat buffer.length (by omega))

/-- The memory that is copied from is another one than the destination, and is only read. Where a
copy has no bytes it does not matter from where to where it goes. -/
def memoryCopy {n k : Nat} (memory : Memory n) (destination : Memory k)
    (start dstStart size : Int) : Checked (Bool × Memory k) :=
  if hsrc : ¬ n > start + size then .ok (false, destination)
  else if ¬ k > dstStart + size then .ok (false, destination)
  else if h : size = 0 ∨ 0 ≤ start ∧ 0 ≤ dstStart ∧ 0 ≤ size then
    .ok (true, destination.copyIn dstStart.toNat
      (Block.get memory.memory start.toNat size.toNat (by omega)))
  else .error .indexOutOfRange

section Checks

variable {n k : Nat} (memory : Memory n)

theorem memoryReadBuffer_inside (a : Nat) (buffer : List U8) (h : a + buffer.length ≤ n) :
    memoryReadBuffer memory a buffer =
      .ok (true, Block.get memory.memory a buffer.length h) := by
  rw [memoryReadBuffer, dif_neg (by omega), dif_neg (by omega)]
  rfl

theorem memoryReadBuffer_past (address : Int) (buffer : List U8)
    (h : n < address + buffer.length) : memoryReadBuffer memory address buffer =
      .ok (false, buffer) := by
  rw [memoryReadBuffer, dif_pos (by omega)]

theorem memoryWriteBuffer_inside (a : Nat) (buffer : List U8) (h : a + buffer.length ≤ n) :
    memoryWriteBuffer memory a buffer = .ok (true, memory.copyIn a buffer) := by
  rw [memoryWriteBuffer, if_neg (by omega), if_neg (by omega)]
  rfl

theorem memoryWriteBuffer_past (address : Int) (buffer : List U8)
    (h : n < address + buffer.length) : memoryWriteBuffer memory address buffer =
      .ok (false, memory) := by
  rw [memoryWriteBuffer, if_pos (by omega)]

/-- A block that starts before the memory is not refused. -/
theorem memoryWriteBuffer_before (address : Int) (buffer : List U8) (hneg : address < 0)
    (hlen : 0 < buffer.length) (h : address + buffer.length ≤ n) :
    memoryWriteBuffer memory address buffer = .error .indexOutOfRange := by
  rw [memoryWriteBuffer, if_neg (by omega), if_pos ⟨hneg, hlen⟩]

/-- No bytes are written where there are none. -/
theorem memoryWriteBuffer_nil (address : Int) (h : address ≤ n) :
    memoryWriteBuffer memory address [] = .ok (true, memory) := by
  have hn : ¬ (n : Int) ≤ address + ([] : List U8).length - 1 := by
    rw [List.length_nil]
    omega
  rw [memoryWriteBuffer, if_neg hn, if_neg (fun h => Nat.lt_irrefl 0 h.2), copyIn_eq,
    Block.put_nil]

theorem memoryCopy_inside (destination : Memory k) (start dstStart size : Nat)
    (hs : start + size < n) (hd : dstStart + size < k) :
    memoryCopy memory destination start dstStart size = .ok (true, destination.copyIn dstStart
      (Block.get memory.memory start size (Nat.le_of_lt hs))) := by
  rw [memoryCopy, dif_neg (by omega), if_neg (by omega), dif_pos (by omega)]
  rfl

/-- A copy without bytes changes nothing, also where it starts before a memory. -/
theorem memoryCopy_zero (destination : Memory k) (start dstStart : Int) (hs : start < n)
    (hd : dstStart < k) :
    memoryCopy memory destination start dstStart 0 = .ok (true, destination) := by
  rw [memoryCopy, dif_neg (by omega), if_neg (by omega), dif_pos (.inl rfl)]
  have hb : destination.copyIn dstStart.toNat [] = destination := by
    rw [copyIn_eq, Block.put_nil]
  exact congrArg (fun d => Except.ok (true, d)) hb

/-- A block that ends with the last byte is refused as well. -/
theorem memoryCopy_past (destination : Memory k) (start dstStart size : Int)
    (h : n ≤ start + size ∨ k ≤ dstStart + size) :
    memoryCopy memory destination start dstStart size = .ok (false, destination) := by
  rw [memoryCopy]
  split
  · rfl
  · rw [if_pos (by omega)]

end Checks

/-! ## Writing all or nothing -/

/-- A buffer is written exactly where it is inside the memory. Then its bytes are there, no other
byte has changed and a read gives the buffer back; else no byte has changed at all. -/
def WritesAllOrNothing {n : Nat} (memory : Memory n) (address : Int) (buffer : List U8) : Prop :=
  ∃ result, memoryWriteBuffer memory address buffer = .ok result ∧
    (result.1 = true ↔ 0 ≤ address ∧ address + buffer.length ≤ n) ∧
    (result.1 = true →
      (∀ (i : Fin n) (j : Nat) (hj : j < buffer.length), i.val = address + j →
        result.2.memory i = buffer[j]) ∧
      (∀ i : Fin n, i.val < address ∨ address + buffer.length ≤ i.val →
        result.2.memory i = memory.memory i) ∧
      ∀ into : List U8, into.length = buffer.length →
        memoryReadBuffer result.2 address into = .ok (true, buffer)) ∧
    (result.1 = false → result.2 = memory)

section Write

variable {n : Nat} (memory : Memory n) (buffer : List U8)

theorem readBuffer_copyIn (a : Nat) (h : a + buffer.length ≤ n) (into : List U8)
    (hlen : into.length = buffer.length) :
    memoryReadBuffer (memory.copyIn a buffer) a into = .ok (true, buffer) := by
  rw [memoryReadBuffer_inside _ a into (by omega), copyIn_eq]
  simp only [hlen, Block.get_put]

theorem writesAllOrNothing_inside (a : Nat) (h : a + buffer.length ≤ n) :
    WritesAllOrNothing memory a buffer := by
  refine ⟨_, memoryWriteBuffer_inside memory a buffer h, ?_, fun _ => ⟨?_, ?_, ?_⟩, nofun⟩
  · exact iff_of_true rfl (by omega)
  · intro i j hj hi
    exact Block.put_inside memory.memory a buffer hj (by omega)
  · intro i hi
    exact Block.put_outside memory.memory a buffer (by omega)
  · exact readBuffer_copyIn memory buffer a h

theorem writesAllOrNothing_past (address : Int) (h : n < address + buffer.length) :
    WritesAllOrNothing memory address buffer := by
  refine ⟨_, memoryWriteBuffer_past memory address buffer h, ?_, nofun, fun _ => rfl⟩
  exact iff_of_false Bool.false_ne_true (by omega)

/-- A block before the memory is written outside of it, or has no bytes and is not refused. -/
theorem not_writesAllOrNothing (address : Int) (hneg : address < 0)
    (h : address + buffer.length ≤ n) : ¬ WritesAllOrNothing memory address buffer := by
  rintro ⟨result, hr, hiff, -⟩
  cases buffer with
  | nil =>
    rw [memoryWriteBuffer_nil memory address (by omega)] at hr
    obtain rfl := Except.ok.inj hr
    exact absurd (hiff.mp rfl).1 (by omega)
  | cons b bs =>
    rw [memoryWriteBuffer_before memory address (b :: bs) hneg (Nat.succ_pos bs.length) h] at hr
    cases hr

end Write

/-- Where a block ends is checked and where it starts is not. -/
theorem writes_all_or_nothing_iff {n : Nat} (memory : Memory n) (address : Int)
    (buffer : List U8) :
    WritesAllOrNothing memory address buffer ↔ 0 ≤ address ∨ n < address + buffer.length := by
  constructor
  · intro hw
    by_contra hn
    exact not_writesAllOrNothing memory buffer address (by omega) (by omega) hw
  · intro h
    by_cases hpast : n < address + buffer.length
    · exact writesAllOrNothing_past memory buffer address hpast
    · obtain ⟨a, rfl⟩ := Int.eq_ofNat_of_zero_le (h.resolve_right hpast)
      exact writesAllOrNothing_inside memory buffer a (by omega)

/-- One byte before the first of four. -/
theorem write_before_memory_not_refused :
    ¬ WritesAllOrNothing (⟨fun _ => 0⟩ : Memory 4) (-1) [0xAA] :=
  not_writesAllOrNothing _ [0xAA] (-1) (by decide) (by decide)

/-! ## Copying -/

/-- A copy is the read of a block into a buffer and the write of the buffer, and it is made
exactly where both of them are. -/
def CopiesAsReadThenWrite {n k : Nat} (memory : Memory n) (destination : Memory k)
    (start dstStart : Nat) (buffer : List U8) : Prop :=
  ∃ copied, memoryCopy memory destination start dstStart buffer.length = .ok copied ∧
    ∃ read, memoryReadBuffer memory start buffer = .ok read ∧
    ∃ written, memoryWriteBuffer destination dstStart read.2 = .ok written ∧
    (copied.1 = true ↔ read.1 = true ∧ written.1 = true) ∧
    (read.1 = true ∧ written.1 = true ↔
      start + buffer.length ≤ n ∧ dstStart + buffer.length ≤ k) ∧
    (copied.1 = true → copied.2 = written.2) ∧ (copied.1 = false → copied.2 = destination)

section Copy

variable {n k : Nat} (memory : Memory n) (destination : Memory k) (start dstStart : Nat)
  (buffer : List U8)

/-- A read does not change the length of the buffer. -/
theorem memoryReadBuffer_total : ∃ read, memoryReadBuffer memory start buffer = .ok read ∧
    read.2.length = buffer.length ∧ (read.1 = true ↔ start + buffer.length ≤ n) := by
  by_cases h : start + buffer.length ≤ n
  · exact ⟨_, memoryReadBuffer_inside memory start buffer h, Block.length_get _ _ _ h,
      iff_of_true rfl h⟩
  · exact ⟨_, memoryReadBuffer_past memory start buffer (by omega), rfl,
      iff_of_false Bool.false_ne_true h⟩

theorem memoryWriteBuffer_total :
    ∃ written, memoryWriteBuffer destination dstStart buffer = .ok written ∧
      (written.1 = true ↔ dstStart + buffer.length ≤ k) := by
  by_cases h : dstStart + buffer.length ≤ k
  · exact ⟨_, memoryWriteBuffer_inside destination dstStart buffer h, iff_of_true rfl h⟩
  · exact ⟨_, memoryWriteBuffer_past destination dstStart buffer (by omega),
      iff_of_false Bool.false_ne_true h⟩

theorem copies_inside (hs : start + buffer.length < n) (hd : dstStart + buffer.length < k) :
    CopiesAsReadThenWrite memory destination start dstStart buffer := by
  have hs' := Nat.le_of_lt hs
  have hlen := Block.length_get memory.memory start buffer.length hs'
  refine ⟨_, memoryCopy_inside memory destination start dstStart buffer.length hs hd,
    _, memoryReadBuffer_inside memory start buffer hs',
    _, memoryWriteBuffer_inside destination dstStart _ (by rw [hlen]; omega), ?_⟩
  exact ⟨by simp, iff_of_true ⟨rfl, rfl⟩ (by omega), fun _ => rfl, nofun⟩

/-- A copy that is refused is right where one of the other two is refused as well. -/
theorem copies_past_iff (h : n ≤ start + buffer.length ∨ k ≤ dstStart + buffer.length) :
    CopiesAsReadThenWrite memory destination start dstStart buffer ↔
      ¬ (start + buffer.length ≤ n ∧ dstStart + buffer.length ≤ k) := by
  obtain ⟨read, hread, hlen, hr⟩ := memoryReadBuffer_total memory start buffer
  obtain ⟨written, hwrite, hw⟩ := memoryWriteBuffer_total destination dstStart read.2
  rw [hlen] at hw
  have hcopy := memoryCopy_past memory destination start dstStart buffer.length (by omega)
  rw [CopiesAsReadThenWrite, exists_ok_iff hcopy, exists_ok_iff hread, exists_ok_iff hwrite, hr, hw]
  simp

end Copy

/-- The check of a copy is off by one: it refuses a block that ends with the last byte. -/
theorem copy_read_write_iff {n k : Nat} (memory : Memory n) (destination : Memory k)
    (start dstStart : Nat) (buffer : List U8) :
    CopiesAsReadThenWrite memory destination start dstStart buffer ↔
      ¬ ((start + buffer.length ≤ n ∧ dstStart + buffer.length ≤ k) ∧
        (start + buffer.length = n ∨ dstStart + buffer.length = k)) := by
  by_cases h : n ≤ start + buffer.length ∨ k ≤ dstStart + buffer.length
  · rw [copies_past_iff memory destination start dstStart buffer h]
    omega
  · exact iff_of_true (copies_inside memory destination start dstStart buffer (by omega) (by omega))
      (by omega)

/-- A whole memory of four bytes is not copied to another one. -/
theorem copy_of_whole_memory_refused :
    ¬ CopiesAsReadThenWrite (⟨fun _ => 1⟩ : Memory 4) (⟨fun _ => 0⟩ : Memory 4) 0 0
      [0, 0, 0, 0] := by
  rw [copies_past_iff _ _ 0 0 [0, 0, 0, 0] (by decide)]
  decide

end Beemu
