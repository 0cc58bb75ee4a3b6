import Beemu.Primitives
import Beemu.Sm83.State

/-!
# The register file

Reads and writes go through three dispatchers (the byte array, the special registers and
the composed pairs), each with its own table. The last section states what independent
named registers are and where the file is not one.
-/

namespace Beemu

/-- The flags, by the place of their bit in the flag byte. -/
inductive Flag where
  | Z | N | H | C
  deriving DecidableEq, Repr

def Flag.bit : Flag → Nat
  | .Z => 7
  | .N => 6
  | .H => 5
  | .C => 4

/-- Seven bytes, the flag byte and two registers of 16 bits. The pairs are made of bytes and have no
storage of their own. -/
structure Registers where
  registers : Register8 → U8
  flags : U8
  stackPointer : U16
  programCounter : U16

def utilIsOneOfThree (element x y z : Nat) : Bool :=
  element == x || element == y || element == z

def utilCombine8To16 (higher lower : U8) : U16 :=
  (higher.setWidth 16 <<< 8) ||| lower.setWidth 16

@[simp] theorem utilCombine8To16_eq (higher lower : U8) :
    utilCombine8To16 higher lower = Sm83.word higher lower := rfl

/-- The halves of the pairs, the high one first. -/
def sixteenTo8BitConverter : List (Register8 × Register8) := [(.B, .C), (.D, .E), (.H, .L)]

def readBasicRegister (registers : Registers) (register : Register8) : U16 :=
  (registers.registers register).setWidth 16

/-- AF is A beside the flag byte; the other pairs are rows of the table. -/
def readComposedRegister (registers : Registers) (register : Register16) : Checked U16 :=
  if register = .AF then
    .ok (utilCombine8To16 ((readBasicRegister registers .A).setWidth 8) registers.flags)
  else do
    let parts ← subscript sixteenTo8BitConverter register.index
    let left := readBasicRegister registers parts.1
    let right := readBasicRegister registers parts.2
    .ok (utilCombine8To16 (left.setWidth 8) (right.setWidth 8))

/-- `registers[place] = value` for one place of the byte array. -/
def Registers.put (registers : Registers) (place : Register8) (value : U8) : Registers :=
  { registers with registers := Function.update registers.registers place value }

/-- The halves of a value go to the two bytes of a row, or to A and the flag byte. -/
def writeComposedRegister (registers : Registers) (register : Register16) (value : U16) :
    Checked Registers :=
  let left := value >>> 8
  let right := value &&& 0xFF
  if register = .AF then
    .ok { registers.put .A (left.setWidth 8) with flags := right.setWidth 8 }
  else do
    -- BC has no case of its own: every pair other than DE takes the last row.
    let index := if register = .DE then 1 else 2
    let parts ← subscript sixteenTo8BitConverter index
    .ok ((registers.put parts.1 (left.setWidth 8)).put parts.2 (right.setWidth 8))

/-- A register that is none of the three falls off the end of the function. -/
def getSpecialRegister16 (registers : Registers) (register : Register16) : Checked U16 :=
  match register with
  | .AF => .ok (utilCombine8To16 ((readBasicRegister registers .A).setWidth 8) registers.flags)
  | .SP => .ok registers.stackPointer
  | .PC => .ok registers.programCounter
  | _ => .error .missingReturn

/-- A register that is none of the three is left alone. -/
def setSpecialRegister16 (registers : Registers) (register : Register16) (value : U16) :
    Registers :=
  match register with
  -- The shift binds first in C: `value & (0xF0 >> 8)`.
  | .AF => { registers.put .A ((value &&& (0xF0 >>> 8)).setWidth 8) with
      flags := (value &&& 0x0F).setWidth 8 }
  | .SP => { registers with stackPointer := value }
  | .PC => { registers with programCounter := value }
  | _ => registers

/-- The dispatch test of the 16-bit registers. -/
def isSpecialRegister (register : Register16) : Bool :=
  utilIsOneOfThree register.index Register16.M.index Register16.PC.index Register16.SP.index

/-- The dispatcher of the reads: bytes, special registers and composed pairs. -/
def registersReadRegisterValue (registers : Registers) (register : Register) : Checked U16 :=
  match register with
  | .eightBit r => .ok ((registers.registers r).setWidth 16)
  | .sixteenBit r =>
    if isSpecialRegister r then getSpecialRegister16 registers r
    else readComposedRegister registers r

/-- The dispatcher of the writes; a byte register takes the low half of the value. -/
def registersWriteRegisterValue (registers : Registers) (register : Register) (value : U16) :
    Checked Registers :=
  match register with
  | .eightBit r => .ok (registers.put r (value.setWidth 8))
  | .sixteenBit r =>
    if isSpecialRegister r then .ok (setSpecialRegister16 registers r value)
    else writeComposedRegister registers r value

/-- The value is shifted to the place of the flag and ORed in, so that no bit is ever cleared. -/
def registersFlagsSetFlag (registers : Registers) (flag : Flag) (value : U8) : Registers :=
  { registers with flags := registers.flags ||| (value <<< flag.bit) }

/-- The bit of a flag, as a byte that is 0 or 1. -/
def registersFlagsGetFlag (registers : Registers) (flag : Flag) : U8 :=
  (registers.flags >>> flag.bit) &&& 1

@[simp] theorem put_same (s : Registers) (r : Register8) (v : U8) :
    (s.put r v).registers r = v := by simp [Registers.put]

theorem put_other (s : Registers) (r q : Register8) (v : U8) (h : q ≠ r) :
    (s.put r v).registers q = s.registers q := by simp [Registers.put, h]

@[simp] theorem put_flags (s : Registers) (r : Register8) (v : U8) :
    (s.put r v).flags = s.flags := rfl
@[simp] theorem put_stackPointer (s : Registers) (r : Register8) (v : U8) :
    (s.put r v).stackPointer = s.stackPointer := rfl
@[simp] theorem put_programCounter (s : Registers) (r : Register8) (v : U8) :
    (s.put r v).programCounter = s.programCounter := rfl

@[simp] theorem setWidth_readBasicRegister (s : Registers) (r : Register8) :
    (readBasicRegister s r).setWidth 8 = s.registers r := by
  simp [readBasicRegister]

/-! ## Named registers as sets of cells -/

/-- The separately stored parts of the register file. -/
inductive Cell where
  | byte : Register8 → Cell
  | flags : Cell
  | stackPointer : Cell
  | programCounter : Cell
  deriving DecidableEq, Repr

/-- What a cell holds, widened to 16 bits. -/
def Registers.cell (s : Registers) : Cell → U16
  | .byte r => (s.registers r).setWidth 16
  | .flags => s.flags.setWidth 16
  | .stackPointer => s.stackPointer
  | .programCounter => s.programCounter

/-- The cells that a name stands for, the high half first. M stands for none. -/
def Register.cells : Register → List Cell
  | .eightBit r => [.byte r]
  | .sixteenBit .BC => [.byte .B, .byte .C]
  | .sixteenBit .DE => [.byte .D, .byte .E]
  | .sixteenBit .HL => [.byte .H, .byte .L]
  | .sixteenBit .AF => [.byte .A, .flags]
  | .sixteenBit .SP => [.stackPointer]
  | .sixteenBit .PC => [.programCounter]
  | .sixteenBit .M => []

/-- The number that a list of cells holds, read with the high half first. -/
def wordOfCells : List U16 → U16
  | [hi, lo] => (hi <<< 8) ||| lo
  | [c] => c
  | _ => 0

/-- The value of a named register, put together from its cells. -/
def Registers.value (s : Registers) (r : Register) : U16 := wordOfCells (r.cells.map s.cell)

/-- The value of `v` that fits in `r`. -/
def Register.fit (v : U16) : Register → U16
  | .eightBit _ => (v.setWidth 8).setWidth 16
  | .sixteenBit _ => v

@[simp] theorem wordOfCells_bytes (hi lo : U8) :
    wordOfCells [hi.setWidth 16, lo.setWidth 16] = Sm83.word hi lo := rfl

/-- The three read paths agree with the cells on every name but M, which has no value. -/
theorem read_eq_value (s : Registers) (r : Register) (hr : r ≠ .sixteenBit .M) :
    registersReadRegisterValue s r = .ok (s.value r) := by
  cases r with
  | eightBit r => rfl
  | sixteenBit r =>
    cases r with
    | M => exact absurd rfl hr
    | SP => rfl
    | PC => rfl
    | AF => exact congrArg _ ((congrArg (utilCombine8To16 · s.flags)
        (setWidth_readBasicRegister s .A)).trans rfl)
    | BC | DE | HL =>
      simp [registersReadRegisterValue, isSpecialRegister, utilIsOneOfThree, Register16.index,
        readComposedRegister, subscript, sixteenTo8BitConverter, Registers.value, Register.cells,
        Registers.cell]

/-- A register depends on its own cells only. -/
theorem value_congr (s s' : Registers) (r : Register)
    (h : ∀ c ∈ r.cells, s'.cell c = s.cell c) : s'.value r = s.value r := by
  rw [Registers.value, Registers.value, List.map_congr_left h]

/-- Store into one cell what fits there. -/
def Registers.setCell (s : Registers) (c : Cell) (v : U16) : Registers :=
  match c with
  | .byte r => s.put r (v.setWidth 8)
  | .flags => { s with flags := v.setWidth 8 }
  | .stackPointer => { s with stackPointer := v }
  | .programCounter => { s with programCounter := v }

/-- Cells are independent of each other. -/
theorem cell_setCell_other (s : Registers) (c d : Cell) (v : U16) (h : d ≠ c) :
    (s.setCell c v).cell d = s.cell d := by
  cases c <;> cases d <;> simp_all [Registers.setCell, Registers.cell, put_other]

theorem cell_setCell_byte (s : Registers) (c : Cell) (v : U16)
    (h : (v.setWidth 8).setWidth 16 = v) : (s.setCell c v).cell c = v := by
  cases c <;> simp [Registers.setCell, Registers.cell, h]

theorem setWidth_high (v : U16) : ((v >>> 8).setWidth 8).setWidth 16 = v >>> 8 := by
  ext i hi
  interval_cases i <;> simp

theorem setWidth_low (v : U16) : ((v &&& 0xFF).setWidth 8).setWidth 16 = v &&& 0xFF := by
  ext i hi
  interval_cases i <;> simp

/-- The two halves of a value make the value again. -/
theorem wordOfCells_halves (v : U16) : wordOfCells [v >>> 8, v &&& 0xFF] = v := by
  ext i hi
  interval_cases i <;> simp [wordOfCells]

/-- Store a value into the cells of a name, cut in halves where there are two. -/
def Registers.store (s : Registers) (r : Register) (v : U16) : Registers :=
  match r.cells with
  | [hi, lo] => (s.setCell hi (v >>> 8)).setCell lo (v &&& 0xFF)
  | [c] => s.setCell c v
  | _ => s

/-- A write to a named register leaves the cells of the others alone. -/
theorem store_cell_other (s : Registers) (r : Register) (v : U16) (c : Cell)
    (h : c ∉ r.cells) : (s.store r v).cell c = s.cell c := by
  unfold Registers.store
  split <;> simp_all [cell_setCell_other]

theorem cells_ne (r : Register) (hi lo : Cell) (h : r.cells = [hi, lo]) : hi ≠ lo := by
  rintro rfl
  cases r with
  | eightBit r => simp [Register.cells] at h
  | sixteenBit r => cases r <;> simp [Register.cells] at h <;> grind

theorem store_halves (s : Registers) (r : Register) (v : U16) (hi lo : Cell)
    (h : r.cells = [hi, lo]) :
    (s.store r v).cell hi = v >>> 8 ∧ (s.store r v).cell lo = v &&& 0xFF := by
  have hne := cells_ne r hi lo h
  simp only [Registers.store, h]
  refine ⟨?_, cell_setCell_byte _ _ _ (setWidth_low v)⟩
  rw [cell_setCell_other _ _ _ _ hne]
  exact cell_setCell_byte _ _ _ (setWidth_high v)

/-- A pair reads as the two halves that were stored in its cells. -/
theorem value_of_halves (s : Registers) (r : Register) (v : U16) (hi lo : Cell)
    (h : r.cells = [hi, lo]) (hs : s.cell hi = v >>> 8 ∧ s.cell lo = v &&& 0xFF) :
    s.value r = v := by
  rw [Registers.value, h, List.map_cons, List.map_cons, List.map_nil, hs.1, hs.2]
  exact wordOfCells_halves v

/-- A register reads back what was stored in it, cut to its width. -/
theorem store_value (s : Registers) (r : Register) (v : U16) (hr : r ≠ .sixteenBit .M) :
    (s.store r v).value r = r.fit v := by
  cases r with
  | eightBit r => simp [Registers.store, Register.cells, Registers.value, wordOfCells,
      Registers.setCell, Registers.cell, Register.fit]
  | sixteenBit r =>
    cases r with
    | M => exact absurd rfl hr
    | SP | PC => rfl
    | BC | DE | HL | AF =>
      exact value_of_halves _ _ v _ _ rfl (store_halves s _ v _ _ rfl)

/-- Writing through the dispatchers is storing into the cells of the name, BC apart. -/
theorem write_eq_store (s : Registers) (r : Register) (v : U16) (hr : r ≠ .sixteenBit .BC) :
    registersWriteRegisterValue s r v = .ok (s.store r v) := by
  cases r with
  | eightBit r => rfl
  | sixteenBit r => cases r <;> first | rfl | exact absurd rfl hr

/-- A write to BC lands in HL. -/
theorem write_BC (s : Registers) (v : U16) :
    registersWriteRegisterValue s (.sixteenBit .BC) v = .ok (s.store (.sixteenBit .HL) v) := rfl

/-- What writing a value to a named register has to do to the file. -/
structure Written (s : Registers) (r : Register) (v : U16) (s' : Registers) : Prop where
  reads_back : registersReadRegisterValue s' r = .ok (r.fit v)
  frame : ∀ q, q ≠ .sixteenBit .M → q.cells.Disjoint r.cells →
    registersReadRegisterValue s' q = registersReadRegisterValue s q
  halves : ∀ hi lo, r.cells = [hi, lo] → s'.cell hi = v >>> 8 ∧ s'.cell lo = v &&& 0xFF

/-- A write to the cells of a register is the write that is asked for. -/
theorem store_written (s : Registers) (r : Register) (v : U16) (hr : r ≠ .sixteenBit .M) :
    Written s r v (s.store r v) where
  reads_back := by rw [read_eq_value _ _ hr, store_value s r v hr]
  frame := by
    intro q hq hd
    rw [read_eq_value _ _ hq, read_eq_value _ _ hq]
    exact congrArg _ (value_congr _ _ _ fun c hc => store_cell_other s r v c fun hr => hd hc hr)
  halves := store_halves s r v

theorem word_shiftRight (hi lo : U8) : Sm83.word hi lo >>> 8 = hi.setWidth 16 := by
  ext i h
  interval_cases i <;> simp [Sm83.word]

theorem word_and (hi lo : U8) : Sm83.word hi lo &&& 0xFF = lo.setWidth 16 := by
  ext i h
  interval_cases i <;> simp [Sm83.word]

/-- Storing into HL what it already holds changes nothing. -/
theorem store_HL_self (s : Registers) :
    s.store (.sixteenBit .HL) (s.value (.sixteenBit .HL)) = s := by
  have hv : s.value (.sixteenBit .HL) = Sm83.word (s.registers .H) (s.registers .L) := rfl
  rw [hv]
  simp only [Registers.store, Register.cells, Registers.setCell, Registers.put, word_shiftRight,
    word_and, narrow_widen, Function.update_eq_self]

/-- The register file behaves as independent named registers on every write except one to
BC, which goes to HL: there it does so only when BC and HL both hold the value already. -/
theorem write_written_iff (s : Registers) (r : Register) (v : U16) (hr : r ≠ .sixteenBit .M) :
    (∃ s', registersWriteRegisterValue s r v = .ok s' ∧ Written s r v s') ↔
    (r = .sixteenBit .BC → registersReadRegisterValue s (.sixteenBit .BC) = .ok v ∧
      registersReadRegisterValue s (.sixteenBit .HL) = .ok v) := by
  constructor
  · rintro ⟨s', hw, law⟩ rfl
    rw [write_BC] at hw
    obtain rfl : s.store (.sixteenBit .HL) v = s' := Except.ok.inj hw
    have hother : (s.store (.sixteenBit .HL) v).value (.sixteenBit .BC) =
        s.value (.sixteenBit .BC) :=
      value_congr _ _ _ fun c hc => store_cell_other s _ v c fun h => by
        simp only [Register.cells, List.mem_cons, List.not_mem_nil, or_false] at hc h
        rcases hc with rfl | rfl <;> simp at h
    have hBC := law.reads_back
    rw [read_eq_value _ _ hr, hother] at hBC
    have hHL := law.frame (.sixteenBit .HL) (by decide) (by simp [Register.cells])
    rw [(store_written s (.sixteenBit .HL) v (by decide)).reads_back] at hHL
    exact ⟨by rw [read_eq_value _ _ hr]; exact hBC, hHL.symm⟩
  · intro h
    by_cases hb : r = .sixteenBit .BC
    · subst hb
      obtain ⟨hBC, hHL⟩ := h rfl
      have hv : s.value (.sixteenBit .HL) = v := by
        rw [read_eq_value _ _ (by decide)] at hHL
        exact Except.ok.inj hHL
      have hs : s.store (.sixteenBit .HL) v = s := by rw [← hv]; exact store_HL_self s
      refine ⟨s, by rw [write_BC, hs], hBC, fun _ _ _ => rfl, ?_⟩
      intro hi lo hc
      have hw : Sm83.word (s.registers .B) (s.registers .C) = v := by
        rw [read_eq_value _ _ hr] at hBC
        exact Except.ok.inj hBC
      obtain ⟨rfl, rfl⟩ : hi = .byte .B ∧ lo = .byte .C := by
        simpa [Register.cells, eq_comm] using hc
      exact ⟨by rw [← hw, word_shiftRight]; rfl, by rw [← hw, word_and]; rfl⟩
    · exact ⟨_, write_eq_store s r v hb, store_written s r v hr⟩

theorem write_written_iff_DE :
    (∃ s', registersWriteRegisterValue ⟨fun _ => 0, 0, 0, 0⟩ (.sixteenBit .DE) 0x1234 = .ok s' ∧
      Written ⟨fun _ => 0, 0, 0, 0⟩ (.sixteenBit .DE) 0x1234 s') ↔
    (Register.sixteenBit .DE = .sixteenBit .BC →
      registersReadRegisterValue ⟨fun _ => 0, 0, 0, 0⟩ (.sixteenBit .BC) = .ok 0x1234 ∧
      registersReadRegisterValue ⟨fun _ => 0, 0, 0, 0⟩ (.sixteenBit .HL) = .ok 0x1234) :=
  write_written_iff _ _ _ (by decide)

/-- A write to BC in a file of zeros leaves BC zero and changes HL. -/
theorem write_BC_not_written :
    ¬ ∃ s', registersWriteRegisterValue ⟨fun _ => 0, 0, 0, 0⟩ (.sixteenBit .BC) 0x1234 = .ok s' ∧
      Written ⟨fun _ => 0, 0, 0, 0⟩ (.sixteenBit .BC) 0x1234 s' := by
  rintro ⟨s', hw, law⟩
  have hBC : registersReadRegisterValue s' (.sixteenBit .BC) = .ok 0 := by
    rw [write_BC] at hw
    obtain rfl := Except.ok.inj hw
    rfl
  rw [law.reads_back] at hBC
  exact absurd (Except.ok.inj hBC) (by decide)

end Beemu
