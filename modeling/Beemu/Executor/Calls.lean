import Beemu.Executor.Jump
import Beemu.Lib.Nesting
import Beemu.Sm83.Stack

/-!
# Runs of calls and returns

A call writes its return address at SP and moves SP down, a return moves SP up and reads there.
Over any run that keeps to its room the words above SP are the return addresses of the calls
that have not returned, and so each return goes to the instruction after the call it matches.
-/

namespace Beemu

open Nesting (Side level Matches Unclosed)
open Sm83 (StoredAt hi lo)

/-- What a word does to the depth of calls. -/
def CodeWord.side? (w : CodeWord) : Option Side :=
  match w.opcode with
  | .jump .call => some .opens
  | .jump .ret | .jump .reti => some .closes
  | _ => none

/-- The processor after the first `k` words, one executed after the other; a fault is the end. -/
def executeAt (p : Processor) (ws : List CodeWord) : Nat → Processor
  | 0 => p
  | k + 1 =>
    match ws[k]? with
    | none => executeAt p ws k
    | some w =>
      match executeWord (executeAt p ws k) w with
      | .ok q => q
      | .error _ => executeAt p ws k

theorem executeAt_succ {p q : Processor} {ws : List CodeWord} {k : Nat} {w : CodeWord}
    (hw : ws[k]? = some w) (hq : executeWord (executeAt p ws k) w = .ok q) :
    executeAt p ws (k + 1) = q := by
  rw [executeAt, hw]
  simp only [hq]

/-! ## The stack of the executor -/

/-- The words of a list are above the free word that SP points at. -/
structure HoldsCalls (s0 : Nat) (s : Sm83.State) (addresses : List U16) : Prop where
  sp : s.sp.toNat + 2 * addresses.length = s0
  stored : StoredAt s.mem (s.sp.toNat + 2) addresses

namespace HoldsCalls

variable {s0 : Nat} {s : Sm83.State} {addresses : List U16}

theorem empty (s : Sm83.State) : HoldsCalls s.sp.toNat s [] := ⟨rfl, trivial⟩

theorem setPc (h : HoldsCalls s0 s addresses) (pc : U16) : HoldsCalls s0 (s.setPc pc) addresses :=
  ⟨h.sp, h.stored⟩

theorem sp_ne_last (h : HoldsCalls s0 s addresses) (hs : s0 ≤ 0xFFFE) : s.sp ≠ 0xFFFF := by
  intro he
  have hsp := h.sp
  rw [he] at hsp
  change 65535 + _ = s0 at hsp
  omega

theorem pushed_mem (s : Sm83.State) (v : U16) : (pushed s v).mem =
    Function.update (Function.update s.mem (BitVec.ofNat 16 s.sp.toNat) (lo v))
      (BitVec.ofNat 16 (s.sp.toNat + 1)) (hi v) := by
  have h₁ : s.sp + 1 = BitVec.ofNat 16 (s.sp.toNat + 1) := Sm83.add_eq_ofNat _ 1
  rw [← h₁, BitVec.ofNat_toNat, BitVec.setWidth_eq]
  rfl

/-- The word at SP is free, and becomes the first of the list. -/
theorem push (h : HoldsCalls s0 s addresses) (hr : 2 * (addresses.length + 1) ≤ s0)
    (hs : s0 ≤ 0xFFFE) (v : U16) : HoldsCalls s0 (pushed s v) (v :: addresses) := by
  have hsp := h.sp
  have ht : (pushed s v).sp.toNat = s.sp.toNat - 2 := Sm83.toNat_sub_ofNat s.sp 2 (by omega)
  have ha : s.sp.toNat - 2 + 2 = s.sp.toNat := by omega
  constructor
  · rw [ht, List.length_cons]
    omega
  · rw [ht, ha, pushed_mem]
    exact h.stored.cons (by omega) v

/-- A push writes two bytes. -/
theorem pushed_mem_of_ne (hs : s.sp ≠ 0xFFFF) (v a : U16)
    (ha : a.toNat < s.sp.toNat ∨ s.sp.toNat + 1 < a.toNat) :
    (pushed s v).mem a = s.mem a := by
  have hlt : s.sp.toNat + 1 < 65536 := by bv_omega
  have hne (b : Nat) (hb : b < 65536) (hab : a.toNat ≠ b) : a ≠ BitVec.ofNat 16 b := by
    rintro rfl
    rw [BitVec.toNat_ofNat] at hab
    omega
  rw [pushed_mem, Function.update_of_ne (hne _ hlt (by omega)),
    Function.update_of_ne (hne _ (by omega) (by omega))]

theorem toNat_add_two {v : U16} (h : HoldsCalls s0 s (v :: addresses)) (hs : s0 ≤ 0xFFFE) :
    (s.sp + 2).toNat = s.sp.toNat + 2 := by
  have hsp := h.sp
  rw [List.length_cons] at hsp
  exact Sm83.toNat_add_ofNat s.sp 2 (by omega)

theorem pop {v : U16} (h : HoldsCalls s0 s (v :: addresses)) (hs : s0 ≤ 0xFFFE) :
    HoldsCalls s0 (s.setSp (s.sp + 2)) addresses := by
  have hsp := h.sp
  have ht := h.toNat_add_two hs
  rw [List.length_cons] at hsp
  constructor
  · rw [Sm83.State.setSp_sp, ht]
    omega
  · rw [Sm83.State.setSp_sp, ht]
    exact h.stored.2.2

theorem popped {v : U16} (h : HoldsCalls s0 s (v :: addresses)) :
    Sm83.word (s.mem (s.sp + 2 + 1)) (s.mem (s.sp + 2)) = v := by
  have h₂ : s.sp + 2 = BitVec.ofNat 16 (s.sp.toNat + 2) := Sm83.add_eq_ofNat _ 2
  have h₃ : s.sp + 2 + 1 = BitVec.ofNat 16 (s.sp.toNat + 2 + 1) := by
    rw [h₂, BitVec.ofNat_add (s.sp.toNat + 2) 1]
    rfl
  rw [h₃, h₂]
  exact h.stored.head

end HoldsCalls

/-! ## The run -/

section Run

variable {p : Processor} {ws : List CodeWord} {ss : List Side} {k : Nat}

/-- The address after the `i`-th word, which is three bytes long where it is a call. -/
def returnAddress (p : Processor) (ws : List CodeWord) (i : Nat) : U16 :=
  (executeAt p ws i).abs.pc + 3

/-- What holds after `k` words: the return addresses of the open calls are on the stack, and
only bytes for `d` levels of calls have been written. -/
structure CallInv (p : Processor) (ws : List CodeWord) (ss : List Side) (d : Int) (k : Nat) :
    Prop where
  stack : ∃ is, Unclosed ss k is ∧
    HoldsCalls p.abs.sp.toNat (executeAt p ws k).abs (is.map (returnAddress p ws))
  reg : (executeAt p ws k).abs.reg = p.abs.reg
  flags : (executeAt p ws k).abs.f = p.abs.f
  mem : ∀ a : U16,
    ¬ (p.abs.sp.toNat - 2 * (d - 1) ≤ a.toNat ∧ (a.toNat : Int) ≤ p.abs.sp.toNat + 1) →
    (executeAt p ws k).abs.mem a = p.abs.mem a

/-- A step of the run, with what it does to PC. -/
structure CallStep (p : Processor) (ws : List CodeWord) (ss : List Side) (k : Nat) (w : CodeWord) :
    Prop where
  ok : executeWord (executeAt p ws k) w = .ok (executeAt p ws (k + 1))
  call : ss[k]? = some .opens →
    (executeAt p ws (k + 1)).abs.pc = Sm83.word w.secondOperand w.firstOperand
  ret : ss[k]? = some .closes →
    ∃ i, Matches ss i k ∧ (executeAt p ws (k + 1)).abs.pc = returnAddress p ws i

theorem sides_length (hw : ws.map CodeWord.side? = ss.map some) : ws.length = ss.length := by
  have h := congrArg List.length hw
  rwa [List.length_map, List.length_map] at h

theorem side_at {w : CodeWord} (hw : ws.map CodeWord.side? = ss.map some) (hk : ws[k]? = some w) :
    ∃ side, ss[k]? = some side ∧ w.side? = some side := by
  have h := congrArg (·[k]?) hw
  simp only [List.getElem?_map, hk, Option.map_some] at h
  obtain ⟨side, hs, he⟩ := Option.map_eq_some_iff.mp h.symm
  exact ⟨side, hs, he.symm⟩

theorem CallInv.call {d : Int} {w : CodeWord} (h : CallInv p ws ss d k) (hk : ws[k]? = some w)
    (hw : w.opcode = .jump .call) (ho : ss[k]? = some .opens) (hs : p.abs.sp.toNat ≤ 0xFFFE)
    (hl : 2 * level ss (k + 1) ≤ p.abs.sp.toNat) (hd : level ss (k + 1) ≤ d) :
    CallInv p ws ss d (k + 1) ∧ CallStep p ws ss k w := by
  obtain ⟨is, hu, hc⟩ := h.stack
  have hup := Nesting.level_succ_opens ho
  have hlen := hu.level
  have hsp := hc.sp
  rw [List.length_map] at hsp
  have hne := hc.sp_ne_last hs
  obtain ⟨q, hq, he⟩ := executeWord_call (executeAt p ws k) w hw hne
  have hx := executeAt_succ hk hq
  constructor
  · constructor
    · refine ⟨k :: is, hu.push ho, ?_⟩
      rw [hx, he]
      refine (hc.push ?_ hs _).setPc _
      rw [List.length_map]
      omega
    · rw [hx, he]
      exact h.reg
    · rw [hx, he]
      exact h.flags
    · intro a ha
      rw [hx, he]
      refine (HoldsCalls.pushed_mem_of_ne hne _ a ?_).trans (h.mem a ha)
      omega
  · refine ⟨hq.trans (congrArg Except.ok hx.symm), fun _ => ?_, fun hcl => ?_⟩
    · rw [hx, he]
      rfl
    · rw [ho] at hcl
      cases hcl

theorem CallInv.ret {d : Int} {w : CodeWord} (h : CallInv p ws ss d k) (hk : ws[k]? = some w)
    (hw : w.opcode = .jump .ret ∨ w.opcode = .jump .reti) (hc : ss[k]? = some .closes)
    (hs : p.abs.sp.toNat ≤ 0xFFFE) (hl : 0 ≤ level ss (k + 1)) :
    CallInv p ws ss d (k + 1) ∧ CallStep p ws ss k w := by
  obtain ⟨is, hu, hh⟩ := h.stack
  obtain ⟨i, is, rfl⟩ := hu.exists_top hc hl
  obtain ⟨hm, hu'⟩ := hu.pop hc
  rw [List.map_cons] at hh
  have hne : (executeAt p ws k).abs.sp ≠ 0xFFFD := by
    intro he
    have ht := hh.toNat_add_two hs
    have hsp := (hh.pop hs).sp
    rw [Sm83.State.setSp_sp, ht, he] at hsp
    change 65533 + 2 + _ = _ at hsp
    omega
  obtain ⟨q, hq, he⟩ := executeWord_ret (executeAt p ws k) w hw hne
  rw [hh.popped] at he
  have hx := executeAt_succ hk hq
  constructor
  · constructor
    · refine ⟨is, hu', ?_⟩
      rw [hx, he]
      exact (hh.pop hs).setPc _
    · rw [hx, he]
      exact h.reg
    · rw [hx, he]
      exact h.flags
    · rw [hx, he]
      exact h.mem
  · refine ⟨hq.trans (congrArg Except.ok hx.symm), fun ho => ?_, fun _ => ⟨i, hm, ?_⟩⟩
    · rw [hc] at ho
      cases ho
    · rw [hx, he]
      rfl

theorem CallInv.step {d : Int} {w : CodeWord} (h : CallInv p ws ss d k) (hk : ws[k]? = some w)
    (hw : ws.map CodeWord.side? = ss.map some) (hs : p.abs.sp.toNat ≤ 0xFFFE)
    (hl : 0 ≤ level ss (k + 1) ∧ 2 * level ss (k + 1) ≤ p.abs.sp.toNat)
    (hd : level ss (k + 1) ≤ d) :
    CallInv p ws ss d (k + 1) ∧ CallStep p ws ss k w := by
  obtain ⟨side, hss, hside⟩ := side_at hw hk
  rw [CodeWord.side?] at hside
  split at hside
  · next ho =>
    obtain rfl := Option.some.inj hside
    exact h.call hk ho hss hs hl.2 hd
  · next ho =>
    obtain rfl := Option.some.inj hside
    exact h.ret hk (.inl ho) hss hs hl.1
  · next ho =>
    obtain rfl := Option.some.inj hside
    exact h.ret hk (.inr ho) hss hs hl.1
  · cases hside

theorem CallInv.start (p : Processor) (ws : List CodeWord) (ss : List Side) (d : Int) :
    CallInv p ws ss d 0 :=
  ⟨⟨[], Unclosed.start ss, HoldsCalls.empty p.abs⟩, rfl, rfl, fun _ _ => rfl⟩

end Run

/-- No return is left without a call, and the stack of calls does not run into address 0. -/
def KeepsRoom (s0 : Nat) (ss : List Side) : Prop :=
  ∀ k ≤ ss.length, 0 ≤ level ss k ∧ 2 * level ss k ≤ s0

instance (s0 : Nat) (ss : List Side) : Decidable (KeepsRoom s0 ss) :=
  inferInstanceAs (Decidable (∀ k ≤ ss.length, 0 ≤ level ss k ∧ 2 * level ss k ≤ s0))

theorem KeepsRoom.level_le {s0 k : Nat} {ss : List Side} (h : KeepsRoom s0 ss)
    (hk : k ≤ ss.length) : level ss k ≤ s0 := by
  have hr := h k hk
  omega

/-- What a run of calls and returns comes to. -/
structure CallRun (p : Processor) (ws : List CodeWord) (ss : List Side) : Prop where
  step : ∀ k w, ws[k]? = some w →
    executeWord (executeAt p ws k) w = .ok (executeAt p ws (k + 1))
  sp : ∀ k ≤ ws.length,
    ((executeAt p ws k).abs.sp.toNat : Int) = p.abs.sp.toNat - 2 * level ss k
  call : ∀ k w, ws[k]? = some w → ss[k]? = some .opens →
    (executeAt p ws (k + 1)).abs.pc = Sm83.word w.secondOperand w.firstOperand
  matched : ∀ j, ss[j]? = some .closes → ∃ i, Matches ss i j
  ret : ∀ i j, Matches ss i j →
    (executeAt p ws (j + 1)).abs.pc = (executeAt p ws i).abs.pc + 3
  reg : ∀ k ≤ ws.length, (executeAt p ws k).abs.reg = p.abs.reg
  flags : ∀ k ≤ ws.length, (executeAt p ws k).abs.f = p.abs.f
  mem : ∀ dmax : Int, (∀ k ≤ ws.length, level ss k ≤ dmax) → ∀ k ≤ ws.length, ∀ a : U16,
    ¬ (p.abs.sp.toNat - 2 * (dmax - 1) ≤ a.toNat ∧ (a.toNat : Int) ≤ p.abs.sp.toNat + 1) →
    (executeAt p ws k).abs.mem a = p.abs.mem a
  /-- A run that ends on the level where it began has SP as it was, and the first call has
  returned to the address after it, with SP as it was: at the end of the run, if the run was not
  on that level before. -/
  balanced : 0 < ws.length → level ss ws.length = 0 →
    (executeAt p ws ws.length).abs.sp = p.abs.sp ∧
    ∃ j < ws.length, Matches ss 0 j ∧ (executeAt p ws (j + 1)).abs.pc = p.abs.pc + 3 ∧
      (executeAt p ws (j + 1)).abs.sp = p.abs.sp ∧
      ((∀ k, 0 < k → k < ws.length → level ss k ≠ 0) → j + 1 = ws.length)

section Calls

variable {p : Processor} {ws : List CodeWord} {ss : List Side}

theorem callInv_at {d : Int} (hw : ws.map CodeWord.side? = ss.map some)
    (hs : p.abs.sp.toNat ≤ 0xFFFE) (hr : KeepsRoom p.abs.sp.toNat ss)
    (hd : ∀ k ≤ ws.length, level ss k ≤ d) (k : Nat) (hk : k ≤ ws.length) :
    CallInv p ws ss d k := by
  have hlen := sides_length hw
  induction k with
  | zero => exact CallInv.start p ws ss d
  | succ k ih =>
    have hget : ws[k]? = some ws[k] := List.getElem?_eq_getElem hk
    exact ((ih (by omega)).step hget hw hs (hr _ (by omega)) (hd _ hk)).1

theorem callStep_at {k : Nat} {w : CodeWord} (hw : ws.map CodeWord.side? = ss.map some)
    (hs : p.abs.sp.toNat ≤ 0xFFFE) (hr : KeepsRoom p.abs.sp.toNat ss) (hk : ws[k]? = some w) :
    CallStep p ws ss k w := by
  have hlen := sides_length hw
  obtain ⟨hlt, -⟩ := List.getElem?_eq_some_iff.mp hk
  have hd (j : Nat) (hj : j ≤ ws.length) : level ss j ≤ p.abs.sp.toNat := hr.level_le (by omega)
  exact ((callInv_at hw hs hr hd k (by omega)).step hk hw hs (hr _ (by omega)) (hd _ hlt)).2

end Calls

/-- Every return of a run goes to the address after the call it matches. -/
theorem calls_run (p : Processor) (ws : List CodeWord) (ss : List Side)
    (hw : ws.map CodeWord.side? = ss.map some) (hs : p.abs.sp.toNat ≤ 0xFFFE)
    (hr : KeepsRoom p.abs.sp.toNat ss) : CallRun p ws ss := by
  have hlen := sides_length hw
  have hd (k : Nat) (hk : k ≤ ws.length) : level ss k ≤ p.abs.sp.toNat := hr.level_le (by omega)
  have hinv := callInv_at hw hs hr hd
  have hget {k : Nat} {side : Side} (h : ss[k]? = some side) : ws[k]? = some (ws.getD k 0) := by
    obtain ⟨hlt, -⟩ := List.getElem?_eq_some_iff.mp h
    rw [List.getD_eq_getElem?_getD, List.getElem?_eq_getElem (by omega)]
    rfl
  have hsp (k : Nat) (hk : k ≤ ws.length) :
      ((executeAt p ws k).abs.sp.toNat : Int) = p.abs.sp.toNat - 2 * level ss k := by
    obtain ⟨is, hu, hc⟩ := (hinv k hk).stack
    have h := hc.sp
    have hl := hu.level
    rw [List.length_map] at h
    omega
  have hret (i j : Nat) (hm : Matches ss i j) :
      (executeAt p ws (j + 1)).abs.pc = (executeAt p ws i).abs.pc + 3 := by
    obtain ⟨i', hm', hpc⟩ := (callStep_at hw hs hr (hget hm.closes)).ret hm.closes
    rw [hm.unique hm']
    exact hpc
  refine ⟨fun k w hk => (callStep_at hw hs hr hk).ok, hsp,
    fun k w hk ho => (callStep_at hw hs hr hk).call ho, fun j hj => ?_, hret,
    fun k hk => (hinv k hk).reg, fun k hk => (hinv k hk).flags,
    fun dmax hmax k hk => (callInv_at hw hs hr hmax k hk).mem, fun hpos hl => ?_⟩
  · obtain ⟨i, hm, -⟩ := (callStep_at hw hs hr (hget hj)).ret hj
    exact ⟨i, hm⟩
  · have hback (k : Nat) (hk : k ≤ ws.length) (h0 : level ss k = 0) :
        (executeAt p ws k).abs.sp = p.abs.sp := by
      have h := hsp k hk
      apply BitVec.eq_of_toNat_eq
      omega
    obtain ⟨j, hj, hm, hj0⟩ := Nesting.matches_first hpos (by omega)
      (fun k hk => (hr k (by omega)).1) hl
    refine ⟨hback _ (le_refl _) hl, j, hj, hm, hret 0 j hm, hback _ hj hj0, fun hfirst => ?_⟩
    by_cases hjn : j + 1 < ws.length
    · exact absurd hj0 (hfirst (j + 1) (by omega) hjn)
    · omega

/-- A processor of zeros whose stack starts at 0xFFFE. -/
def processorWithStack : Processor := machineAtZero.processor.write (.sixteenBit .SP) 0xFFFE

/-- Two nested calls from address 0, of which the inner one returns by RETI. -/
theorem calls_run_nested :
    CallRun processorWithStack [0xCD3412, 0xCD0020, 0xD90000, 0xC90000]
      [.opens, .opens, .closes, .closes] :=
  calls_run _ _ _ rfl (by decide) (by decide)

/-- A run that calls twice from the level where it began ends after its second call. -/
theorem two_calls_end_past_second :
    [(0xCD0020 : CodeWord), 0xC90000, 0xCD0020, 0xC90000].map CodeWord.side? =
        [Side.opens, .closes, .opens, .closes].map some ∧
      processorWithStack.abs.sp.toNat ≤ 0xFFFE ∧
      KeepsRoom processorWithStack.abs.sp.toNat [.opens, .closes, .opens, .closes] ∧
      level [.opens, .closes, .opens, .closes] 4 = 0 ∧
      (executeAt processorWithStack [0xCD0020, 0xC90000, 0xCD0020, 0xC90000] 4).abs.pc ≠
        processorWithStack.abs.pc + 3 := by
  refine ⟨rfl, ?_, ?_, ?_, ?_⟩ <;> decide

end Beemu
