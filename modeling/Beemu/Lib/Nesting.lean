import Mathlib.Algebra.BigOperators.Group.List.Basic
import Mathlib.Algebra.Ring.Int.Defs
import Mathlib.Data.Nat.Find

/-!
# Nested opens and closes

A sequence of opens and closes is looked at through its levels: how many opens there are less
how many closes before a place. A close matches the last open before it that is not closed yet,
and the opens that are not closed are a stack: an open goes on top of it, and a close takes the
top away, which is its match.
-/

namespace Nesting

inductive Side where
  | opens | closes
  deriving DecidableEq, Repr

def Side.delta : Side → Int
  | .opens => 1
  | .closes => -1

/-- The opens among the first `k` sides less the closes among them. -/
def level (ss : List Side) (k : Nat) : Int := ((ss.take k).map Side.delta).sum

@[simp] theorem level_zero (ss : List Side) : level ss 0 = 0 := rfl

section Levels

variable {ss : List Side} {k : Nat}

theorem level_succ {side : Side} (h : ss[k]? = some side) :
    level ss (k + 1) = level ss k + side.delta := by
  rw [level, List.take_add_one, h, List.map_append, List.sum_append]
  simp [level]

theorem level_succ_opens (h : ss[k]? = some .opens) : level ss (k + 1) = level ss k + 1 :=
  level_succ h

theorem level_succ_closes (h : ss[k]? = some .closes) : level ss (k + 1) = level ss k - 1 :=
  level_succ h

end Levels

/-- The close at `j` matches the open at `i`: what is between them stays above that open, and is
back on its level. -/
structure Matches (ss : List Side) (i j : Nat) : Prop where
  opens : ss[i]? = some .opens
  closes : ss[j]? = some .closes
  lt : i < j
  inside : ∀ k, i < k → k ≤ j → level ss (i + 1) ≤ level ss k
  back : level ss j = level ss (i + 1)

theorem Matches.not_lt {ss : List Side} {i i' j : Nat} (h : Matches ss i j)
    (h' : Matches ss i' j) : ¬ i < i' := by
  intro hi
  have hin := h.inside i' hi (Nat.le_of_lt h'.lt)
  have hup := level_succ_opens h'.opens
  have hb := h.back
  have hb' := h'.back
  omega

/-- A close has one match. -/
theorem Matches.unique {ss : List Side} {i i' j : Nat} (h : Matches ss i j)
    (h' : Matches ss i' j) : i = i' := by
  have h₁ := h.not_lt h'
  have h₂ := h'.not_lt h
  omega

/-- The open at `i` is not closed by the first `k` sides. -/
structure OpenAt (ss : List Side) (k i : Nat) : Prop where
  opens : ss[i]? = some .opens
  lt : i < k
  inside : ∀ k', i < k' → k' ≤ k → level ss (i + 1) ≤ level ss k'

theorem OpenAt.succ {ss : List Side} {k i : Nat} (h : OpenAt ss k i)
    (hl : level ss (i + 1) ≤ level ss (k + 1)) : OpenAt ss (k + 1) i := by
  refine ⟨h.opens, Nat.lt_succ_of_lt h.lt, fun k' hi hk => ?_⟩
  by_cases he : k' = k + 1
  · rw [he]
    exact hl
  · exact h.inside k' hi (by omega)

/-- Each of these opens is not closed, and leads to the level of its place in the list. -/
def Pending (ss : List Side) (k : Nat) : List Nat → Prop
  | [] => True
  | i :: is => OpenAt ss k i ∧ level ss (i + 1) = is.length + 1 ∧ Pending ss k is

theorem Pending.succ {ss : List Side} {k : Nat} {is : List Nat} (h : Pending ss k is)
    (hl : is.length ≤ level ss (k + 1)) : Pending ss (k + 1) is := by
  induction is with
  | nil => trivial
  | cons i is ih =>
    obtain ⟨ho, hi, hp⟩ := h
    rw [List.length_cons] at hl
    exact ⟨ho.succ (by omega), hi, ih hp (by omega)⟩

/-- The opens that the first `k` sides do not close, the last one first. -/
structure Unclosed (ss : List Side) (k : Nat) (is : List Nat) : Prop where
  level : level ss k = is.length
  pending : Pending ss k is

namespace Unclosed

variable {ss : List Side} {k : Nat} {is : List Nat}

theorem start (ss : List Side) : Unclosed ss 0 [] := ⟨rfl, trivial⟩

theorem push (h : Unclosed ss k is) (ho : ss[k]? = some .opens) :
    Unclosed ss (k + 1) (k :: is) := by
  have hl := h.level
  have hup := level_succ_opens ho
  refine ⟨?_, ⟨ho, Nat.lt_succ_self k, fun k' hi hk => ?_⟩, ?_, h.pending.succ ?_⟩
  · rw [List.length_cons]
    omega
  · obtain rfl : k' = k + 1 := by omega
    exact Int.le_refl _
  · omega
  · omega

/-- A close that does not go below the start has an open to take away. -/
theorem exists_top (h : Unclosed ss k is) (hc : ss[k]? = some .closes)
    (hl : 0 ≤ Nesting.level ss (k + 1)) : ∃ i rest, is = i :: rest := by
  have hk := h.level
  have hdown := level_succ_closes hc
  cases is with
  | nil =>
    rw [List.length_nil] at hk
    omega
  | cons i rest => exact ⟨i, rest, rfl⟩

theorem pop {i : Nat} (h : Unclosed ss k (i :: is)) (hc : ss[k]? = some .closes) :
    Matches ss i k ∧ Unclosed ss (k + 1) is := by
  have hl := h.level
  have hdown := level_succ_closes hc
  obtain ⟨ho, hi, hp⟩ := h.pending
  rw [List.length_cons] at hl
  refine ⟨⟨ho.opens, hc, ho.lt, ho.inside, ?_⟩, ?_, hp.succ ?_⟩
  · omega
  · omega
  · omega

end Unclosed

section First

variable {ss : List Side} {n : Nat}

theorem opens_of_level_nonneg (hn : 0 < ss.length) (h : 0 ≤ level ss 1) :
    ss[0]? = some .opens := by
  cases hs : ss[0]? with
  | none =>
    have hlen := List.getElem?_eq_none_iff.mp hs
    omega
  | some side =>
    cases side with
    | opens => rfl
    | closes =>
      have hdown : level ss 1 = 0 - 1 := level_succ_closes hs
      omega

theorem closes_of_level_succ_eq_zero {j : Nat} (hj : j < ss.length) (h : 0 ≤ level ss j)
    (h0 : level ss (j + 1) = 0) : ss[j]? = some .closes := by
  cases hs : ss[j]? with
  | none =>
    have hlen := List.getElem?_eq_none_iff.mp hs
    omega
  | some side =>
    cases side with
    | opens =>
      have hup := level_succ_opens hs
      omega
    | closes => rfl

/-- The first place after the start that is back on its level. -/
theorem exists_first_return (hn : 0 < n) (hl : level ss n = 0) :
    ∃ m ≤ n, 0 < m ∧ level ss m = 0 ∧ ∀ k, 0 < k → k < m → level ss k ≠ 0 := by
  have hex : ∃ m, 0 < m ∧ level ss m = 0 := ⟨n, hn, hl⟩
  obtain ⟨hm, hlm⟩ := Nat.find_spec hex
  exact ⟨Nat.find hex, Nat.find_min' hex ⟨hn, hl⟩, hm, hlm,
    fun k hk hlt h => Nat.find_min hex hlt ⟨hk, h⟩⟩

/-- A sequence that comes back to the start closes its first open, the first time it is back. -/
theorem matches_first (hn : 0 < n) (hle : n ≤ ss.length) (h0 : ∀ k ≤ n, 0 ≤ level ss k)
    (hl : level ss n = 0) : ∃ j < n, Matches ss 0 j ∧ level ss (j + 1) = 0 := by
  obtain ⟨m, hmn, hm, hlm, hmin⟩ := exists_first_return hn hl
  obtain ⟨j, rfl⟩ : ∃ j, m = j + 1 := ⟨m - 1, by omega⟩
  have hfirst := opens_of_level_nonneg (by omega) (h0 1 (by omega))
  have hone : level ss 1 = 1 := level_succ_opens hfirst
  have hclose := closes_of_level_succ_eq_zero (by omega) (h0 j (by omega)) hlm
  have hdown := level_succ_closes hclose
  have hj : j ≠ 0 := by
    rintro rfl
    rw [hone] at hlm
    omega
  refine ⟨j, by omega, ⟨hfirst, hclose, by omega, fun k hk hkj => ?_, ?_⟩, hlm⟩
  · have hk0 := h0 k (by omega)
    have hkne := hmin k hk (by omega)
    rw [Nat.zero_add, hone]
    omega
  · rw [Nat.zero_add, hone]
    omega

end First

end Nesting
