import Mathlib.Data.List.Basic

/-!
# Runs and the last write to a cell

A run takes labels one after the other. When each label writes a value to one key, and a step
reads back what it wrote and keeps every other key, a run leaves in each key the last value
written to it.
-/

namespace History

variable {σ ι κ ν : Type}

/-- The labels of a list lead, in order, from one state to another. -/
inductive Run (step : σ → ι → σ → Prop) : σ → List ι → σ → Prop where
  | nil (s : σ) : Run step s [] s
  | cons {s t u : σ} {i : ι} {labels : List ι} :
      step s i t → Run step t labels u → Run step s (i :: labels) u

variable [DecidableEq κ]

/-- The value of the last write to a key. -/
def lastWrite (k : κ) : List (κ × ν) → Option ν
  | [] => none
  | w :: ws => (lastWrite k ws).or (if w.1 = k then some w.2 else none)

section LastWrite

variable {k : κ} {v : ν} {ws : List (κ × ν)}

theorem lastWrite_eq_none_iff : lastWrite k ws = none ↔ ∀ v, (k, v) ∉ ws := by
  induction ws with
  | nil => simp [lastWrite]
  | cons w ws ih =>
    obtain ⟨j, u⟩ := w
    rw [lastWrite, Option.or_eq_none_iff, ih]
    by_cases hj : j = k
    · subst hj
      simpa using ⟨u, fun h => absurd rfl h⟩
    · simp [hj, Ne.symm hj]

theorem mem_of_lastWrite (h : lastWrite k ws = some v) : (k, v) ∈ ws := by
  induction ws with
  | nil => cases h
  | cons w ws ih =>
    rw [lastWrite, Option.or_eq_some_iff] at h
    rcases h with h | ⟨-, h⟩
    · exact List.mem_cons_of_mem w (ih h)
    · obtain ⟨j, u⟩ := w
      by_cases hj : j = k
      · subst hj
        obtain rfl : u = v := by simpa using h
        exact List.mem_cons_self
      · simp [hj] at h

/-- What a key holds after a history is what its first write finds there, or a later write. -/
theorem lastWrite_cons_getD (w : κ × ν) (d : ν) :
    (lastWrite k (w :: ws)).getD d = (lastWrite k ws).getD (if w.1 = k then w.2 else d) := by
  rw [lastWrite]
  cases lastWrite k ws with
  | some v => rfl
  | none => by_cases h : w.1 = k <;> simp [h]

theorem lastWrite_singleton (w : κ × ν) :
    lastWrite k [w] = if w.1 = k then some w.2 else none := rfl

theorem lastWrite_append (ws us : List (κ × ν)) :
    lastWrite k (ws ++ us) = (lastWrite k us).or (lastWrite k ws) := by
  induction ws with
  | nil => exact (Option.or_none).symm
  | cons w ws ih => rw [List.cons_append, lastWrite, lastWrite, ih, Option.or_assoc]

/-- Writes to different keys may come in any order. -/
theorem lastWrite_perm {us : List (κ × ν)} (h : ws.Perm us) (hn : (ws.map Prod.fst).Nodup) :
    lastWrite k ws = lastWrite k us := by
  induction h with
  | nil => rfl
  | cons w _ ih =>
    rw [List.map_cons, List.nodup_cons] at hn
    rw [lastWrite, lastWrite, ih hn.2]
  | swap w u ws =>
    have hne : u.1 ≠ w.1 := by
      intro he
      simp [he] at hn
    rw [lastWrite, lastWrite, lastWrite, lastWrite, Option.or_assoc, Option.or_assoc]
    congr 1
    by_cases hu : u.1 = k
    · have hw : w.1 ≠ k := fun hw => hne (hu.trans hw.symm)
      rw [if_pos hu, if_neg hw]
      rfl
    · rw [if_neg hu]
      exact Option.or_none
  | trans h₁ _ ih₁ ih₂ =>
    exact (ih₁ hn).trans (ih₂ ((h₁.map Prod.fst).nodup_iff.mp hn))

/-- Keys that are all of one kind, each with a value of its own. -/
theorem lastWrite_map {ι : Type} [DecidableEq ι] (f : ι → κ) (hf : Function.Injective f)
    (g : ι → ν) (l : List ι) (i : ι) :
    lastWrite (f i) (l.map fun j => (f j, g j)) = if i ∈ l then some (g i) else none := by
  induction l with
  | nil => rfl
  | cons j l ih =>
    rw [List.map_cons, lastWrite, ih]
    by_cases hj : j = i
    · subst hj
      by_cases hl : j ∈ l <;> simp [hl]
    · have hne : f j ≠ f i := fun h => hj (hf h)
      simp [hne, Ne.symm hj]

end LastWrite

/-- A run of writes ends with the last write of every key. -/
theorem Run.read {step : σ → ι → σ → Prop} (read : σ → κ → ν) (write : ι → κ × ν)
    (hstep : ∀ s i t, step s i t →
      ∀ k, read t k = if (write i).1 = k then (write i).2 else read s k)
    {s t : σ} {labels : List ι} (h : Run step s labels t) (k : κ) :
    read t k = (lastWrite k (labels.map write)).getD (read s k) := by
  induction h with
  | nil s => rfl
  | cons hs _ ih => rw [ih, List.map_cons, lastWrite_cons_getD, hstep _ _ _ hs]

end History
