import Mathlib.Data.Set.Basic
import Beemu.Lib.History
import Beemu.Lib.Trace

/-!
# What a run depends on

A state is a value for every key. A step is seen as a list of writes, and which ones they are
depends on the keys that it reads and on no others. Two states that differ in some keys then have
the same run ahead of them as long as no step reads a key that still differs.
-/

namespace Dependence

open History (lastWrite)
open Tracing (Trace)

variable {σ ι κ ν ω : Type} [DecidableEq κ]

/-- A machine with what is seen of the step that led to a state. -/
structure Machine (σ ι κ ν ω : Type) where
  read : σ → κ → ν
  reads : σ → ι → List κ
  step : σ → ι → σ → Prop
  seen : σ → ω
  writes : ω → List (κ × ν)

namespace Machine

variable (M : Machine σ ι κ ν ω)

/-- A step leaves what it writes and keeps the rest, and depends on nothing but what it reads. -/
structure Lawful : Prop where
  next : ∀ {s i t}, M.step s i t →
    ∀ k, M.read t k = (lastWrite k (M.writes (M.seen t))).getD (M.read s k)
  local_step : ∀ {s s' i t}, M.step s i t → (∀ k ∈ M.reads s i, M.read s k = M.read s' k) →
    ∃ t', M.step s' i t' ∧ M.seen t' = M.seen t

/-- The keys of a set that were not written. -/
def unwritten (X : Set κ) (o : ω) : Set κ := {k | k ∈ X ∧ lastWrite k (M.writes o) = none}

/-- No step of a trace reads a key of the set that was not written before. -/
def ReadsNone : Set κ → σ → List ι → List σ → Prop
  | X, s, i :: labels, t :: states =>
    (∀ k ∈ M.reads s i, k ∉ X) ∧ ReadsNone (M.unwritten X (M.seen t)) t labels states
  | _, _, _, _ => True

/-- All that a trace writes, in order. -/
def log (states : List σ) : List (κ × ν) := states.flatMap fun t => M.writes (M.seen t)

variable {M}

/-- Labels that read no key of the set in any state. -/
theorem readsNone_of_forall {X : Set κ} {labels : List ι} (s : σ) (states : List σ)
    (h : ∀ i ∈ labels, ∀ s, ∀ k ∈ M.reads s i, k ∉ X) : M.ReadsNone X s labels states := by
  induction labels generalizing X s states with
  | nil => trivial
  | cons i labels ih =>
    cases states with
    | nil => trivial
    | cons t states =>
      rw [List.forall_mem_cons] at h
      exact ⟨h.1 s, ih t states fun j hj u k hk hX => h.2 j hj u k hk hX.1⟩

theorem Lawful.next_agree (law : M.Lawful) {X : Set κ} {s s' t t' : σ} {i : ι}
    (h : M.step s i t) (h' : M.step s' i t') (hseen : M.seen t' = M.seen t)
    (ha : ∀ k ∉ X, M.read s k = M.read s' k) :
    ∀ k ∉ M.unwritten X (M.seen t), M.read t k = M.read t' k := by
  intro k hk
  rw [law.next h, law.next h', hseen]
  cases hw : lastWrite k (M.writes (M.seen t)) with
  | some v => rfl
  | none => exact ha k fun hX => hk ⟨hX, hw⟩

/-- States that differ in keys that a trace does not read have the same trace ahead of them, and
in the end they differ in none that it has written. -/
theorem Lawful.trace_agree (law : M.Lawful) {s s' : σ} {labels : List ι} {states : List σ}
    (ht : Trace M.step s labels states) {X : Set κ} (hr : M.ReadsNone X s labels states)
    (ha : ∀ k ∉ X, M.read s k = M.read s' k) :
    ∃ states', Trace M.step s' labels states' ∧ states'.map M.seen = states.map M.seen ∧
      ∀ k, k ∉ X ∨ lastWrite k (M.log states) ≠ none →
        M.read (states.getLastD s) k = M.read (states'.getLastD s') k := by
  induction ht generalizing X s' with
  | nil s => exact ⟨[], .nil s', rfl, fun k hk => ha k (hk.resolve_right (absurd rfl))⟩
  | @cons s t i labels states hs _ ih =>
    obtain ⟨hreads, hr⟩ := hr
    obtain ⟨t', hs', hseen⟩ := law.local_step hs fun k hk => ha k (hreads k hk)
    obtain ⟨states', ht', hmap, hend⟩ := ih hr (law.next_agree hs hs' hseen ha)
    refine ⟨t' :: states', .cons hs' ht', ?_, fun k hk => ?_⟩
    · rw [List.map_cons, List.map_cons, hseen, hmap]
    · rw [List.getLastD_cons, List.getLastD_cons]
      have hlog : M.log (t :: states) = M.writes (M.seen t) ++ M.log states := List.flatMap_cons
      rw [hlog, History.lastWrite_append] at hk
      refine hend k ?_
      by_cases hl : lastWrite k (M.log states) = none
      · refine .inl fun hX => ?_
        rw [hl, hX.2] at hk
        exact hk.elim (absurd hX.1) (absurd rfl)
      · exact .inr hl

end Machine

end Dependence
