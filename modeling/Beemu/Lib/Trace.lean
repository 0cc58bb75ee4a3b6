import Mathlib.Data.List.Basic

/-!
# Traces of two machines side by side

A trace is the list of the states that a run passes. Where each step of a machine is known to be
a step of another one in exactly the good states, a trace of the first is a trace of the second
in exactly the runs that meet good states only. Where a good state is one from which a step is there
and keeps an invariant, a run that meets good states only does not stop.
-/

namespace Tracing

variable {σ τ ι : Type}

/-- The states that the labels of a list lead to, one after the other. -/
inductive Trace (step : σ → ι → σ → Prop) : σ → List ι → List σ → Prop where
  | nil (s : σ) : Trace step s [] []
  | cons {s t : σ} {i : ι} {labels : List ι} {states : List σ} :
      step s i t → Trace step t labels states → Trace step s (i :: labels) (t :: states)

/-- Each label of a list is taken from a good state. -/
inductive Throughout (good : σ → ι → Prop) (step : σ → ι → σ → Prop) : σ → List ι → Prop where
  | nil (s : σ) : Throughout good step s []
  | cons {s t : σ} {i : ι} {labels : List ι} :
      good s i → step s i t → Throughout good step t labels →
        Throughout good step s (i :: labels)

/-- Each label of a list finds a good state, in a run that comes to it. A run that stops comes to no
more labels. -/
def Meets (good : σ → ι → Prop) (step : σ → ι → σ → Prop) : σ → List ι → Prop
  | _, [] => True
  | s, i :: labels => good s i ∧ ∀ t, step s i t → Meets good step t labels

section Sides

variable {low : σ → ι → σ → Prop} {high : τ → ι → τ → Prop} {good : τ → ι → Prop}

theorem trace_cons_iff {s : σ} {i : ι} {labels : List ι} {states : List σ} :
    Trace low s (i :: labels) states ↔
      ∃ t rest, states = t :: rest ∧ low s i t ∧ Trace low t labels rest := by
  constructor
  · rintro (_ | ⟨hs, ht⟩)
    exact ⟨_, _, rfl, hs, ht⟩
  · rintro ⟨t, rest, rfl, hs, ht⟩
    exact .cons hs ht

theorem throughout_cons_iff {s : τ} {i : ι} {labels : List ι} :
    Throughout good high s (i :: labels) ↔
      good s i ∧ ∃ t, high s i t ∧ Throughout good high t labels := by
  constructor
  · rintro (_ | ⟨hg, hs, ht⟩)
    exact ⟨hg, _, hs, ht⟩
  · rintro ⟨hg, t, hs, ht⟩
    exact .cons hg hs ht

/-- The rest of a run is good from where its only first step leads. -/
theorem throughout_cons_iff_of_step (hdet : ∀ s i t u, high s i t → high s i u → t = u) {s t : τ}
    {i : ι} {labels : List ι} (hs : high s i t) :
    Throughout good high s (i :: labels) ↔ good s i ∧ Throughout good high t labels := by
  rw [throughout_cons_iff]
  refine and_congr_right fun _ => ⟨?_, fun ht => ⟨t, hs, ht⟩⟩
  rintro ⟨u, hu, ht⟩
  obtain rfl := hdet _ _ _ _ hs hu
  exact ht

/-- Two machines go side by side through the runs that are good for the upper one. -/
theorem trace_map_iff (abs : σ → τ)
    (hdet : ∀ s i t u, high s i t → high s i u → t = u)
    (hgood : ∀ s i, (∃ t, low s i t ∧ high (abs s) i (abs t)) ↔ good (abs s) i)
    (s : σ) (labels : List ι) :
    (∃ states, Trace low s labels states ∧ Trace high (abs s) labels (states.map abs)) ↔
      Throughout good high (abs s) labels := by
  induction labels generalizing s with
  | nil => exact iff_of_true ⟨[], .nil s, .nil (abs s)⟩ (.nil (abs s))
  | cons i labels ih =>
    rw [throughout_cons_iff]
    constructor
    · rintro ⟨states, hl, hh⟩
      obtain ⟨t, rest, rfl, hst, ht⟩ := trace_cons_iff.mp hl
      rw [List.map_cons] at hh
      obtain ⟨u, rest', he, hsu, hu⟩ := trace_cons_iff.mp hh
      obtain ⟨rfl, rfl⟩ := List.cons.inj he
      exact ⟨(hgood s i).mp ⟨t, hst, hsu⟩, abs t, hsu, (ih t).mp ⟨rest, ht, hu⟩⟩
    · rintro ⟨hg, u, hsu, hu⟩
      obtain ⟨t, hst, hst'⟩ := (hgood s i).mpr hg
      -- the upper machine has one way to go, the one that the lower machine went
      obtain rfl := hdet _ _ _ _ hsu hst'
      obtain ⟨rest, ht, hr⟩ := (ih t).mpr hu
      exact ⟨t :: rest, .cons hst ht, .cons hst' hr⟩

end Sides

/-- A run goes to its end and keeps an invariant exactly when it meets good states only. -/
theorem invariant_trace_iff {step : σ → ι → σ → Prop} {good : σ → ι → Prop} {inv : σ → Prop}
    (hdet : ∀ s i t u, step s i t → step s i u → t = u)
    (hgood : ∀ s i, inv s → ((∃ t, step s i t ∧ inv t) ↔ good s i)) {s : σ} (hs : inv s)
    (labels : List ι) :
    (∃ states, Trace step s labels states ∧ ∀ t ∈ states, inv t) ↔ Meets good step s labels := by
  induction labels generalizing s with
  | nil => exact iff_of_true ⟨[], .nil s, nofun⟩ trivial
  | cons i labels ih =>
    constructor
    · rintro ⟨states, h, hall⟩
      obtain ⟨t, rest, rfl, hst, ht⟩ := trace_cons_iff.mp h
      rw [List.forall_mem_cons] at hall
      refine ⟨(hgood s i hs).mp ⟨t, hst, hall.1⟩, fun u hsu => ?_⟩
      obtain rfl := hdet _ _ _ _ hst hsu
      exact (ih hall.1).mp ⟨rest, ht, hall.2⟩
    · rintro ⟨hg, hmeets⟩
      obtain ⟨t, hst, hinv⟩ := (hgood s i hs).mpr hg
      obtain ⟨rest, ht, hall⟩ := (ih hinv).mpr (hmeets t hst)
      exact ⟨t :: rest, .cons hst ht, List.forall_mem_cons.mpr ⟨hinv, hall⟩⟩

end Tracing
