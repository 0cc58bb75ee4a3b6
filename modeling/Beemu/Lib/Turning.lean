import Mathlib.Algebra.BigOperators.Group.List.Basic
import Mathlib.Order.Basic

/-!
# Turning a ring

A ring of cells is a function on a group of places, and turning it moves every cell by the same
amount. A run turns its ring step by step, by the sum of what its steps turn it. Where a step may
also lose what is in a cell, a run that ends with the whole ring has lost nothing on its way.
-/

namespace Turning

variable {G α σ ι : Type}

/-- Every cell moved by `g`. -/
def turn [Sub G] (f : G → α) (g : G) : G → α := fun i => f (i - g)

section Turn

variable [AddGroup G] (f : G → α) (g h : G)

@[simp] theorem turn_zero : turn f 0 = f := by
  funext i
  rw [turn, sub_zero]

theorem turn_turn : turn (turn f g) h = turn f (g + h) := by
  funext i
  rw [turn, turn, turn, sub_add_eq_sub_sub_swap]

theorem turn_neg : turn (turn f g) (-g) = f := by
  rw [turn_turn, add_neg_cancel, turn_zero]

theorem turn_injective : Function.Injective fun f : G → α => turn f g := by
  intro f f' he
  rw [← turn_neg f g, ← turn_neg f' g]
  exact congrArg (turn · (-g)) he

theorem turn_mono [Preorder α] {f f' : G → α} (hf : f ≤ f') : turn f g ≤ turn f' g :=
  fun i => hf (i - g)

end Turn

/-- A property of each step of a run, of the state before it and its label. -/
def Along (step : σ → ι → σ) (P : σ → ι → Prop) : σ → List ι → Prop
  | _, [] => True
  | s, i :: labels => P s i ∧ Along step P (step s i) labels

section Along

variable {step : σ → ι → σ} {P Q : σ → ι → Prop} {s : σ} {labels : List ι}

theorem Along.imp (h : Along step P s labels) (hPQ : ∀ s i, P s i → Q s i) :
    Along step Q s labels := by
  induction labels generalizing s with
  | nil => trivial
  | cons i labels ih => exact ⟨hPQ s i h.1, ih h.2⟩

theorem Along.and (hP : Along step P s labels) (hQ : Along step Q s labels) :
    Along step (fun s i => P s i ∧ Q s i) s labels := by
  induction labels generalizing s with
  | nil => trivial
  | cons i labels ih => exact ⟨⟨hP.1, hQ.1⟩, ih hP.2 hQ.2⟩

/-- A run seen through a map that follows each step is a run of what is seen. -/
theorem along_map_iff {τ : Type} {step' : τ → ι → τ} {Q : τ → ι → Prop} (see : σ → τ)
    (hP : ∀ s i, P s i ↔ Q (see s) i) (hstep : ∀ s i, P s i → see (step s i) = step' (see s) i) :
    Along step P s labels ↔ Along step' Q (see s) labels := by
  induction labels generalizing s with
  | nil => rfl
  | cons i labels ih =>
    rw [Along, Along, ← hP]
    apply and_congr_right
    intro h
    rw [ih, hstep s i h]

end Along

section Runs

variable [AddGroup G] (ring : σ → G → α) (amount : ι → G) (step : σ → ι → σ)

/-- A step turns the ring. -/
def Turns (s : σ) (i : ι) : Prop := ring (step s i) = turn (ring s) (amount i)

theorem ring_foldl {s : σ} {labels : List ι} (h : Along step (Turns ring amount step) s labels) :
    ring (labels.foldl step s) = turn (ring s) (labels.map amount).sum := by
  induction labels generalizing s with
  | nil => exact (turn_zero _).symm
  | cons i labels ih =>
    rw [List.foldl_cons, ih h.2, h.1, turn_turn, List.map_cons, List.sum_cons]

/-- A step turns the ring and may lose contents. -/
def Loses [Preorder α] (s : σ) (i : ι) : Prop := ring (step s i) ≤ turn (ring s) (amount i)

variable [PartialOrder α]

theorem ring_foldl_le {s : σ} {labels : List ι}
    (h : Along step (Loses ring amount step) s labels) :
    ring (labels.foldl step s) ≤ turn (ring s) (labels.map amount).sum := by
  induction labels generalizing s with
  | nil => exact (turn_zero (ring s)).ge
  | cons i labels ih =>
    rw [List.foldl_cons, List.map_cons, List.sum_cons, ← turn_turn]
    exact (ih h.2).trans (turn_mono _ h.1)

/-- What is lost in one step does not come back. -/
theorem turns_of_ring_foldl {s : σ} {labels : List ι}
    (h : Along step (Loses ring amount step) s labels)
    (hend : ring (labels.foldl step s) = turn (ring s) (labels.map amount).sum) :
    Along step (Turns ring amount step) s labels := by
  induction labels generalizing s with
  | nil => trivial
  | cons i labels ih =>
    rw [List.foldl_cons, List.map_cons, List.sum_cons, ← turn_turn] at hend
    have hle := ring_foldl_le ring amount step h.2
    -- the rest of the run is between the whole ring and what this step has left of it
    have hrest := hle.antisymm ((turn_mono _ h.1).trans_eq hend.symm)
    exact ⟨turn_injective _ (hrest.symm.trans hend), ih h.2 hrest⟩

end Runs

end Turning
