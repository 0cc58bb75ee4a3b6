import Mathlib.Data.List.Basic

/-!
# Segments of a linked chain

A store of links is a partial function from a place to the next one. A segment runs from its
first place over a list of places to the place behind the last of them.
-/

namespace Linked

variable {α : Type}

/-- The links lead from `a` through the places of a list, in order, to `z`. -/
inductive Segment (next? : α → Option α) : α → List α → α → Prop where
  | nil (a : α) : Segment next? a [] a
  | cons {a b z : α} {places : List α} :
      next? a = some b → Segment next? b places z → Segment next? a (a :: places) z

namespace Segment

variable {f g : α → Option α} {a b x y z : α} {places : List α}

theorem nil_iff : Segment f a [] z ↔ a = z := by
  constructor
  · rintro ⟨⟩
    rfl
  · rintro rfl
    exact .nil a

theorem cons_iff : Segment f a (x :: places) z ↔
    a = x ∧ ∃ b, f x = some b ∧ Segment f b places z := by
  constructor
  · rintro (_ | ⟨h, hs⟩)
    exact ⟨rfl, _, h, hs⟩
  · rintro ⟨rfl, b, h, hs⟩
    exact .cons h hs

/-- Links that agree on the places of a segment have it in common. -/
theorem congr (hs : Segment f a places z) (h : ∀ x ∈ places, g x = f x) :
    Segment g a places z := by
  induction hs with
  | nil a => exact .nil a
  | cons hn _ ih =>
    rw [List.forall_mem_cons] at h
    exact .cons (h.1.trans hn) (ih h.2)

/-- The last place of a segment can be told from the segment up to it. -/
theorem concat_iff : Segment f a (places ++ [x]) z ↔ Segment f a places x ∧ f x = some z := by
  induction places generalizing a with
  | nil => simp [cons_iff, nil_iff]
  | cons y places ih =>
    rw [List.cons_append, cons_iff, cons_iff]
    simp only [ih]
    constructor
    · rintro ⟨rfl, b, hb, hs, hx⟩
      exact ⟨⟨rfl, b, hb, hs⟩, hx⟩
    · rintro ⟨⟨rfl, b, hb, hs⟩, hx⟩
      exact ⟨rfl, b, hb, hs, hx⟩

/-- A segment starts at its first place, at its end when it has none. -/
theorem start_eq (hs : Segment f a places z) : a = places.headD z := by
  cases hs with
  | nil => rfl
  | cons => rfl

/-- A link out of a place of a segment leads to another place of it, or to its end. -/
theorem next_mem (hs : Segment f a places z) (hx : x ∈ places) (hy : f x = some y) :
    y ∈ places ∨ y = z := by
  induction hs with
  | nil a => simp at hx
  | @cons a b z places hn hs ih =>
    rcases List.mem_cons.1 hx with rfl | hx
    · have hb : b = y := Option.some.inj (hn.symm.trans hy)
      subst hb
      cases hs with
      | nil => exact .inr rfl
      | cons _ _ => exact .inl (by simp)
    · exact (ih hx).imp (List.mem_cons_of_mem a) id

/-- Moving the link of the last place past a new one puts that place at the end. -/
theorem extend (hs : Segment f a (places ++ [x]) z) (hg : ∀ w ∈ places, g w = f w)
    (hl : g x = some y) (hr : g y = some b) :
    Segment g a (places ++ [x] ++ [y]) b :=
  concat_iff.2 ⟨concat_iff.2 ⟨(concat_iff.1 hs).1.congr hg, hl⟩, hr⟩

end Segment

end Linked
