import Mathlib.Logic.Function.Basic

/-!
# Blocks of a store

A store is a cell for every place below its size. A list is put into it from a place on, one
element in each cell, and taken out of it again.
-/

namespace Block

variable {α : Type} {n : Nat}

/-- The store with the cells from `a` on replaced by a list. -/
def put (f : Fin n → α) (a : Nat) (xs : List α) : Fin n → α :=
  fun i => if a ≤ i.val then (xs[i.val - a]?).getD (f i) else f i

/-- The `k` cells from `a` on. -/
def get (f : Fin n → α) (a k : Nat) (h : a + k ≤ n) : List α :=
  List.ofFn fun j : Fin k => f ⟨a + j.val, by omega⟩

variable (f : Fin n → α) (a : Nat) (xs : List α)

theorem put_inside {i : Fin n} {j : Nat} (hj : j < xs.length) (hi : i.val = a + j) :
    put f a xs i = xs[j] := by
  have hs : i.val - a = j := by omega
  rw [put, if_pos (by omega), hs, List.getElem?_eq_getElem hj]
  rfl

theorem put_outside {i : Fin n} (h : i.val < a ∨ a + xs.length ≤ i.val) : put f a xs i = f i := by
  rw [put]
  split
  · rw [List.getElem?_eq_none (by omega)]
    rfl
  · rfl

@[simp] theorem put_nil : put f a [] = f := by
  funext i
  exact put_outside f a [] (by rw [List.length_nil]; omega)

theorem put_cons {i : Fin n} (x : α) (hi : i.val = a) :
    put f a (x :: xs) = put (Function.update f i x) (a + 1) xs := by
  funext k
  by_cases hk : k = i
  · subst hk
    rw [put_inside f a (x :: xs) (j := 0) (by simp) (by omega), put_outside _ _ _ (by omega),
      Function.update_self]
    rfl
  · have hv : k.val ≠ a := fun h => hk (Fin.ext (h.trans hi.symm))
    by_cases hin : a < k.val ∧ k.val - (a + 1) < xs.length
    · have hp : k.val = a + (k.val - (a + 1) + 1) := by omega
      rw [put_inside f a (x :: xs) (by rw [List.length_cons]; omega) hp,
        put_inside _ (a + 1) xs hin.2 (by omega), List.getElem_cons_succ]
    · rw [put_outside f a (x :: xs) (by rw [List.length_cons]; omega),
        put_outside _ _ _ (by omega), Function.update_of_ne hk]

@[simp] theorem length_get (k : Nat) (h : a + k ≤ n) : (get f a k h).length = k := List.length_ofFn

/-- What has been put in is taken out. -/
theorem get_put (h : a + xs.length ≤ n) : get (put f a xs) a xs.length h = xs := by
  apply List.ext_getElem (length_get _ _ _ h)
  intro j _ hj
  simp only [get, List.getElem_ofFn]
  exact put_inside f a xs hj rfl

end Block
