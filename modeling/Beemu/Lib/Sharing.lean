import Mathlib.Data.List.Nodup

/-!
# Keys claimed between separators

A list is cut into parts at its separators, and its elements claim keys. One pass through the list
tells whether some part claims a key twice. The pass goes on from one list to the next, so that a
part can begin in one list and end in another.
-/

namespace Sharing

variable {α κ : Type} [DecidableEq κ] (sep : α → Bool) (claims : α → List κ)

/-- No part claims a key twice, when the first has claimed the keys in `seen`. -/
def clear (seen : List κ) : List α → Bool
  | [] => true
  | a :: l =>
    if sep a then clear [] l else decide (claims a ++ seen).Nodup && clear (claims a ++ seen) l

/-- The keys that the last part has claimed. -/
def pending (seen : List κ) : List α → List κ
  | [] => seen
  | a :: l => if sep a then pending [] l else pending (claims a ++ seen) l

theorem clear_append (seen : List κ) (l l' : List α) :
    clear sep claims seen (l ++ l') =
      (clear sep claims seen l && clear sep claims (pending sep claims seen l) l') := by
  induction l generalizing seen with
  | nil => rfl
  | cons a l ih =>
    rw [List.cons_append, clear, clear, pending]
    split_ifs
    · exact ih []
    · rw [ih, Bool.and_assoc]

theorem nodup_pending {seen : List κ} {l : List α} (hs : seen.Nodup)
    (h : clear sep claims seen l = true) : (pending sep claims seen l).Nodup := by
  induction l generalizing seen with
  | nil => exact hs
  | cons a l ih =>
    rw [clear] at h
    rw [pending]
    split_ifs with ha
    · rw [if_pos ha] at h
      exact ih List.nodup_nil h
    · rw [if_neg ha, Bool.and_eq_true, decide_eq_true_iff] at h
      exact ih h.1 h.2

theorem parts_of_clear {seen : List κ} {l : List α} (hs : seen.Nodup)
    (h : clear sep claims seen l = true) :
    ∃ first rest, l.splitOnP sep = first :: rest ∧ (first.flatMap claims ++ seen).Nodup ∧
      ∀ part ∈ rest, (part.flatMap claims).Nodup := by
  induction l generalizing seen with
  | nil => exact ⟨[], [], rfl, hs, nofun⟩
  | cons a l ih =>
    rw [List.splitOnP_cons_eq_if_modifyHead]
    rw [clear] at h
    split_ifs with ha
    · rw [if_pos ha] at h
      obtain ⟨first, rest, hp, hf, hr⟩ := ih List.nodup_nil h
      rw [List.append_nil] at hf
      refine ⟨[], l.splitOnP sep, rfl, hs, ?_⟩
      rw [hp, List.forall_mem_cons]
      exact ⟨hf, hr⟩
    · rw [if_neg ha, Bool.and_eq_true, decide_eq_true_iff] at h
      obtain ⟨first, rest, hp, hf, hr⟩ := ih h.1 h.2
      refine ⟨a :: first, rest, ?_, ?_, hr⟩
      · rw [hp, List.modifyHead_cons]
      · rw [List.flatMap_cons, List.append_assoc]
        exact (List.perm_append_comm_assoc _ _ _).nodup_iff.mp hf

theorem nodup_of_clear {l : List α} (h : clear sep claims [] l = true) :
    ∀ part ∈ l.splitOnP sep, (part.flatMap claims).Nodup := by
  obtain ⟨first, rest, hp, hf, hr⟩ := parts_of_clear sep claims List.nodup_nil h
  rw [List.append_nil] at hf
  rw [hp, List.forall_mem_cons]
  exact ⟨hf, hr⟩

end Sharing
