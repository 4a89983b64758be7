import Mathlib.Data.List.Perm.Basic
import PodLoom.Text.Basic

set_option autoImplicit false

/-!
# The order of texts

Texts are sorted by their code units, and this is the order of lists: unit by unit, and a text
before all that it is the front of (`le_iff`).
-/

namespace PodLoom.Text

theorem le_iff {s t : Text} : Text.le s t = true ↔ s ≤ t := by
  induction s generalizing t with
  | nil => simp [Text.le]
  | cons u s ih =>
    cases t with
    | nil => simp [Text.le]
    | cons v t => simp [Text.le, List.cons_le_cons_iff, ih]

theorem pairwise_sort (ts : List Text) : (sort ts).Pairwise (· ≤ ·) := by
  have hsorted : (sort ts).Pairwise fun s t => Text.le s t = true := by
    apply List.pairwise_mergeSort
    · intro a b c hab hbc
      rw [le_iff] at hab hbc ⊢
      exact List.le_trans hab hbc
    · intro a b
      rw [Bool.or_eq_true, le_iff, le_iff]
      exact List.le_total a b
  exact hsorted.imp le_iff.1

/-- Different texts are sorted strictly. -/
theorem pairwise_lt_sort {ts : List Text} (h : ts.Nodup) : (sort ts).Pairwise (· < ·) := by
  have hnodup : (sort ts).Nodup := (List.mergeSort_perm ts Text.le).nodup_iff.2 h
  refine ((pairwise_sort ts).and hnodup).imp ?_
  intro s t hboth
  exact (List.le_iff_lt_or_eq.1 hboth.1).resolve_right hboth.2

end PodLoom.Text
