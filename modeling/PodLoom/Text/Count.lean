import PodLoom.Text.Basic

set_option autoImplicit false

/-!
# Counting a unit

Trimming never adds a unit to a text, and squeezing white space neither adds nor
drops a unit that is not white space.  These bounds let a reader that parses part
of its input again measure its progress by the brackets left.
-/

namespace PodLoom.Text

open CodeUnit

theorem count_trimStart_le (u : CodeUnit) (t : Text) : t.trimStart.count u ≤ t.count u :=
  (List.dropWhile_sublist _).count_le u

theorem count_trimEnd_le (u : CodeUnit) (t : Text) : t.trimEnd.count u ≤ t.count u := by
  have h := (List.dropWhile_sublist (l := t.reverse) CodeUnit.isBlank).count_le u
  simpa [trimEnd] using h

theorem count_trim_le (u : CodeUnit) (t : Text) : t.trim.count u ≤ t.count u :=
  Nat.le_trans (count_trimStart_le u _) (count_trimEnd_le u t)

/-- The words of a text hold each of its units that is not white space. -/
theorem count_flatten_words {u : CodeUnit} (hu : u.isBlank = false) (t : Text) :
    t.words.flatten.count u = t.count u := by
  induction t with
  | nil => rfl
  | cons v rest ih =>
    by_cases hv : v.isBlank = true
    · have hne : v ≠ u := by rintro rfl; simp [hu] at hv
      simp [words, hv, ih, hne]
    · have hv : v.isBlank = false := by simpa using hv
      rw [words, hv]
      simp only [Bool.false_eq_true, if_false]
      split
      · simp [List.count_cons, ih]
      · split <;> rename_i h <;> simp [h] at ih <;> simp [List.count_cons, ih]

theorem count_join_space {u : CodeUnit} (hu : u ≠ space) (ts : List Text) :
    (join [space] ts).count u = ts.flatten.count u := by
  induction ts with
  | nil => rfl
  | cons t rest ih =>
    cases rest with
    | nil => simp [join]
    | cons t' rest =>
      rw [join, List.intercalate_cons_cons, ← join]
      simp only [List.count_append, ih, List.flatten_cons]
      have : List.count u [space] = 0 := by simp [hu.symm]
      omega

/-- Squeezing keeps every unit that is not white space. -/
theorem count_squeeze {u : CodeUnit} (hu : u.isBlank = false) (t : Text) :
    t.squeeze.count u = t.count u := by
  have hs : u ≠ space := by rintro rfl; exact absurd hu (by decide)
  rw [squeeze, count_join_space hs, count_flatten_words hu]

end PodLoom.Text
