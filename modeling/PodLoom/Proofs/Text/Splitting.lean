import PodLoom.Text.Lines

set_option autoImplicit false

/-!
# Splitting and joining

To split at a separator and to join by it undo each other, as long as no piece has the
separator in it.
-/

namespace PodLoom.Text

theorem splitOn_eq (sep : CodeUnit) (t : Text) : splitOn sep t = List.splitOn sep t := by
  induction t with
  | nil => rfl
  | cons u rest ih =>
    rw [splitOn, ih, List.splitOn_cons_eq_if_modifyHead]
    by_cases hu : u = sep
    · rw [if_pos hu, if_pos (beq_iff_eq.2 hu)]
    · rw [if_neg hu, if_neg (fun h => hu (beq_iff_eq.1 h))]
      cases hrest : List.splitOn sep rest with
      | nil => exact absurd hrest (List.splitOn_ne_nil sep rest)
      | cons piece pieces => rfl

theorem splitOn_ne_nil (sep : CodeUnit) (t : Text) : splitOn sep t ≠ [] := by
  rw [splitOn_eq]
  exact List.splitOn_ne_nil sep t

theorem notMem_of_mem_splitOn {sep : CodeUnit} {t l : Text} (h : l ∈ splitOn sep t) : sep ∉ l := by
  induction t generalizing l with
  | nil =>
    obtain rfl := List.mem_singleton.1 h
    exact List.not_mem_nil
  | cons u rest ih =>
    rw [splitOn] at h
    split at h
    · rcases List.mem_cons.1 h with rfl | h
      · exact List.not_mem_nil
      · exact ih h
    · rename_i hu
      cases hrest : splitOn sep rest with
      | nil => exact absurd hrest (splitOn_ne_nil sep rest)
      | cons piece pieces =>
        rw [hrest] at h ih
        rcases List.mem_cons.1 h with rfl | h
        · exact List.not_mem_cons_of_ne_of_not_mem (Ne.symm hu) (ih List.mem_cons_self)
        · exact ih (List.mem_cons_of_mem piece h)

/-- The pieces of a text, joined again. -/
theorem join_splitOn (sep : CodeUnit) (t : Text) : join [sep] (splitOn sep t) = t := by
  rw [splitOn_eq]
  exact List.intercalate_splitOn sep

theorem splitOn_join {sep : CodeUnit} {ts : List Text} (h : ∀ t ∈ ts, sep ∉ t) (hne : ts ≠ []) :
    splitOn sep (join [sep] ts) = ts := by
  rw [splitOn_eq]
  exact List.splitOn_intercalate sep h hne

theorem join_cons_cons (sep s t : Text) (ts : List Text) :
    join sep (s :: t :: ts) = s ++ (sep ++ join sep (t :: ts)) := by
  simp [join]

theorem join_cons (sep s : Text) {ts : List Text} (h : ts ≠ []) :
    join sep (s :: ts) = s ++ (sep ++ join sep ts) := by
  obtain ⟨t, rest, rfl⟩ := List.exists_cons_of_ne_nil h
  exact join_cons_cons sep s t rest

theorem unlines_cons (line : Text) {more : List Text} (h : more ≠ []) :
    unlines (line :: more) = line ++ CodeUnit.newline :: unlines more :=
  join_cons [CodeUnit.newline] line h

theorem join_append {sep : Text} {ss ts : List Text} (hs : ss ≠ []) (ht : ts ≠ []) :
    join sep (ss ++ ts) = join sep ss ++ (sep ++ join sep ts) := by
  induction ss with
  | nil => exact absurd rfl hs
  | cons s rest ih =>
    cases rest with
    | nil => exact (join_cons sep s ht).trans (by simp [join])
    | cons s' rest =>
      rw [List.cons_append, List.cons_append, join_cons_cons, ← List.cons_append,
        ih (List.cons_ne_nil _ _), join_cons_cons]
      simp only [List.append_assoc]

/-- What is in no piece and not in the separator is not in the pieces joined. -/
theorem notMem_join {u : CodeUnit} {sep : Text} (hsep : u ∉ sep) {pieces : List Text}
    (h : ∀ t ∈ pieces, u ∉ t) : u ∉ join sep pieces := by
  induction pieces with
  | nil => exact List.not_mem_nil
  | cons t rest ih =>
    obtain ⟨ht, hrest⟩ := List.forall_mem_cons.1 h
    by_cases hmore : rest = []
    · rw [hmore, join, List.intercalate_singleton]
      exact ht
    · rw [join_cons sep t hmore]
      simp only [List.mem_append, not_or]
      exact ⟨ht, hsep, ih hrest⟩

/-- What every piece ends in, the pieces joined end in. -/
theorem getLast?_join {u : CodeUnit} (sep : Text) {pieces : List Text} (hne : pieces ≠ [])
    (h : ∀ t ∈ pieces, t.getLast? = some u) : (join sep pieces).getLast? = some u := by
  induction pieces with
  | nil => exact absurd rfl hne
  | cons t rest ih =>
    obtain ⟨ht, hrest⟩ := List.forall_mem_cons.1 h
    by_cases hmore : rest = []
    · rw [hmore, join, List.intercalate_singleton]
      exact ht
    · rw [join_cons sep t hmore, List.getLast?_append, List.getLast?_append, ih hmore hrest]
      rfl

/-- A separator between two texts splits them from each other. -/
theorem splitOn_append_cons (sep : CodeUnit) (s t : Text) :
    splitOn sep (s ++ sep :: t) = splitOn sep s ++ splitOn sep t := by
  have hpieces : ∀ piece ∈ splitOn sep s ++ splitOn sep t, sep ∉ piece := by
    intro piece hpiece
    rcases List.mem_append.1 hpiece with hpiece | hpiece
    · exact notMem_of_mem_splitOn hpiece
    · exact notMem_of_mem_splitOn hpiece
  have hjoin : join [sep] (splitOn sep s ++ splitOn sep t) = s ++ sep :: t := by
    rw [join_append (splitOn_ne_nil sep s) (splitOn_ne_nil sep t), join_splitOn, join_splitOn]
    rfl
  rw [← hjoin]
  exact splitOn_join hpieces (by simp [splitOn_ne_nil])

end PodLoom.Text
