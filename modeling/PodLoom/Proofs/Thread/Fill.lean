import PodLoom.Proofs.Text.Splitting
import PodLoom.Proofs.Text.Trimming
import PodLoom.Proofs.Text.Words
import PodLoom.Thread.Fill

set_option autoImplicit false

/-!
# Filling keeps the words

Filling a paragraph goes through several steps, and each of them only moves white
space: lines are stripped and joined, wide gaps are narrowed, and the one long line
is broken at gaps again.  So a filled paragraph has the words of the paragraph
(`words_fillTo`), whatever the width.
-/

namespace PodLoom.Thread

open Text CodeUnit

theorem respaced_consUnlessTrailing (u : CodeUnit) (t : Text) :
    Respaced (consUnlessTrailing u t) (u :: t) := by
  unfold consUnlessTrailing
  split
  · rename_i h
    rw [Bool.and_eq_true] at h
    have ht : t.head?.all CodeUnit.isBlank = true := by
      have hend := h.2
      cases t with
      | nil => rfl
      | cons v t => exact isBlank_of_isLineEnd (by simpa [atLineEnd] using hend)
    exact (Respaced.cons_blank (isBlank_of_isSpaceOrTab h.1) ht).symm
  · exact Respaced.refl _

theorem respaced_stripLineEnds (t : Text) : Respaced t.stripLineEnds t := by
  induction t with
  | nil => exact Respaced.refl _
  | cons u t ih => exact (respaced_consUnlessTrailing u _).trans (ih.cons u)

theorem respaced_joinLines (t : Text) : Respaced (joinLines t) t := by
  have hspace : (space.isBlank && newline.isBlank) = true := by decide
  rw [Bool.and_eq_true] at hspace
  have hline : ∀ t : Text, Respaced (space :: t) (newline :: t) := fun t =>
    have hgap : Respaced ([space] ++ t) ([newline] ++ t) :=
      Respaced.gap (by decide) (by decide) (by simp) (by simp) t
    hgap
  induction t with
  | nil => exact Respaced.refl _
  | cons u t ih =>
    unfold joinLines
    split
    · rename_i hu
      subst hu
      exact (ih.cons space).trans (hline t)
    · split
      · rename_i hdot
        cases t with
        | nil => simp at hdot
        | cons v t =>
          obtain rfl : v = newline := by simpa using hdot.2
          -- The joined rest starts with a space of its own.
          have hjoin : joinLines (newline :: t) = space :: joinLines t := by simp [joinLines]
          rw [hjoin] at ih ⊢
          exact ((Respaced.cons_blank hspace.1 (by simpa using hspace.1)).cons u).trans
            (ih.cons u)
      · exact ih.cons u

theorem respaced_narrowGaps (t : Text) : Respaced (narrowGaps t) t := by
  induction t with
  | nil => exact Respaced.refl _
  | cons u t ih =>
    refine Respaced.trans ?_ (ih.cons u)
    show Respaced (consNarrow u (narrowGaps t)) _
    unfold consNarrow
    split
    · rename_i h
      obtain ⟨rfl, hstart⟩ := h
      obtain ⟨rest, hrest⟩ := List.isPrefixOf_iff_prefix.1 hstart
      rw [← hrest]
      have hspace : space.isBlank = true := by decide
      exact (Respaced.cons_blank hspace (by simpa using hspace)).symm
    · exact Respaced.refl _

theorem words_oneLine (t : Text) : (oneLine t).words = t.words := by
  rw [oneLine, words_trimStart]
  exact ((respaced_narrowGaps _).trans ((respaced_joinLines _).trans
    (respaced_stripLineEnds t))).words_eq

/-! ## Breaking -/

theorem breakWithin?_cut {width : Nat} {t line after : Text}
    (h : breakWithin? width t = some (line, after)) :
    ∃ (u : CodeUnit) (behind : Text), u.isBlank = true ∧ t = line ++ u :: behind
      ∧ after = trimStart (u :: behind) := by
  fun_induction breakWithin? width t generalizing line after with
  | case1 width u v rest line' after' hl ih =>
    simp only [Option.some.injEq, Prod.mk.injEq] at h
    obtain ⟨rfl, rfl⟩ := h
    obtain ⟨w, behind, hw, ht, hafter⟩ := ih (Option.ite_none_left_eq_some.1 hl).2
    exact ⟨w, behind, hw, congrArg (u :: ·) ht, hafter⟩
  | case2 width u v rest hl hb ih =>
    simp only [Option.some.injEq, Prod.mk.injEq] at h
    obtain ⟨rfl, rfl⟩ := h
    rw [Bool.and_eq_true] at hb
    exact ⟨v, rest, hb.2, rfl, rfl⟩
  | case3 => simp at h
  | case4 => simp at h

/-- A break after a word takes the whole word, which is not all there is. -/
theorem breakAfterWord?_eq_some_iff {t line after : Text} :
    breakAfterWord? t = some (line, after)
      ↔ t.spanWord.1 ≠ [] ∧ t.spanWord.2 ≠ [] ∧ t.spanWord.1 = line
        ∧ t.spanWord.2.trimStart = after := by
  simp [breakAfterWord?, spanWord, and_assoc]

/-- A line is broken off in front of white space, which goes with it. -/
theorem breakLine?_cut {width : Int} {t line after : Text}
    (h : breakLine? width t = some (line, after)) :
    ∃ (u : CodeUnit) (behind : Text), u.isBlank = true ∧ t = line ++ u :: behind
      ∧ after = trimStart (u :: behind) := by
  unfold breakLine? at h
  split at h
  · rename_i hw
    exact breakWithin?_cut (hw.trans h)
  · obtain ⟨-, hrest, rfl, rfl⟩ := breakAfterWord?_eq_some_iff.1 h
    obtain ⟨u, behind, hbehind⟩ := List.exists_cons_of_ne_nil hrest
    refine ⟨u, behind, by simpa [hbehind] using head?_spanWord t, ?_, congrArg _ hbehind⟩
    rw [← hbehind, spanWord_append]

/-- A break drops a gap and nothing else. -/
theorem breakLine?_eq {width : Int} {t line after : Text}
    (h : breakLine? width t = some (line, after)) :
    ∃ g : Text, g.isBlank = true ∧ g ≠ [] ∧ t = line ++ g ++ after := by
  obtain ⟨u, behind, hu, rfl, rfl⟩ := breakLine?_cut h
  obtain ⟨g, hg, hbehind⟩ := exists_trimStart behind
  refine ⟨u :: g, ?_, List.cons_ne_nil u g, ?_⟩
  · rw [Text.isBlank, List.all_cons, hu]
    exact hg
  · rw [trimStart, List.dropWhile_cons_of_pos hu, List.append_assoc, List.cons_append]
    exact congrArg (line ++ u :: ·) hbehind

theorem fillLines_ne_nil (width : Int) (t : Text) : fillLines width t ≠ [] := by
  rw [fillLines]
  split
  · split <;> simp
  · simp

/-- The lines of a text have its words. -/
theorem words_unlines_fillLines (width : Int) (t : Text) :
    (unlines (fillLines width t)).words = t.words := by
  fun_induction fillLines width t with
  | case1 t hlong line after found ih =>
    obtain ⟨g, hg, hne, ht⟩ := breakLine?_eq found
    rw [unlines_cons line (fillLines_ne_nil width after), words_append_blank line (by decide), ih,
      ht, words_append_of_isBlank line hg hne]
  | case2 t hlong hstuck => simp [unlines, join]
  | case3 t hshort => simp [unlines, join]

/-- Filling keeps the words. -/
theorem words_fillTo (width : Int) (t : Text) : (fillTo width t).words = t.words := by
  have hgap : ∀ s : Text, (s ++ [newline, newline]).words = s.words := by
    intro s
    rw [words_append_blank s (by decide), words_cons_blank (by decide)]
    simp [words]
  unfold fillTo
  simp only
  split
  · rename_i hblank
    rw [← words_oneLine t, words_of_isBlank hblank]
    rfl
  · rw [hgap, words_trimEnd, words_unlines_fillLines, words_oneLine]

theorem words_fill (t : Text) : (fill t).words = t.words := words_fillTo fillWidth t

theorem isBlank_oneLine (t : Text) : (oneLine t).isBlank = t.isBlank := by
  rw [Bool.eq_iff_iff, ← ink_eq_nil_iff, ← ink_eq_nil_iff, ink_eq_of_words_eq (words_oneLine t)]

/-- White space alone fills to nothing, and nothing else does. -/
theorem fillTo_eq_nil_iff (width : Int) (t : Text) : fillTo width t = [] ↔ t.isBlank = true := by
  rw [← isBlank_oneLine t]
  unfold fillTo
  simp

end PodLoom.Thread
