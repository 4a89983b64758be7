import Mathlib.Data.List.DropRight
import PodLoom.Text.Lines

set_option autoImplicit false

/-!
# Trimming

What is white space is no part of a word.  So when white space goes from the end of a text, the
word at its front stays, and what follows that word is trimmed in its turn.

The ends of lines are stripped from the end of a text to its start, where each unit is put before
what is left of those behind it.  What it comes to can be said of the text as it is: a space or a
tab goes if nothing but spaces and tabs is left of its line (`stripLineEnds_eq`).
-/

namespace PodLoom

/-! ## Units that are not white space -/

namespace CodeUnit

theorem not_isWord_of_isBlank {u : CodeUnit} (h : u.isBlank = true) : u.isWord = false := by
  simp only [isBlank, Bool.or_eq_true, Bool.and_eq_true, decide_eq_true_eq, beq_iff_eq,
    UInt16.le_iff_toNat_le, ← UInt16.toNat_inj, UInt16.reduceToNat] at h
  simp only [isWord, isLetter, isUpper, isLower, isDigit, Bool.or_eq_false_iff,
    Bool.and_eq_false_iff, decide_eq_false_iff_not, beq_eq_false_iff_ne, ne_eq,
    UInt16.le_iff_toNat_le, ← UInt16.toNat_inj, UInt16.reduceToNat]
  omega

theorem not_isBlank_of_isWord {u : CodeUnit} (h : u.isWord = true) : u.isBlank = false := by
  cases hu : u.isBlank with
  | false => rfl
  | true =>
    rw [not_isWord_of_isBlank hu] at h
    cases h

theorem isWord_of_isLetter {u : CodeUnit} (h : u.isLetter = true) : u.isWord = true := by
  rw [isWord, h]
  rfl

theorem not_isBlank_of_isUpper {u : CodeUnit} (h : u.isUpper = true) : u.isBlank = false := by
  refine not_isBlank_of_isWord (isWord_of_isLetter ?_)
  rw [isLetter, h]
  rfl

theorem not_isUpper_of_isBlank {u : CodeUnit} (h : u.isBlank = true) : u.isUpper = false := by
  cases hu : u.isUpper with
  | false => rfl
  | true =>
    rw [not_isBlank_of_isUpper hu] at h
    cases h

end CodeUnit

namespace Text

open CodeUnit

/-! ## The end of a text -/

/-- A unit stays in front of what is left of a text, unless nothing is left and it is white
space. -/
theorem trimEnd_cons (u : CodeUnit) (t : Text) :
    trimEnd (u :: t) = if t.trimEnd = [] ∧ u.isBlank = true then [] else u :: trimEnd t := by
  rw [trimEnd, List.reverse_cons, List.dropWhile_append]
  cases hrest : t.reverse.dropWhile CodeUnit.isBlank with
  | nil => cases hu : u.isBlank <;> simp [trimEnd, hrest, hu]
  | cons v rest => simp [trimEnd, hrest]

theorem trimEnd_cons_of_not_blank {u : CodeUnit} (hu : u.isBlank = false) (t : Text) :
    trimEnd (u :: t) = u :: trimEnd t := by
  rw [trimEnd_cons, if_neg (by simp [hu])]

/-- What has no white space in it stays in front of a trimmed text. -/
theorem trimEnd_append_of_no_blank {x : Text} (hx : ∀ u ∈ x, u.isBlank = false) (t : Text) :
    trimEnd (x ++ t) = x ++ trimEnd t := by
  induction x with
  | nil => rfl
  | cons u x ih =>
    obtain ⟨hu, hx⟩ := List.forall_mem_cons.1 hx
    rw [List.cons_append, trimEnd_cons_of_not_blank hu, ih hx, List.cons_append]

theorem trimEnd_eq_nil_iff {t : Text} : t.trimEnd = [] ↔ t.isBlank = true := by
  rw [isBlank, List.all_eq_true]
  exact List.rdropWhile_eq_nil_iff

theorem trimEnd_trimEnd (t : Text) : t.trimEnd.trimEnd = t.trimEnd :=
  List.rdropWhile_idempotent CodeUnit.isBlank t

/-- White space at the end goes. -/
theorem trimEnd_append_blank (t : Text) {g : Text} (hg : g.isBlank = true) :
    (t ++ g).trimEnd = t.trimEnd := by
  induction t with
  | nil => exact trimEnd_eq_nil_iff.2 hg
  | cons u t ih => rw [List.cons_append, trimEnd_cons, trimEnd_cons, ih]

/-- Nothing goes that stands in front of a word. -/
theorem trimEnd_append (s : Text) {t : Text} (ht : t.trimEnd ≠ []) :
    (s ++ t).trimEnd = s ++ t.trimEnd := by
  induction s with
  | nil => rfl
  | cons u s ih => rw [List.cons_append, trimEnd_cons, ih, if_neg (by simp [ht]), List.cons_append]

theorem trimEnd_eq_self {t : Text} (h : ∀ u ∈ t.getLast?, u.isBlank = false) : t.trimEnd = t := by
  refine List.rdropWhile_eq_self_iff.2 fun hne => ?_
  exact Bool.eq_false_iff.1 (h _ (List.getLast?_eq_some_getLast hne))

/-- There is something in the text, and no white space at its end. -/
structure EndsInWord (t : Text) : Prop where
  ne_nil : t ≠ []
  trimEnd_eq : t.trimEnd = t

namespace EndsInWord

theorem of_not_blank {t : Text} (h : t.isBlank = false) : t.trimEnd.EndsInWord := by
  refine ⟨fun hnil => ?_, trimEnd_trimEnd t⟩
  rw [trimEnd_eq_nil_iff.1 hnil] at h
  cases h

theorem of_no_blank {t : Text} (hne : t ≠ []) (h : ∀ u ∈ t, u.isBlank = false) : t.EndsInWord := by
  have htrim := trimEnd_append_of_no_blank h []
  rw [List.append_nil] at htrim
  exact ⟨hne, htrim.trans (List.append_nil t)⟩

theorem append_left {t : Text} (s : Text) (h : t.EndsInWord) : (s ++ t).EndsInWord := by
  refine ⟨List.append_ne_nil_of_right_ne_nil s h.ne_nil, ?_⟩
  rw [trimEnd_append s (by rw [h.trimEnd_eq]; exact h.ne_nil), h.trimEnd_eq]

theorem cons {t : Text} (u : CodeUnit) (h : t.EndsInWord) : EndsInWord (u :: t) :=
  h.append_left [u]

/-- What is left of the text without its first unit ends in a word, if anything is left. -/
theorem tail {u : CodeUnit} {t : Text} (h : EndsInWord (u :: t)) (hne : t ≠ []) :
    t.EndsInWord := by
  have htrim := h.trimEnd_eq
  rw [trimEnd_cons] at htrim
  split at htrim
  · cases htrim
  · exact ⟨hne, (List.cons.inj htrim).2⟩

theorem not_blank_of_singleton {u : CodeUnit} (h : EndsInWord [u]) : u.isBlank = false := by
  have hlast := List.rdropWhile_eq_self_iff.1 h.trimEnd_eq h.ne_nil
  simpa using hlast

end EndsInWord

/-! ## The ends of lines -/

/-- Whether nothing but spaces and tabs is left of the current line. -/
def onlyGapLeft (t : Text) : Bool := atLineEnd (t.dropWhile CodeUnit.isSpaceOrTab)

/-- The text without the spaces and tabs that have nothing but spaces and tabs between them and
the end of their line, where any line end counts. -/
def withoutLineGaps : Text → Text
  | [] => []
  | u :: rest =>
      if u.isSpaceOrTab && onlyGapLeft rest then withoutLineGaps rest
      else u :: withoutLineGaps rest

theorem not_isLineEnd_of_isSpaceOrTab {u : CodeUnit} (h : u.isSpaceOrTab = true) :
    u.isLineEnd = false := by
  simp only [isSpaceOrTab, Bool.or_eq_true, beq_iff_eq] at h
  rcases h with rfl | rfl <;> decide

/-- Once the ends of its lines are stripped, a text is at the end of a line if nothing but a gap
was left of that line. -/
theorem atLineEnd_stripLineEnds (t : Text) : atLineEnd t.stripLineEnds = onlyGapLeft t := by
  induction t with
  | nil => rfl
  | cons u t ih =>
    show atLineEnd (consUnlessTrailing u (stripLineEnds t)) = _
    unfold consUnlessTrailing onlyGapLeft
    cases hu : u.isSpaceOrTab with
    | false =>
      rw [List.dropWhile_cons_of_neg (by simp [hu])]
      rfl
    | true =>
      rw [List.dropWhile_cons_of_pos hu, ← onlyGapLeft, ← ih]
      cases hend : atLineEnd (stripLineEnds t) with
      | true => exact hend
      | false => exact not_isLineEnd_of_isSpaceOrTab hu

/-- Stripping the ends of lines leaves out the gaps there and nothing else. -/
theorem stripLineEnds_eq (t : Text) : t.stripLineEnds = t.withoutLineGaps := by
  induction t with
  | nil => rfl
  | cons u t ih =>
    show consUnlessTrailing u (stripLineEnds t) = _
    rw [consUnlessTrailing, atLineEnd_stripLineEnds, ih, withoutLineGaps]

/-! ## The start of a text -/

theorem exists_trimStart (t : Text) : ∃ g : Text, g.isBlank = true ∧ t = g ++ t.trimStart :=
  ⟨t.takeWhile CodeUnit.isBlank, List.all_takeWhile, List.takeWhile_append_dropWhile.symm⟩

theorem trimStart_trimStart (t : Text) : t.trimStart.trimStart = t.trimStart :=
  List.dropWhile_idempotent CodeUnit.isBlank t

/-- What starts a text decides whether it starts with white space. -/
theorem trimStart_append_eq_iff {s : Text} (hne : s ≠ []) (t : Text) :
    (s ++ t).trimStart = s ++ t ↔ s.trimStart = s := by
  obtain ⟨u, s, rfl⟩ := List.exists_cons_of_ne_nil hne
  simp [trimStart, List.dropWhile_eq_self_iff]

theorem not_isBlank_of_trimStart {t : Text} (hne : t ≠ []) (hstart : t.trimStart = t) :
    t.isBlank = false := by
  rw [← Bool.not_eq_true]
  intro hblank
  refine hne (hstart.symm.trans ?_)
  exact List.dropWhile_eq_nil_iff.2 (List.all_eq_true.1 hblank)

theorem spanWord_append (t : Text) : t.spanWord.1 ++ t.spanWord.2 = t :=
  List.takeWhile_append_dropWhile

theorem spanWord_solid (t : Text) : ∀ u ∈ t.spanWord.1, u.isBlank = false := by
  intro u hu
  simpa using List.mem_takeWhile_imp hu

theorem spanWord_ne_nil {t : Text} (hne : t ≠ []) (hstart : t.trimStart = t) :
    t.spanWord.1 ≠ [] := by
  intro hnil
  have hlength := List.length_pos_iff.2 hne
  have hblank := List.takeWhile_eq_nil_iff.1 hnil hlength
  exact List.dropWhile_eq_self_iff.1 hstart hlength (by simpa using hblank)

/-- What follows the word at the front starts with white space, if anything follows. -/
theorem head?_spanWord (t : Text) : t.spanWord.2.head?.all CodeUnit.isBlank = true := by
  have hstart := List.head?_dropWhile_not (fun u : CodeUnit => !u.isBlank) t
  rw [spanWord]
  cases hrest : t.dropWhile fun u : CodeUnit => !u.isBlank with
  | nil => rfl
  | cons u rest => simpa [hrest] using hstart

/-! ## The front of a trimmed text -/

theorem head?_all_isBlank_trimEnd (t : Text) :
    t.trimEnd.head?.all CodeUnit.isBlank = t.head?.all CodeUnit.isBlank := by
  cases t with
  | nil => rfl
  | cons u t =>
    rw [trimEnd_cons]
    split
    · rename_i hblank
      exact hblank.2.symm
    · rfl

theorem takeWhile_isWord_trimEnd (t : Text) :
    t.trimEnd.takeWhile CodeUnit.isWord = t.takeWhile CodeUnit.isWord := by
  induction t with
  | nil => rfl
  | cons u t ih =>
    by_cases hu : u.isWord = true
    · rw [trimEnd_cons_of_not_blank (not_isBlank_of_isWord hu), List.takeWhile_cons_of_pos hu,
        List.takeWhile_cons_of_pos hu, ih]
    · rw [List.takeWhile_cons_of_neg hu, trimEnd_cons]
      split
      · rfl
      · rw [List.takeWhile_cons_of_neg hu]

theorem dropWhile_isWord_trimEnd (t : Text) :
    t.trimEnd.dropWhile CodeUnit.isWord = trimEnd (t.dropWhile CodeUnit.isWord) := by
  induction t with
  | nil => rfl
  | cons u t ih =>
    by_cases hu : u.isWord = true
    · rw [trimEnd_cons_of_not_blank (not_isBlank_of_isWord hu), List.dropWhile_cons_of_pos hu,
        List.dropWhile_cons_of_pos hu, ih]
    · rw [List.dropWhile_cons_of_neg hu, trimEnd_cons]
      split
      · rfl
      · rw [List.dropWhile_cons_of_neg hu]

end Text

end PodLoom
