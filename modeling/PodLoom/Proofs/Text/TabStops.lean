import Mathlib.Data.List.DropRight
import PodLoom.Proofs.Text.Splitting
import PodLoom.Proofs.Text.Utf8

set_option autoImplicit false

/-!
# Tab stops

A tab fills its line up to the next tab stop.  Where that is depends on all that stands before
the tab on its line, with the earlier tabs filled already, so what it means to expand tabs is
said of the text written so far: `Aligned` writes a text unit by unit behind another, and every
gap it leaves for a tab ends at a column that is a multiple of the width.

There is one way to do so, and `expandTabsTo` does it (`aligned_iff`).  Lines are expanded each
on its own, and expanded text has no tabs to expand.  To go through the lines character by
character, where a character outside the basic plane is one step but two columns, comes to the
same (`expandLines_eq`).
-/

namespace PodLoom.Text

open CodeUnit

/-! ## Columns -/

/-- The column behind a text: the number of units since its last line feed. -/
def column (t : Text) : Nat := (t.rtakeWhile (· != newline)).length

theorem column_concat (t : Text) (u : CodeUnit) :
    column (t ++ [u]) = if u = newline then 0 else column t + 1 := by
  unfold column
  split
  · rename_i hu
    rw [List.rtakeWhile_concat_neg _ _ _ (by simp [hu])]
    rfl
  · rename_i hu
    rw [List.rtakeWhile_concat_pos _ _ _ (by simpa using hu), List.length_append]
    rfl

/-- Behind units that are no line feeds the column is as much further. -/
theorem column_append {s : Text} (hs : newline ∉ s) (t : Text) :
    column (t ++ s) = column t + s.length := by
  induction s generalizing t with
  | nil => simp
  | cons u s ih =>
    obtain ⟨hu, hs⟩ := not_or.1 (mt List.mem_cons.2 hs)
    rw [List.append_cons, ih hs, column_concat, if_neg (Ne.symm hu), List.length_cons]
    omega

/-- A gap from a column to the next stop, and no further: there is one of that kind. -/
theorem gap_unique {width column gap : Nat} (hpos : 1 ≤ gap) (hle : gap ≤ width)
    (hstop : width ∣ column + gap) : gap = width - column % width := by
  have hwidth : 0 < width := Nat.lt_of_lt_of_le hpos hle
  have hmod := Nat.mod_lt column hwidth
  have hdvd : width ∣ column % width + gap := by
    rwa [← Nat.div_add_mod column width, Nat.add_assoc, Nat.dvd_add_right (Nat.dvd_mul_right ..)]
      at hstop
  have hsum : column % width + gap = width :=
    Nat.eq_of_dvd_of_lt_two_mul (by omega) hdvd (by omega)
  omega

theorem dvd_column_add_gap {width : Nat} (hwidth : 1 ≤ width) (column : Nat) :
    width ∣ column + (width - column % width) := by
  have hmod := Nat.mod_lt column hwidth
  have hsum : column + (width - column % width) = width * (column / width) + width := by
    have := Nat.div_add_mod column width
    omega
  rw [hsum]
  exact Nat.dvd_add (Nat.dvd_mul_right ..) (Nat.dvd_refl width)

/-! ## Aligned text -/

/-- To write a text behind another with its tabs expanded: each tab is replaced by between one
space and `width` spaces, so that the next column is a multiple of `width`, and every other unit
is kept. -/
inductive Aligned (width : Nat) : (written t result : Text) → Prop
  | done (written : Text) : Aligned width written [] written
  | tab {written rest result : Text} {gap : Nat} (hpos : 1 ≤ gap) (hle : gap ≤ width)
      (hstop : width ∣ column (written ++ List.replicate gap space))
      (hrest : Aligned width (written ++ List.replicate gap space) rest result) :
      Aligned width written (tab :: rest) result
  | unit {written rest result : Text} {u : CodeUnit} (hu : u ≠ CodeUnit.tab)
      (hrest : Aligned width (written ++ [u]) rest result) :
      Aligned width written (u :: rest) result

theorem newline_notMem_gap (gap : Nat) : newline ∉ List.replicate gap space := by
  rw [List.mem_replicate]
  exact fun h => absurd h.2 (by decide)

theorem column_append_gap (written : Text) (gap : Nat) :
    column (written ++ List.replicate gap space) = column written + gap := by
  rw [column_append (newline_notMem_gap gap), List.length_replicate]

section

variable {width : Nat} (hwidth : 1 ≤ width)

include hwidth

/-- Where the column is that of the text written so far, expanding goes on aligned. -/
theorem aligned_expandTabsFrom (written t : Text) :
    Aligned width written t (written ++ expandTabsFrom width (column written) t) := by
  induction t generalizing written with
  | nil => simpa [expandTabsFrom] using Aligned.done written
  | cons u rest ih =>
    rw [expandTabsFrom]
    by_cases htab : u = tab
    · subst htab
      have hmod := Nat.mod_lt (column written) hwidth
      have hpos : 1 ≤ width - column written % width := by omega
      have hle : width - column written % width ≤ width := by omega
      have hgap := column_append_gap written (width - column written % width)
      rw [if_pos rfl]
      refine .tab hpos hle ?_ ?_
      · rw [hgap]
        exact dvd_column_add_gap hwidth _
      · have hrest := ih (written ++ List.replicate (width - column written % width) space)
        rwa [hgap, List.append_assoc] at hrest
    · have hrest := ih (written ++ [u])
      rw [column_concat, List.append_assoc] at hrest
      rw [if_neg htab]
      refine .unit htab ?_
      split
      · rename_i hnewline
        rwa [if_pos hnewline] at hrest
      · rename_i hnewline
        rwa [if_neg hnewline] at hrest

omit hwidth in
/-- There is one way to go on aligned. -/
theorem Aligned.eq {written t result : Text} (h : Aligned width written t result) :
    result = written ++ expandTabsFrom width (column written) t := by
  induction h with
  | done written => simp [expandTabsFrom]
  | @tab written rest result gap hpos hle hstop _ ih =>
    rw [column_append_gap] at hstop ih
    obtain rfl := gap_unique hpos hle hstop
    rw [ih, expandTabsFrom, if_pos rfl, List.append_assoc]
  | @unit written rest result u hu _ ih =>
    rw [column_concat] at ih
    rw [ih, expandTabsFrom, if_neg hu, List.append_assoc]
    split <;> rfl

/-- Expanding the tabs of a text is the one way to align it. -/
theorem aligned_iff {t result : Text} :
    Aligned width [] t result ↔ result = expandTabsTo width t :=
  ⟨fun h => h.eq, fun h => h ▸ aligned_expandTabsFrom hwidth [] t⟩

end

/-! ## Text without tabs -/

theorem tab_notMem_expandTabsFrom (width column : Nat) (t : Text) :
    tab ∉ expandTabsFrom width column t := by
  induction t generalizing column with
  | nil => exact List.not_mem_nil
  | cons u rest ih =>
    rw [expandTabsFrom]
    split
    · rw [List.mem_append, List.mem_replicate]
      rintro (⟨-, h⟩ | h)
      · cases h
      · exact ih _ h
    · rename_i htab
      split <;> exact List.not_mem_cons_of_ne_of_not_mem (Ne.symm htab) (ih _)

theorem expandTabsFrom_of_notMem {t : Text} (h : tab ∉ t) (width column : Nat) :
    expandTabsFrom width column t = t := by
  induction t generalizing column with
  | nil => rfl
  | cons u rest ih =>
    obtain ⟨hu, hrest⟩ := not_or.1 (mt List.mem_cons.2 h)
    rw [expandTabsFrom, if_neg (Ne.symm hu), ih hrest, ih hrest, ite_self]

theorem expandTabsTo_of_notMem {t : Text} (h : tab ∉ t) (width : Nat) : expandTabsTo width t = t :=
  expandTabsFrom_of_notMem h width 0

/-! ## Lines -/

theorem newline_notMem_expandTabsFrom {line : Text} (h : newline ∉ line) (width column : Nat) :
    newline ∉ expandTabsFrom width column line := by
  induction line generalizing column with
  | nil => exact List.not_mem_nil
  | cons u rest ih =>
    obtain ⟨hu, hrest⟩ := not_or.1 (mt List.mem_cons.2 h)
    rw [expandTabsFrom, if_neg (Ne.symm hu)]
    split
    · exact fun hmem => (List.mem_append.1 hmem).elim (newline_notMem_gap _) (ih hrest _)
    · exact List.not_mem_cons_of_ne_of_not_mem hu (ih hrest _)

/-- Columns restart behind a line feed. -/
theorem expandTabsFrom_line {line : Text} (h : newline ∉ line) (width column : Nat) (t : Text) :
    expandTabsFrom width column (line ++ newline :: t)
      = expandTabsFrom width column line ++ newline :: expandTabsTo width t := by
  induction line generalizing column with
  | nil => rfl
  | cons u rest ih =>
    obtain ⟨hu, hrest⟩ := not_or.1 (mt List.mem_cons.2 h)
    rw [List.cons_append, expandTabsFrom, expandTabsFrom, if_neg (Ne.symm hu), if_neg (Ne.symm hu)]
    split
    · dsimp only
      rw [ih hrest, List.append_assoc]
    · rw [ih hrest, List.cons_append]

theorem expandTabsTo_unlines (width : Nat) {ls : List Text} (h : ∀ l ∈ ls, newline ∉ l) :
    expandTabsTo width (unlines ls) = unlines (ls.map (expandTabsTo width)) := by
  induction ls with
  | nil => rfl
  | cons l more ih =>
    obtain ⟨hl, hmore⟩ := List.forall_mem_cons.1 h
    by_cases hnil : more = []
    · subst hnil
      simp [unlines, join]
    · have hmap : more.map (expandTabsTo width) ≠ [] := by simpa using hnil
      rw [List.map_cons, unlines_cons l hnil, unlines_cons _ hmap, ← ih hmore]
      exact expandTabsFrom_line hl width 0 _

theorem expandTabsTo_eq_unlines (width : Nat) (t : Text) :
    expandTabsTo width t = unlines ((lines t).map (expandTabsTo width)) := by
  have hlines : unlines (lines t) = t := join_splitOn newline t
  have hfree : ∀ l ∈ lines t, newline ∉ l := fun l hl => notMem_of_mem_splitOn hl
  rw [← expandTabsTo_unlines width hfree, hlines]

/-- The lines of an expanded text are the lines of the text, expanded. -/
theorem lines_expandTabsTo (width : Nat) (t : Text) :
    lines (expandTabsTo width t) = (lines t).map (expandTabsTo width) := by
  rw [expandTabsTo_eq_unlines]
  refine splitOn_join ?_ (by simp [lines, splitOn_ne_nil])
  intro l hl
  obtain ⟨line, hline, rfl⟩ := List.mem_map.1 hl
  exact newline_notMem_expandTabsFrom (notMem_of_mem_splitOn hline) width 0

theorem count_newline_expandTabsFrom (width column : Nat) (t : Text) :
    (expandTabsFrom width column t).count newline = t.count newline := by
  induction t generalizing column with
  | nil => rfl
  | cons u rest ih =>
    rw [expandTabsFrom]
    split
    · rename_i htab
      have hgap := List.count_eq_zero.2 (newline_notMem_gap (width - column % width))
      dsimp only
      rw [List.count_append, hgap, ih, htab, List.count_cons_of_ne (by decide), Nat.zero_add]
    · split <;> rw [List.count_cons, List.count_cons, ih]

/-! ## Character by character -/

/-- Write a character on a line: a tab fills the line up to the next multiple of `width`, and any
other character joins it with the one or two units that it has. -/
def putCharacter (width : Nat) (written : Text) (point : Nat) : Text :=
  if point = tab.toNat then written ++ List.replicate (width - written.length % width) space
  else written ++ ofCodePoint point

/-- A line written character by character. -/
def expandLine (width : Nat) (line : Text) : Text := line.codePoints.foldl (putCharacter width) []

/-- A text written line by line, and left as it is if it has no tabs. -/
def expandLines (width : Nat) (t : Text) : Text :=
  if tab ∈ t then unlines ((lines t).map (expandLine width)) else t

/-- A unit that is neither a tab nor a line feed moves the column by one. -/
theorem expandTabsFrom_cons_of_ne {u : CodeUnit} (htab : u ≠ tab) (hnewline : u ≠ newline)
    (width column : Nat) (t : Text) :
    expandTabsFrom width column (u :: t) = u :: expandTabsFrom width (column + 1) t := by
  rw [expandTabsFrom, if_neg htab, if_neg hnewline]

/-- A character that is one unit is written as expanding does it. -/
theorem append_expandTabsFrom_cons {u : CodeUnit} (hu : u ≠ newline) (width : Nat)
    (written t : Text) :
    written ++ expandTabsFrom width written.length (u :: t)
      = putCharacter width written u.toNat
        ++ expandTabsFrom width (putCharacter width written u.toNat).length t := by
  by_cases htab : u = tab
  · subst htab
    rw [putCharacter, if_pos rfl, expandTabsFrom, if_pos rfl, List.append_assoc,
      List.length_append, List.length_replicate]
  · have hpoint : u.toNat ≠ tab.toNat := fun h => htab (UInt16.toNat_inj.1 h)
    rw [putCharacter, if_neg hpoint, ofCodePoint_toNat, expandTabsFrom_cons_of_ne htab hu,
      List.length_append, List.append_assoc]
    rfl

/-- The halves of a surrogate pair are one character, and two columns. -/
theorem append_expandTabsFrom_pair {u v : CodeUnit} (hu : u.isHighSurrogate = true)
    (hv : v.isLowSurrogate = true) (width : Nat) (written t : Text) :
    written ++ expandTabsFrom width written.length (u :: v :: t)
      = putCharacter width written (pairCodePoint u v)
        ++ expandTabsFrom width (putCharacter width written (pairCodePoint u v)).length t := by
  have hpoint : pairCodePoint u v ≠ tab.toNat := by
    have htab : tab.toNat = 9 := rfl
    unfold pairCodePoint
    omega
  have hhigh : ∀ w : CodeUnit, w.isHighSurrogate = false → u ≠ w := by
    rintro w hw rfl
    rw [hu] at hw
    cases hw
  have hlow : ∀ w : CodeUnit, w.isLowSurrogate = false → v ≠ w := by
    rintro w hw rfl
    rw [hv] at hw
    cases hw
  rw [putCharacter, if_neg hpoint, ofCodePoint_pair hu hv,
    expandTabsFrom_cons_of_ne (hhigh _ (by decide)) (hhigh _ (by decide)),
    expandTabsFrom_cons_of_ne (hlow _ (by decide)) (hlow _ (by decide)), List.length_append,
    List.append_assoc]
  rfl

theorem foldl_putCharacter {line : Text} (h : newline ∉ line) (width : Nat) (written : Text) :
    line.codePoints.foldl (putCharacter width) written
      = written ++ expandTabsFrom width written.length line := by
  fun_induction codePoints line generalizing written with
  | case1 => simp [expandTabsFrom]
  | case2 u =>
    have hu : u ≠ newline := fun heq => h (heq ▸ List.mem_cons_self)
    rw [append_expandTabsFrom_cons hu, expandTabsFrom, List.append_nil]
    rfl
  | case3 u v rest hpair ih =>
    rw [Bool.and_eq_true] at hpair
    rw [List.foldl_cons, ih fun hmem => h (by simp [hmem]),
      append_expandTabsFrom_pair hpair.1 hpair.2]
  | case4 u v rest hpair ih =>
    have hu : u ≠ newline := fun heq => h (heq ▸ List.mem_cons_self)
    rw [List.foldl_cons, ih fun hmem => h (List.mem_cons_of_mem u hmem),
      append_expandTabsFrom_cons hu]

theorem expandLines_eq (width : Nat) (t : Text) : expandLines width t = expandTabsTo width t := by
  unfold expandLines
  split
  · rw [expandTabsTo_eq_unlines]
    refine congrArg unlines (List.map_congr_left fun l hl => ?_)
    exact foldl_putCharacter (notMem_of_mem_splitOn hl) width []
  · rename_i h
    exact (expandTabsTo_of_notMem h width).symm

/-! ## Expanding tabs -/

/-- To expand the tabs of a text is the one way to align it, and it leaves no tabs and all line
feeds.  So expanded text stays as it is, each line is expanded on its own, and to go through the
lines character by character comes to the same. -/
theorem expandTabsTo_aligns {width : Nat} (hwidth : 1 ≤ width) (t : Text) :
    (∀ result, Aligned width [] t result ↔ result = expandTabsTo width t)
      ∧ tab ∉ expandTabsTo width t
      ∧ (expandTabsTo width t).count newline = t.count newline
      ∧ expandTabsTo width (expandTabsTo width t) = expandTabsTo width t
      ∧ lines (expandTabsTo width t) = (lines t).map (expandTabsTo width)
      ∧ expandTabsTo width t = unlines ((lines t).map (expandTabsTo width))
      ∧ expandLines width t = expandTabsTo width t := by
  have htabs : tab ∉ expandTabsTo width t := tab_notMem_expandTabsFrom width 0 t
  exact ⟨fun _ => aligned_iff hwidth, htabs, count_newline_expandTabsFrom width 0 t,
    expandTabsTo_of_notMem htabs width, lines_expandTabsTo width t,
    expandTabsTo_eq_unlines width t, expandLines_eq width t⟩

/-- The second tab of a line stands behind a character of two columns. -/
theorem expandTabsTo_aligns_pair :
    1 ≤ 8 ∧ expandTabsTo 8 "a\t😀\tb\n\tc" = "a       😀      b\n        c"
      ∧ Aligned 8 [] "a\t😀\tb\n\tc" "a       😀      b\n        c"
      ∧ expandLines 8 "a\t😀\tb\n\tc" = "a       😀      b\n        c" := by
  have hexpanded : expandTabsTo 8 "a\t😀\tb\n\tc" = "a       😀      b\n        c" := by
    decide +kernel
  obtain ⟨haligned, -, -, -, -, -, hlines⟩ :=
    expandTabsTo_aligns (show 1 ≤ 8 by decide) "a\t😀\tb\n\tc"
  exact ⟨by decide, hexpanded, (haligned _).2 hexpanded.symm, hlines.trans hexpanded⟩

end PodLoom.Text
