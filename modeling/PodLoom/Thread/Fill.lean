import PodLoom.Text.Lines

set_option autoImplicit false

/-!
# Fill: the lines of an output paragraph

A paragraph of converted text is filled: its line breaks become spaces, two after a
sentence, wide gaps shrink to two spaces, and the result is broken again so that
each line fits the width if a gap allows it.  A word wider than that has a line of
its own.  A filled paragraph ends in a blank line; white space alone fills to
nothing.
-/

namespace PodLoom.Thread

open Text CodeUnit

/-- Columns of a filled line. -/
def fillWidth : Int := 74

/-! ## One long line -/

/-- Replace each line feed by a space, by two after a full stop. -/
def joinLines : Text → Text
  | [] => []
  | u :: rest =>
      if u = newline then space :: joinLines rest
      else if u = dot ∧ rest.head? = some newline then u :: space :: joinLines rest
      else u :: joinLines rest

/-- Put a unit before a text without gaps of three spaces: a space before two
others is dropped. -/
def consNarrow (u : CodeUnit) (t : Text) : Text :=
  if u = space ∧ startsWith t [space, space] then t else u :: t

/-- Shrink each run of three or more spaces to two. -/
def narrowGaps (t : Text) : Text := t.foldr consNarrow []

/-- A paragraph as one long line that starts with a word. -/
def oneLine (t : Text) : Text := (narrowGaps (joinLines t.stripLineEnds)).trimStart

/-! ## Breaking a line -/

/-- Break a text at the last gap that leaves at most `width` units before it: the
line, and what follows the gap.  No line separator may stand inside the line. -/
def breakWithin? : Nat → Text → Option (Text × Text)
  | width + 1, u :: v :: rest =>
      match if u.isLineEnd then none else breakWithin? width (v :: rest) with
      | some (line, after) => some (u :: line, after)
      | none =>
          if !u.isBlank && v.isBlank then some ([u], trimStart (v :: rest)) else none
  | _, _ => none

/-- Break a text after its first word, if white space follows it. -/
def breakAfterWord? (t : Text) : Option (Text × Text) :=
  let (word, after) := t.spanWord
  if word.isEmpty || after.isEmpty then none else some (word, after.trimStart)

/-- Break a text that is too long: where it fits, or else after its first word. -/
def breakLine? (width : Int) (t : Text) : Option (Text × Text) :=
  match breakWithin? width.toNat t with
  | some found => some found
  | none => breakAfterWord? t

theorem breakWithin?_length {width : Nat} {t line after : Text}
    (h : breakWithin? width t = some (line, after)) : after.length < t.length := by
  fun_induction breakWithin? width t generalizing line after with
  | case1 width u v rest line' after' hl ih =>
    simp only [Option.some.injEq, Prod.mk.injEq] at h
    obtain ⟨rfl, rfl⟩ := h
    have := ih (Option.ite_none_left_eq_some.1 hl).2
    simp only [List.length_cons] at this ⊢
    omega
  | case2 width u v rest hl hb ih =>
    simp only [Option.some.injEq, Prod.mk.injEq] at h
    obtain ⟨rfl, rfl⟩ := h
    have := (List.dropWhile_sublist (l := v :: rest) CodeUnit.isBlank).length_le
    simp only [trimStart, List.length_cons] at this ⊢
    omega
  | case3 => simp at h
  | case4 => simp at h

theorem breakAfterWord?_length {t line after : Text}
    (h : breakAfterWord? t = some (line, after)) : after.length < t.length := by
  simp only [breakAfterWord?, spanWord, Option.ite_none_left_eq_some, Option.some.injEq,
    Prod.mk.injEq, Bool.or_eq_true, List.isEmpty_iff, not_or] at h
  obtain ⟨⟨hne, _⟩, rfl, rfl⟩ := h
  have hw := List.length_pos_iff.2 hne
  have hs := congrArg List.length
    (List.takeWhile_append_dropWhile (p := fun u : CodeUnit => !u.isBlank) (l := t))
  have hd := (List.dropWhile_sublist
    (l := t.dropWhile fun u : CodeUnit => !u.isBlank) CodeUnit.isBlank).length_le
  simp only [List.length_append] at hs
  simp only [trimStart]
  omega

/-- A break leaves less to break. -/
theorem breakLine?_length {width : Int} {t line after : Text}
    (h : breakLine? width t = some (line, after)) : after.length < t.length := by
  unfold breakLine? at h
  split at h
  · rename_i hw
    exact breakWithin?_length (hw.trans h)
  · exact breakAfterWord?_length h

/-! ## Filling -/

/-- The lines of a text: as long as it is wider than `width` and can be broken, a
line is taken off its front. -/
def fillLines (width : Int) (t : Text) : List Text :=
  if width < t.length then
    match _found : breakLine? width t with
    | some (line, after) => line :: fillLines width after
    | none => [t]
  else [t]
termination_by t.length
decreasing_by exact breakLine?_length _found

/-- Fill a paragraph to a width.  The width may be zero or less: then every break
follows a word. -/
def fillTo (width : Int) (t : Text) : Text :=
  let line := oneLine t
  if line.isBlank then [] else (unlines (fillLines width line)).trimEnd ++ [newline, newline]

/-- Fill a paragraph of the output. -/
def fill (t : Text) : Text := fillTo fillWidth t

end PodLoom.Thread
