import PodLoom.Proofs.Thread.Fill

set_option autoImplicit false

/-!
# The rows of a filled paragraph

Filling cuts the one long line of a paragraph into rows, each a line of the result with the gap
that stood behind it (`exists_rows_fillTo`).  No line is empty or has white space at its end, and
a line that is wider than asked for is a single word (`fillTo_lines`).

A line is not broken earlier than it has to be.  As long as line feeds are the only line ends of
the paragraph, each line but the last takes as much of what is left as ends with a word and fits,
and the word behind it would have passed the width (`fillTo_takes_most`).
-/

namespace PodLoom.Thread

open Text CodeUnit

/-! ## The one long line -/

theorem mem_joinLines {u : CodeUnit} {t : Text} (h : u ∈ joinLines t) :
    u = space ∨ u ∈ t ∧ u ≠ newline := by
  induction t with
  | nil => cases h
  | cons v t ih =>
    have hrest : u ∈ joinLines t → u = space ∨ u ∈ v :: t ∧ u ≠ newline := fun h =>
      (ih h).imp_right fun hmem => ⟨List.mem_cons_of_mem v hmem.1, hmem.2⟩
    unfold joinLines at h
    split at h
    · exact (List.mem_cons.1 h).elim .inl hrest
    · rename_i hv
      have hfirst : u = v → u = space ∨ u ∈ v :: t ∧ u ≠ newline := by
        rintro rfl
        exact .inr ⟨List.mem_cons_self, hv⟩
      split at h
      · rcases List.mem_cons.1 h with h | h
        · exact hfirst h
        · exact (List.mem_cons.1 h).elim .inl hrest
      · exact (List.mem_cons.1 h).elim hfirst hrest

theorem narrowGaps_sublist (t : Text) : (narrowGaps t).Sublist t := by
  induction t with
  | nil => exact List.Sublist.refl _
  | cons u t ih =>
    show (consNarrow u (narrowGaps t)).Sublist _
    unfold consNarrow
    split
    · exact ih.cons u
    · exact ih.cons_cons u

theorem stripLineEnds_sublist (t : Text) : t.stripLineEnds.Sublist t := by
  induction t with
  | nil => exact List.Sublist.refl _
  | cons u t ih =>
    show (consUnlessTrailing u (stripLineEnds t)).Sublist _
    unfold consUnlessTrailing
    split
    · exact ih.cons u
    · exact ih.cons_cons u

/-- The one long line has the units of the paragraph without its line feeds, and spaces. -/
theorem mem_oneLine {u : CodeUnit} {t : Text} (h : u ∈ oneLine t) :
    u = space ∨ u ∈ t ∧ u ≠ newline := by
  have hjoined : u ∈ joinLines t.stripLineEnds :=
    (narrowGaps_sublist _).subset ((List.dropWhile_sublist _).subset h)
  exact (mem_joinLines hjoined).imp_right fun hmem =>
    ⟨(stripLineEnds_sublist t).subset hmem.1, hmem.2⟩

theorem newline_notMem_oneLine (t : Text) : newline ∉ oneLine t := by
  intro h
  rcases mem_oneLine h with h | h
  · exact absurd h (by decide)
  · exact h.2 rfl

theorem trimStart_oneLine (t : Text) : (oneLine t).trimStart = oneLine t :=
  trimStart_trimStart _

/-! ## Where a line may be broken -/

/-- `front` is a front of `t` that ends where a word ends. -/
def WordFront (t front : Text) : Prop :=
  front.EndsInWord ∧ ∃ behind, t = front ++ behind ∧ behind.head?.all CodeUnit.isBlank = true

/-- The line that a text of lines of `width` columns starts with: the longest front of the text
that ends with a word and fits, or the first word if that alone is too wide. -/
def TakesLine (width : Int) (t line : Text) : Prop :=
  (WordFront t line ∧ (line.length : Int) ≤ width
      ∧ ∀ front, WordFront t front → (front.length : Int) ≤ width → front.length ≤ line.length)
    ∨ (line = t.spanWord.1 ∧ width < line.length)

/-- A line of a filled paragraph: it starts and ends in a word, and fits or has no gap. -/
structure FilledLine (width : Int) (line : Text) : Prop where
  trimStart_eq : line.trimStart = line
  endsInWord : line.EndsInWord
  fits : (line.length : Int) ≤ width ∨ ∀ u ∈ line, u.isBlank = false

theorem breakWithin?_endsInWord {width : Nat} {t line after : Text}
    (h : breakWithin? width t = some (line, after)) :
    line.EndsInWord ∧ line.length ≤ width := by
  fun_induction breakWithin? width t generalizing line after with
  | case1 width u v rest line' after' hl ih =>
    simp only [Option.some.injEq, Prod.mk.injEq] at h
    obtain ⟨rfl, rfl⟩ := h
    obtain ⟨hends, hlength⟩ := ih (Option.ite_none_left_eq_some.1 hl).2
    exact ⟨hends.cons u, Nat.succ_le_succ hlength⟩
  | case2 width u v rest hl hb ih =>
    simp only [Option.some.injEq, Prod.mk.injEq] at h
    obtain ⟨rfl, rfl⟩ := h
    rw [Bool.and_eq_true, Bool.not_eq_true'] at hb
    exact ⟨.of_no_blank (List.cons_ne_nil u []) (by simpa using hb.1), by simp⟩
  | case3 => simp at h
  | case4 => simp at h

/-- Where no line separator is in the way, a line is broken off that is at least as long as any
front that ends with a word and fits. -/
theorem breakWithin?_of_front {front : Text} (hends : front.EndsInWord)
    (hplain : ∀ u ∈ front, u.isLineEnd = false) {v : CodeUnit} (hv : v.isBlank = true)
    (behind : Text) {width : Nat} (hfits : front.length ≤ width) :
    ∃ found, breakWithin? width (front ++ v :: behind) = some found
      ∧ front.length ≤ found.1.length := by
  induction front generalizing width with
  | nil => exact absurd rfl hends.ne_nil
  | cons u front ih =>
    obtain ⟨hu, hplain⟩ := List.forall_mem_cons.1 hplain
    cases width with
    | zero => exact absurd hfits (Nat.not_succ_le_zero _)
    | succ width =>
      cases front with
      | nil =>
        -- Whatever is found has at least one unit.
        rw [List.singleton_append, breakWithin?, hu, if_neg Bool.false_ne_true,
          hends.not_blank_of_singleton, hv]
        cases breakWithin? width (v :: behind) with
        | none => exact ⟨_, rfl, Nat.le_refl _⟩
        | some found => exact ⟨_, rfl, Nat.succ_le_succ (Nat.zero_le _)⟩
      | cons w front =>
        obtain ⟨⟨line, after⟩, hfound, hlength⟩ :=
          ih (hends.tail (List.cons_ne_nil w front)) hplain (Nat.le_of_succ_le_succ hfits)
        rw [List.cons_append] at hfound
        refine ⟨(u :: line, after), ?_, Nat.succ_le_succ hlength⟩
        rw [List.cons_append, List.cons_append, breakWithin?, hu, if_neg Bool.false_ne_true,
          hfound]

/-! ## Lines that are broken off -/

/-- A line that is broken off a text. -/
structure BrokenLine (width : Int) (t line : Text) : Prop extends FilledLine width line where
  takes : (∀ u ∈ t, u.isLineEnd = false) → TakesLine width t line

theorem wordFront_spanWord {t : Text} (hne : t.spanWord.1 ≠ []) : WordFront t t.spanWord.1 :=
  ⟨.of_no_blank hne (spanWord_solid t), t.spanWord.2, (spanWord_append t).symm, head?_spanWord t⟩

/-- A front that ends with a word is followed by white space, unless it is the whole text. -/
theorem WordFront.exists_behind {t front : Text} (h : WordFront t front)
    (hlength : front.length < t.length) :
    ∃ (u : CodeUnit) (behind : Text), u.isBlank = true ∧ t = front ++ u :: behind := by
  obtain ⟨-, behind, rfl, hblank⟩ := h
  cases behind with
  | nil => simp at hlength
  | cons u behind => exact ⟨u, behind, by simpa using hblank, rfl⟩

/-- In a text that is too long, a front that ends with a word and fits is no longer than the line
that is found. -/
theorem exists_breakWithin? {width : Int} {t front : Text} (hlong : width < t.length)
    (hplain : ∀ u ∈ t, u.isLineEnd = false) (hfront : WordFront t front)
    (hfits : (front.length : Int) ≤ width) :
    ∃ found, breakWithin? width.toNat t = some found ∧ front.length ≤ found.1.length := by
  obtain ⟨v, rest, hv, rfl⟩ := hfront.exists_behind (by omega)
  exact breakWithin?_of_front hfront.1 (fun u hu => hplain u (List.mem_append_left _ hu)) hv rest
    (by omega)

/-- What a break takes off a text that starts with a word and is too long. -/
theorem brokenLine_of_breakLine? {width : Int} {t line after : Text} (hstart : t.trimStart = t)
    (hlong : width < t.length) (h : breakLine? width t = some (line, after)) :
    BrokenLine width t line := by
  obtain ⟨u, behind, hu, ht, -⟩ := breakLine?_cut h
  have hline : line ≠ [] → line.trimStart = line := fun hne =>
    (trimStart_append_eq_iff hne (u :: behind)).1 (by rw [← ht]; exact hstart)
  unfold breakLine? at h
  split at h
  · rename_i found hwithin
    obtain rfl := Option.some.inj h
    obtain ⟨hends, hlength⟩ := breakWithin?_endsInWord hwithin
    have hpositive := List.length_pos_iff.2 hends.ne_nil
    have hfits : (line.length : Int) ≤ width := by omega
    refine ⟨⟨hline hends.ne_nil, hends, .inl hfits⟩, fun hplain => .inl ⟨?_, hfits, ?_⟩⟩
    · exact ⟨hends, u :: behind, ht, hu⟩
    · intro front hfront hfrontFits
      obtain ⟨found, hfound, hle⟩ := exists_breakWithin? hlong hplain hfront hfrontFits
      obtain rfl := Option.some.inj (hwithin.symm.trans hfound)
      exact hle
  · rename_i hnone
    obtain ⟨hne, -, rfl, -⟩ := breakAfterWord?_eq_some_iff.1 h
    have hsolid := spanWord_solid t
    refine ⟨⟨hline hne, .of_no_blank hne hsolid, .inr hsolid⟩, fun hplain => .inr ⟨rfl, ?_⟩⟩
    by_contra hfits
    obtain ⟨found, hfound, -⟩ :=
      exists_breakWithin? hlong hplain (wordFront_spanWord hne) (by omega)
    rw [hnone] at hfound
    cases hfound

/-! ## Rows -/

/-- A line of a filled paragraph, and the gap that stood behind it. -/
structure Row where
  line : Text
  gap : Text

/-- The text that rows are cut from. -/
def rowsText (rows : List Row) : Text := rows.flatMap fun row => row.line ++ row.gap

theorem rowsText_cons (row : Row) (rows : List Row) :
    rowsText (row :: rows) = row.line ++ (row.gap ++ rowsText rows) := by
  rw [rowsText, List.flatMap_cons, List.append_assoc]
  rfl

theorem rowsText_append (rows more : List Row) :
    rowsText (rows ++ more) = rowsText rows ++ rowsText more := List.flatMap_append

/-- Rows as filling cuts them: each line but the last is broken off what is left. -/
inductive FilledRows (width : Int) : List Row → Prop
  | last {row : Row} (hline : FilledLine width row.line) (hgap : row.gap.isBlank = true) :
      FilledRows width [row]
  | cons {row next : Row} {more : List Row}
      (hline : BrokenLine width (rowsText (row :: next :: more)) row.line)
      (hgap : row.gap.isBlank = true) (hne : row.gap ≠ []) (h : FilledRows width (next :: more)) :
      FilledRows width (row :: next :: more)

namespace FilledRows

variable {width : Int}

theorem filledLine {rows : List Row} (h : FilledRows width rows) :
    ∀ row ∈ rows, FilledLine width row.line := by
  induction h with
  | last hline _ => simpa using hline
  | cons hline _ _ _ ih => exact List.forall_mem_cons.2 ⟨hline.toFilledLine, ih⟩

theorem ne_nil {rows : List Row} (h : FilledRows width rows) : rows ≠ [] := by
  cases h <;> exact List.cons_ne_nil _ _

/-- The rows from any row on are laid as well. -/
theorem suffix {earlier later : List Row} {row : Row}
    (h : FilledRows width (earlier ++ row :: later)) : FilledRows width (row :: later) := by
  induction earlier with
  | nil => exact h
  | cons first earlier ih =>
    rw [List.cons_append] at h
    cases hrest : earlier ++ row :: later with
    | nil => simp at hrest
    | cons next more =>
      rw [hrest] at h ih
      cases h with
      | cons _ _ _ h => exact ih h

/-- White space is behind a line, if anything is. -/
theorem head?_behind {row : Row} {later : List Row} (h : FilledRows width (row :: later)) :
    (row.gap ++ rowsText later).head?.all CodeUnit.isBlank = true := by
  have hhead : ∀ g s : Text, g.isBlank = true → (g ≠ [] ∨ s = []) →
      (g ++ s).head?.all CodeUnit.isBlank = true := by
    intro g s hg hne
    cases g with
    | nil => simp [hne.resolve_left (fun h => h rfl)]
    | cons u g => simp_all [Text.isBlank]
  cases h with
  | last _ hgap => exact hhead _ _ hgap (.inr rfl)
  | cons _ hgap hne _ => exact hhead _ _ hgap (.inl hne)

end FilledRows

theorem fillLines_nil (width : Int) : fillLines width [] = [[]] := by
  rw [fillLines]
  split
  · split
    · rename_i found
      obtain ⟨u, behind, -, hnil, -⟩ := breakLine?_cut found
      simp at hnil
    · rfl
  · rfl

/-- A text that starts with a word and cannot be broken is that word. -/
theorem no_blank_of_breakLine?_eq_none {width : Int} {t : Text} (hne : t ≠ [])
    (hstart : t.trimStart = t) (h : breakLine? width t = none) : ∀ u ∈ t, u.isBlank = false := by
  have hrest : t.spanWord.2 = [] := by
    by_contra hrest
    have hfound := breakAfterWord?_eq_some_iff.2 ⟨spanWord_ne_nil hne hstart, hrest, rfl, rfl⟩
    unfold breakLine? at h
    split at h
    · cases h
    · rw [hfound] at h
      cases h
  have hsplit := spanWord_append t
  rw [hrest, List.append_nil] at hsplit
  rw [← hsplit]
  exact spanWord_solid t

theorem trimEnd_unlines_fillLines_ne_nil (width : Int) {t : Text} (hne : t ≠ [])
    (hstart : t.trimStart = t) : (unlines (fillLines width t)).trimEnd ≠ [] := by
  rw [Ne, trimEnd_eq_nil_iff, ← ink_eq_nil_iff,
    ink_eq_of_words_eq (words_unlines_fillLines width t), ink_eq_nil_iff,
    not_isBlank_of_trimStart hne hstart]
  exact Bool.false_ne_true

/-- White space at the end of lines is at the end of the last of them that has a word. -/
theorem trimEnd_unlines_cons (line : Text) {more : List Text}
    (hkept : (unlines more).trimEnd ≠ []) :
    (unlines (line :: more)).trimEnd = line ++ newline :: (unlines more).trimEnd := by
  have hmore : more ≠ [] := by
    rintro rfl
    exact hkept rfl
  rw [unlines_cons line hmore, List.append_cons, trimEnd_append _ hkept, ← List.append_cons]

/-- The lines of a text that starts with a word, without the white space at their end, are the
lines of rows that the text is cut into. -/
theorem exists_rows_fillLines (width : Int) {t : Text} (hne : t ≠ []) (hstart : t.trimStart = t) :
    ∃ rows : List Row, rowsText rows = t ∧ FilledRows width rows
      ∧ (unlines (fillLines width t)).trimEnd = unlines (rows.map (·.line)) := by
  fun_induction fillLines width t with
  | case1 t hlong line after found ih =>
    have hline := brokenLine_of_breakLine? hstart hlong found
    obtain ⟨g, hg, hgap, ht⟩ := breakLine?_eq found
    have hafter : after.trimStart = after := by
      obtain ⟨u, behind, -, -, rfl⟩ := breakLine?_cut found
      exact trimStart_trimStart _
    by_cases hrest : after = []
    · -- Only white space was left, and what is made of it is trimmed.
      subst hrest
      refine ⟨[⟨line, g⟩], ?_, .last hline.toFilledLine hg, ?_⟩
      · rw [ht]
        simp [rowsText]
      · rw [fillLines_nil, unlines, join_cons_cons, trimEnd_append_blank line (by decide),
          hline.endsInWord.trimEnd_eq]
        simp [unlines, join]
    · obtain ⟨rows, htext, hrows, hlines⟩ := ih hrest hafter
      obtain ⟨next, more, rfl⟩ := List.exists_cons_of_ne_nil hrows.ne_nil
      have hwhole : rowsText (⟨line, g⟩ :: next :: more) = t := by
        rw [rowsText_cons, htext, ht, List.append_assoc]
      refine ⟨⟨line, g⟩ :: next :: more, hwhole, .cons (hwhole ▸ hline) hg hgap hrows, ?_⟩
      have hmore : (next :: more).map (·.line) ≠ [] := List.cons_ne_nil _ _
      calc
        (unlines (line :: fillLines width after)).trimEnd
            = line ++ newline :: (unlines (fillLines width after)).trimEnd :=
          trimEnd_unlines_cons line (trimEnd_unlines_fillLines_ne_nil width hrest hafter)
        _ = line ++ newline :: unlines ((next :: more).map (·.line)) := by rw [hlines]
        _ = unlines (line :: (next :: more).map (·.line)) := (unlines_cons line hmore).symm
  | case2 t hlong hstuck =>
    have hsolid := no_blank_of_breakLine?_eq_none hne hstart hstuck
    have hends := EndsInWord.of_no_blank hne hsolid
    refine ⟨[⟨t, []⟩], by simp [rowsText], .last ⟨hstart, hends, .inr hsolid⟩ rfl, ?_⟩
    simpa [unlines, join] using hends.trimEnd_eq
  | case3 t hshort =>
    have hends := EndsInWord.of_not_blank (not_isBlank_of_trimStart hne hstart)
    obtain ⟨g, hg, ht⟩ := exists_trimEnd t
    refine ⟨[⟨t.trimEnd, g⟩], ?_, .last ⟨?_, hends, .inl ?_⟩ hg, ?_⟩
    · rw [rowsText_cons, rowsText, List.flatMap_nil, List.append_nil]
      exact ht.symm
    · exact (trimStart_append_eq_iff hends.ne_nil g).1 (by rw [← ht]; exact hstart)
    · have hlength := congrArg List.length ht
      rw [List.length_append] at hlength
      simp only
      omega
    · simp [unlines, join]

theorem unlines_endsInWord {lines : List Text} (hne : lines ≠ [])
    (h : ∀ line ∈ lines, line.EndsInWord) : (unlines lines).EndsInWord := by
  induction lines with
  | nil => exact absurd rfl hne
  | cons line more ih =>
    obtain ⟨hline, hmore⟩ := List.forall_mem_cons.1 h
    by_cases hlast : more = []
    · subst hlast
      simpa [unlines, join] using hline
    · rw [unlines_cons line hlast]
      exact ((ih hlast hmore).cons newline).append_left line

/-- A paragraph that says anything is filled by the lines of rows that its one long line is cut
into. -/
theorem exists_rows_fillTo (width : Int) {t : Text} (h : t.isBlank = false) :
    ∃ rows : List Row, rowsText rows = oneLine t ∧ FilledRows width rows
      ∧ (unlines (rows.map (·.line))).lines = rows.map (·.line)
      ∧ fillTo width t = unlines (rows.map (·.line)) ++ [newline, newline] := by
  have hblank : (oneLine t).isBlank = false := (isBlank_oneLine t).trans h
  have hne : oneLine t ≠ [] := by
    intro hnil
    rw [hnil] at hblank
    cases hblank
  obtain ⟨rows, htext, hrows, hlines⟩ := exists_rows_fillLines width hne (trimStart_oneLine t)
  refine ⟨rows, htext, hrows, ?_, ?_⟩
  · refine splitOn_join ?_ (by simpa using hrows.ne_nil)
    intro line hline hmem
    obtain ⟨row, hrow, rfl⟩ := List.mem_map.1 hline
    refine newline_notMem_oneLine t ?_
    rw [← htext]
    exact List.mem_flatMap.2 ⟨row, hrow, List.mem_append_left _ hmem⟩
  · rw [← hlines, fillTo]
    simp only [hblank, Bool.false_eq_true, if_false]

/-! ## What a filled paragraph looks like -/

/-- Filling gives nothing for white space alone.  Any other paragraph keeps its words, and is
filled by lines with a blank line behind them.  None of these lines is empty or has white space
at its end, and each fits the width, which may be any integer, or is a single word. -/
theorem fillTo_lines (width : Int) (t : Text) :
    (fillTo width t = [] ↔ t.isBlank = true)
      ∧ (t.isBlank = false → (fillTo width t).words = t.words
        ∧ ∃ body : Text, fillTo width t = body ++ [newline, newline] ∧ body.EndsInWord
          ∧ ∀ line ∈ body.lines, FilledLine width line) := by
  refine ⟨fillTo_eq_nil_iff width t, fun h => ⟨words_fillTo width t, ?_⟩⟩
  obtain ⟨rows, -, hrows, hsplit, hfilled⟩ := exists_rows_fillTo width h
  have hline : ∀ line ∈ rows.map (·.line), FilledLine width line :=
    List.forall_mem_map.2 hrows.filledLine
  refine ⟨unlines (rows.map (·.line)), hfilled, ?_, ?_⟩
  · exact unlines_endsInWord (by simpa using hrows.ne_nil) fun line hmem =>
      (hline line hmem).endsInWord
  · rw [hsplit]
    exact hline

/-- A paragraph with a line separator in it. -/
def separatedParagraph : Text := "  ab\u2028cdefgh  i\n"

/-- The line separator is a gap like any other, and the word that is too wide is a line. -/
theorem fillTo_lines_separated :
    separatedParagraph.isBlank = false
      ∧ ∃ body : Text, body.lines = ["ab", "cdefgh", "i"]
        ∧ ∀ line ∈ body.lines, FilledLine 4 line := by
  have hink : separatedParagraph.isBlank = false := by decide
  obtain ⟨-, body, hfilled, -, hlines⟩ := (fillTo_lines 4 separatedParagraph).2 hink
  refine ⟨hink, body, ?_, hlines⟩
  have hbody : body ++ [newline, newline] = ofString "ab\ncdefgh\ni" ++ [newline, newline] := by
    rw [← hfilled]
    decide +kernel
  rw [List.append_cancel_right hbody]
  decide

/-! ## Where a filled paragraph is broken -/

/-- The lines of a text that are not empty: of a filled paragraph, all but the blank line behind
it. -/
def writtenLines (t : Text) : List Text := t.lines.filter (!·.isEmpty)

theorem writtenLines_append {body : Text} (h : ∀ line ∈ body.lines, line ≠ []) :
    writtenLines (body ++ [newline, newline]) = body.lines := by
  rw [writtenLines, Text.lines, splitOn_append_cons, List.filter_append, List.filter_eq_self.2]
  · exact List.append_nil _
  · intro line hline
    simpa using h line hline

/-- A line that is broken as late as it can be: `line` takes the most of `whole` that fits, and
behind it comes `gap` and then the first word of the line `next`, with which the line would have
passed the width. -/
structure BrokenLate (width : Int) (whole line gap next : Text) : Prop where
  takes : TakesLine width whole line
  gap_ne_nil : gap ≠ []
  isBlank_gap : gap.isBlank = true
  word_ne_nil : next.spanWord.1 ≠ []
  follows : line ++ gap ++ next.spanWord.1 <+: whole
  passes : width < (line ++ gap ++ next.spanWord.1).length

theorem FilledRows.brokenLate {width : Int} {row next : Row} {later : List Row}
    (h : FilledRows width (row :: next :: later))
    (hplain : ∀ u ∈ rowsText (row :: next :: later), u.isLineEnd = false) :
    BrokenLate width (rowsText (row :: next :: later)) row.line row.gap next.line := by
  cases h with
  | cons hline hgap hne hnext =>
    have hstarts := hnext.filledLine next List.mem_cons_self
    have hword := spanWord_ne_nil hstarts.endsInWord.ne_nil hstarts.trimStart_eq
    let behind := next.line.spanWord.2 ++ (next.gap ++ rowsText later)
    have hwhole : rowsText (row :: next :: later)
        = row.line ++ row.gap ++ next.line.spanWord.1 ++ behind := by
      simp only [behind, rowsText_cons, List.append_assoc]
      rw [← List.append_assoc next.line.spanWord.1, spanWord_append]
    have hfront : WordFront (rowsText (row :: next :: later))
        (row.line ++ row.gap ++ next.line.spanWord.1) := by
      refine ⟨(EndsInWord.of_no_blank hword (spanWord_solid _)).append_left _, behind, hwhole, ?_⟩
      have hrest := head?_spanWord next.line
      cases hspan : next.line.spanWord.2 with
      | nil => simpa [behind, hspan] using hnext.head?_behind
      | cons u rest => simpa [behind, hspan] using hrest
    have htakes := hline.takes hplain
    refine ⟨htakes, hne, hgap, hword, ⟨behind, hwhole.symm⟩, ?_⟩
    have hlonger : row.line.length < (row.line ++ row.gap ++ next.line.spanWord.1).length := by
      have := List.length_pos_iff.2 hne
      simp only [List.length_append]
      omega
    rcases htakes with ⟨-, -, hlongest⟩ | ⟨-, hlong⟩
    · by_contra hfits
      have := hlongest _ hfront (by omega)
      omega
    · omega

/-- A paragraph without line ends other than line feeds, in particular one whose only white space
is spaces, tabs and line feeds, is broken only where it has to be: each line but the last is the
most of what is left of the one long line that fits, and the next word, put back with its gap,
passes the width. -/
theorem fillTo_takes_most (width : Int) {t : Text}
    (h : ∀ u ∈ t, u.isLineEnd = true → u = newline) :
    ∃ rows : List Row, rowsText rows = oneLine t
      ∧ writtenLines (fillTo width t) = rows.map (·.line)
      ∧ ∀ earlier row next later, rows = earlier ++ row :: next :: later →
          BrokenLate width (rowsText (row :: next :: later)) row.line row.gap next.line := by
  have hplain : ∀ u ∈ oneLine t, u.isLineEnd = false := by
    intro u hu
    rcases mem_oneLine hu with rfl | ⟨hmem, hne⟩
    · decide
    · exact Bool.eq_false_iff.2 fun hend => hne (h u hmem hend)
  cases hblank : t.isBlank with
  | true =>
    refine ⟨[], ?_, ?_, fun earlier row next later hrows => by simp at hrows⟩
    · by_contra hne
      have hink := not_isBlank_of_trimStart (Ne.symm hne) (trimStart_oneLine t)
      rw [isBlank_oneLine, hblank] at hink
      cases hink
    · rw [(fillTo_eq_nil_iff width t).2 hblank]
      rfl
  | false =>
    obtain ⟨rows, htext, hrows, hsplit, hfilled⟩ := exists_rows_fillTo width hblank
    refine ⟨rows, htext, ?_, ?_⟩
    · rw [hfilled, writtenLines_append, hsplit]
      rw [hsplit]
      exact List.forall_mem_map.2 fun row hrow => (hrows.filledLine row hrow).endsInWord.ne_nil
    · rintro earlier row next later rfl
      refine hrows.suffix.brokenLate fun u hu => hplain u ?_
      rw [← htext, rowsText_append]
      exact List.mem_append_right _ hu

/-- A paragraph with a tab, a sentence at the end of a line and a word that is too wide. -/
def spacedParagraph : Text := "ab cd\te.\nwidest f"

/-- Filled to five columns it has lines that fit just so, and lines that are too wide. -/
theorem fillTo_takes_most_spaced :
    (∀ u ∈ spacedParagraph, u.isLineEnd = true → u = newline)
      ∧ ∃ rows : List Row, rowsText rows = "ab cd\te.  widest f"
        ∧ rows.map (·.line) = ["ab cd", "e.", "widest", "f"]
        ∧ ∀ earlier row next later, rows = earlier ++ row :: next :: later →
          BrokenLate 5 (rowsText (row :: next :: later)) row.line row.gap next.line := by
  have hplain : ∀ u ∈ spacedParagraph, u.isLineEnd = true → u = newline := by
    have hall : spacedParagraph.all (fun u => !u.isLineEnd || u == newline) = true := by decide
    intro u hu hend
    simpa [hend] using List.all_eq_true.1 hall u hu
  obtain ⟨rows, htext, hlines, hlate⟩ := fillTo_takes_most 5 hplain
  refine ⟨hplain, rows, ?_, ?_, hlate⟩
  · rw [htext]
    decide +kernel
  · rw [← hlines]
    decide +kernel

end PodLoom.Thread
