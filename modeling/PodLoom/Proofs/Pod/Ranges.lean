import Mathlib.Data.List.Chain
import PodLoom.Pod.Document

set_option autoImplicit false

/-!
# Lengths and code points in range

Nothing can be repeated a negative number of times, and there is no character beyond the last
code point.  The definitions that read a source never have to say so: a difference of lengths
stops at zero for them, and any number makes a character.

Here the operations that have a range fail outside of it (`repeat?`, `character?`), the steps of
reading that use one are written with it, in the order in which they are taken, and reading
a source is shown to come to the same either way (`inRange`).
-/

namespace PodLoom.Pod

open Text CodeUnit

/-! ## Operations that have a range -/

/-- A value a number of times, unless the number is negative. -/
def repeat? {α : Type} (n : Int) (a : α) : Option (List α) :=
  if n < 0 then none else some (List.replicate n.toNat a)

theorem repeat?_sub {α : Type} {m n : Nat} (h : n ≤ m) (a : α) :
    repeat? ((m : Int) - n) a = some (List.replicate (m - n) a) := by
  rw [repeat?, if_neg (by omega), Int.toNat_sub]

/-- The character of a code point, unless it is beyond the last. -/
def character? (n : Nat) : Option Text := if n ≤ maxCodePoint then some (ofCodePoint n) else none

/-! ## Verbatim paragraphs -/

/-- The line behind a paragraph. -/
def Paragraph.stop (p : Paragraph) : Nat := p.line + p.lines.length

/-- Put a paragraph behind those before it.  A verbatim one behind another verbatim one
continues it, with the blank lines between them. -/
def joinParagraph? (ps : List Paragraph) (q : Paragraph) : Option (List Paragraph) :=
  match ps.getLast? with
  | some p =>
      if p.kind = .verbatim ∧ q.kind = .verbatim then do
        let gap ← repeat? ((q.line : Int) - p.stop) []
        pure (ps.dropLast ++ [{ p with lines := p.lines ++ gap ++ q.lines }])
      else pure (ps ++ [q])
  | none => pure [q]

/-- The paragraphs of a source before verbatim ones are joined. -/
def rawParagraphs (source : Text) : List Paragraph :=
  (readLines false none 1 source.normalizeEndings.lines).2

/-- One paragraph ends before another starts. -/
def Paragraph.Precedes (p q : Paragraph) : Prop := p.stop ≤ q.line

/-- What is read from a line on: the lines that continue the open paragraph, and paragraphs
behind them that follow each other. -/
structure Ordered (number : Nat) (read : List Text × List Paragraph) : Prop where
  behind : ∀ q ∈ read.2.head?, number + read.1.length ≤ q.line
  chain : read.2.IsChain Paragraph.Precedes

namespace Ordered

variable {number : Nat} {more : List Text} {after : List Paragraph}

theorem nil (number : Nat) : Ordered number ([], []) := ⟨by simp, .nil⟩

/-- A line is passed over. -/
theorem skip {read : List Text × List Paragraph} (h : Ordered (number + 1) read) :
    Ordered number read := by
  refine ⟨fun q hq => ?_, h.chain⟩
  have hbehind := h.behind q hq
  omega

/-- A line continues the open paragraph. -/
theorem extend (h : Ordered (number + 1) (more, after)) (line : Text) :
    Ordered number (line :: more, after) := by
  refine ⟨fun q hq => ?_, h.chain⟩
  have hbehind := h.behind q hq
  rw [List.length_cons]
  dsimp only at hbehind
  omega

/-- A line starts a paragraph. -/
theorem start (h : Ordered (number + 1) (more, after)) (kind : ParagraphKind) (line : Text) :
    Ordered number ([], ⟨kind, number, line :: more⟩ :: after) := by
  refine ⟨fun q hq => ?_, h.chain.cons fun q hq => ?_⟩
  · obtain rfl := Option.some.inj hq
    exact Nat.le_refl number
  · have hbehind := h.behind q hq
    rw [Paragraph.Precedes, Paragraph.stop, List.length_cons]
    dsimp only at hbehind ⊢
    omega

end Ordered

theorem readLines_ordered (inPod : Bool) (opened : Option ParagraphKind) (number : Nat)
    (ls : List Text) : Ordered number (readLines inPod opened number ls) := by
  induction ls generalizing inPod opened number with
  | nil => exact .nil number
  | cons line rest ih =>
    unfold readLines
    split
    · exact (ih false opened (number + 1)).skip
    · split
      · exact (ih true none (number + 1)).skip
      · split
        · exact (ih _ _ (number + 1)).start _ _
        · dsimp only
          split
          · exact (ih true _ (number + 1)).extend line
          · exact (ih true _ (number + 1)).start _ line

/-- A paragraph with the lines of the next one behind its own, and blank lines between them. -/
def Paragraph.continued (p q : Paragraph) : Paragraph :=
  { p with lines := p.lines ++ List.replicate (q.line - p.stop) [] ++ q.lines }

theorem stop_continued {p q : Paragraph} (h : p.Precedes q) : (p.continued q).stop = q.stop := by
  unfold Paragraph.Precedes at h
  simp only [Paragraph.stop, Paragraph.continued, List.length_append, List.length_replicate] at h ⊢
  omega

theorem consParagraph_verbatim {p q : Paragraph} (hp : p.kind = .verbatim) (hq : q.kind = .verbatim)
    (rest : List Paragraph) : consParagraph p (q :: rest) = p.continued q :: rest :=
  if_pos ⟨hp, hq⟩

theorem consParagraph_other {p q : Paragraph} (h : ¬(p.kind = .verbatim ∧ q.kind = .verbatim))
    (rest : List Paragraph) : consParagraph p (q :: rest) = p :: q :: rest := if_neg h

/-- A paragraph keeps its kind when those behind it are joined to it. -/
theorem exists_consParagraph (p : Paragraph) (ps : List Paragraph) :
    ∃ q rest, consParagraph p ps = q :: rest ∧ q.kind = p.kind := by
  unfold consParagraph
  split
  · exact ⟨p, [], rfl, rfl⟩
  · split
    · exact ⟨_, _, rfl, rfl⟩
    · exact ⟨p, _, rfl, rfl⟩

/-- Verbatim paragraphs may be joined from either side. -/
theorem consParagraph_continued {p q : Paragraph} (hp : p.kind = .verbatim)
    (hq : q.kind = .verbatim) (h : p.Precedes q) (ps : List Paragraph) :
    consParagraph (p.continued q) ps = consParagraph p (consParagraph q ps) := by
  cases ps with
  | nil => exact (consParagraph_verbatim hp hq []).symm
  | cons r rest =>
    by_cases hr : r.kind = .verbatim
    · have hlines : (p.continued q).continued r = p.continued (q.continued r) := by
        rw [Paragraph.continued, stop_continued h]
        simp [Paragraph.continued]
      rw [consParagraph_verbatim (p := p.continued q) hp hr, consParagraph_verbatim hq hr,
        consParagraph_verbatim (q := q.continued r) hp hq, hlines]
    · rw [consParagraph_other fun h => hr h.2, consParagraph_other fun h => hr h.2,
        consParagraph_verbatim hp hq]

theorem joinParagraph?_concat (ps : List Paragraph) {p q : Paragraph} (h : p.Precedes q) :
    joinParagraph? (ps ++ [p]) q
      = some (if p.kind = .verbatim ∧ q.kind = .verbatim then ps ++ [p.continued q]
        else ps ++ [p] ++ [q]) := by
  unfold joinParagraph?
  rw [List.getLast?_concat]
  dsimp only
  split
  · rw [repeat?_sub h, List.dropLast_concat]
    rfl
  · rfl

/-- Paragraphs that follow each other are joined in order, and no gap is negative. -/
theorem foldlM_joinParagraph? (before : List Paragraph) {p : Paragraph} {ps : List Paragraph}
    (h : (p :: ps).IsChain Paragraph.Precedes) :
    ps.foldlM joinParagraph? (before ++ [p])
      = some (before ++ (p :: ps).foldr consParagraph []) := by
  induction ps generalizing before p with
  | nil => rfl
  | cons q rest ih =>
    obtain ⟨hpq, hrest⟩ := List.isChain_cons_cons.1 h
    rw [List.foldlM_cons, joinParagraph?_concat before hpq, Option.bind_eq_bind, Option.bind_some]
    split
    · rename_i hverbatim
      have hjoined : (p.continued q :: rest).IsChain Paragraph.Precedes := by
        refine hrest.tail.cons fun r hr => ?_
        rw [Paragraph.Precedes, stop_continued hpq]
        exact (List.isChain_cons.1 hrest).1 r hr
      rw [ih before hjoined, List.foldr_cons, consParagraph_continued hverbatim.1 hverbatim.2 hpq]
      rfl
    · rename_i hother
      obtain ⟨first, after, hfirst, hkind⟩ := exists_consParagraph q (rest.foldr consParagraph [])
      rw [ih (before ++ [p]) hrest, List.foldr_cons, List.foldr_cons, List.foldr_cons, hfirst,
        consParagraph_other (by rwa [hkind]), List.append_assoc]
      rfl

theorem joinParagraphs?_rawParagraphs (source : Text) :
    (rawParagraphs source).foldlM joinParagraph? [] = some (Paragraph.split source) := by
  have hordered := (readLines_ordered false none 1 source.normalizeEndings.lines).chain
  unfold Paragraph.split
  change (rawParagraphs source).IsChain _ at hordered
  change _ = some ((rawParagraphs source).foldr consParagraph [])
  cases hraw : rawParagraphs source with
  | nil => rfl
  | cons p ps =>
    rw [hraw] at hordered
    exact foldlM_joinParagraph? [] hordered

/-! ## Tabs -/

/-- Expand tabs in a text that starts at a column, each to the spaces up to the next tab stop. -/
def expandTabsFrom? (width : Nat) : (column : Nat) → Text → Option Text
  | _, [] => some []
  | column, u :: rest =>
      if u = tab then do
        let spaces ← repeat? ((width : Int) - (column % width : Nat)) space
        let after ← expandTabsFrom? width (column + spaces.length) rest
        pure (spaces ++ after)
      else if u = newline then (expandTabsFrom? width 0 rest).map (u :: ·)
      else (expandTabsFrom? width (column + 1) rest).map (u :: ·)

/-- There is always a tab stop ahead. -/
theorem expandTabsFrom?_eq {width : Nat} (hwidth : 0 < width) (column : Nat) (t : Text) :
    expandTabsFrom? width column t = some (expandTabsFrom width column t) := by
  induction t generalizing column with
  | nil => rfl
  | cons u rest ih =>
    have hstop : column % width ≤ width := Nat.le_of_lt (Nat.mod_lt column hwidth)
    unfold expandTabsFrom? expandTabsFrom
    split
    · rw [repeat?_sub hstop]
      simp [ih]
    · split
      · rw [ih]
        rfl
      · rw [ih]
        rfl

/-! ## Escapes and reports -/

/-- The text that an escape stands for, by number or else by name; a number must be that of a
character. -/
def resolveEscape? (name : Text) : Option (Option Text) :=
  match numericEscape? name with
  | some point => (character? point).map some
  | none => some (namedEscape? name)

/-- A number beyond the last code point is no numeric escape. -/
theorem resolveEscape?_eq (name : Text) : resolveEscape? name = some (escapeText? name) := by
  unfold resolveEscape? escapeText?
  cases hpoint : numericEscape? name with
  | none => rfl
  | some point =>
    have hle : point ≤ maxCodePoint := by
      have hfilter := Option.filter_eq_some_iff.1 hpoint
      exact of_decide_eq_true hfilter.2
    dsimp only
    rw [character?, if_pos hle]
    rfl

/-- The report of a code that nothing closes: its letter with a bracket, the brackets beyond
the first, and as many closing ones. -/
def unterminated? (letter : CodeUnit) (count : Nat) (line : Int) : Option Erratum := do
  let more ← repeat? ((count : Int) - (1 : Nat)) less
  let closing ← repeat? ((count : Int) - (0 : Nat)) greater
  pure ⟨line, ofString "Unterminated " ++ [letter, less] ++ more ++ ofString "..." ++ closing
    ++ ofString " sequence"⟩

/-- A code is opened with one bracket at least. -/
theorem unterminated?_eq (letter : CodeUnit) (delimiter : Delimiter) (line : Int) :
    unterminated? letter delimiter.count line
      = some (Inline.unterminated letter delimiter.count line) := by
  have hone : 1 ≤ delimiter.count := Nat.le_add_left 1 delimiter.extra
  unfold unterminated? Inline.unterminated
  rw [repeat?_sub hone, repeat?_sub (Nat.zero_le delimiter.count)]
  have hless : less :: List.replicate (delimiter.count - 1) less
      = List.replicate delimiter.count less := by
    rw [← List.replicate_succ, Nat.sub_add_cancel hone]
  rw [← hless]
  simp

/-! ## Reading a source -/

/-- No step of reading a source leaves the range of an operation. -/
structure InRange (source : Text) : Prop where
  gaps : (rawParagraphs source).foldlM joinParagraph? [] = some (Paragraph.split source)
  tabs (t : Text) : expandTabsFrom? tabWidth 0 t = some t.expandTabs
  points (name : Text) : resolveEscape? name = some (escapeText? name)
  brackets (letter : CodeUnit) (delimiter : Delimiter) (line : Int) :
    unterminated? letter delimiter.count line
      = some (Inline.unterminated letter delimiter.count line)

theorem inRange (source : Text) : InRange source where
  gaps := joinParagraphs?_rawParagraphs source
  tabs := expandTabsFrom?_eq (by decide) 0
  points := resolveEscape?_eq
  brackets := unterminated?_eq

end PodLoom.Pod
