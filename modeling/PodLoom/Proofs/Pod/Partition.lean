import Mathlib.Data.List.TakeWhile
import PodLoom.Proofs.Pod.Ranges

set_option autoImplicit false

/-!
# The lines of POD and the paragraphs they are in

Which lines of a source are POD can be said without paragraphs: POD starts at a line that begins
with `=` and a letter, and goes up to the next `=cut`, that line included (`podLines`).  A
paragraph is made of a first line and of lines that continue it (`Paragraph.ofLines`), and
`Cut` says that paragraphs lie in lines of POD one behind the other, with nothing but blank
lines between them.

The paragraphs of a source lie in its POD in that way, before verbatim ones are joined
(`cut_rawParagraphs`) and after (`Cut.joined`).  Joining fills the gap between two paragraphs by
counting line numbers, so it is right because the lines of POD follow each other without a
break up to a `=cut` (`adjoins_podLines`), and no `=cut` stands between two verbatim paragraphs
in a row.
-/

namespace PodLoom.Pod

open Text

/-! ## Lines of POD -/

/-- A line of a source and its number. -/
abbrev NumberedLine : Type := Nat × Text

/-- Whether a line of POD is the last one before other text. -/
def endsPod (line : Text) : Bool := (commandLine? line).any (·.1 == ofString "cut")

/-- The lines that are POD, of lines numbered from `number` on. -/
def podLines (inPod : Bool) (number : Nat) : List Text → List NumberedLine
  | [] => []
  | line :: rest =>
      if inPod || startsCommand line then
        (number, line) :: podLines (!endsPod line) (number + 1) rest
      else podLines false (number + 1) rest

/-- The lines of a source that are POD. -/
def sourcePodLines (source : Text) : List NumberedLine :=
  podLines false 1 source.normalizeEndings.lines

/-- The lines of POD are lines of the source, under their own numbers. -/
theorem getElem?_of_mem_podLines {inPod : Bool} {number : Nat} {ls : List Text} {l : NumberedLine}
    (h : l ∈ podLines inPod number ls) : ∃ k, l.1 = number + k ∧ ls[k]? = some l.2 := by
  induction ls generalizing inPod number with
  | nil => cases h
  | cons line rest ih =>
    have later {inPod : Bool} (h : l ∈ podLines inPod (number + 1) rest) :
        ∃ k, l.1 = number + k ∧ (line :: rest)[k]? = some l.2 := by
      obtain ⟨k, hk, hline⟩ := ih h
      exact ⟨k + 1, by omega, hline⟩
    unfold podLines at h
    split at h
    · rcases List.mem_cons.1 h with rfl | h
      · exact ⟨0, rfl, rfl⟩
      · exact later h
    · exact later h

/-- A line of POD that is not a `=cut` has the next line of the source behind it. -/
def Adjoins (l m : NumberedLine) : Prop := endsPod l.2 = false → m.1 = l.1 + 1

theorem adjoins_podLines (inPod : Bool) (number : Nat) (ls : List Text) :
    (podLines inPod number ls).IsChain Adjoins := by
  induction ls generalizing inPod number with
  | nil => exact .nil
  | cons line rest ih =>
    unfold podLines
    split
    · refine (ih _ _).cons fun m hm hopen => ?_
      rw [show endsPod line = false from hopen] at hm
      cases rest with
      | nil => cases hm
      | cons next rest =>
        obtain rfl := Option.some.inj hm
        rfl
    · exact ih _ _

/-- Lines that follow each other without a `=cut` are numbered without a gap. -/
theorem number_of_adjoins {l m : NumberedLine} {ls : List NumberedLine} {k : Nat}
    (h : (l :: ls).IsChain Adjoins) (hopen : ∀ n ∈ (l :: ls).take k, endsPod n.2 = false)
    (hm : (l :: ls)[k]? = some m) : m.1 = l.1 + k := by
  induction k generalizing l ls with
  | zero =>
    obtain rfl := Option.some.inj hm
    rfl
  | succ k ih =>
    cases ls with
    | nil => cases hm
    | cons next rest =>
      obtain ⟨hadjoins, hrest⟩ := List.isChain_cons_cons.1 h
      obtain ⟨hl, hopen⟩ := List.forall_mem_cons.1 hopen
      have hnext := hadjoins hl
      have hnumber := ih hrest hopen hm
      omega

/-! ## Paragraphs made of lines -/

/-- The kind of the paragraph that a line starts, and what is kept of the line: the text after
the name of a command, and any other line as it is. -/
def openingOf (line : Text) : ParagraphKind × Text :=
  match commandLine? line with
  | some (name, argument) => (.command name, argument)
  | none => (if isIndented line then .verbatim else .ordinary, line)

/-- What is kept of a line that continues a paragraph: the line, or nothing if it is blank. -/
def entryOf (line : Text) : Text := if line.isBlank then [] else line

/-- The paragraph that a line starts and others continue. -/
def Paragraph.ofLines (first : NumberedLine) (more : List NumberedLine) : Paragraph :=
  ⟨(openingOf first.2).1, first.1, (openingOf first.2).2 :: more.map fun l => entryOf l.2⟩

/-- Whether a line may continue a paragraph of this kind.  It is no command, and blank lines
continue verbatim paragraphs only. -/
def ParagraphKind.Continues (kind : ParagraphKind) (l : NumberedLine) : Prop :=
  commandLine? l.2 = none ∧ (l.2.isBlank = true → kind = .verbatim)

/-- Paragraphs cut out of lines of POD, in order: every line is blank or in one of them, where
`gap` says whether a blank line comes before the lines.  A verbatim paragraph starts behind
a blank line. -/
inductive Cut : (gap : Bool) → List NumberedLine → List Paragraph → Prop
  | nil (gap : Bool) : Cut gap [] []
  | blank {gap : Bool} {l : NumberedLine} {pod : List NumberedLine} {ps : List Paragraph}
      (hblank : l.2.isBlank = true) (hrest : Cut true pod ps) : Cut gap (l :: pod) ps
  | paragraph {gap : Bool} {first : NumberedLine} {more pod : List NumberedLine}
      {ps : List Paragraph} (hfirst : first.2.isBlank = false)
      (hmore : ∀ l ∈ more, (openingOf first.2).1.Continues l)
      (hgap : (openingOf first.2).1 = .verbatim → gap = true) (hrest : Cut false pod ps) :
      Cut gap (first :: (more ++ pod)) (Paragraph.ofLines first more :: ps)

/-- What starts a verbatim paragraph is no command, and is indented. -/
theorem verbatim_opening {line : Text} (h : (openingOf line).1 = .verbatim) :
    commandLine? line = none ∧ isIndented line = true := by
  unfold openingOf at h
  cases hcommand : commandLine? line with
  | none =>
    refine ⟨rfl, ?_⟩
    by_contra hindented
    rw [hcommand, if_neg hindented] at h
    cases h
  | some command =>
    rw [hcommand] at h
    cases h

theorem endsPod_of_commandLine? {line : Text} (h : commandLine? line = none) :
    endsPod line = false := by
  rw [endsPod, h]
  rfl

/-- No line of a paragraph that is not a `=cut` ends POD. -/
theorem endsPod_of_continues {first : NumberedLine} {more : List NumberedLine}
    (hmore : ∀ l ∈ more, (openingOf first.2).1.Continues l)
    (hcut : (openingOf first.2).1 ≠ .command (ofString "cut")) :
    ∀ l ∈ first :: more, endsPod l.2 = false := by
  intro l hl
  rcases List.mem_cons.1 hl with rfl | hl
  · unfold openingOf at hcut
    unfold endsPod
    cases hcommand : commandLine? l.2 with
    | none => rfl
    | some command =>
      rw [hcommand] at hcut
      have hname : command.1 ≠ ofString "cut" := fun hname => hcut (congrArg _ hname)
      exact beq_eq_false_iff_ne.2 hname
  · exact endsPod_of_commandLine? (hmore l hl).1

/-! ## Paragraphs as they are read -/

theorem commandLine?_of_isBlank {line : Text} (h : line.isBlank = true) :
    commandLine? line = none := by
  have htrim : line.trimEnd = [] := by
    rw [Text.isBlank, List.all_eq_true] at h
    rw [Text.trimEnd, List.reverse_eq_nil_iff, List.dropWhile_eq_nil_iff]
    exact fun u hu => h u (List.mem_reverse.1 hu)
  rw [commandLine?, htrim]

/-- A line that starts POD is not indented. -/
theorem isIndented_of_startsCommand {line : Text} (h : startsCommand line = true) :
    isIndented line = false := by
  unfold startsCommand at h
  split at h
  · rename_i mark letter rest
    obtain rfl := beq_iff_eq.1 (Bool.and_eq_true_iff.1 h).1
    rfl
  · cases h

theorem isBlank_of_startsCommand {line : Text} (h : startsCommand line = true) :
    line.isBlank = false := by
  unfold startsCommand at h
  split at h
  · rename_i mark letter rest
    obtain rfl := beq_iff_eq.1 (Bool.and_eq_true_iff.1 h).1
    rfl
  · cases h

/-- Nothing continues a paragraph where none is open. -/
theorem readLines_none (inPod : Bool) (number : Nat) (ls : List Text) :
    (readLines inPod none number ls).1 = [] := by
  induction ls generalizing inPod number with
  | nil => rfl
  | cons line rest ih =>
    unfold readLines
    split
    · exact ih _ _
    · split
      · exact ih _ _
      · split <;> rfl

/-- What is read of lines: the front of them that is POD continues the open paragraph, and the
others are cut into paragraphs. -/
structure ReadsAs (inPod : Bool) (opened : Option ParagraphKind) (number : Nat) (ls : List Text)
    (held pod : List NumberedLine) : Prop where
  lines : podLines inPod number ls = held ++ pod
  more : (readLines inPod opened number ls).1 = held.map fun l => entryOf l.2
  held : ∀ l ∈ held, commandLine? l.2 = none ∧ l.2.isBlank = false
  cut : Cut (inPod && opened.isNone) pod (readLines inPod opened number ls).2

theorem entryOf_of_not_blank {line : Text} (h : line.isBlank = false) : entryOf line = line := by
  rw [entryOf, h]
  rfl

/-! Each kind of line, in the order in which reading tells them apart. -/

namespace ReadsAs

variable {inPod : Bool} {opened : Option ParagraphKind} {number : Nat} {line : Text}
  {rest : List Text} {held pod : List NumberedLine}

/-- A line outside POD is passed over. -/
theorem outside (hstart : startsCommand line = false)
    (h : ReadsAs false opened (number + 1) rest held pod) :
    ReadsAs false opened number (line :: rest) held pod := by
  refine ⟨?_, ?_, h.held, ?_⟩
  · rw [podLines, hstart]
    exact h.lines
  · rw [readLines, hstart]
    exact h.more
  · rw [readLines, hstart]
    exact h.cut

theorem podLines_cons (hin : (inPod || startsCommand line) = true) :
    podLines inPod number (line :: rest)
      = (number, line) :: podLines (!endsPod line) (number + 1) rest := by
  rw [podLines, if_pos hin]

theorem passed_eq (hin : (inPod || startsCommand line) = true) :
    (!inPod && !startsCommand line) = false := by
  rw [← Bool.not_or, hin]
  rfl

/-- The paragraph that a line may continue: the open one, unless the line is an item's body. -/
def continued? (opened : Option ParagraphKind) (line : Text) : Option ParagraphKind :=
  if opened == some (.command (ofString "item")) && !isIndented line then none else opened

/-- A command starts a paragraph, and so does a line that continues none. -/
theorem readLines_start (number : Nat) (rest : List Text)
    (hin : (inPod || startsCommand line) = true)
    (hblank : line.isBlank = false)
    (hstart : (commandLine? line).isSome = true ∨ continued? opened line = none) :
    readLines inPod opened number (line :: rest)
      = ([], ⟨(openingOf line).1, number, (openingOf line).2
          :: (readLines (!endsPod line) (some (openingOf line).1) (number + 1) rest).1⟩
        :: (readLines (!endsPod line) (some (openingOf line).1) (number + 1) rest).2) := by
  rw [readLines, passed_eq hin, hblank, openingOf, endsPod]
  unfold continued? at hstart
  cases hcommand : commandLine? line with
  | some command => rfl
  | none =>
    rw [hcommand] at hstart
    simp only [Option.isSome_none, Bool.false_eq_true, false_or] at hstart
    simp only [Bool.false_eq_true, if_false, hstart]
    rfl

theorem readLines_continue (number : Nat) (rest : List Text) {kind : ParagraphKind}
    (hin : (inPod || startsCommand line) = true)
    (hblank : line.isBlank = false) (hcommand : commandLine? line = none)
    (hkind : continued? opened line = some kind) :
    readLines inPod opened number (line :: rest)
      = (line :: (readLines true (some kind) (number + 1) rest).1,
          (readLines true (some kind) (number + 1) rest).2) := by
  rw [readLines, passed_eq hin, hblank, hcommand]
  unfold continued? at hkind
  simp only [Bool.false_eq_true, if_false, hkind]

/-- A blank line closes the open paragraph. -/
theorem blank (hin : inPod = true) (hblank : line.isBlank = true)
    (h : ReadsAs true none (number + 1) rest held pod) :
    ReadsAs inPod opened number (line :: rest) [] ((number, line) :: pod) := by
  subst hin
  have hheld : held = [] := by
    rw [← List.map_eq_nil_iff, ← h.more, readLines_none]
  have hends : endsPod line = false := endsPod_of_commandLine? (commandLine?_of_isBlank hblank)
  have hread : readLines true opened number (line :: rest)
      = readLines true none (number + 1) rest := by
    rw [readLines, hblank]
    rfl
  refine ⟨?_, ?_, by simp, ?_⟩
  · rw [podLines_cons rfl, hends, Bool.not_false, h.lines, hheld]
    rfl
  · rw [hread, readLines_none]
    rfl
  · rw [hread]
    exact .blank hblank h.cut

/-- A line that starts a paragraph. -/
theorem start (hin : (inPod || startsCommand line) = true) (hblank : line.isBlank = false)
    (hstart : (commandLine? line).isSome = true ∨ continued? opened line = none)
    (h : ReadsAs (!endsPod line) (some (openingOf line).1) (number + 1) rest held pod) :
    ReadsAs inPod opened number (line :: rest) [] ((number, line) :: (held ++ pod)) := by
  have hread := readLines_start number rest hin hblank hstart
  refine ⟨?_, ?_, by simp, ?_⟩
  · rw [podLines_cons hin, h.lines]
    rfl
  · rw [hread]
    rfl
  · rw [hread, h.more]
    have hcut := h.cut
    rw [Option.isNone_some, Bool.and_false] at hcut
    refine .paragraph hblank (fun l hl => ⟨(h.held l hl).1, fun hl' => ?_⟩) (fun hverbatim => ?_)
      hcut
    · rw [(h.held l hl).2] at hl'
      cases hl'
    · -- an indented line neither starts POD nor is it an item's body
      obtain ⟨hcommand, hindented⟩ := verbatim_opening hverbatim
      have hpod : inPod = true := (Bool.or_eq_true_iff.1 hin).resolve_right fun hstarts => by
        rw [isIndented_of_startsCommand hstarts] at hindented
        cases hindented
      have hopened : opened = none := by
        simpa [hcommand, continued?, hindented] using hstart
      rw [hpod, hopened]
      rfl

/-- A line that continues the open paragraph. -/
theorem extend {kind : ParagraphKind} (hin : (inPod || startsCommand line) = true)
    (hblank : line.isBlank = false) (hcommand : commandLine? line = none)
    (hkind : continued? opened line = some kind)
    (h : ReadsAs true (some kind) (number + 1) rest held pod) :
    ReadsAs inPod opened number (line :: rest) ((number, line) :: held) pod := by
  have hread := readLines_continue number rest hin hblank hcommand hkind
  have hopened : opened.isNone = false := by
    unfold continued? at hkind
    cases opened with
    | none => simp at hkind
    | some open_ => rfl
  refine ⟨?_, ?_, List.forall_mem_cons.2 ⟨⟨hcommand, hblank⟩, h.held⟩, ?_⟩
  · rw [podLines_cons hin, endsPod_of_commandLine? hcommand, Bool.not_false, h.lines]
    rfl
  · rw [hread, h.more, List.map_cons, entryOf_of_not_blank hblank]
  · rw [hread, hopened, Bool.and_false]
    exact h.cut

end ReadsAs

/-- However reading starts, the lines of POD are cut as they are read. -/
theorem exists_readsAs (inPod : Bool) (opened : Option ParagraphKind) (number : Nat)
    (ls : List Text) : ∃ held pod, ReadsAs inPod opened number ls held pod := by
  induction ls generalizing inPod opened number with
  | nil => exact ⟨[], [], rfl, rfl, by simp, .nil _⟩
  | cons line rest ih =>
    by_cases hout : inPod = false ∧ startsCommand line = false
    · obtain ⟨rfl, hstart⟩ := hout
      obtain ⟨held, pod, h⟩ := ih false opened (number + 1)
      exact ⟨held, pod, h.outside hstart⟩
    have hin : (inPod || startsCommand line) = true := by
      by_contra hin
      rw [Bool.not_eq_true, Bool.or_eq_false_iff] at hin
      exact hout hin
    by_cases hblank : line.isBlank = true
    · have hpod : inPod = true := (Bool.or_eq_true_iff.1 hin).resolve_right fun hstarts => by
        rw [isBlank_of_startsCommand hstarts] at hblank
        cases hblank
      obtain ⟨held, pod, h⟩ := ih true none (number + 1)
      exact ⟨[], (number, line) :: pod, h.blank hpod hblank⟩
    rw [Bool.not_eq_true] at hblank
    by_cases hstart : (commandLine? line).isSome = true ∨ ReadsAs.continued? opened line = none
    · obtain ⟨held, pod, h⟩ := ih (!endsPod line) (some (openingOf line).1) (number + 1)
      exact ⟨[], _, h.start hin hblank hstart⟩
    · obtain ⟨hcommand, hkind⟩ := not_or.1 hstart
      obtain ⟨kind, hkind⟩ := Option.ne_none_iff_exists'.1 hkind
      rw [Option.not_isSome_iff_eq_none] at hcommand
      obtain ⟨held, pod, h⟩ := ih true (some kind) (number + 1)
      exact ⟨(number, line) :: held, pod, h.extend hin hblank hcommand hkind⟩

theorem cut_rawParagraphs (source : Text) :
    Cut false (sourcePodLines source) (rawParagraphs source) := by
  obtain ⟨held, pod, h⟩ := exists_readsAs false none 1 source.normalizeEndings.lines
  have hheld : held = [] := by
    rw [← List.map_eq_nil_iff, ← h.more, readLines_none]
  have hlines := h.lines
  rw [hheld] at hlines
  rw [sourcePodLines, hlines]
  exact h.cut

/-! ## Paragraphs with verbatim ones joined -/

namespace Cut

variable {gap : Bool} {first : NumberedLine} {more pod : List NumberedLine} {ps : List Paragraph}

/-- Where the first of the paragraphs lies. -/
theorem exists_cons {q : Paragraph} {rest : List Paragraph} (h : Cut gap pod (q :: rest)) :
    ∃ blanks first more after, pod = blanks ++ first :: (more ++ after)
      ∧ (∀ l ∈ blanks, l.2.isBlank = true) ∧ q = Paragraph.ofLines first more
      ∧ (∀ l ∈ more, (openingOf first.2).1.Continues l)
      ∧ first.2.isBlank = false
      ∧ (q.kind = .verbatim → gap = true ∨ blanks ≠ []) ∧ Cut false after rest := by
  generalize hps : q :: rest = ps at h
  induction h with
  | nil gap => cases hps
  | @blank gap l pod ps hblank _ ih =>
    obtain ⟨blanks, first, more, after, rfl, hblanks, hq, hmore, hfirst, -, hrest⟩ := ih hps
    exact ⟨l :: blanks, first, more, after, rfl, List.forall_mem_cons.2 ⟨hblank, hblanks⟩, hq, hmore,
      hfirst, fun _ => .inr (List.cons_ne_nil l blanks), hrest⟩
  | @paragraph gap first more pod ps hfirst hmore hgap hrest _ =>
    obtain ⟨rfl, rfl⟩ := List.cons.inj hps
    exact ⟨[], first, more, pod, rfl, by simp, rfl, hmore, hfirst, fun h => .inl (hgap h), hrest⟩

end Cut

/-- The blank lines behind a paragraph that is not a `=cut` fill the gap to the next. -/
theorem line_behind {first next : NumberedLine} {more blanks after : List NumberedLine}
    (hchain : (first :: (more ++ (blanks ++ next :: after))).IsChain Adjoins)
    (hmore : ∀ l ∈ more, (openingOf first.2).1.Continues l)
    (hcut : (openingOf first.2).1 ≠ .command (ofString "cut"))
    (hblanks : ∀ l ∈ blanks, l.2.isBlank = true) :
    next.1 = (Paragraph.ofLines first more).stop + blanks.length := by
  have hnumber : next.1 = first.1 + (more.length + blanks.length + 1) := by
    refine number_of_adjoins hchain ?_ ?_
    · have htake : (first :: (more ++ (blanks ++ next :: after))).take
          (more.length + blanks.length + 1) = (first :: more) ++ blanks := by
        rw [List.take_succ_cons, ← List.append_assoc, ← List.length_append, List.take_left]
        rfl
      rw [htake]
      intro l hl
      rcases List.mem_append.1 hl with hl | hl
      · exact endsPod_of_continues hmore hcut l hl
      · exact endsPod_of_commandLine? (commandLine?_of_isBlank (hblanks l hl))
    · rw [List.getElem?_cons_succ, ← List.append_assoc, ← List.length_append,
        List.getElem?_append_right (Nat.le_refl _), Nat.sub_self]
      rfl
  rw [hnumber, Paragraph.stop]
  simp only [Paragraph.ofLines, List.length_cons, List.length_map]
  omega

/-- Two verbatim paragraphs and the blank lines between them make one. -/
theorem continued_ofLines {first next : NumberedLine} {more blanks more' : List NumberedLine}
    (hnext : (openingOf next.2).1 = .verbatim) (hfirst : next.2.isBlank = false)
    (hblanks : ∀ l ∈ blanks, l.2.isBlank = true)
    (hline : next.1 = (Paragraph.ofLines first more).stop + blanks.length) :
    (Paragraph.ofLines first more).continued (Paragraph.ofLines next more')
      = Paragraph.ofLines first (more ++ (blanks ++ next :: more')) := by
  have hgap : (Paragraph.ofLines next more').line - (Paragraph.ofLines first more).stop
      = blanks.length := by
    rw [show (Paragraph.ofLines next more').line = next.1 from rfl, hline, Nat.add_sub_cancel_left]
  have hempty : blanks.map (fun l => entryOf l.2) = List.replicate blanks.length [] := by
    rw [List.map_eq_replicate_iff]
    intro l hl
    rw [entryOf, if_pos (hblanks l hl)]
  have hopening : (openingOf next.2).2 = entryOf next.2 := by
    rw [entryOf_of_not_blank hfirst, openingOf, (verbatim_opening hnext).1]
  rw [Paragraph.continued, hgap]
  simp only [Paragraph.ofLines, List.map_append, List.map_cons, hempty, hopening,
    List.cons_append, List.append_assoc]

namespace Cut

variable {gap : Bool} {pod : List NumberedLine} {ps : List Paragraph}

/-- A paragraph put in front of others, and joined to them if it is verbatim as they are. -/
theorem consParagraph {first : NumberedLine} {more : List NumberedLine}
    (hchain : (first :: (more ++ pod)).IsChain Adjoins) (hfirst : first.2.isBlank = false)
    (hmore : ∀ l ∈ more, (openingOf first.2).1.Continues l)
    (hgap : (openingOf first.2).1 = .verbatim → gap = true) (hrest : Cut false pod ps) :
    Cut gap (first :: (more ++ pod)) (Pod.consParagraph (Paragraph.ofLines first more) ps) := by
  cases ps with
  | nil => exact .paragraph hfirst hmore hgap hrest
  | cons q rest =>
    by_cases hverbatim : (Paragraph.ofLines first more).kind = .verbatim ∧ q.kind = .verbatim
    · obtain ⟨blanks, next, more', after, rfl, hblanks, rfl, hmore', hnext, -, hafter⟩ :=
        hrest.exists_cons
      obtain ⟨hp, hq⟩ := hverbatim
      have hp' : (openingOf first.2).1 = .verbatim := hp
      have hq' : (openingOf next.2).1 = .verbatim := hq
      have hcut : (openingOf first.2).1 ≠ .command (ofString "cut") := by rw [hp']; simp
      rw [consParagraph_verbatim hp hq, continued_ofLines hq' hnext hblanks
        (line_behind hchain hmore hcut hblanks)]
      have hlines : first :: (more ++ (blanks ++ next :: (more' ++ after)))
          = first :: ((more ++ (blanks ++ next :: more')) ++ after) := by simp
      rw [hlines]
      refine .paragraph hfirst (fun l hl => ?_) hgap hafter
      rw [hp']
      rcases List.mem_append.1 hl with hl | hl
      · exact hp' ▸ hmore l hl
      rcases List.mem_append.1 hl with hl | hl
      · exact ⟨commandLine?_of_isBlank (hblanks l hl), fun _ => rfl⟩
      rcases List.mem_cons.1 hl with rfl | hl
      · exact ⟨(verbatim_opening hq').1, fun _ => rfl⟩
      · exact hq' ▸ hmore' l hl
    · rw [consParagraph_other hverbatim]
      exact .paragraph hfirst hmore hgap hrest

/-- Joining verbatim paragraphs leaves every line in its place. -/
theorem joined (h : Cut gap pod ps) (hchain : pod.IsChain Adjoins) :
    Cut gap pod (ps.foldr Pod.consParagraph []) := by
  induction h with
  | nil gap => exact .nil gap
  | blank hblank _ ih => exact .blank hblank (ih hchain.tail)
  | paragraph hfirst hmore hgap _ ih =>
    exact consParagraph hchain hfirst hmore hgap (ih (List.isChain_append.1 hchain.tail).2.1)

/-- The lines of one of the paragraphs, and the line before them if it is verbatim. -/
theorem exists_ofLines (h : Cut gap pod ps) {p : Paragraph} (hp : p ∈ ps) :
    ∃ before first more after, pod = before ++ first :: (more ++ after)
      ∧ p = Paragraph.ofLines first more
      ∧ (∀ l ∈ more, (openingOf first.2).1.Continues l)
      ∧ (p.kind = .verbatim → (before = [] ∧ gap = true)
          ∨ ∃ before' l, before = before' ++ [l] ∧ l.2.isBlank = true) := by
  induction h with
  | nil gap => cases hp
  | @blank gap l pod ps hblank _ ih =>
    obtain ⟨before, first, more, after, rfl, hlines, hmore, hverbatim⟩ := ih hp
    refine ⟨l :: before, first, more, after, rfl, hlines, hmore, fun hkind => .inr ?_⟩
    rcases hverbatim hkind with ⟨rfl, -⟩ | ⟨before', l', rfl, hl'⟩
    · exact ⟨[], l, rfl, hblank⟩
    · exact ⟨l :: before', l', rfl, hl'⟩
  | @paragraph gap first more pod ps hfirst hmore hgap _ ih =>
    rcases List.mem_cons.1 hp with rfl | hp
    · exact ⟨[], first, more, pod, rfl, rfl, hmore, fun hkind => .inl ⟨rfl, hgap hkind⟩⟩
    · obtain ⟨before, first', more', after, rfl, hlines, hmore', hverbatim⟩ := ih hp
      refine ⟨first :: (more ++ before), first', more', after, by simp, hlines, hmore',
        fun hkind => .inr ?_⟩
      rcases hverbatim hkind with ⟨-, hgap⟩ | ⟨before', l, rfl, hl⟩
      · cases hgap
      · exact ⟨first :: (more ++ before'), l, by simp, hl⟩

/-- Two verbatim paragraphs have a blank line between them. -/
theorem gaps (h : Cut gap pod ps) (hchain : pod.IsChain Adjoins) :
    ps.IsChain fun p q => p.kind = .verbatim → q.kind = .verbatim → p.stop < q.line := by
  induction h with
  | nil gap => exact .nil
  | blank _ _ ih => exact ih hchain.tail
  | @paragraph gap first more pod ps hfirst hmore hgap hrest ih =>
    refine (ih (List.isChain_append.1 hchain.tail).2.1).cons fun q hq hp hverbatim => ?_
    obtain ⟨rest, rfl⟩ := List.head?_eq_some_iff.1 hq
    obtain ⟨blanks, next, more', after, rfl, hblanks, rfl, -, -, hbehind, -⟩ := hrest.exists_cons
    have hp' : (openingOf first.2).1 = .verbatim := hp
    have hline := line_behind hchain hmore (by rw [hp']; simp) hblanks
    have hblank : blanks ≠ [] := (hbehind hverbatim).resolve_left Bool.false_ne_true
    have hlength := List.length_pos_iff.2 hblank
    rw [show (Paragraph.ofLines next more').line = next.1 from rfl, hline]
    omega

/-- An entry of a paragraph is what is kept of the line with its number. -/
theorem exists_line (h : Cut gap pod ps) (hchain : pod.IsChain Adjoins) {p : Paragraph}
    (hp : p ∈ ps) (hcut : p.kind ≠ .command (ofString "cut")) {k : Nat} {entry : Text}
    (hentry : p.lines[k]? = some entry) :
    ∃ line, (p.line + k, line) ∈ pod
      ∧ entry = if k = 0 then (openingOf line).2 else entryOf line := by
  obtain ⟨before, first, more, after, rfl, rfl, hmore, -⟩ := h.exists_ofLines hp
  have hchain' := (List.isChain_append.1 hchain).2.1
  obtain ⟨l, hl⟩ : ∃ l, (first :: more)[k]? = some l := by
    refine Option.isSome_iff_exists.1 ?_
    have hlt := (List.getElem?_eq_some_iff.1 hentry).1
    simp only [Paragraph.ofLines, List.length_cons, List.length_map] at hlt
    simpa using hlt
  have hnumber : l.1 = first.1 + k := by
    rw [← List.cons_append] at hchain'
    exact number_of_adjoins (List.isChain_append.1 hchain').1
      (fun n hn => endsPod_of_continues hmore hcut n (List.mem_of_mem_take hn)) hl
  refine ⟨l.2, ?_, ?_⟩
  · rw [show (Paragraph.ofLines first more).line + k = l.1 from hnumber.symm]
    have hmem := List.mem_of_getElem? hl
    simp only [List.mem_append, List.mem_cons] at hmem ⊢
    tauto
  · cases k with
    | zero =>
      obtain rfl := Option.some.inj hl
      exact (Option.some.inj hentry).symm
    | succ k =>
      rw [Paragraph.ofLines, List.getElem?_cons_succ, List.getElem?_map] at hentry
      rw [List.getElem?_cons_succ] at hl
      rw [hl] at hentry
      rw [if_neg (Nat.succ_ne_zero k)]
      exact (Option.some.inj hentry).symm

end Cut

theorem not_verbatim_joined (ps : List Paragraph) :
    (ps.foldr consParagraph []).IsChain
      fun p q => ¬ (p.kind = .verbatim ∧ q.kind = .verbatim) := by
  induction ps with
  | nil => exact .nil
  | cons p rest ih =>
    rw [List.foldr_cons]
    cases hrest : rest.foldr consParagraph [] with
    | nil => exact .singleton p
    | cons q after =>
      rw [hrest] at ih
      by_cases hverbatim : p.kind = .verbatim ∧ q.kind = .verbatim
      · rw [consParagraph_verbatim hverbatim.1 hverbatim.2]
        refine ih.tail.cons fun r hr => ?_
        have hqr := (List.isChain_cons.1 ih).1 r hr
        exact fun h => hqr ⟨hverbatim.2, h.2⟩
      · rw [consParagraph_other hverbatim]
        exact ih.cons_cons hverbatim

/-! ## The partition -/

/-- Paragraphs partition the POD of a source. -/
structure IsPartition (source : Text) (ps : List Paragraph) : Prop where
  /-- Lines of POD are lines of the source. -/
  lines : ∀ l ∈ sourcePodLines source,
    1 ≤ l.1 ∧ source.normalizeEndings.lines[l.1 - 1]? = some l.2
  /-- Every line of POD that is not blank is in one paragraph, in order, and no other line is. -/
  cut : Cut false (sourcePodLines source) ps
  /-- The entries of a paragraph are its lines, one behind the other. -/
  entries : ∀ p ∈ ps, p.kind ≠ .command (ofString "cut") → ∀ k entry, p.lines[k]? = some entry →
    ∃ line, (p.line + k, line) ∈ sourcePodLines source
      ∧ entry = if k = 0 then (openingOf line).2 else entryOf line
  /-- The parts of a joined paragraph are cut out of POD too. -/
  parts : ps = (rawParagraphs source).foldr consParagraph []
    ∧ Cut false (sourcePodLines source) (rawParagraphs source)
  /-- There are blank lines between the parts of a joined paragraph. -/
  gaps : (rawParagraphs source).IsChain
    fun p q => p.kind = .verbatim → q.kind = .verbatim → p.stop < q.line
  /-- Verbatim paragraphs in a row are one. -/
  apart : ps.IsChain fun p q => ¬ (p.kind = .verbatim ∧ q.kind = .verbatim)
  /-- The line before a verbatim paragraph is a blank line of POD. -/
  verbatim : ∀ p ∈ ps, p.kind = .verbatim →
    ∃ l ∈ sourcePodLines source, l.1 + 1 = p.line ∧ l.2.isBlank = true

/-- The paragraphs of a source partition its POD. -/
theorem isPartition_split (source : Text) : IsPartition source (Paragraph.split source) := by
  have hchain : (sourcePodLines source).IsChain Adjoins := adjoins_podLines false 1 _
  have hcut : Cut false (sourcePodLines source) (Paragraph.split source) :=
    (cut_rawParagraphs source).joined hchain
  refine ⟨fun l hl => ?_, hcut, fun p hp hkind k entry => hcut.exists_line hchain hp hkind,
    ⟨rfl, cut_rawParagraphs source⟩, (cut_rawParagraphs source).gaps hchain,
    not_verbatim_joined _, fun p hp hverbatim => ?_⟩
  · obtain ⟨k, hk, hline⟩ := getElem?_of_mem_podLines hl
    have hindex : l.1 - 1 = k := by omega
    rw [hindex]
    exact ⟨by omega, hline⟩
  · obtain ⟨before, first, more, after, hpod, rfl, -, hbefore⟩ := hcut.exists_ofLines hp
    obtain ⟨before', l, rfl, hblank⟩ := (hbefore hverbatim).resolve_left fun h =>
      Bool.false_ne_true h.2
    have hadjoins : first.1 = l.1 + 1 := by
      rw [hpod, List.append_assoc] at hchain
      have hbehind := (List.isChain_append.1 hchain).2.1
      exact (List.isChain_cons_cons.1 hbehind).1
        (endsPod_of_commandLine? (commandLine?_of_isBlank hblank))
    refine ⟨l, ?_, hadjoins.symm, hblank⟩
    rw [hpod]
    simp

end PodLoom.Pod
