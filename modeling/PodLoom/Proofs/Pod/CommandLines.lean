import PodLoom.Proofs.Pod.Partition
import PodLoom.Proofs.Text.Trimming

set_option autoImplicit false

/-!
# Lines that begin with `=` and a letter

Such a line starts POD wherever it stands, and is meant to start a command.  It is told to be
one by a second look that is stricter than the first: the name has to end where white space
follows or the line ends, and no line separator may stand in the argument behind it
(`EndsName`).

So a line that begins with `=` and a letter starts a command paragraph of its own, whatever
stands around it, exactly if its name ends in that way, and is text or the continuation of
another paragraph otherwise (`command_line_taken_iff`).
-/

namespace PodLoom.Pod

open Text CodeUnit

/-! ## The second look at a line -/

/-- The name in a line that begins with `=` and a letter. -/
def nameIn (line : Text) : Text := line.tail.takeWhile CodeUnit.isWord

/-- What follows the name in such a line. -/
def behindName (line : Text) : Text := line.tail.dropWhile CodeUnit.isWord

/-- The name ends with the line or at white space, and no line separator stands in the
argument. -/
structure EndsName (line : Text) : Prop where
  ended : (behindName line).head?.all CodeUnit.isBlank = true
  unbroken : (behindName line).trim.any CodeUnit.isLineEnd = false

theorem startsCommand_eq_true_iff {line : Text} :
    startsCommand line = true
      ↔ ∃ letter rest, line = equals :: letter :: rest ∧ letter.isLetter = true := by
  constructor
  · intro h
    unfold startsCommand at h
    split at h
    · rename_i mark letter rest
      obtain ⟨hmark, hletter⟩ := Bool.and_eq_true_iff.1 h
      exact ⟨letter, rest, by rw [beq_iff_eq.1 hmark], hletter⟩
    · cases h
  · rintro ⟨letter, rest, rfl, hletter⟩
    exact Bool.and_eq_true_iff.2 ⟨rfl, hletter⟩

/-- A line that begins with `=` and a letter is a command if its name ends as it should. -/
theorem commandLine?_of_startsCommand {line : Text} (h : startsCommand line = true) :
    commandLine? line
      = if (behindName line).head?.all CodeUnit.isBlank
          && !(behindName line).trim.any CodeUnit.isLineEnd then
        some (nameIn line, (behindName line).trim)
      else none := by
  obtain ⟨letter, rest, rfl, hletter⟩ := startsCommand_eq_true_iff.1 h
  have hword : letter.isWord = true := isWord_of_isLetter hletter
  have htrim : trimEnd (equals :: letter :: rest) = equals :: letter :: trimEnd rest := by
    rw [trimEnd_cons_of_not_blank (by decide),
      trimEnd_cons_of_not_blank (not_isBlank_of_isWord hword)]
  have hname : nameIn (equals :: letter :: rest) = letter :: rest.takeWhile CodeUnit.isWord :=
    List.takeWhile_cons_of_pos hword
  have hbehind : behindName (equals :: letter :: rest) = rest.dropWhile CodeUnit.isWord :=
    List.dropWhile_cons_of_pos hword
  rw [commandLine?, htrim, hname, hbehind]
  dsimp only
  rw [takeWhile_isWord_trimEnd, dropWhile_isWord_trimEnd, head?_all_isBlank_trimEnd, hletter]
  rfl

theorem commandLine?_of_endsName {line : Text} (h : startsCommand line = true)
    (hname : EndsName line) :
    commandLine? line = some (nameIn line, (behindName line).trim) := by
  rw [commandLine?_of_startsCommand h, hname.ended, hname.unbroken]
  rfl

theorem commandLine?_of_not_endsName {line : Text} (h : startsCommand line = true)
    (hname : ¬ EndsName line) : commandLine? line = none := by
  rw [commandLine?_of_startsCommand h, if_neg]
  intro hends
  obtain ⟨hended, hunbroken⟩ := Bool.and_eq_true_iff.1 hends
  exact hname ⟨hended, Bool.not_eq_true' _ ▸ hunbroken⟩

/-! ## The part a line has in the paragraphs -/

/-- A line of POD begins a paragraph of the source. -/
def Begins (source : Text) (l : NumberedLine) (p : Paragraph) : Prop :=
  p ∈ Paragraph.split source ∧ ∃ before more after,
    sourcePodLines source = before ++ l :: (more ++ after) ∧ p = Paragraph.ofLines l more

/-- A line of POD continues a paragraph of the source. -/
def Continues (source : Text) (l : NumberedLine) (p : Paragraph) : Prop :=
  p ∈ Paragraph.split source ∧ ∃ before first more after,
    sourcePodLines source = before ++ first :: (more ++ after)
      ∧ p = Paragraph.ofLines first more ∧ l ∈ more

/-- A line starts a command paragraph, with its name and its argument, and is part of no other
paragraph. -/
def TakenAsCommand (source : Text) (l : NumberedLine) : Prop :=
  (∃ p, Begins source l p ∧ p.kind = .command (nameIn l.2)
      ∧ p.lines.head? = some (behindName l.2).trim)
    ∧ ∀ p, ¬ Continues source l p

/-- A line starts a paragraph of text, or continues some paragraph. -/
def TakenAsText (source : Text) (l : NumberedLine) : Prop :=
  (∃ p, Begins source l p ∧ p.kind = .ordinary) ∨ ∃ p, Continues source l p

/-- A line that begins with `=` and a letter is POD, wherever it stands. -/
theorem mem_podLines_of_startsCommand {line : Text} (h : startsCommand line = true)
    {inPod : Bool} {number k : Nat} {ls : List Text} (hline : ls[k]? = some line) :
    (number + k, line) ∈ podLines inPod number ls := by
  induction ls generalizing inPod number k with
  | nil => cases hline
  | cons first rest ih =>
    cases k with
    | zero =>
      obtain rfl := Option.some.inj hline
      rw [podLines, h, Bool.or_true]
      exact List.mem_cons_self
    | succ k =>
      have hnumber : number + (k + 1) = number + 1 + k := by omega
      rw [podLines, hnumber]
      split
      · exact List.mem_cons_of_mem _ (ih hline)
      · exact ih hline

theorem pairwise_podLines (inPod : Bool) (number : Nat) (ls : List Text) :
    (podLines inPod number ls).Pairwise (·.1 < ·.1) := by
  induction ls generalizing inPod number with
  | nil => exact .nil
  | cons line rest ih =>
    unfold podLines
    split
    · refine .cons (fun l hl => ?_) (ih _ _)
      obtain ⟨k, hk, -⟩ := getElem?_of_mem_podLines hl
      show number < l.1
      omega
    · exact ih _ _

/-- A line of POD that is not blank begins one of the paragraphs or continues one. -/
theorem Cut.exists_part {gap : Bool} {pod : List NumberedLine} {ps : List Paragraph}
    (h : Cut gap pod ps) {l : NumberedLine} (hl : l ∈ pod) (hblank : l.2.isBlank = false) :
    ∃ before first more after, pod = before ++ first :: (more ++ after)
      ∧ Paragraph.ofLines first more ∈ ps ∧ l ∈ first :: more := by
  induction h with
  | nil gap => cases hl
  | @blank gap first pod ps hfirst _ ih =>
    have hne : l ≠ first := by
      rintro rfl
      rw [hblank] at hfirst
      cases hfirst
    obtain ⟨before, first', more, after, rfl, hmem, hpart⟩ :=
      ih ((List.mem_cons.1 hl).resolve_left hne)
    exact ⟨first :: before, first', more, after, rfl, hmem, hpart⟩
  | @paragraph gap first more pod ps hfirst hmore hgap _ ih =>
    rw [← List.cons_append, List.mem_append] at hl
    rcases hl with hl | hl
    · exact ⟨[], first, more, pod, rfl, List.mem_cons_self, hl⟩
    · obtain ⟨before, first', more', after, rfl, hmem, hpart⟩ := ih hl
      exact ⟨first :: (more ++ before), first', more', after, by simp,
        List.mem_cons_of_mem _ hmem, hpart⟩

/-- A command line continues no paragraph: paragraphs are told apart by the numbers of their
first lines. -/
theorem commandLine?_of_continues {source : Text} {l : NumberedLine} {p : Paragraph}
    (h : Continues source l p) : commandLine? l.2 = none := by
  obtain ⟨hp, before, first, more, after, hpod, rfl, hl⟩ := h
  obtain ⟨before', first', more', after', hpod', hlines, hmore', -⟩ :=
    (isPartition_split source).cut.exists_ofLines hp
  have hpairwise : (sourcePodLines source).Pairwise (·.1 < ·.1) := pairwise_podLines false 1 _
  have hfirst : first.1 = first'.1 := congrArg Paragraph.line hlines
  have hcut : before = before' ∧ first = first' ∧ more ++ after = more' ++ after' := by
    have hsame := hpod.symm.trans hpod'
    rw [hpod] at hpairwise
    obtain ⟨-, hbehind, hahead⟩ := List.pairwise_append.1 hpairwise
    refine (List.append_cons_inj_of_notMem (fun hmem => ?_) (fun hmem => ?_)).1 hsame
    · exact absurd (hahead first' hmem first List.mem_cons_self) (by omega)
    · exact absurd ((List.pairwise_cons.1 hbehind).1 first' hmem) (by omega)
  obtain ⟨rfl, rfl, hrest⟩ := hcut
  have hlength : more.length = more'.length := by
    simpa [Paragraph.ofLines] using congrArg (fun p => p.lines.length) hlines
  obtain ⟨rfl, -⟩ := List.append_inj hrest hlength
  exact (hmore' l hl).1

/-! ## Commands and text -/

section

variable {source line : Text} {k : Nat} (hline : source.normalizeEndings.lines[k]? = some line)
  (hstart : startsCommand line = true)

include hline hstart

/-- A line that begins with `=` and a letter begins a paragraph or continues one. -/
theorem exists_begins_or_continues :
    (∃ p, Begins source (k + 1, line) p) ∨ ∃ p, Continues source (k + 1, line) p := by
  have hmem : (1 + k, line) ∈ sourcePodLines source := mem_podLines_of_startsCommand hstart hline
  rw [Nat.add_comm] at hmem
  obtain ⟨before, first, more, after, hpod, hp, hpart⟩ :=
    (isPartition_split source).cut.exists_part hmem (isBlank_of_startsCommand hstart)
  rcases List.mem_cons.1 hpart with rfl | hpart
  · exact .inl ⟨_, hp, before, more, after, hpod, rfl⟩
  · exact .inr ⟨_, hp, before, first, more, after, hpod, rfl, hpart⟩

theorem takenAsCommand_of_endsName (hname : EndsName line) :
    TakenAsCommand source (k + 1, line) := by
  have hcommand := commandLine?_of_endsName hstart hname
  have hnever : ∀ p, ¬ Continues source (k + 1, line) p := fun p hp => by
    rw [commandLine?_of_continues hp] at hcommand
    cases hcommand
  obtain ⟨p, hp⟩ := (exists_begins_or_continues hline hstart).resolve_right fun ⟨p, hp⟩ =>
    hnever p hp
  refine ⟨⟨p, hp, ?_⟩, hnever⟩
  obtain ⟨-, before, more, after, -, rfl⟩ := hp
  have hopening : openingOf line = (.command (nameIn line), (behindName line).trim) := by
    rw [openingOf, hcommand]
  exact ⟨congrArg Prod.fst hopening, congrArg some (congrArg Prod.snd hopening)⟩

theorem takenAsText_of_not_endsName (hname : ¬ EndsName line) :
    TakenAsText source (k + 1, line) := by
  refine (exists_begins_or_continues hline hstart).imp_left fun ⟨p, hp⟩ => ⟨p, hp, ?_⟩
  obtain ⟨-, before, more, after, -, rfl⟩ := hp
  have hopening : openingOf line = (.ordinary, line) := by
    rw [openingOf, commandLine?_of_not_endsName hstart hname, isIndented_of_startsCommand hstart]
    rfl
  exact congrArg Prod.fst hopening

end

/-- No line is taken both as a command and as text. -/
theorem not_takenAsText_of_takenAsCommand {source : Text} {l : NumberedLine}
    (h : TakenAsCommand source l) : ¬ TakenAsText source l := by
  obtain ⟨⟨p, ⟨-, before, more, after, -, rfl⟩, hkind, -⟩, hnever⟩ := h
  rintro (⟨q, ⟨-, before', more', after', -, rfl⟩, hordinary⟩ | ⟨q, hq⟩)
  · exact absurd (hkind.symm.trans hordinary) (by simp)
  · exact hnever q hq

/-- Wherever a line that begins with `=` and a letter stands, outside POD or inside it and
whatever paragraph is open there, it starts a command paragraph of its own exactly if its name
ends where white space follows or the line ends and no line separator stands in its argument.
Otherwise it is taken as text. -/
theorem command_line_taken_iff {source line : Text} {k : Nat}
    (hline : source.normalizeEndings.lines[k]? = some line) (hstart : startsCommand line = true) :
    (TakenAsCommand source (k + 1, line) ↔ EndsName line)
      ∧ (TakenAsText source (k + 1, line) ↔ ¬ EndsName line) := by
  have hcommand := takenAsCommand_of_endsName hline hstart
  have htext := takenAsText_of_not_endsName hline hstart
  refine ⟨⟨fun h => ?_, hcommand⟩, ⟨fun h hname => ?_, htext⟩⟩
  · by_contra hname
    exact not_takenAsText_of_takenAsCommand h (htext hname)
  · exact not_takenAsText_of_takenAsCommand (hcommand hname) h

/-- A command in the middle of a paragraph. -/
def itemInText : Text := "=pod\n\nText\n=item One\n"

theorem command_line_taken_in_text :
    itemInText.normalizeEndings.lines[3]? = some (ofString "=item One")
      ∧ startsCommand "=item One" = true
      ∧ TakenAsCommand itemInText (4, "=item One") := by
  have hline : itemInText.normalizeEndings.lines[3]? = some (ofString "=item One") := by decide +kernel
  have hstart : startsCommand "=item One" = true := by decide
  exact ⟨hline, hstart, (command_line_taken_iff hline hstart).1.2 ⟨by decide, by decide⟩⟩

/-- An item whose marker stands right behind the name of the command. -/
def tightItem : Text := "=over\n\n=item* One\n\n=back\n"

/-- Such an item is a paragraph of text. -/
theorem command_line_taken_as_text :
    tightItem.normalizeEndings.lines[2]? = some (ofString "=item* One")
      ∧ startsCommand "=item* One" = true
      ∧ ¬ TakenAsCommand tightItem (3, "=item* One") ∧ TakenAsText tightItem (3, "=item* One") := by
  have hline : tightItem.normalizeEndings.lines[2]? = some (ofString "=item* One") := by decide +kernel
  have hstart : startsCommand "=item* One" = true := by decide
  have htext := takenAsText_of_not_endsName hline hstart fun hname =>
    absurd hname.ended (by decide)
  exact ⟨hline, hstart, fun h => not_takenAsText_of_takenAsCommand h htext, htext⟩

end PodLoom.Pod
