import Mathlib.Data.List.Perm.Basic
import Mathlib.Tactic.SplitIfs
import PodLoom.Proofs.Pod.Inline
import PodLoom.Proofs.Pod.Omission
import PodLoom.Proofs.Pod.Ranges

set_option autoImplicit false

/-!
# Every syntax error is reported once

The errors of a document come from a stack of lists, a stack of regions and a reader of
formatting codes.  Here it is written down without any of the three what is to be reported
(`faults`): openings that no closing answers are found by counting, and codes that nothing
closes by going through the codes of each text.  The errors that a document delivers are these,
each as often as it occurs, in the order of their lines (`sourceEvents_errata`).
-/

namespace PodLoom.Pod

open Text CodeUnit

/-! ## Openings that are never closed -/

section

variable {α β : Type} (opens : α → Option β) (closes : α → Bool)

/-- Whether something that is open is closed by one of these steps, if `n` others were opened
since: the first closing that is not needed for the others closes it. -/
def closedBehind : Nat → List α → Bool
  | _, [] => false
  | n, a :: rest =>
      if (opens a).isSome then closedBehind (n + 1) rest
      else if closes a then
        match n with
        | 0 => true
        | n + 1 => closedBehind n rest
      else closedBehind n rest

/-- What these steps open and none of them closes, in the order in which it is opened. -/
def neverClosed : List α → List β
  | [] => []
  | a :: rest =>
      match opens a with
      | some b =>
          if closedBehind opens closes 0 rest then neverClosed rest else b :: neverClosed rest
      | none => neverClosed rest

/-- What is open after a step, innermost first. -/
def openAfter (stack : List β) (a : α) : List β :=
  match opens a with
  | some b => b :: stack
  | none => if closes a then stack.tail else stack

/-- What is left of a stack, where `n` others were opened since. -/
def leftOpen (as : List α) : Nat → List β → List β
  | _, [] => []
  | n, b :: rest =>
      if closedBehind opens closes n as then leftOpen as (n + 1) rest
      else b :: leftOpen as (n + 1) rest

variable {opens closes}

theorem closedBehind_opening {a : α} {b : β} (h : opens a = some b) (n : Nat) (as : List α) :
    closedBehind opens closes n (a :: as) = closedBehind opens closes (n + 1) as := by
  simp [closedBehind, h]

theorem closedBehind_closing {a : α} (h : opens a = none) (ha : closes a = true) (n : Nat)
    (as : List α) :
    closedBehind opens closes (n + 1) (a :: as) = closedBehind opens closes n as := by
  simp [closedBehind, h, ha]

theorem closedBehind_zero {a : α} (h : opens a = none) (ha : closes a = true) (as : List α) :
    closedBehind opens closes 0 (a :: as) = true := by
  simp [closedBehind, h, ha]

theorem closedBehind_other {a : α} (h : opens a = none) (ha : closes a = false) (n : Nat)
    (as : List α) : closedBehind opens closes n (a :: as) = closedBehind opens closes n as := by
  simp [closedBehind, h, ha]

/-- What is left of a stack depends on nothing but what is closed of it. -/
theorem leftOpen_congr {as as' : List α} {n n' : Nat}
    (h : ∀ m, closedBehind opens closes (n + m) as = closedBehind opens closes (n' + m) as')
    (stack : List β) : leftOpen opens closes as n stack = leftOpen opens closes as' n' stack := by
  induction stack generalizing n n' with
  | nil => rfl
  | cons b rest ih =>
    have hrest : leftOpen opens closes as (n + 1) rest
        = leftOpen opens closes as' (n' + 1) rest := by
      apply ih
      intro m
      rw [Nat.add_assoc, Nat.add_assoc, h]
    have hfirst : closedBehind opens closes n as = closedBehind opens closes n' as' := h 0
    rw [leftOpen, leftOpen, hfirst, hrest]

theorem leftOpen_nil (n : Nat) (stack : List β) : leftOpen opens closes [] n stack = stack := by
  induction stack generalizing n with
  | nil => rfl
  | cons b rest ih => rw [leftOpen, closedBehind, if_neg Bool.false_ne_true, ih]

/-- What a stack holds in the end is what was never closed: of the steps, and of what it held
before them. -/
theorem foldl_openAfter (stack : List β) (as : List α) :
    as.foldl (openAfter opens closes) stack
      = (neverClosed opens closes as).reverse ++ leftOpen opens closes as 0 stack := by
  induction as generalizing stack with
  | nil => exact (leftOpen_nil 0 stack).symm
  | cons a rest ih =>
    rw [List.foldl_cons, ih]
    cases h : opens a with
    | some b =>
      -- For what was open before, there is one more to be closed first.
      have hbelow : leftOpen opens closes (a :: rest) 0 stack
          = leftOpen opens closes rest 1 stack := by
        apply leftOpen_congr
        intro m
        rw [closedBehind_opening h, Nat.zero_add, Nat.add_comm]
      simp only [openAfter, neverClosed, h]
      rw [hbelow, leftOpen]
      split
      · rfl
      · rw [List.reverse_cons, List.append_assoc, List.singleton_append]
    | none =>
      simp only [openAfter, neverClosed, h]
      cases ha : closes a with
      | false =>
        rw [if_neg Bool.false_ne_true]
        refine congrArg _ (leftOpen_congr ?_ stack)
        intro m
        rw [closedBehind_other h ha]
      | true =>
        rw [if_pos rfl]
        refine congrArg _ ?_
        cases stack with
        | nil => rfl
        | cons b outer =>
          rw [List.tail_cons, leftOpen.eq_2 _ _ (a :: rest), closedBehind_zero h ha, if_pos rfl]
          apply leftOpen_congr
          intro m
          rw [Nat.add_assoc, Nat.zero_add, Nat.zero_add, Nat.add_comm 1, closedBehind_closing h ha]

theorem foldl_openAfter_nil (as : List α) :
    as.foldl (openAfter opens closes) [] = (neverClosed opens closes as).reverse := by
  rw [foldl_openAfter, leftOpen, List.append_nil]

end

/-! ## Commands by their use -/

/-- What a command is for. -/
inductive Directive where
  | heading (level : Nat)
  | listStart
  | item
  | listEnd
  | regionStart
  | regionEnd
  | format
  | structural
  | unknown
  deriving DecidableEq, Repr, Inhabited

/-- What the command with a name is for. -/
def Directive.ofName (name : Text) : Directive :=
  match headLevel? name with
  | some level => .heading level
  | none =>
      if name = ofString "over" then .listStart
      else if name = ofString "item" then .item
      else if name = ofString "back" then .listEnd
      else if name = ofString "begin" then .regionStart
      else if name = ofString "end" then .regionEnd
      else if name = ofString "for" then .format
      else if isStructural name then .structural
      else .unknown

theorem takeCommand_eq (c : Context) (name : Text) (p : Paragraph) (next : Option Paragraph) :
    takeCommand c name p next
      = match Directive.ofName name with
        | .heading level => (c, .block (.head level p.line) p.joined)
        | .listStart =>
            ({ c with lists := ⟨listKind next, p.line⟩ :: c.lists },
              .ofEvents [.start (.over (listKind next) p.line)])
        | .item => (c, deliverItem c p.line p.joined)
        | .listEnd => endList c p.line
        | .regionStart => beginRegion c p.line p.text
        | .regionEnd => endRegion c p.line p.text
        | .format => (c, deliverFor p.line p.text)
        | .structural => (c, .empty)
        | .unknown => (c, .enclose (.command name p.text.trim p.line) .empty) := by
  unfold takeCommand Directive.ofName
  cases headLevel? name with
  | some level => rfl
  | none =>
    dsimp only
    split_ifs <;> rfl

namespace Dispatch

/-- What the paragraph is for, if it is a command that is not passed over. -/
def directive? (d : Dispatch) : Option Directive :=
  if d.isSkipped then none
  else
    match d.paragraph.kind with
    | .command name => some (Directive.ofName name)
    | _ => none

/-- The line of a paragraph. -/
def line (d : Dispatch) : Int := d.paragraph.line

/-- The first word after a command: the format of a region. -/
def formatName (d : Dispatch) : Text := d.paragraph.text.words.headD []

theorem taken_of_directive {d : Dispatch} {k : Directive} (h : d.directive? = some k) :
    ∃ name, Directive.ofName name = k
      ∧ d.taken = takeCommand d.context name d.paragraph d.next := by
  unfold directive? at h
  split at h
  · cases h
  · rename_i hskip
    split at h
    · rename_i name hkind
      refine ⟨name, Option.some.inj h, taken_command hkind ?_⟩
      rintro ⟨hmode, hbounds⟩
      simp [isSkipped, hmode, hbounds] at hskip
    · cases h

theorem exists_command_of_directive {d : Dispatch} {k : Directive} (h : d.directive? = some k) :
    ∃ name, d.paragraph.kind = .command name := by
  unfold directive? at h
  split at h
  · cases h
  · split at h
    · rename_i name hkind
      exact ⟨name, hkind⟩
    · cases h

/-! ## Lists and regions by openings and closings -/

/-- The line of the list that the paragraph starts. -/
def listOpened? (d : Dispatch) : Option Int :=
  if d.directive? = some .listStart then some d.line else none

/-- The paragraph ends the innermost list. -/
def endsList (d : Dispatch) : Bool := d.directive? = some .listEnd

/-- The format and the line of the region that the paragraph starts. -/
def regionOpened? (d : Dispatch) : Option (Text × Int) :=
  if d.directive? = some .regionStart then
    d.paragraph.text.words.head?.map fun target => (target, d.line)
  else none

/-- The paragraph ends the innermost region, whatever format it names. -/
def endsRegion (d : Dispatch) : Bool := d.directive? = some .regionEnd

/-- Text, and what is passed over, leaves the context as it is. -/
theorem context_taken {d : Dispatch} (h : d.directive? = none) : d.taken.1 = d.context := by
  by_cases hskip : d.isSkipped = true
  · exact congrArg Prod.fst (isSilent_of_isSkipped hskip)
  · unfold taken takeParagraph
    split
    · rfl
    · cases hkind : d.paragraph.kind with
      | command name => simp [directive?, hskip, hkind] at h
      | verbatim =>
        dsimp only
        split <;> rfl
      | ordinary =>
        dsimp only
        split <;> rfl

end Dispatch

/-- The lines of open lists. -/
def listLines (lists : List OpenList) : List Int := lists.map (·.line)

/-- The formats and the lines of open regions. -/
def regionLines (regions : List Region) : List (Text × Int) :=
  regions.map fun r => (r.target, r.line)

namespace Dispatch

/-- Nothing but an `=over` opens a list, and nothing but a `=back` closes one. -/
theorem listLines_taken (d : Dispatch) :
    listLines d.taken.1.lists = openAfter listOpened? endsList (listLines d.context.lists) d := by
  cases hdirective : d.directive? with
  | none => simp [context_taken hdirective, openAfter, listOpened?, endsList, hdirective]
  | some k =>
    obtain ⟨name, hname, htaken⟩ := taken_of_directive hdirective
    rw [htaken, takeCommand_eq, hname, openAfter, listOpened?, endsList, hdirective]
    cases k with
    | listEnd =>
      cases hlists : d.context.lists with
      | nil => simp [endList, hlists, listLines]
      | cons l outer => simp [endList, hlists, listLines]
    | regionStart =>
      dsimp only [beginRegion]
      split <;> rfl
    | regionEnd =>
      dsimp only [endRegion]
      split <;> rfl
    | _ => rfl

/-- Nothing but a `=begin` with a name opens a region, and nothing but an `=end` closes one. -/
theorem regionLines_taken (d : Dispatch) :
    regionLines d.taken.1.regions
      = openAfter regionOpened? endsRegion (regionLines d.context.regions) d := by
  cases hdirective : d.directive? with
  | none => simp [context_taken hdirective, openAfter, regionOpened?, endsRegion, hdirective]
  | some k =>
    obtain ⟨name, hname, htaken⟩ := taken_of_directive hdirective
    rw [htaken, takeCommand_eq, hname, openAfter, regionOpened?, endsRegion, hdirective]
    cases k with
    | listEnd =>
      dsimp only [endList]
      split <;> rfl
    | regionStart =>
      dsimp only [beginRegion]
      cases hwords : d.paragraph.text.words with
      | nil => simp
      | cons target more => simp [regionLines, line]
    | regionEnd =>
      dsimp only [endRegion]
      cases hregions : d.context.regions with
      | nil => simp [regionLines, hregions]
      | cons region outer => simp [regionLines]
    | _ => rfl

end Dispatch

section

variable {β : Type} {opens : Dispatch → Option β} {closes : Dispatch → Bool}
  (held : Context → List β)

/-- What a context holds in front of each paragraph is what was opened before and not closed. -/
theorem held_dispatches
    (hstep : ∀ d : Dispatch, held d.taken.1 = openAfter opens closes (held d.context) d)
    (c : Context) (ps : List Paragraph) :
    held (takeParagraphs c ps).1 = (dispatches c ps).foldl (openAfter opens closes) (held c)
      ∧ ∀ before d after, dispatches c ps = before ++ d :: after →
          held d.context = before.foldl (openAfter opens closes) (held c) := by
  induction ps generalizing c with
  | nil =>
    refine ⟨rfl, ?_⟩
    intro before d after hsplit
    cases before <;> cases hsplit
  | cons p rest ih =>
    let first : Dispatch := ⟨c, p, rest.head?⟩
    obtain ⟨hend, hpoint⟩ := ih first.taken.1
    rw [hstep first] at hend hpoint
    refine ⟨hend, ?_⟩
    intro before d after hsplit
    cases before with
    | nil =>
      obtain ⟨rfl, -⟩ := List.cons.inj hsplit
      rfl
    | cons b before =>
      obtain ⟨rfl, hrest⟩ := List.cons.inj hsplit
      exact hpoint before d after hrest

end

/-! ## What is to be reported -/

/-- The first line of a paragraph. -/
def Paragraph.firstLine (p : Paragraph) : Text := p.lines.headD []

/-- A mistake in the structure of a document. -/
inductive Fault where
  | strayItem
  | openList
  | openRegion (target : Text)
  | strayEnd (target : Text)
  | otherEnd (target opened : Text)
  | unnamedRegion
  | unnamedFormat
  deriving DecidableEq, Repr, Inhabited

namespace Fault

/-- What is said of a mistake. -/
def message : Fault → Text
  | .strayItem => "=item outside of any =over"
  | .openList => "=over without closing =back"
  | .openRegion target => ofString "=begin " ++ target ++ ofString " without matching =end"
  | .strayEnd target => ofString "=end " ++ target ++ ofString " without matching =begin"
  | .otherEnd target opened =>
      ofString "=end " ++ target ++ ofString " doesn't match =begin " ++ opened
  | .unnamedRegion => "=begin without a format name"
  | .unnamedFormat => "=for without a format name"

/-- The report of a mistake on a line. -/
def erratum (f : Fault) (line : Int) : Erratum := ⟨line, f.message⟩

end Fault

/-- The reports of the codes of a text that nothing closes. -/
def openCodes (line : Int) (t : Text) : List Erratum :=
  ((Inline.allOccurrences [] (Block.nodes line t)).filter (·.isOpen)).map fun c =>
    Inline.unterminated c.letter c.delimiter.count c.line

namespace Dispatch

/-- The mistake that a command is where it stands.  An `=end` that names no format names another
than that of any region. -/
def fault? (d : Dispatch) : Option Fault :=
  match d.directive? with
  | some .item => if d.context.lists = [] then some .strayItem else none
  | some .regionStart => if d.paragraph.text.words = [] then some .unnamedRegion else none
  | some .regionEnd =>
      match d.context.regions with
      | [] => some (.strayEnd d.formatName)
      | region :: _ =>
          if region.target = d.formatName then none
          else some (.otherEnd d.formatName region.target)
  | some .format =>
      if d.paragraph.firstLine.isBlank then some .unnamedFormat else none
  | _ => none

/-- The texts of a paragraph in which codes are read: a heading, the label of an item and the
paragraph behind its marker, the content of a `=for :thread`, and text that is neither raw data
nor indented. -/
def formattedTexts (d : Dispatch) : List Text :=
  match d.directive? with
  | some (.heading _) => [d.paragraph.joined]
  | some .item =>
      match d.context.lists with
      | [] => [d.paragraph.joined]
      | list :: _ =>
          let item := Item.read list.kind d.paragraph.joined
          item.label :: if item.body.isBlank then [] else [item.body]
  | some .format =>
      match splitFor? d.paragraph.text with
      | some (target, content) => if target = ofString ":thread" then [content] else []
      | none => []
  | some _ => []
  | none =>
      if d.isSkipped = false ∧ d.paragraph.kind = .ordinary ∧ d.context.mode? ≠ some .data then
        [d.paragraph.text]
      else []

/-- What is to be reported of a paragraph where it stands. -/
def reports (d : Dispatch) : List Erratum :=
  (d.fault?.map (·.erratum d.line)).toList ++ d.formattedTexts.flatMap (openCodes d.line)

end Dispatch

/-- The regions that paragraphs leave open. -/
def openRegions (met : List Dispatch) : List (Text × Int) :=
  neverClosed Dispatch.regionOpened? Dispatch.endsRegion met

/-- The lines of the lists that paragraphs leave open. -/
def openLists (met : List Dispatch) : List Int :=
  neverClosed Dispatch.listOpened? Dispatch.endsList met

/-- What is to be reported of a document: of its paragraphs where they stand, and of what they
leave open. -/
def faults (met : List Dispatch) : List Erratum :=
  met.flatMap Dispatch.reports
    ++ ((openRegions met).map (fun (target, line) => (Fault.openRegion target).erratum line)
      ++ (openLists met).map Fault.openList.erratum)

/-! ## Codes that nothing closes -/

theorem perm_openCodes (line : Int) (t : Text) :
    (Inline.allErrata (Block.nodes line t)).Perm (openCodes line t) := Inline.perm_allErrata [] _

theorem openCodes_nil (line : Int) : openCodes line [] = [] := by
  rw [openCodes, Block.nodes_nil]
  rfl

/-- Formatted text in an element reports its codes. -/
theorem perm_errata_block (element : Element) (t : Text) :
    (Delivery.block element t).errata.Perm (openCodes element.line t) :=
  perm_openCodes element.line t

/-- It makes no difference to the reports whether empty text is formatted. -/
theorem perm_errata_unlessEmpty {empty : Delivery} (h : empty.errata = []) (element : Element)
    (t : Text) :
    (if t.isEmpty then empty else .block element t).errata.Perm (openCodes element.line t) := by
  split
  · rename_i hempty
    rw [List.isEmpty_iff.1 hempty, openCodes_nil, h]
  · exact perm_errata_block element t

/-! ## Paragraphs as they are read -/

namespace Paragraph

/-- What follows the name of a command on its line starts with no white space. -/
def Trimmed (p : Paragraph) : Prop :=
  ∀ name, p.kind = .command name → p.firstLine.head?.any CodeUnit.isBlank = false

/-- The text of a paragraph goes on behind its first line with another line, if it goes on. -/
theorem exists_text (p : Paragraph) :
    ∃ rest : Text, p.text = p.firstLine ++ rest ∧ rest.head?.all (· = newline) = true := by
  rw [text, firstLine]
  cases p.lines with
  | nil => exact ⟨[], rfl, rfl⟩
  | cons first more =>
    cases more with
    | nil => exact ⟨[], by simp [unlines, join], rfl⟩
    | cons next more => exact ⟨newline :: unlines (next :: more), by simp [unlines, join], rfl⟩

theorem trimmed_consParagraph {p : Paragraph} {ps : List Paragraph} (hp : p.Trimmed)
    (hps : ∀ q ∈ ps, q.Trimmed) : ∀ q ∈ consParagraph p ps, q.Trimmed := by
  have hall : ∀ q ∈ p :: ps, q.Trimmed := List.forall_mem_cons.2 ⟨hp, hps⟩
  cases ps with
  | nil => exact hall
  | cons next rest =>
    by_cases hverbatim : p.kind = .verbatim ∧ next.kind = .verbatim
    · rw [consParagraph_verbatim hverbatim.1 hverbatim.2]
      refine List.forall_mem_cons.2 ⟨?_, fun q hq => hps q (List.mem_cons_of_mem _ hq)⟩
      intro name hname
      have hkind : p.kind = .command name := hname
      rw [hverbatim.1] at hkind
      cases hkind
    · rw [consParagraph_other hverbatim]
      exact hall

/-- The argument of a command is trimmed when its line is read. -/
theorem head_commandLine? {line name argument : Text}
    (h : commandLine? line = some (name, argument)) :
    argument.head?.any CodeUnit.isBlank = false := by
  unfold commandLine? at h
  split at h
  · dsimp only at h
    split at h
    · obtain ⟨-, rfl⟩ := Prod.mk.inj (Option.some.inj h)
      exact head_spanBlank _
    · cases h
  · cases h

theorem trimmed_readLines (inPod : Bool) (opened : Option ParagraphKind) (number : Nat)
    (ls : List Text) : ∀ p ∈ (readLines inPod opened number ls).2, p.Trimmed := by
  induction ls generalizing inPod opened number with
  | nil =>
    intro p hp
    cases hp
  | cons line rest ih =>
    unfold readLines
    split
    · exact ih false opened (number + 1)
    · split
      · exact ih true none (number + 1)
      · split
        · rename_i name argument hline
          refine List.forall_mem_cons.2 ⟨?_, ih _ _ _⟩
          intro _ _
          exact head_commandLine? hline
        · dsimp only
          split
          · exact ih true _ (number + 1)
          · refine List.forall_mem_cons.2 ⟨?_, ih _ _ _⟩
            intro name hname
            dsimp only at hname
            split at hname
            · cases hname
            · cases hname

theorem trimmed_foldr {ps : List Paragraph} (h : ∀ p ∈ ps, p.Trimmed) :
    ∀ p ∈ ps.foldr consParagraph [], p.Trimmed := by
  induction ps with
  | nil => exact h
  | cons p rest ih =>
    obtain ⟨hp, hrest⟩ := List.forall_mem_cons.1 h
    exact trimmed_consParagraph hp (ih hrest)

/-- The commands of a source are trimmed. -/
theorem trimmed_split (source : Text) : ∀ p ∈ split source, p.Trimmed :=
  trimmed_foldr (trimmed_readLines false none 1 source.normalizeEndings.lines)

/-- A `=for` names no format exactly if nothing follows it on its line. -/
theorem splitFor?_eq_none_iff {p : Paragraph}
    (h : p.firstLine.head?.any CodeUnit.isBlank = false) :
    splitFor? p.text = none ↔ p.firstLine.isBlank = true := by
  obtain ⟨rest, htext, hrest⟩ := p.exists_text
  rw [htext]
  cases hfirst : p.firstLine with
  | nil =>
    refine iff_of_true ?_ rfl
    cases rest with
    | nil => rfl
    | cons u rest =>
      obtain rfl : u = newline := by simpa using hrest
      rfl
  | cons u more =>
    rw [hfirst] at h
    have hu : u.isBlank = false := h
    have hspace : u.isSpaceOrTab = false := by
      rw [← Bool.not_eq_true]
      intro hspace
      rw [isBlank_of_isSpaceOrTab hspace] at hu
      cases hu
    refine iff_of_false ?_ ?_
    · simp [splitFor?, spanWord, hspace, hu]
    · simp [Text.isBlank, hu]

end Paragraph

/-- The one format whose text is POD. -/
theorem RegionMode.ofTarget_eq_pod_iff {target : Text} :
    RegionMode.ofTarget target = .pod ↔ target = ofString ":thread" := by
  constructor
  · intro h
    unfold ofTarget at h
    split at h
    · rename_i colon name
      split at h
      · rename_i hname
        simp only [Bool.and_eq_true, beq_iff_eq] at hname
        rw [hname.1, hname.2]
        rfl
      · split at h
        · cases h
        · cases h
    · cases h
  · rintro rfl
    decide

/-! ## Reports of a paragraph -/

namespace Dispatch

/-- Text reports the codes that nothing closes in it, unless it is raw or indented. -/
theorem perm_reports_text {d : Dispatch} (h : d.directive? = none) :
    d.taken.2.errata.Perm d.reports := by
  have hfault : d.fault? = none := by rw [fault?, h]
  rw [reports, hfault, formattedTexts, h]
  dsimp only
  cases hskip : d.isSkipped with
  | true =>
    have htaken : d.taken = (d.context, .empty) := isSilent_of_isSkipped hskip
    rw [htaken, if_neg (by simp)]
    exact .nil
  | false =>
    have hmet : ¬ (d.context.mode? = some .skip ∧ d.paragraph.boundsRegion = false) := by
      rintro ⟨hmode, hbounds⟩
      simp [isSkipped, hmode, hbounds] at hskip
    have hkind : ∀ name, d.paragraph.kind ≠ .command name := by
      intro name hname
      simp [directive?, hskip, hname] at h
    unfold taken takeParagraph
    rw [if_neg hmet]
    cases hform : d.paragraph.kind with
    | command name => exact absurd hform (hkind name)
    | verbatim =>
      rw [if_neg (by simp)]
      dsimp only
      split
      · exact .nil
      · exact .nil
    | ordinary =>
      dsimp only
      split
      · rename_i target line hregion
        have hmode : d.context.mode? = some .data := by rw [Context.mode?, hregion]; rfl
        rw [if_neg (by simp [hmode])]
        exact .nil
      · rename_i hregion
        have hmode : d.context.mode? ≠ some .data := by
          intro hmode
          obtain ⟨region, hhead, hdata⟩ := Option.map_eq_some_iff.1 hmode
          exact hregion region.target region.line (by rw [hhead, ← hdata])
        rw [if_neg (by simp), if_pos ⟨rfl, rfl, hmode⟩, List.flatMap_singleton]
        exact perm_errata_block (.para d.line) _

/-- A paragraph reports the mistake that it is and the codes that nothing closes in its texts. -/
theorem perm_reports {d : Dispatch} (h : d.paragraph.Trimmed) :
    d.taken.2.errata.Perm d.reports := by
  cases hdirective : d.directive? with
  | none => exact perm_reports_text hdirective
  | some k =>
    obtain ⟨name, hname, htaken⟩ := taken_of_directive hdirective
    rw [htaken, takeCommand_eq, hname, reports, fault?, formattedTexts, hdirective]
    cases k with
    | heading level =>
      dsimp only
      rw [List.flatMap_singleton]
      exact perm_errata_block (.head level d.line) _
    | item =>
      dsimp only [deliverItem]
      cases d.context.lists with
      | nil =>
        rw [if_pos rfl, List.flatMap_singleton]
        exact .cons _ (perm_errata_unlessEmpty rfl (.para d.line) _)
      | cons list outer =>
        rw [if_neg (List.cons_ne_nil _ _), List.flatMap_cons]
        refine (perm_errata_unlessEmpty rfl (.item _ _ d.line) _).append ?_
        split
        · exact .nil
        · rw [List.flatMap_singleton]
          exact perm_errata_block (.para d.line) _
    | regionStart =>
      dsimp only [beginRegion]
      cases d.paragraph.text.words with
      | nil => exact .refl _
      | cons target more => exact .nil
    | regionEnd =>
      dsimp only [endRegion]
      cases d.context.regions with
      | nil => exact .refl _
      | cons region outer =>
        dsimp only
        unfold formatName
        split
        · exact .nil
        · exact .refl _
    | format =>
      obtain ⟨name, hkind⟩ := exists_command_of_directive hdirective
      have hnone := Paragraph.splitFor?_eq_none_iff (h name hkind)
      dsimp only [deliverFor]
      cases hsplit : splitFor? d.paragraph.text with
      | none =>
        rw [if_pos (hnone.1 hsplit)]
        exact .refl _
      | some found =>
        obtain ⟨target, content⟩ := found
        have hblank : ¬ d.paragraph.firstLine.isBlank = true := by
          rw [← hnone, hsplit]
          exact Option.some_ne_none _
        rw [if_neg hblank]
        dsimp only
        cases hmode : RegionMode.ofTarget target with
        | pod =>
          rw [if_pos (RegionMode.ofTarget_eq_pod_iff.1 hmode), List.flatMap_singleton]
          exact perm_errata_block (.para d.line) _
        | data =>
          have hother : target ≠ ofString ":thread" := by
            rw [ne_eq, ← RegionMode.ofTarget_eq_pod_iff, hmode]
            exact RegionMode.noConfusion
          rw [if_neg hother]
          exact .nil
        | skip =>
          have hother : target ≠ ofString ":thread" := by
            rw [ne_eq, ← RegionMode.ofTarget_eq_pod_iff, hmode]
            exact RegionMode.noConfusion
          rw [if_neg hother]
          exact .nil
    | listEnd =>
      dsimp only [endList]
      split
      · exact .nil
      · exact .nil
    | _ => exact .nil

end Dispatch

/-- Paragraphs report what each of them reports. -/
theorem errata_takeParagraphs (c : Context) (ps : List Paragraph) :
    (takeParagraphs c ps).2.errata = (dispatches c ps).flatMap (·.taken.2.errata) := by
  induction ps generalizing c with
  | nil => rfl
  | cons p rest ih =>
    rw [dispatches, List.flatMap_cons, ← ih]
    rfl

/-! ## Reports of a document -/

/-- What a document leaves open is reported at its end. -/
theorem perm_endDocument {c : Context} {met : List Dispatch}
    (hregions : regionLines c.regions = (openRegions met).reverse)
    (hlists : listLines c.lists = (openLists met).reverse) :
    (endDocument c).errata.Perm
      ((openRegions met).map (fun (target, line) => (Fault.openRegion target).erratum line)
        ++ (openLists met).map Fault.openList.erratum) := by
  have hregion : c.regions.reverse.map (fun r => (Fault.openRegion r.target).erratum r.line)
      = (openRegions met).map fun (target, line) => (Fault.openRegion target).erratum line := by
    rw [← List.reverse_reverse (openRegions met), ← hregions, regionLines, ← List.map_reverse,
      List.map_map]
    rfl
  have hlist : c.lists.map (fun l => Fault.openList.erratum l.line)
      = ((openLists met).map Fault.openList.erratum).reverse := by
    rw [← List.map_reverse, ← hlists, listLines, List.map_map]
    rfl
  have herrata : (endDocument c).errata
      = c.regions.reverse.map (fun r => (Fault.openRegion r.target).erratum r.line)
        ++ c.lists.map fun l => Fault.openList.erratum l.line := rfl
  rw [herrata, hregion, hlist]
  exact .append_left _ (List.reverse_perm _)

/-- The lists that are open in front of a paragraph, and behind all of them. -/
theorem listLines_dispatches (ps : List Paragraph) :
    listLines (takeParagraphs .empty ps).1.lists = (openLists (dispatches .empty ps)).reverse
      ∧ ∀ before d after, dispatches .empty ps = before ++ d :: after →
          listLines d.context.lists = (openLists before).reverse := by
  obtain ⟨hend, hpoint⟩ :=
    held_dispatches (fun c => listLines c.lists) Dispatch.listLines_taken .empty ps
  refine ⟨hend.trans (foldl_openAfter_nil _), ?_⟩
  intro before d after hsplit
  exact (hpoint before d after hsplit).trans (foldl_openAfter_nil _)

/-- The regions that are open in front of a paragraph, and behind all of them. -/
theorem regionLines_dispatches (ps : List Paragraph) :
    regionLines (takeParagraphs .empty ps).1.regions
        = (openRegions (dispatches .empty ps)).reverse
      ∧ ∀ before d after, dispatches .empty ps = before ++ d :: after →
          regionLines d.context.regions = (openRegions before).reverse := by
  obtain ⟨hend, hpoint⟩ :=
    held_dispatches (fun c => regionLines c.regions) Dispatch.regionLines_taken .empty ps
  refine ⟨hend.trans (foldl_openAfter_nil _), ?_⟩
  intro before d after hsplit
  exact (hpoint before d after hsplit).trans (foldl_openAfter_nil _)

/-- The errors of a document are what is to be reported of it. -/
theorem perm_deliver {ps : List Paragraph} (h : ∀ p ∈ ps, p.Trimmed) :
    (deliver ps).errata.Perm (faults (dispatches .empty ps)) := by
  have hbody : (takeParagraphs .empty ps).2.errata.Perm
      ((dispatches .empty ps).flatMap Dispatch.reports) := by
    rw [errata_takeParagraphs]
    refine List.Perm.flatMap_left _ ?_
    intro d hd
    apply Dispatch.perm_reports
    apply h
    rw [← map_paragraph_dispatches .empty ps]
    exact List.mem_map_of_mem hd
  have hend := perm_endDocument (regionLines_dispatches ps).1 (listLines_dispatches ps).1
  exact hbody.append hend

theorem pairwise_sortErrata (es : List Erratum) : (sortErrata es).Pairwise (·.line ≤ ·.line) := by
  have hsorted : (sortErrata es).Pairwise fun a b => decide (a.line ≤ b.line) = true := by
    apply List.pairwise_mergeSort
    · intro a b c hab hbc
      rw [decide_eq_true_eq] at *
      exact Int.le_trans hab hbc
    · intro a b
      simpa using Int.le_total a.line b.line
  exact hsorted.imp of_decide_eq_true

/-- Every mistake of a source is reported once.  The errors that end its events stand in the order
of their lines.  Up to that order they are one for each mistake that a command is where it
stands, one for each code that nothing closes in a text where codes are read, one for each
region and one for each list that is never closed.  What a command is where it stands
depends on what is open there, and that is what was opened in front of it and not closed. -/
theorem sourceEvents_errata (file source : Text) :
    let met := dispatches .empty (Paragraph.split source)
    met.map (·.paragraph) = Paragraph.split source
      ∧ (∃ info errata,
          sourceEvents file source = .docStart info :: (bodyEvents source ++ [.docEnd errata])
            ∧ errata.Pairwise (·.line ≤ ·.line)
            ∧ errata.Perm (faults met))
      ∧ ∀ before d after, met = before ++ d :: after →
          listLines d.context.lists = (openLists before).reverse
            ∧ regionLines d.context.regions = (openRegions before).reverse := by
  intro met
  refine ⟨map_paragraph_dispatches .empty _, ⟨_, _, rfl, ?_, ?_⟩, ?_⟩
  · exact pairwise_sortErrata _
  · exact (List.mergeSort_perm _ _).trans (perm_deliver (Paragraph.trimmed_split source))
  · intro before d after hsplit
    exact ⟨(listLines_dispatches _).2 before d after hsplit,
      (regionLines_dispatches _).2 before d after hsplit⟩

end PodLoom.Pod
