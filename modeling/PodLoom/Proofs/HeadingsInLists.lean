import PodLoom.Proofs.NameHeader
import PodLoom.Proofs.Pod.Inline
import PodLoom.Proofs.RawThread
import PodLoom.Proofs.Thread.Bare

set_option autoImplicit false

/-!
# Headings in lists

A heading ends the item it stands in, so that it is not inside its brackets.  It ends the item
of the innermost list only: where lists are nested, the items around that list stay open, and
the heading is inside their brackets (`heading_unclosed`).  Besides, an untitled page may have
brackets open that its header leaves open.
-/

namespace PodLoom

open Text CodeUnit
open PodLoom.Pod (Delivery Element Event Paragraph bodyEvents isContentless)
open PodLoom.Thread (Desk Draft Nesting Options Piece Registry Rendered Scope Writer unclosed)

namespace Thread

/-- What a writer has written, without the navigation that is still to come. -/
def Writer.written (w : Writer) : Text := w.nesting.sink.around []

/-- The items that are open outside the innermost list. -/
def Nesting.outerOpen (n : Nesting) : Nat := n.scopes.tail.countP (·.isOpen)

namespace Draft

/-- The item of the innermost list is closed, and those around it stay as they are. -/
theorem open_of_close (d : Draft) :
    (d.onScope Scope.close).scopes.countP (·.isOpen) = d.scopes.tail.countP (·.isOpen) := by
  rcases d with ⟨frames, _ | ⟨s, outer⟩, inName, headerDone, sections, warnings, pieces⟩
  · rfl
  · exact List.countP_cons_of_neg Bool.false_ne_true

/-- Pieces of the list do not add a page header. -/
theorem headers_of_close (d : Draft) :
    (d.onScope Scope.close).pieces.filter (·.isHeader) = d.pieces.filter (·.isHeader) := by
  rcases d with ⟨frames, _ | ⟨s, outer⟩, inName, headerDone, sections, warnings, pieces⟩
  · rfl
  · have hnone : s.close.2.filter (·.isHeader) = [] := List.filter_eq_nil_iff.2 fun q hq => by
      simp [Piece.isHeader_of_isPlain (close_isPlain s q hq)]
    show (pieces ++ s.close.2).filter (·.isHeader) = _
    rw [List.filter_append, hnone, List.append_nil]

/-- Behind the end of the item it stands in, a heading is inside the brackets of the items
around it, and of those that the page header leaves open. -/
theorem unclosed_close {k : Desk} {d : Draft} (h : d.bare.Tidy k) :
    unclosed (k.text (d.onScope Scope.close).pieces)
      = d.scopes.tail.countP (·.isOpen) + unclosed (k.text (d.pieces.filter (·.isHeader))) := by
  have hclosed : (d.onScope Scope.close).bare.Tidy k := by
    rw [bare_onScope close_isPlain]
    exact h.onScope fun _ htag => .close htag
  rw [k.unclosed_of_tidy hclosed, open_of_close, headers_of_close]

/-! ## The header of a draft -/

/-- Pieces without a page header do not change which page headers there are. -/
theorem headers_of_headless {d d' : Draft} (h : Headless d d') :
    d'.pieces.filter (·.isHeader) = d.pieces.filter (·.isHeader) := by
  obtain ⟨-, more, hpieces, hmore⟩ := h
  have hnone : more.filter (·.isHeader) = [] := List.filter_eq_nil_iff.2 fun q hq => by
    simp [hmore q hq]
  rw [hpieces, List.filter_append, hnone, List.append_nil]

theorem headers_of_missing {d : Draft} (h : d.HeaderKept) (hmissing : d.headerDone = false) :
    d.pieces.filter (·.isHeader) = [] := by
  rw [HeaderKept, hmissing] at h
  exact List.filter_eq_nil_iff.2 (List.countP_eq_zero.1 h)

end Draft

end Thread

/-! ## The brackets of the page header -/

/-- The brackets that the page header leaves open before an event: none if there is no header
yet or if the title is given, and else those of the words it is made of, the title twice. -/
inductive HeaderLeaves (file source : Text) (o : Options) (before : List Event) : Int → Prop where
  | unwritten (h : headerWritten (writerAfter file source o before) = false) :
      HeaderLeaves file source o before 0
  | titled (h : o.hasTitle = true) : HeaderLeaves file source o before 0
  | taken {earlier later : List Event} {e : Event} {content : Rendered} {lead : List Text}
      {title : Text} {description : List Text}
      (hdone : headerWritten (writerAfter file source o before) = true)
      (hbefore : before = earlier ++ e :: later)
      (htaken : HeaderTaken file source o earlier e content lead title description) :
      HeaderLeaves file source o before
        (2 * unclosed title + unclosed (join [space] description))

section

variable {file source : Text} {o : Options} {sections : Registry}

/-- A page with a given title has the header made of it, and no other. -/
theorem headers_of_titled (htitle : o.hasTitle = true) {events more : List Event} {e : Event}
    (hbody : bodyEvents source = events ++ e :: more) :
    (resolvedDraft file source o sections events).pieces.filter (·.isHeader)
      = [.header (Thread.escape (o.title.getD [])) none] := by
  have hcontent : isContentless (Paragraph.split source) = false := by
    rw [← Bool.not_eq_true]
    intro hcontentless
    rw [bodyEvents, Pod.deliver_contentless hcontentless] at hbody
    simp at hbody
  have hstart : resolvedDraft file source o sections []
      = (Draft.blank sections).writeHeader (Thread.escape (o.title.getD [])) none := by
    have hpolicy : (resolvedOptions file source o).policy.titled = true := htitle
    show Draft.start _ _ _ _ = _
    rw [Draft.start, hcontent, hpolicy]
    rfl
  have hrest := Draft.headless_run_of_headerDone (resolvedOptions file source o).policy
    (d := resolvedDraft file source o sections []) (by rw [hstart]; rfl) events
  rw [← resolvedDraft_append, List.nil_append] at hrest
  rw [Draft.headers_of_headless hrest, hstart]
  rfl

/-- What the header of a draft leaves open. -/
theorem headerLeaves_body
    (hsections : Registry.create ((resolveAnchors file source o).1.getD []) = .ok sections)
    {events more : List Event} {e : Event} (hbody : bodyEvents source = events ++ e :: more)
    (k : Desk) :
    HeaderLeaves file source o (.docStart (sourceInfo file source) :: events)
      (unclosed (k.text
        ((resolvedDraft file source o sections events).pieces.filter (·.isHeader)))) := by
  let p := (resolvedOptions file source o).policy
  have hdone := headerWritten_body hsections hbody
  have hkept : ∀ events, (resolvedDraft file source o sections events).HeaderKept := fun events =>
    (Draft.HeaderKept.start p _ _ sections).run p events
  cases htitle : o.hasTitle with
  | true =>
    rw [headers_of_titled htitle hbody, Desk.unclosed_header,
      (Thread.Balanced.escape _).unclosed]
    exact .titled htitle
  | false =>
    cases hheader : (resolvedDraft file source o sections events).headerDone with
    | false =>
      rw [Draft.headers_of_missing (hkept events) hheader]
      exact .unwritten (hdone.trans hheader)
    | true =>
      have hstart : (resolvedDraft file source o sections []).headerDone = false := by
        rw [resolvedDraft_nil_of_untitled (by simp [htitle])]
        rfl
      rcases Draft.run_headless p (resolvedDraft file source o sections []) events with
        hnone | ⟨earlier, e', later, rfl, -, hheaded, hrest⟩
      · rw [← resolvedDraft_append, List.nil_append] at hnone
        exact absurd ((hnone.1.trans hstart).symm.trans hheader) Bool.false_ne_true
      · rw [← resolvedDraft_append, ← resolvedDraft_append, List.nil_append,
          List.nil_append] at hrest
        rw [← resolvedDraft_append, ← resolvedDraft_append, List.nil_append,
          List.nil_append] at hheaded
        have hearlier : bodyEvents source = earlier ++ e' :: (later ++ e :: more) := by
          rw [hbody, List.append_assoc, List.cons_append]
        obtain ⟨content, lead, title, description, htaken, hpieces, -⟩ :=
          exists_headerTaken_of_body hsections hearlier hheaded.1 hheaded.2.1
        have hheaders : (resolvedDraft file source o sections (earlier ++ e' :: later)).pieces.filter
            (·.isHeader) = [.header title (some (join [space] description))] := by
          rw [Draft.headers_of_headless hrest, hpieces, List.filter_append,
            Draft.headers_of_missing (hkept earlier) hheaded.1]
          rfl
        rw [hheaders, Desk.unclosed_header]
        exact .taken (hdone.trans hheader) rfl htaken

end

/-! ## Headings -/

/-- A heading that is about to be written: the item it stands in is ended, and its macro is all
that is left to write. -/
structure HeadingDue (file source : Text) (o : Options) (before : List Event) (level : Nat)
    (line : Int) (w : Writer) : Prop where
  nesting : w.nesting = (Nesting.closeItem (writerAfter file source o before).nesting).2
  written : ∃ anchor label,
    writerAfter file source o (before ++ [.finish (.head level line)])
      = (Writer.output (Writer.block
          (ofString "\\h" ++ ofNat (level + 1) ++ anchor ++ Thread.bracketed label)) w).2

/-- The end of a heading that does not introduce the page header writes its macro. -/
theorem exists_headingDue {file source : Text} {o : Options} {sections : Registry}
    (hsections : Registry.create ((resolveAnchors file source o).1.getD []) = .ok sections)
    {events more : List Event} {level : Nat} {line : Int}
    (hbody : bodyEvents source = events ++ .finish (.head level line) :: more)
    (hwritten : (writerAfter file source o (.docStart (sourceInfo file source) :: events
        ++ [.finish (.head level line)])).nesting
      ≠ (writerAfter file source o (.docStart (sourceInfo file source) :: events)).nesting) :
    ∃ w, HeadingDue file source o (.docStart (sourceInfo file source) :: events) level line w
      ∧ w.nesting = (conversionDesk file source o).lists
        ((resolvedDraft file source o sections events).onScope Scope.close) := by
  let k := conversionDesk file source o
  let p := (resolvedOptions file source o).policy
  let d := resolvedDraft file source o sections events
  have hbody' : bodyEvents source = (events ++ [.finish (.head level line)]) ++ more := by
    rw [hbody, List.append_assoc, List.singleton_append]
  have hw : writerAfter file source o (.docStart (sourceInfo file source) :: events)
      = k.writer d := writerAfter_body hsections hbody
  have hw' : writerAfter file source o (.docStart (sourceInfo file source) :: events
      ++ [.finish (.head level line)]) = k.writer (d.finishElement p (.head level line)) := by
    rw [List.cons_append, writerAfter_body hsections hbody', resolvedDraft_append]
    rfl
  have hclosed : (Nesting.closeItem (k.writer d).nesting).2
      = k.lists (d.onScope Scope.close) := congrArg Prod.snd (k.close_lists d)
  rw [hw, hw'] at hwritten
  rcases Draft.finishElement_cases p (.head level line) d with
    ⟨_, _, h, -⟩ | h | ⟨frame, frames, hframes, -, h⟩
  · cases h
  · rw [h] at hwritten
    exact absurd rfl hwritten
  · let opened : Draft := { d with frames, inName := false }
    have hlists : k.lists (opened.onScope Scope.close) = k.lists (d.onScope Scope.close) := by
      rw [k.lists_onScope, k.lists_onScope]
    have hdue : ∀ (d' : Draft) (anchor : Option Text), k.lists d' = k.lists (d.onScope Scope.close) →
        d.finishElement p (.head level line)
          = d'.write [.heading level anchor frame.content.text.trim] →
        HeadingDue file source o (.docStart (sourceInfo file source) :: events) level line
            (k.writer d')
          ∧ (k.writer d').nesting = k.lists (d.onScope Scope.close) := by
      intro d' anchor hsame hfinish
      have hrun := k.write_run d' (p := .heading level anchor frame.content.text.trim) rfl
      refine ⟨⟨?_, Desk.anchorMark anchor, frame.content.text.trim, ?_⟩, hsame⟩
      · rw [hw, hclosed]
        exact hsame
      · rw [hw', hfinish, hrun]
    have hheading : d.finishElement p (.head level line)
      = { d with frames }.writeHeading p level frame.content := h
    rw [Draft.writeHeading] at hheading
    split at hheading
    · rw [hheading] at hwritten
      exact absurd rfl hwritten
    · split at hheading
      · let registered := (opened.onScope Scope.close).sections.register
          frame.content.plain.squeeze frame.content.text.trim
        exact ⟨_, hdue { opened.onScope Scope.close with sections := registered.2 }
          (some registered.1) hlists hheading⟩
      · exact ⟨_, hdue (opened.onScope Scope.close) none hlists hheading⟩

/-- Where a heading is written, the brackets of the items around the innermost list are open,
and those that the page header leaves open.  So none is open exactly if no item is, as long as
the header leaves none. -/
theorem heading_unclosed (file source : Text) (o : Options) (hanchors : o.anchors = none)
    (hdata : ∀ target line, Event.start (.data target line) ∉ Pod.sourceEvents file source)
    {before after : List Event} {level : Nat} {line : Int}
    (hsplit : Pod.sourceEvents file source = before ++ .finish (.head level line) :: after)
    (hwritten : (writerAfter file source o (before ++ [.finish (.head level line)])).nesting
      ≠ (writerAfter file source o before).nesting) :
    ∃ w n, HeadingDue file source o before level line w ∧ HeaderLeaves file source o before n
      ∧ unclosed w.written = (writerAfter file source o before).nesting.outerOpen + n
      ∧ (n = 0 → (unclosed w.written = 0
        ↔ ∀ s ∈ (writerAfter file source o before).nesting.scopes.tail, s.isOpen = false)) := by
  obtain ⟨sections, hsections, htidy⟩ := exists_tidy_create file source hanchors
  obtain ⟨events, more, rfl, hbody⟩ := exists_body_of_split
    (fun _ => Event.noConfusion) (fun _ => Event.noConfusion) hsplit
  let k := conversionDesk file source o
  let d := resolvedDraft file source o sections events
  have hw : writerAfter file source o (.docStart (sourceInfo file source) :: events)
      = k.writer d := writerAfter_body hsections hbody
  obtain ⟨w, hdue, hnesting⟩ := exists_headingDue hsections hbody hwritten
  have hbefore : ∀ e ∈ events, e ∈ bodyEvents source := fun e he =>
    hbody ▸ List.mem_append_left _ he
  have hbare : d.bare.Tidy k := by
    refine Draft.tidy_bare_run ?_ (fun e he => Pod.regular_bodyEvents source e (hbefore e he)) ?_
    · rw [Draft.bare_start]
      exact Draft.tidy_blank htidy
    · intro target line hmem
      refine hdata target line ?_
      rw [sourceEvents_eq]
      exact List.mem_cons_of_mem _ (List.mem_append_left _ (hbefore _ hmem))
  have hcount : unclosed w.written = (d.scopes.tail.countP (·.isOpen) : Int)
      + unclosed (k.text (d.pieces.filter (·.isHeader))) := by
    rw [Writer.written, hnesting]
    exact (k.unclosed_sink _).trans (Draft.unclosed_close hbare)
  refine ⟨w, _, hdue, headerLeaves_body hsections hbody k, ?_, ?_⟩
  · rw [hw]
    exact hcount
  · intro hnone
    rw [hw, hcount, hnone, Int.add_zero, Int.natCast_eq_zero, List.countP_eq_zero]
    exact forall₂_congr fun s _ => iff_of_eq (Bool.not_eq_true _)

/-- A text without an opening bracket and without tabs is delivered as it stands. -/
theorem block_plain {t : Text} (hplain : less ∉ t) (hsome : t ≠ []) (htabs : t.expandTabs = t)
    (element : Element) :
    Delivery.block element t = .ofEvents [.start element, .text t, .finish element] := by
  have hevents : Pod.inlineEvents [.text t] = [.text t] := by simp [Pod.inlineEvents]
  rw [Delivery.block, Delivery.formatted, htabs, Pod.parse_plain hplain hsome, hevents]
  rfl

/-- A heading in an item. -/
def headingInItem : Text := "=over\n\n=item *\n\nOuter\n\n=head2 Inside\n\n=back\n"

/-- The events of that source before the end of the heading. -/
def beforeHeadingInItem : List Event :=
  [.start (.over .bullet 1), .start (.item .bullet "*" 3), .finish (.item .bullet "*" 3),
    .start (.para 5), .text "Outer", .finish (.para 5), .start (.head 2 7), .text "Inside"]

theorem split_headingInItem : Paragraph.split headingInItem
    = [⟨.command "over", 1, [[]]⟩, ⟨.command "item", 3, ["*"]⟩, ⟨.ordinary, 5, ["Outer"]⟩,
      ⟨.command "head2", 7, ["Inside"]⟩, ⟨.command "back", 9, [[]]⟩] := by
  decide +kernel

theorem bodyEvents_headingInItem : bodyEvents headingInItem
    = beforeHeadingInItem ++ .finish (.head 2 7) :: [.finish (.over .bullet 1)] := by
  have hdeliver : Pod.deliver (Paragraph.split headingInItem)
      = .ofEvents [.start (.over .bullet 1)]
        ++ (.ofEvents [.start (.item .bullet "*" 3), .finish (.item .bullet "*" 3)]
          ++ (.block (.para 5) "Outer" ++ (.block (.head 2 7) "Inside"
            ++ (.ofEvents [.finish (.over .bullet 1)] ++ .empty)))) ++ .empty := by
    rw [split_headingInItem]
    rfl
  rw [bodyEvents, hdeliver, block_plain (by decide) (by decide) (by decide),
    block_plain (by decide) (by decide) (by decide)]
  rfl

/-- The heading is behind the item it stands in, not inside its brackets. -/
theorem heading_unclosed_in_item :
    let before := .docStart (sourceInfo defaultFileName headingInItem) :: beforeHeadingInItem
    Options.plain.anchors = none
      ∧ (∀ target line, Event.start (.data target line)
        ∉ Pod.sourceEvents defaultFileName headingInItem)
      ∧ Pod.sourceEvents defaultFileName headingInItem
        = before ++ .finish (.head 2 7) :: [.finish (.over .bullet 1),
          .docEnd (sourceErrata headingInItem)]
      ∧ (writerAfter defaultFileName headingInItem Options.plain
          (before ++ [.finish (.head 2 7)])).nesting
        ≠ (writerAfter defaultFileName headingInItem Options.plain before).nesting
      ∧ ∃ w, HeadingDue defaultFileName headingInItem Options.plain before 2 7 w
        ∧ unclosed w.written = 0 := by
  intro before
  have hsplit : Pod.sourceEvents defaultFileName headingInItem
      = before ++ .finish (.head 2 7) :: [.finish (.over .bullet 1),
        .docEnd (sourceErrata headingInItem)] := by
    rw [sourceEvents_eq, bodyEvents_headingInItem]
    rfl
  have hdata : ∀ target line, Event.start (.data target line)
      ∉ Pod.sourceEvents defaultFileName headingInItem := by
    rw [hsplit]
    simp [before, beforeHeadingInItem]
  have hbefore := writerAfter_body (create_plain headingInItem) bodyEvents_headingInItem
  have hwritten : (writerAfter defaultFileName headingInItem Options.plain
        (before ++ [.finish (.head 2 7)])).nesting
      ≠ (writerAfter defaultFileName headingInItem Options.plain before).nesting := by
    have hbehind := writerAfter_body (create_plain headingInItem)
      (bodyEvents_headingInItem.trans (List.append_cons ..))
    rw [hbefore, List.cons_append, hbehind, resolvedDraft, resolvedDraft, draftAfter, draftAfter,
      split_headingInItem]
    decide +kernel
  refine ⟨rfl, hdata, hsplit, hwritten, ?_⟩
  obtain ⟨w, n, hdue, hleaves, -, hzero⟩ :=
    heading_unclosed defaultFileName headingInItem Options.plain rfl hdata hsplit hwritten
  have hmissing : headerWritten (writerAfter defaultFileName headingInItem Options.plain before)
      = false := by
    rw [headerWritten_body (create_plain headingInItem) bodyEvents_headingInItem, resolvedDraft,
      draftAfter, split_headingInItem]
    decide +kernel
  have houter : ∀ s ∈ (writerAfter defaultFileName headingInItem Options.plain
      before).nesting.scopes.tail, s.isOpen = false := by
    rw [hbefore, resolvedDraft, draftAfter, split_headingInItem]
    decide +kernel
  refine ⟨w, hdue, ?_⟩
  cases hleaves with
  | unwritten _ => exact (hzero rfl).2 houter
  | titled _ => exact (hzero rfl).2 houter
  | taken hdone _ _ => exact absurd (hmissing.symm.trans hdone) Bool.false_ne_true

/-- A heading in an item of a list that is itself in an item. -/
def headingInNested : Text :=
  "=over\n\n=item *\n\nOuter\n\n=over\n\n=item *\n\nInner\n\n=head2 Inside\n\n=back\n\n=back\n"

/-- The events of that source before the end of the heading. -/
def beforeHeadingInNested : List Event :=
  [.start (.over .bullet 1), .start (.item .bullet "*" 3), .finish (.item .bullet "*" 3),
    .start (.para 5), .text "Outer", .finish (.para 5), .start (.over .bullet 7),
    .start (.item .bullet "*" 9), .finish (.item .bullet "*" 9), .start (.para 11),
    .text "Inner", .finish (.para 11), .start (.head 2 13), .text "Inside"]

theorem split_headingInNested : Paragraph.split headingInNested
    = [⟨.command "over", 1, [[]]⟩, ⟨.command "item", 3, ["*"]⟩, ⟨.ordinary, 5, ["Outer"]⟩,
      ⟨.command "over", 7, [[]]⟩, ⟨.command "item", 9, ["*"]⟩, ⟨.ordinary, 11, ["Inner"]⟩,
      ⟨.command "head2", 13, ["Inside"]⟩, ⟨.command "back", 15, [[]]⟩,
      ⟨.command "back", 17, [[]]⟩] := by
  decide +kernel

theorem bodyEvents_headingInNested : bodyEvents headingInNested
    = beforeHeadingInNested ++ .finish (.head 2 13)
      :: [.finish (.over .bullet 7), .finish (.over .bullet 1)] := by
  have hdeliver : Pod.deliver (Paragraph.split headingInNested)
      = .ofEvents [.start (.over .bullet 1)]
        ++ (.ofEvents [.start (.item .bullet "*" 3), .finish (.item .bullet "*" 3)]
          ++ (.block (.para 5) "Outer" ++ (.ofEvents [.start (.over .bullet 7)]
            ++ (.ofEvents [.start (.item .bullet "*" 9), .finish (.item .bullet "*" 9)]
              ++ (.block (.para 11) "Inner" ++ (.block (.head 2 13) "Inside"
                ++ (.ofEvents [.finish (.over .bullet 7)]
                  ++ (.ofEvents [.finish (.over .bullet 1)] ++ .empty)))))))) ++ .empty := by
    rw [split_headingInNested]
    rfl
  rw [bodyEvents, hdeliver, block_plain (by decide) (by decide) (by decide),
    block_plain (by decide) (by decide) (by decide), block_plain (by decide) (by decide) (by decide)]
  rfl

/-- A heading in a nested list is inside the brackets of the outer item. -/
theorem heading_inside_outer_item :
    let before := .docStart (sourceInfo defaultFileName headingInNested) :: beforeHeadingInNested
    Options.plain.anchors = none
      ∧ (∀ target line, Event.start (.data target line)
        ∉ Pod.sourceEvents defaultFileName headingInNested)
      ∧ Pod.sourceEvents defaultFileName headingInNested
        = before ++ .finish (.head 2 13) :: [.finish (.over .bullet 7), .finish (.over .bullet 1),
          .docEnd (sourceErrata headingInNested)]
      ∧ ∃ w, HeadingDue defaultFileName headingInNested Options.plain before 2 13 w
        ∧ unclosed w.written = 1 := by
  intro before
  have hsplit : Pod.sourceEvents defaultFileName headingInNested
      = before ++ .finish (.head 2 13) :: [.finish (.over .bullet 7), .finish (.over .bullet 1),
        .docEnd (sourceErrata headingInNested)] := by
    rw [sourceEvents_eq, bodyEvents_headingInNested]
    rfl
  have hwritten : (writerAfter defaultFileName headingInNested Options.plain
        (before ++ [.finish (.head 2 13)])).nesting
      ≠ (writerAfter defaultFileName headingInNested Options.plain before).nesting := by
    have hbefore := writerAfter_body (create_plain headingInNested) bodyEvents_headingInNested
    have hbehind := writerAfter_body (create_plain headingInNested)
      (bodyEvents_headingInNested.trans (List.append_cons ..))
    rw [hbefore, List.cons_append, hbehind, resolvedDraft, resolvedDraft, draftAfter, draftAfter,
      split_headingInNested]
    decide +kernel
  obtain ⟨w, hdue, hnesting⟩ :=
    exists_headingDue (create_plain headingInNested) bodyEvents_headingInNested hwritten
  refine ⟨rfl, ?_, hsplit, w, hdue, ?_⟩
  · rw [hsplit]
    simp [before, beforeHeadingInNested]
  · rw [Writer.written, hnesting, resolvedDraft, draftAfter, split_headingInNested]
    decide +kernel

end PodLoom
