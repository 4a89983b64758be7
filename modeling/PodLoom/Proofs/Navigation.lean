import PodLoom.Proofs.Thread.Header
import PodLoom.Proofs.Thread.Sections

set_option autoImplicit false

/-!
# Navigation does not disturb the document

A page with navigation and a page without, converted with the same anchors, have the
same draft: navigation changes what is done to the sink behind the page header, and
nothing else.  So, white space apart, the first page is the second one with the
navigation right behind the page header (`convert_navigation`).
-/

namespace PodLoom

open Text
open PodLoom.Pod (Event Paragraph bodyEvents isContentless)
open PodLoom.Thread (Desk Draft Options Registry Writer)

/-- Whether the page of a writer has its header. -/
def headerWritten (w : Writer) : Bool := w.page.any (·.headerDone)

/-- The navigation bar and the table of contents of the sections a conversion registers,
as far as the page has them. -/
def renderedNavigation (file source : Text) (o : Options) : Text :=
  let sections := (writerAfter file source o (Pod.sourceEvents file source)).sections
  (if o.navbar then sections.navbar else []) ++ if o.contents then sections.contents else []

/-- The page without navigation that has the given anchors. -/
def withoutNavigation (o : Options) (anchors : List (Text × Text)) : Options :=
  { o with contents := false, navbar := false, anchors := some anchors }

/-- What a conversion has written, white space apart, right behind its page header: an
event writes the header after what was written before. -/
def WrittenThroughHeader (file source : Text) (o : Options) (written : Text) : Prop :=
  ∃ before e after title description,
    Pod.sourceEvents file source = before ++ e :: after
      ∧ headerWritten (writerAfter file source o before) = false
      ∧ headerWritten (writerAfter file source o (before ++ [e])) = true
      ∧ written = ink (writerAfter file source o (before ++ [e])).target.text
      ∧ written = ink (writerAfter file source o before).target.text
          ++ ink (Desk.headerBlocks ((o.id <|> Pod.revisionId? source.normalizeEndings).getD [])
            (o.style.getD []) title description).flatten

/-- No event of a source writes a page header. -/
def HeaderMissing (file source : Text) (o : Options) : Prop :=
  ∀ before after, Pod.sourceEvents file source = before ++ after →
    headerWritten (writerAfter file source o before) = false

/-! ## The same draft -/

section

variable {file source : Text} {o : Options} {anchors : List (Text × Text)}

theorem create_withoutNavigation (hanchors : anchors = (scanAnchors file source o).1) :
    Registry.create ((resolveAnchors file source (withoutNavigation o anchors)).1.getD [])
      = .ok (scannedRegistry source o) := by
  rw [hanchors]
  exact create_scanAnchors file source o

theorem pageDraft_withoutNavigation :
    pageDraft (resolvedOptions file source (withoutNavigation o anchors))
        (scannedRegistry source o) source = scannedPage source o := rfl

/-- A page has the same chunks with navigation and without. -/
theorem chunks_withoutNavigation (p : Thread.Piece) :
    (conversionDesk file source (withoutNavigation o anchors)).chunks p
      = (conversionDesk file source o).chunks p := by
  cases p <;> rfl

theorem text_withoutNavigation (pieces : List Thread.Piece) :
    (conversionDesk file source (withoutNavigation o anchors)).text pieces
      = (conversionDesk file source o).text pieces := by
  have hchunks : (conversionDesk file source (withoutNavigation o anchors)).chunks
      = (conversionDesk file source o).chunks := funext chunks_withoutNavigation
  rw [Desk.text, hchunks]
  rfl

end

/-! ## The event that writes the header -/

section

variable {file source : Text} {o : Options} {sections : Registry}

/-- The draft of a source that has started, and of events of it. -/
def resolvedDraft (file source : Text) (o : Options) (sections : Registry)
    (events : List Event) : Draft :=
  draftAfter (resolvedOptions file source o).policy (o.title.getD []) sections source events

theorem writerAfter_body
    (hsections : Registry.create ((resolveAnchors file source o).1.getD []) = .ok sections)
    {events more : List Event} (hbody : bodyEvents source = events ++ more) :
    writerAfter file source o (.docStart (sourceInfo file source) :: events)
      = (conversionDesk file source o).writer (resolvedDraft file source o sections events) :=
  writerAfter_docStart hsections fun e he =>
    Pod.regular_bodyEvents source e (by rw [hbody]; exact List.mem_append_left _ he)

theorem headerWritten_body
    (hsections : Registry.create ((resolveAnchors file source o).1.getD []) = .ok sections)
    {events more : List Event} (hbody : bodyEvents source = events ++ more) :
    headerWritten (writerAfter file source o (.docStart (sourceInfo file source) :: events))
      = (resolvedDraft file source o sections events).headerDone := by
  rw [writerAfter_body hsections hbody]
  rfl

theorem ink_body
    (hsections : Registry.create ((resolveAnchors file source o).1.getD []) = .ok sections)
    (hnavigation : o.wantsNavigation = false) {events more : List Event}
    (hbody : bodyEvents source = events ++ more) :
    ink (writerAfter file source o (.docStart (sourceInfo file source) :: events)).target.text
      = ink ((conversionDesk file source o).text
        (resolvedDraft file source o sections events).pieces) := by
  rw [writerAfter_body hsections hbody]
  exact (conversionDesk file source o).ink_written _ (.inl hnavigation)

/-- The text of the page header is its blocks. -/
theorem text_header (before : List Thread.Piece) (title : Text) (description : Option Text) :
    (conversionDesk file source o).text (before ++ [.header title description])
      = (conversionDesk file source o).text before
        ++ (Desk.headerBlocks ((o.id <|> Pod.revisionId? source.normalizeEndings).getD [])
          (o.style.getD []) title description).flatten := by
  rw [Desk.text_append, Desk.text_cons]
  exact congrArg _ (List.append_nil _)

/-- The header is written when the draft says so. -/
theorem headerWritten_prefix
    (hsections : Registry.create ((resolveAnchors file source o).1.getD []) = .ok sections)
    {before after : List Event} (h : Pod.sourceEvents file source = before ++ after) :
    headerWritten (writerAfter file source o before) = false
      ∨ ∃ events more, bodyEvents source = events ++ more
        ∧ headerWritten (writerAfter file source o before)
          = (resolvedDraft file source o sections events).headerDone := by
  rcases sourceEvents_split h with rfl | rfl | ⟨events, more, rfl, hbody⟩
  · exact .inl rfl
  · rw [List.append_nil] at h
    rw [← h, headerWritten, (writerAfter_sourceEvents hsections).1]
    exact .inl rfl
  · exact .inr ⟨events, more, hbody, headerWritten_body hsections hbody⟩

theorem resolvedDraft_append (events more : List Event) :
    resolvedDraft file source o sections (events ++ more)
      = (resolvedDraft file source o sections events).run
        (resolvedOptions file source o).policy more := Draft.run_append _ _ _ _

theorem headless_pageDraft (file source : Text) (o : Options) (sections : Registry) :
    Draft.Headless (resolvedDraft file source o sections (bodyEvents source))
      (pageDraft (resolvedOptions file source o) sections source) :=
  .of_extends (Draft.extends_complete _ _)

/-- How a page comes to have its header: the pieces before it are no header, and it is
written by an event, behind everything that was written before. -/
structure HeaderFound (file source : Text) (o : Options) (sections : Registry)
    (before after : List Thread.Piece) (title : Text) (description : Option Text) : Prop where
  pieces : (pageDraft (resolvedOptions file source o) sections source).pieces
    = before ++ .header title description :: after
  first : ∀ p ∈ before, p.isHeader = false
  written : WrittenThroughHeader file source o
    (ink ((conversionDesk file source o).text (before ++ [.header title description])))

/-- A page whose title is given starts with its header. -/
theorem headerFound_of_titled
    (hsections : Registry.create ((resolveAnchors file source o).1.getD []) = .ok sections)
    (hnavigation : o.wantsNavigation = false)
    (htitled : (!isContentless (Paragraph.split source) && o.hasTitle) = true) :
    ∃ title after, HeaderFound file source o sections [] after title none := by
  have hstart : resolvedDraft file source o sections []
      = (Draft.blank sections).writeHeader (Thread.escape (o.title.getD [])) none := if_pos htitled
  have hheader : (resolvedDraft file source o sections []).pieces
      = [.header (Thread.escape (o.title.getD [])) none] := congrArg Draft.pieces hstart
  obtain ⟨-, more, hpieces, -⟩ := (Draft.headless_run_of_headerDone
    (resolvedOptions file source o).policy (congrArg Draft.headerDone hstart)
    (bodyEvents source)).trans (headless_pageDraft file source o sections)
  rw [hheader] at hpieces
  have hnone : bodyEvents source = [] ++ bodyEvents source := rfl
  refine ⟨_, more, hpieces, by simp, ?_⟩
  refine ⟨[], _, _, Thread.escape (o.title.getD []), none, sourceEvents_eq file source, rfl,
    ?_, ?_, ?_⟩
  · exact (headerWritten_body hsections hnone).trans (congrArg Draft.headerDone hstart)
  · have hink := ink_body hsections hnavigation hnone
    rw [hheader] at hink
    exact hink.symm
  · rw [text_header, ink_append]
    rfl

theorem resolvedDraft_nil_of_untitled
    (htitled : ¬ (!isContentless (Paragraph.split source) && o.hasTitle) = true) :
    resolvedDraft file source o sections [] = Draft.blank sections := if_neg htitled

/-- Without a given title, a page on which no event writes a header has none. -/
theorem headerMissing_of_headless
    (hsections : Registry.create ((resolveAnchors file source o).1.getD []) = .ok sections)
    (htitled : ¬ (!isContentless (Paragraph.split source) && o.hasTitle) = true)
    (hnone : Draft.Headless (resolvedDraft file source o sections [])
      (resolvedDraft file source o sections (bodyEvents source))) :
    HeaderMissing file source o
      ∧ ∀ p ∈ (pageDraft (resolvedOptions file source o) sections source).pieces,
        p.isHeader = false := by
  have hstart : resolvedDraft file source o sections [] = Draft.blank sections :=
    resolvedDraft_nil_of_untitled htitled
  constructor
  · intro before after h
    rcases headerWritten_prefix hsections h with hmissing | ⟨events, more, hbody, hwritten⟩
    · exact hmissing
    · rw [hwritten]
      cases hdone : (resolvedDraft file source o sections events).headerDone with
      | false => rfl
      | true =>
        -- Once written the header would still be there at the end.
        have hlast := (Draft.headless_run_of_headerDone (resolvedOptions file source o).policy
          hdone more).1
        rw [← resolvedDraft_append, ← hbody, hdone] at hlast
        have hfirst := hnone.1.trans (congrArg Draft.headerDone hstart)
        exact absurd (hlast.symm.trans hfirst) (by simp [Draft.blank])
  · obtain ⟨-, more, hpieces, hmore⟩ := hnone.trans (headless_pageDraft file source o sections)
    rw [hpieces, hstart]
    exact hmore

/-- Without a given title, an event that writes the header writes it behind everything
that was written before. -/
theorem headerFound_of_headed
    (hsections : Registry.create ((resolveAnchors file source o).1.getD []) = .ok sections)
    (hnavigation : o.wantsNavigation = false)
    (htitled : ¬ (!isContentless (Paragraph.split source) && o.hasTitle) = true)
    {before after : List Event} {e : Event} (hbody : bodyEvents source = before ++ e :: after)
    (hbefore : Draft.Headless (resolvedDraft file source o sections [])
      (resolvedDraft file source o sections before))
    (hheader : Draft.Headed (resolvedDraft file source o sections before)
      (resolvedDraft file source o sections (before ++ [e])))
    (hafter : Draft.Headless (resolvedDraft file source o sections (before ++ [e]))
      (resolvedDraft file source o sections (bodyEvents source))) :
    ∃ pieces more title description,
      HeaderFound file source o sections pieces more title description := by
  have hbody' : bodyEvents source = (before ++ [e]) ++ after := by rw [hbody]; simp
  obtain ⟨-, pieces, hpieces, hfirst⟩ := hbefore
  obtain ⟨hmissing, hdone, -, title, description, hwritten⟩ := hheader
  obtain ⟨-, more, hlast, -⟩ := hafter.trans (headless_pageDraft file source o sections)
  rw [resolvedDraft_nil_of_untitled htitled] at hpieces
  have hblank : (resolvedDraft file source o sections before).pieces = pieces := hpieces
  rw [hblank] at hwritten
  refine ⟨pieces, more, title, description, ?_, hfirst, ?_⟩
  · rw [hlast, hwritten, List.append_assoc, List.singleton_append]
  · refine ⟨.docStart (sourceInfo file source) :: before, e,
      after ++ [.docEnd (sourceErrata source)], title, description, ?_, ?_, ?_, ?_, ?_⟩
    · rw [sourceEvents_eq, hbody]
      simp
    · exact (headerWritten_body hsections hbody).trans hmissing
    · exact (headerWritten_body hsections hbody').trans hdone
    · rw [← hwritten]
      exact (ink_body hsections hnavigation hbody').symm
    · rw [text_header, ink_append, ink_body hsections hnavigation hbody, hblank]

/-- A page has no header, or an event writes it. -/
theorem headerFound_cases
    (hsections : Registry.create ((resolveAnchors file source o).1.getD []) = .ok sections)
    (hnavigation : o.wantsNavigation = false) :
    (HeaderMissing file source o
        ∧ ∀ p ∈ (pageDraft (resolvedOptions file source o) sections source).pieces,
          p.isHeader = false)
      ∨ ∃ before after title description,
        HeaderFound file source o sections before after title description := by
  by_cases htitled : (!isContentless (Paragraph.split source) && o.hasTitle) = true
  · obtain ⟨title, after, hfound⟩ := headerFound_of_titled hsections hnavigation htitled
    exact .inr ⟨[], after, title, none, hfound⟩
  · rcases Draft.run_headless (resolvedOptions file source o).policy
        (resolvedDraft file source o sections []) (bodyEvents source) with
      hnone | ⟨before, e, after, hbody, hbefore, hheader, hafter⟩
    · exact .inl (headerMissing_of_headless hsections htitled hnone)
    · exact .inr (headerFound_of_headed hsections hnavigation htitled hbody hbefore hheader hafter)

end

/-! ## The two pages -/

section

variable {file source : Text} {o : Options} {anchors : List (Text × Text)}

theorem renderedNavigation_eq (hnavigation : o.wantsNavigation = true)
    (hanchors : o.anchors = none) :
    renderedNavigation file source o
      = (conversionDesk file source o).navigation (scannedPage source o).sections := by
  unfold renderedNavigation
  rw [(writerAfter_sourceEvents (create_resolved file source hnavigation hanchors)).2,
    pageDraft_resolved file source hnavigation]
  rfl

/-- A page without navigation is its pieces, with the header where it was found. -/
theorem ink_bare_output (hscanned : anchors = (scanAnchors file source o).1)
    {before after : List Thread.Piece} {title : Text} {description : Option Text}
    (hfound : HeaderFound file source (withoutNavigation o anchors) (scannedRegistry source o)
      before after title description) :
    let k := conversionDesk file source (withoutNavigation o anchors)
    ink (convert file source (withoutNavigation o anchors)).output
      = ink (k.text (before ++ [.header title description])) ++ ink (k.text after) := by
  intro k
  have hwhole : (scannedPage source o).pieces = before ++ .header title description :: after :=
    hfound.pieces
  have hbare : k.options.wantsNavigation = false
      ∨ ∀ p ∈ (scannedPage source o).pieces, p.isHeader = false := .inl rfl
  have hspliced := k.spliced_steps hbare (k.navigation (scannedPage source o).sections) []
  rw [List.append_nil] at hspliced
  rw [(convert_run (create_withoutNavigation hscanned)).1, pageDraft_withoutNavigation,
    (k.respaced_finished (scannedPage source o)).ink_eq, hspliced, hwhole]
  have hsplit : before ++ .header title description :: after
      = (before ++ [.header title description]) ++ after := by simp
  rw [hsplit, Desk.text_append, ink_append, ink_append]
  exact List.append_nil _

/-- A page with navigation has it behind the header. -/
theorem ink_navigation_output (hnavigation : o.wantsNavigation = true) (hanchors : o.anchors = none)
    {before after : List Thread.Piece} {title : Text} {description : Option Text}
    (hfound : HeaderFound file source (withoutNavigation o anchors) (scannedRegistry source o)
      before after title description) :
    let k := conversionDesk file source (withoutNavigation o anchors)
    ink (convert file source o).output
      = ink (k.text (before ++ [.header title description]))
        ++ ink (renderedNavigation file source o) ++ ink (k.text after) := by
  intro k
  have hwhole : (scannedPage source o).pieces = before ++ .header title description :: after :=
    hfound.pieces
  have hspliced := (conversionDesk file source o).spliced_header hnavigation hfound.first title
    description after ((conversionDesk file source o).navigation (scannedPage source o).sections)
  rw [(convert_run (create_resolved file source hnavigation hanchors)).1,
    pageDraft_resolved file source hnavigation, renderedNavigation_eq hnavigation hanchors]
  refine ((conversionDesk file source o).respaced_finished (scannedPage source o)).ink_eq.trans ?_
  rw [hwhole, hspliced, text_withoutNavigation, text_withoutNavigation, ink_append, ink_append,
    List.append_assoc]

end

/-- Navigation does not disturb a document.  A page with navigation, and the page without
that has the scanned anchors, have the same diagnostics, and both fail or neither does.
Without a page header they have the same text; else, white space apart, the one is the
other with the navigation right behind the page header. -/
theorem convert_navigation (scanFile file source : Text) (o : Options)
    (hnavigation : o.wantsNavigation = true) (hanchors : o.anchors = none) :
    let bare := withoutNavigation o
      (scanAnchors scanFile source { Options.plain with title := o.title }).1
    (convert file source o).diagnostics = (convert file source bare).diagnostics
      ∧ (convert file source o).failure.isSome = (convert file source bare).failure.isSome
      ∧ (HeaderMissing file source bare
          ∧ (convert file source o).output = (convert file source bare).output
        ∨ ∃ written rest, WrittenThroughHeader file source bare written
          ∧ ink (convert file source bare).output = written ++ rest
          ∧ ink (convert file source o).output
            = written ++ ink (renderedNavigation file source o) ++ rest) := by
  intro bare
  have hscanned : (scanAnchors scanFile source { Options.plain with title := o.title }).1
      = (scanAnchors file source o).1 := by
    rw [scanAnchors_numbered, scanAnchors_numbered]
    rfl
  have hbare : Registry.create ((resolveAnchors file source bare).1.getD [])
      = .ok (scannedRegistry source o) := create_withoutNavigation hscanned
  obtain ⟨houtput, hdiagnostics, hfailure⟩ :=
    convert_run (create_resolved file source hnavigation hanchors)
  obtain ⟨houtput', hdiagnostics', hfailure'⟩ := convert_run (o := bare) hbare
  rw [pageDraft_resolved file source hnavigation] at houtput hdiagnostics
  refine ⟨hdiagnostics.trans hdiagnostics'.symm, ?_, ?_⟩
  · rw [hfailure, hfailure']
    split <;> rfl
  · rcases headerFound_cases (o := bare) hbare rfl with
      ⟨hmissing, hpieces⟩ | ⟨before, after, title, description, hfound⟩
    · left
      refine ⟨hmissing, ?_⟩
      rw [houtput, houtput']
      exact (Desk.finished_of_no_header chunks_withoutNavigation hpieces).symm
    · right
      exact ⟨_, _, hfound.written, ink_bare_output hscanned hfound,
        ink_navigation_output hnavigation hanchors hfound⟩

/-- With a given title the header is written first, so the navigation comes behind it. -/
theorem convert_navigation_titled :
    let source : Text := "=head1 FOO\n"
    let o : Options := { contentsPage with title := some "T" }
    let bare := withoutNavigation o
      (scanAnchors defaultFileName source { Options.plain with title := o.title }).1
    o.wantsNavigation = true ∧ o.anchors = none
      ∧ ∃ written rest, WrittenThroughHeader defaultFileName source bare written
        ∧ ink (convert defaultFileName source bare).output = written ++ rest
        ∧ ink (convert defaultFileName source o).output
          = written ++ ink (renderedNavigation defaultFileName source o) ++ rest := by
  intro source o bare
  obtain ⟨-, -, h⟩ := convert_navigation defaultFileName defaultFileName source o rfl rfl
  refine ⟨rfl, rfl, h.resolve_left ?_⟩
  rintro ⟨hmissing, -⟩
  have hbare : Registry.create ((resolveAnchors defaultFileName source bare).1.getD [])
      = .ok (scannedRegistry source { Options.plain with title := o.title }) :=
    create_scanAnchors defaultFileName source _
  have hstart := headerWritten_body hbare (List.nil_append (bodyEvents source)).symm
  have hcontent : isContentless (Paragraph.split source) = false := by decide +kernel
  rw [hmissing [_] _ (sourceEvents_eq defaultFileName source), resolvedDraft, draftAfter,
    hcontent] at hstart
  cases hstart

end PodLoom
