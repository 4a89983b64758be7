import PodLoom.Proofs.Scan

set_option autoImplicit false

/-!
# Links to sections

A link to a section of the same document is rendered with the anchor that the registry
has for the section at that moment: the one of its heading, if that came before, or else
the scanned one, which is promised to it.  If no top-level heading has a link, all
headings that were scanned are written, with the possible exception of `NAME`: the scan
may take it for a section where the conversion takes it for the introduction of the page
header.  So every section link leads to its section, unless it leads to a `NAME` that is
not written (`section_link_lands_iff`).
-/

namespace PodLoom

open Text CodeUnit
open PodLoom.Pod (Event Paragraph bodyEvents)
open PodLoom.Thread (Draft Frame Options Registry Rendered Section anchorLink renderLink
  stripQuotes)

namespace Thread

/-! ## The anchor of a rendered link -/

theorem anchorLink_injective {anchor anchor' text : Text}
    (h : anchorLink anchor text = anchorLink anchor' text) : anchor = anchor' := by
  unfold anchorLink command at h
  have harguments := List.append_cancel_left (List.cons.inj h).2
  simp only [List.flatMap_cons, bracketed, List.cons_append, List.append_assoc] at harguments
  exact List.append_cancel_right (List.cons.inj (List.cons.inj harguments).2).2

theorem length_stripQuotes (t : Text) : t.length ≤ (stripQuotes t).length + 2 := by
  have hstart : t.length ≤ (dropQuoteAtStart t).length + 1 := by
    unfold dropQuoteAtStart
    split
    · rw [List.length_tail]
      omega
    · omega
  have hend : (dropQuoteAtStart t).length ≤ (stripQuotes t).length + 1 := by
    unfold stripQuotes dropQuoteAtEnd
    split
    · rw [List.length_dropLast]
      omega
    · omega
  omega

/-- A link to an anchor is longer than what it shows. -/
theorem ne_anchorLink (anchor t : Text) : t ≠ anchorLink anchor (stripQuotes t) := by
  intro h
  have hlength := congrArg List.length h
  have hstrip := length_stripQuotes t
  simp only [anchorLink, command, bracketed, List.flatMap_cons, List.flatMap_nil,
    List.length_cons, List.length_append, List.length_nil] at hlength
  omega

/-- A link that is rendered with an anchor has it from the registry. -/
theorem lookup_of_renderLink {r : Registry} {target heading : Option Text} {hasLabel : Bool}
    {content : Rendered} {anchor : Text}
    (h : (renderLink r .pod target heading hasLabel content).text
      = anchorLink anchor (stripQuotes content.text)) :
    r.lookup (heading.getD []) = some anchor := by
  unfold renderLink at h
  dsimp only at h
  rw [if_neg (by simp)] at h
  split at h
  · split at h
    · rename_i anchor' hfound
      obtain rfl := anchorLink_injective h
      exact (Option.filter_eq_some_iff.1 hfound).1
    · exact absurd h (ne_anchorLink anchor content.text)
  · exact absurd h (ne_anchorLink anchor content.text)

end Thread

/-! ## Section links of a conversion -/

/-- A conversion renders a link to the section of a heading as a link to an anchor: when
the link finishes, around the content collected for it, that is what is rendered. -/
def LinkRendered (file source : Text) (o : Options) (name anchor : Text) : Prop :=
  ∃ before after target heading hasLabel line page frame frames,
    Pod.sourceEvents file source
        = before ++ .finish (.link .pod target heading hasLabel line) :: after
      ∧ (writerAfter file source o before).page = some page
      ∧ page.frames = frame :: frames
      ∧ heading.getD [] = name
      ∧ (renderLink (writerAfter file source o before).sections .pod target heading hasLabel
          frame.content).text = anchorLink anchor (stripQuotes frame.content.text)

/-- An anchor leads to the section of a heading: the first section registered for the
heading has it, and the heading of that section is the only one on the page with it. -/
def LinkLands (file source : Text) (o : Options) (name anchor : Text) : Prop :=
  ∃ s, (convertedSections file source o).sections.find? (·.text == name) = some s
    ∧ s.anchor = anchor
    ∧ (scannedPage source o).pieces.filter (fun q => q.anchor? = some anchor)
      = [.heading 1 (some anchor) s.label]

section

variable {file source : Text} {o : Options}

/-- The draft of a page with scanned anchors after some of the events. -/
def scannedDraft (source : Text) (o : Options) (events : List Event) : Draft :=
  draftAfter ⟨o.hasTitle, true⟩ (o.title.getD []) (scannedRegistry source o) source events

/-- The writer of a conversion with scanned anchors, at a place in the source. -/
theorem writerAfter_scanned (hnavigation : o.wantsNavigation = true) (hanchors : o.anchors = none)
    {events more : List Event} (hbody : bodyEvents source = events ++ more) :
    writerAfter file source o (.docStart (sourceInfo file source) :: events)
      = (conversionDesk file source o).writer (scannedDraft source o events) := by
  have hcreate := create_resolved file source hnavigation hanchors
  have hregular : ∀ e ∈ events, e.regular = true := fun e he =>
    Pod.regular_bodyEvents source e (by rw [hbody]; exact List.mem_append_left _ he)
  rw [writerAfter_docStart hcreate hregular, policy_resolved file source hnavigation]
  rfl

theorem exists_registerAll_scannedDraft (source : Text) (o : Options) (events : List Event) :
    ∃ headings, (scannedDraft source o events).sections
      = (scannedRegistry source o).registerAll headings :=
  exists_registerAll_draftAfter ⟨o.hasTitle, true⟩ (o.title.getD []) (scannedRegistry source o)
    source events

theorem supplied_scannedDraft (source : Text) (o : Options) (events : List Event) :
    (scannedDraft source o events).sections.supplied = (scannedRegistry source o).supplied := by
  obtain ⟨headings, hsections⟩ := exists_registerAll_scannedDraft source o events
  rw [hsections, Registry.supplied_registerAll]

/-- A section link that is rendered is looked up in the sections of a draft. -/
theorem lookup_of_linkRendered (hnavigation : o.wantsNavigation = true)
    (hanchors : o.anchors = none) {name anchor : Text}
    (h : LinkRendered file source o name anchor) :
    ∃ events more, bodyEvents source = events ++ more
      ∧ (scannedDraft source o events).sections.lookup name = some anchor := by
  obtain ⟨before, after, target, heading, hasLabel, line, page, frame, frames, hsplit, hpage, -,
    rfl, hrendered⟩ := h
  rcases sourceEvents_split hsplit with rfl | hnil | ⟨events, more, rfl, hbody⟩
  · have hnone : (writerAfter file source o []).page = none := rfl
    rw [hnone] at hpage
    cases hpage
  · cases hnil
  · refine ⟨events, more, hbody, ?_⟩
    rw [writerAfter_scanned hnavigation hanchors hbody] at hrendered
    exact Thread.lookup_of_renderLink hrendered

/-- A section link that is looked up in the sections of a draft is rendered. -/
theorem linkRendered_of_draft (hnavigation : o.wantsNavigation = true)
    (hanchors : o.anchors = none) {events more : List Event} {target heading : Option Text}
    {hasLabel : Bool} {line : Int} (frame : Frame) (frames : List Frame) {anchor : Text}
    (hbody : bodyEvents source
      = events ++ .finish (.link .pod target heading hasLabel line) :: more)
    (hframes : (scannedDraft source o events).frames = frame :: frames)
    (hrendered : (renderLink (scannedDraft source o events).sections .pod target heading hasLabel
      frame.content).text = anchorLink anchor (stripQuotes frame.content.text)) :
    LinkRendered file source o (heading.getD []) anchor := by
  have hwriter : writerAfter file source o (.docStart (sourceInfo file source) :: events)
      = (conversionDesk file source o).writer (scannedDraft source o events) :=
    writerAfter_scanned hnavigation hanchors hbody
  refine ⟨.docStart (sourceInfo file source) :: events, more ++ [.docEnd (sourceErrata source)],
    target, heading, hasLabel, line,
    (conversionDesk file source o).page (scannedDraft source o events), frame, frames, ?_, ?_, hframes, rfl, ?_⟩
  · rw [sourceEvents_eq, hbody, List.cons_append, List.append_assoc, List.cons_append]
  · rw [hwriter]
    rfl
  · rw [hwriter]
    exact hrendered

/-- What is looked up in the sections of a draft is registered there or was scanned. -/
theorem mem_of_lookup {events : List Event} {name anchor : Text}
    (h : (scannedDraft source o events).sections.lookup name = some anchor) :
    name ∈ (scannedDraft source o events).sections.texts ∨ name ∈ scanTexts source o := by
  refine (Registry.exists_lookup_iff.1 ⟨anchor, h⟩).imp_right fun hkey => ?_
  rw [supplied_scannedDraft, scannedRegistry, Registry.mem_keys_supplied] at hkey
  exact hkey.2

/-- What comes after a place in the source registers more headings. -/
theorem exists_registerAll_scannedPage {events more : List Event}
    (hbody : bodyEvents source = events ++ more) :
    ∃ headings, (scannedPage source o).sections
      = (scannedDraft source o events).sections.registerAll headings := by
  obtain ⟨headings, h⟩ := Draft.exists_registerAll_run ⟨o.hasTitle, true⟩
    (scannedDraft source o events) more
  refine ⟨headings, ?_⟩
  rw [scannedPage, sections_draftOf, draftAfter, hbody, Draft.run_append]
  exact h

theorem faithful_scannedDraft (source : Text) (o : Options) (events : List Event) :
    (scannedDraft source o events).sections.Faithful := by
  obtain ⟨headings, h⟩ := exists_registerAll_scannedDraft source o events
  rw [h]
  exact Registry.faithful_registerAll (Registry.faithful_suppliedWith (scanTexts source o)) headings

/-- A heading that was scanned is written, unless it is `NAME` and the title is not
given. -/
theorem mem_scannedPage_of_mem_scan (hfree : LinkFreeHeadings source) {name : Text}
    (hname : name = ofString "NAME" → o.hasTitle = true) (h : name ∈ scanTexts source o) :
    name ∈ (scannedPage source o).sections.texts := by
  obtain ⟨heads, hheads⟩ := exists_registered hfree
  obtain ⟨texts, hregistered, htexts⟩ := hheads ⟨o.hasTitle, true⟩ (o.title.getD [])
    (scannedRegistry source o) rfl
  obtain ⟨texts', hregistered', htexts'⟩ := hheads ⟨o.hasTitle, true⟩ (o.title.getD []) .empty rfl
  have hscan : scanTexts source o = texts' := htexts'
  have hpage : (scannedPage source o).sections.texts = texts := htexts
  rw [hscan] at h
  rw [hpage]
  exact hregistered.mem_texts (hregistered'.mem_heads h) hname

/-- A section that was looked up is registered in the end, unless it is `NAME` and the
title is not given. -/
theorem mem_convertedSections_of_lookup (hnavigation : o.wantsNavigation = true)
    (hanchors : o.anchors = none) (hfree : LinkFreeHeadings source) {events more : List Event}
    (hbody : bodyEvents source = events ++ more) {name anchor : Text}
    (hlookup : (scannedDraft source o events).sections.lookup name = some anchor)
    (hname : name = ofString "NAME" → o.hasTitle = true) :
    name ∈ (convertedSections file source o).texts := by
  rw [convertedSections_eq file source o hnavigation hanchors]
  rcases mem_of_lookup hlookup with hmem | hmem
  · obtain ⟨headings, hfinal⟩ := exists_registerAll_scannedPage (o := o) hbody
    rw [hfinal, Registry.texts_registerAll]
    exact List.mem_append_left _ hmem
  · exact mem_scannedPage_of_mem_scan hfree hname hmem

/-- A link to a section that is registered in the end leads to it. -/
theorem linkLands_of_mem (hnavigation : o.wantsNavigation = true) (hanchors : o.anchors = none)
    {events more : List Event} (hbody : bodyEvents source = events ++ more) {name anchor : Text}
    (hlookup : (scannedDraft source o events).sections.lookup name = some anchor)
    (hmem : name ∈ (convertedSections file source o).texts) :
    LinkLands file source o name anchor := by
  have hfaithful := faithful_scannedDraft source o events
  have hanchored : (scannedPage source o).Anchored := anchored_draftOf _ _ rfl source
  obtain ⟨headings, hfinal⟩ := exists_registerAll_scannedPage (o := o) hbody
  have hnodup : (scannedPage source o).sections.used.Nodup := by
    rw [hfinal]
    exact (Registry.faithful_registerAll hfaithful headings).nodup
  unfold LinkLands
  rw [convertedSections_eq file source o hnavigation hanchors] at hmem ⊢
  rcases hfaithful.lookup_registerAll hlookup headings with ⟨s, hfirst, rfl, -⟩ | ⟨hnone, -⟩
  · rw [← hfinal] at hfirst
    exact ⟨s, hfirst, rfl, hanchored.filter_eq hnodup (List.mem_of_find?_eq_some hfirst)⟩
  · rw [← hfinal] at hnone
    exact absurd hmem hnone

theorem mem_of_linkLands {name anchor : Text} (h : LinkLands file source o name anchor) :
    name ∈ (convertedSections file source o).texts := by
  obtain ⟨s, hfirst, -, -⟩ := h
  have htext : s.text = name := by simpa using List.find?_some hfirst
  exact List.mem_map.2 ⟨s, List.mem_of_find?_eq_some hfirst, htext⟩

end

/-- In a source whose top-level headings have no links, a section link leads to its
section exactly if it does not lead to a `NAME` that is not written; with a title it
always does. -/
theorem section_link_lands_iff (file source : Text) (o : Options)
    (hnavigation : o.wantsNavigation = true) (hanchors : o.anchors = none)
    (hfree : LinkFreeHeadings source) (name anchor : Text)
    (hlink : LinkRendered file source o name anchor) :
    (convert file source o).output
        = (conversionDesk file source o).finished (scannedPage source o)
      ∧ (LinkLands file source o name anchor
        ↔ (name = ofString "NAME" → name ∈ (convertedSections file source o).texts))
      ∧ (o.hasTitle = true → LinkLands file source o name anchor) := by
  obtain ⟨events, more, hbody, hlookup⟩ := lookup_of_linkRendered hnavigation hanchors hlink
  have hlands : name ∈ (convertedSections file source o).texts →
      LinkLands file source o name anchor := linkLands_of_mem hnavigation hanchors hbody hlookup
  have hwritten : (name = ofString "NAME" → o.hasTitle = true) →
      name ∈ (convertedSections file source o).texts :=
    mem_convertedSections_of_lookup hnavigation hanchors hfree hbody hlookup
  refine ⟨?_, ⟨?_, ?_⟩, ?_⟩
  · rw [(convert_run (create_resolved file source hnavigation hanchors)).1,
      pageDraft_resolved file source hnavigation]
    rfl
  · intro h _
    exact mem_of_linkLands h
  · intro hname
    refine hlands ?_
    by_cases heq : name = ofString "NAME"
    · exact hname heq
    · exact hwritten fun h => absurd h heq
  · intro htitled
    exact hlands (hwritten fun _ => htitled)

/-- A source with a link to a section that comes later. -/
def forwardLink : Text := "=head1 BAR\n\nL</FOO>\n\n=head1 FOO\n"

theorem split_forwardLink : Paragraph.split forwardLink
    = [⟨.command "head1", 1, ["BAR"]⟩, ⟨.ordinary, 3, ["L</FOO>"]⟩,
      ⟨.command "head1", 5, ["FOO"]⟩] := by
  decide +kernel

/-- The events of that source before the end of the link. -/
def beforeForwardLink : List Event :=
  [.start (.head 1 1), .text "BAR", .finish (.head 1 1), .start (.para 3),
    .start (.link .pod none (some "FOO") false 3), .text "\"FOO\""]

theorem bodyEvents_forwardLink : bodyEvents forwardLink
    = beforeForwardLink ++ .finish (.link .pod none (some "FOO") false 3)
      :: [.finish (.para 3), .start (.head 1 5), .text "FOO", .finish (.head 1 5)] := by
  rw [bodyEvents, split_forwardLink]
  cbv

theorem scanTexts_forwardLink : scanTexts forwardLink contentsPage = ["BAR", "FOO"] := by
  rw [scanTexts, scanDraft, sections_draftOf, draftAfter, bodyEvents_forwardLink, split_forwardLink]
  decide +kernel

theorem linkRendered_forwardLink :
    LinkRendered defaultFileName forwardLink contentsPage "FOO" "S2" := by
  refine linkRendered_of_draft rfl rfl ⟨false, .ofText "\"FOO\""⟩ [⟨false, .empty⟩]
    bodyEvents_forwardLink ?_ ?_
  · rw [scannedDraft, scannedRegistry, scanTexts_forwardLink, draftAfter, split_forwardLink]
    decide +kernel
  · rw [scannedDraft, scannedRegistry, scanTexts_forwardLink, draftAfter, split_forwardLink]
    decide +kernel

/-- A link to a section that comes later leads to it. -/
theorem section_link_lands_forward :
    contentsPage.wantsNavigation = true ∧ contentsPage.anchors = none
      ∧ LinkFreeHeadings forwardLink
      ∧ LinkRendered defaultFileName forwardLink contentsPage "FOO" "S2"
      ∧ LinkLands defaultFileName forwardLink contentsPage "FOO" "S2" := by
  have hfree : LinkFreeHeadings forwardLink := by
    rw [LinkFreeHeadings, split_forwardLink]
    decide +kernel
  obtain ⟨-, hlands, -⟩ := section_link_lands_iff defaultFileName forwardLink contentsPage rfl rfl
    hfree "FOO" "S2" linkRendered_forwardLink
  exact ⟨rfl, rfl, hfree, linkRendered_forwardLink, hlands.2 fun h => absurd h (by decide)⟩

/-- A source with a second `NAME`.  The paragraph under the first one is the title of the
page only if the link in it is left as it is: then the second one is a section.  It is
left so by the scan, which knows no anchor yet, but not by the conversion. -/
def secondName : Text :=
  "=head1 NAME\n\nfoo L<-|/BAR> baz\n\n=head1 NAME\n\n=head1 BAR\n\nL</NAME>\n"

theorem split_secondName : Paragraph.split secondName
    = [⟨.command "head1", 1, ["NAME"]⟩, ⟨.ordinary, 3, ["foo L<-|/BAR> baz"]⟩,
      ⟨.command "head1", 5, ["NAME"]⟩, ⟨.command "head1", 7, ["BAR"]⟩,
      ⟨.ordinary, 9, ["L</NAME>"]⟩] := by
  decide +kernel

/-- The events of that source before the end of the second link. -/
def beforeNameLink : List Event :=
  [.start (.head 1 1), .text "NAME", .finish (.head 1 1),
    .start (.para 3), .text "foo ", .start (.link .pod none (some "BAR") true 3), .text "-",
    .finish (.link .pod none (some "BAR") true 3), .text " baz", .finish (.para 3),
    .start (.head 1 5), .text "NAME", .finish (.head 1 5),
    .start (.head 1 7), .text "BAR", .finish (.head 1 7),
    .start (.para 9), .start (.link .pod none (some "NAME") false 9), .text "\"NAME\""]

theorem bodyEvents_secondName : bodyEvents secondName
    = beforeNameLink ++ .finish (.link .pod none (some "NAME") false 9)
      :: [.finish (.para 9)] := by
  rw [bodyEvents, split_secondName]
  cbv

theorem scanTexts_secondName : scanTexts secondName contentsPage = ["NAME", "BAR"] := by
  rw [scanTexts, scanDraft, sections_draftOf, draftAfter, bodyEvents_secondName, split_secondName]
  decide +kernel

theorem sections_secondName :
    (scannedPage secondName contentsPage).sections.sections = [⟨"BAR", "BAR", "S2"⟩] := by
  rw [scannedPage, scannedRegistry, scanTexts_secondName, sections_draftOf, draftAfter,
    bodyEvents_secondName, split_secondName]
  decide +kernel

theorem linkRendered_secondName :
    LinkRendered defaultFileName secondName contentsPage "NAME" "S1" := by
  refine linkRendered_of_draft rfl rfl ⟨false, .ofText "\"NAME\""⟩ [⟨false, .empty⟩]
    bodyEvents_secondName ?_ ?_
  · rw [scannedDraft, scannedRegistry, scanTexts_secondName, draftAfter, split_secondName]
    decide +kernel
  · rw [scannedDraft, scannedRegistry, scanTexts_secondName, draftAfter, split_secondName]
    decide +kernel

/-- No top-level heading has a link, and still a section link leads nowhere. -/
theorem section_link_dangles :
    contentsPage.wantsNavigation = true ∧ contentsPage.anchors = none
      ∧ LinkFreeHeadings secondName
      ∧ LinkRendered defaultFileName secondName contentsPage "NAME" "S1"
      ∧ ¬ LinkLands defaultFileName secondName contentsPage "NAME" "S1" := by
  refine ⟨rfl, rfl, ?_, linkRendered_secondName, ?_⟩
  · rw [LinkFreeHeadings, split_secondName]
    decide +kernel
  · rintro ⟨s, hfirst, -, -⟩
    rw [convertedSections_eq _ _ _ rfl rfl, sections_secondName] at hfirst
    have hnone : List.find? (fun s => s.text == ("NAME" : Text))
        [(⟨"BAR", "BAR", "S2"⟩ : Section)] = none := by decide
    rw [hnone] at hfirst
    cases hfirst

end PodLoom
