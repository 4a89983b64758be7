import Mathlib
import PodLoom.Proofs.Thread.Headings

set_option autoImplicit false

/-!
# The scan for anchors and the conversion

The conversion of a page with navigation is supplied with the anchors that the scan
found by heading text.  It numbers the sections as the scan did, and ends up with the
same mapping, exactly if it meets new headings at the same places (`scan_agrees_iff`).

It does when a title is given and no top-level heading has a link.  A link in a heading
may be shown differently once its section has an anchor; then the conversion looks for
a heading that the scan did not find (`scan_disagrees_on_linked_heading`).
-/

namespace PodLoom

open Text
open PodLoom.Pod (Paragraph bodyEvents)
open PodLoom.Thread (Options Registry Writer)

/-- The sections that a conversion registers. -/
def convertedSections (file source : Text) (o : Options) : Registry :=
  (writerAfter file source o (Pod.sourceEvents file source)).sections

/-- The sections that the scan for anchors registers. -/
def scannedSections (file source : Text) (o : Options) : Registry :=
  (receiveSource file source
    (Writer.on .fresh { o with contents := true, anchors := none })).2.sections

/-- The scan and the conversion agree: the sections are numbered in their order, and the
mapping from headings to anchors is the one that was scanned. -/
def ScanAgrees (file source : Text) (o : Options) : Prop :=
  let sections := convertedSections file source o
  sections.used = Registry.numbering sections.size
    ∧ sections.anchorMap = (scanAnchors file source o).1

section

variable (file source : Text) (o : Options)

theorem scannedSections_eq : scannedSections file source o = (scanDraft source o).sections := by
  obtain ⟨w', hrun, -, hsections, -, -⟩ := receiveAll_sourceEvents_run
    (w := startWriter file source { o with contents := true, anchors := none }) rfl create_nil
    file source
  rw [scannedSections, receiveSource_eq, hrun]
  exact hsections

theorem convertedSections_eq (hnavigation : o.wantsNavigation = true)
    (hanchors : o.anchors = none) :
    convertedSections file source o = (scannedPage source o).sections := by
  have hcreate := create_resolved file source hnavigation hanchors
  rw [convertedSections, (writerAfter_sourceEvents hcreate).2,
    pageDraft_resolved file source hnavigation]
  rfl

/-- With a title, and without links in top-level headings, both meet all the headings. -/
theorem texts_scannedPage (hfree : LinkFreeHeadings source) (htitled : o.hasTitle = true) :
    (scannedPage source o).sections.texts = scanTexts source o := by
  obtain ⟨heads, hheads⟩ := exists_registered hfree
  obtain ⟨texts, hregistered, htexts⟩ := hheads ⟨o.hasTitle, true⟩ (o.title.getD [])
    (scannedRegistry source o) rfl
  obtain ⟨texts', hregistered', htexts'⟩ := hheads ⟨o.hasTitle, true⟩ (o.title.getD []) .empty rfl
  have hpage : (scannedPage source o).sections.texts = texts := htexts
  have hscan : scanTexts source o = texts' := htexts'
  rw [hpage, hscan, hregistered.eq_of_titled htitled, hregistered'.eq_of_titled htitled]

end

/-- The scan and the conversion agree exactly if they first meet the same headings at the
same places.  They do if the title is given and no top-level heading has a link. -/
theorem scan_agrees_iff (file source : Text) (o : Options) (hnavigation : o.wantsNavigation = true)
    (hanchors : o.anchors = none) :
    (ScanAgrees file source o
        ↔ Registry.firstMet (convertedSections file source o).texts
          = Registry.firstMet (scannedSections file source o).texts)
      ∧ (LinkFreeHeadings source → o.hasTitle = true → ScanAgrees file source o) := by
  have hiff : ScanAgrees file source o
      ↔ Registry.firstMet (convertedSections file source o).texts
        = Registry.firstMet (scannedSections file source o).texts := by
    obtain ⟨headings, hheadings⟩ := exists_registerAll_draftOf ⟨o.hasTitle, true⟩
      (o.title.getD []) (scannedRegistry source o) source
    have hpage : convertedSections file source o
        = (scannedRegistry source o).registerAll headings :=
      (convertedSections_eq file source o hnavigation hanchors).trans hheadings
    unfold ScanAgrees
    rw [hpage, scanAnchors_numbered, scannedSections_eq]
    exact Registry.numbered_iff (scanTexts source o) headings
  refine ⟨hiff, fun hfree htitled => hiff.2 ?_⟩
  rw [convertedSections_eq file source o hnavigation hanchors,
    texts_scannedPage source o hfree htitled, scannedSections_eq]
  rfl

/-- Headings with formatting, which are numbered as scanned. -/
theorem scan_agrees_on_formatted_headings :
    let source : Text := "=head1 B<FOO>\n\n=head1 BAR\n\n=head1 FOO\n"
    let o : Options := { contentsPage with title := some "T" }
    o.wantsNavigation = true ∧ o.anchors = none ∧ LinkFreeHeadings source ∧ o.hasTitle = true
      ∧ ScanAgrees defaultFileName source o := by
  intro source o
  have hfree : LinkFreeHeadings source := by decide +kernel
  exact ⟨rfl, rfl, hfree, rfl, (scan_agrees_iff defaultFileName source o rfl rfl).2 hfree rfl⟩

/-- A source with a link in a heading.  The scan, which knows no anchor yet, leaves the
link in quotes; the conversion shows it without them. -/
def linkedHeading : Text := "=head1 See L</FOO>\n\n=head1 FOO\n"

theorem split_linkedHeading : Paragraph.split linkedHeading
    = [⟨.command "head1", 1, ["See L</FOO>"]⟩, ⟨.command "head1", 3, ["FOO"]⟩] := by
  decide +kernel

theorem bodyEvents_linkedHeading : bodyEvents linkedHeading
    = [.start (.head 1 1), .text "See ", .start (.link .pod none (some "FOO") false 1),
      .text "\"FOO\"", .finish (.link .pod none (some "FOO") false 1), .finish (.head 1 1),
      .start (.head 1 3), .text "FOO", .finish (.head 1 3)] := by
  rw [bodyEvents, split_linkedHeading]
  cbv

theorem scanTexts_linkedHeading :
    scanTexts linkedHeading contentsPage = ["See \"FOO\"", "FOO"] := by
  rw [scanTexts, scanDraft, sections_draftOf, draftAfter, bodyEvents_linkedHeading,
    split_linkedHeading]
  decide +kernel

theorem sections_linkedHeading : (scannedPage linkedHeading contentsPage).sections.sections
    = [⟨"See FOO", "See \\link[#S2][FOO]", "S3"⟩, ⟨"FOO", "FOO", "S2"⟩] := by
  rw [scannedPage, scannedRegistry, scanTexts_linkedHeading, sections_draftOf, draftAfter,
    bodyEvents_linkedHeading, split_linkedHeading]
  decide +kernel

/-- The first section of that source gets the third anchor. -/
theorem scan_disagrees_on_linked_heading :
    contentsPage.wantsNavigation = true ∧ contentsPage.anchors = none
      ∧ ¬ ScanAgrees defaultFileName linkedHeading contentsPage := by
  refine ⟨rfl, rfl, ?_⟩
  rintro ⟨hused, -⟩
  have hsections := convertedSections_eq defaultFileName linkedHeading contentsPage rfl rfl
  rw [hsections, Registry.used, Registry.size, sections_linkedHeading] at hused
  exact absurd hused (by decide)

end PodLoom
