import PodLoom.Proofs.Conversion
import PodLoom.Proofs.Thread.Growth
import PodLoom.Proofs.Thread.Registry

set_option autoImplicit false

/-!
# The sections of a draft

An event registers a heading or leaves the sections as they are, so the sections of a
page come from registering headings in their order (`exists_registerAll_run`).  Those of
the scan are numbered, and the mapping it finds holds the headings where they are first
met (`scanAnchors_numbered`), so it can always be supplied to a conversion
(`create_resolved`).
-/

namespace PodLoom

open Text CodeUnit
open PodLoom.Pod (Event Paragraph bodyEvents isContentless)
open PodLoom.Thread (Draft Options Policy Registry)

namespace Thread.Draft

/-! ## Registrations -/

/-- The heading that an event registers, if it registers one. -/
theorem step_sections (p : Policy) (d : Draft) (e : Event) :
    (d.step p e).sections = d.sections
      ∨ ∃ text label, (d.step p e).sections = (d.sections.register text label).2 := by
  rcases step_grown p d e with ⟨-, h, -⟩ | ⟨-, -, h, -⟩ | ⟨-, -, text, label, h, -⟩
  · exact .inl h
  · exact .inl h
  · exact .inr ⟨text, label, h⟩

/-- The sections of a draft after events: headings registered in order. -/
theorem exists_registerAll_run (p : Policy) (d : Draft) (events : List Event) :
    ∃ headings, (d.run p events).sections = d.sections.registerAll headings := by
  induction events generalizing d with
  | nil => exact ⟨[], rfl⟩
  | cons e rest ih =>
    obtain ⟨headings, hrest⟩ := ih (d.step p e)
    rcases d.step_sections p e with h | ⟨text, label, h⟩
    · exact ⟨headings, by rw [← h]; exact hrest⟩
    · exact ⟨(text, label) :: headings, by rw [Registry.registerAll_cons, ← h]; exact hrest⟩

theorem sections_start (p : Policy) (title : Text) (contentless : Bool) (sections : Registry) :
    (start p title contentless sections).sections = sections := by
  unfold start
  split <;> rfl

theorem sections_complete (contentless : Bool) (d : Draft) :
    (d.complete contentless).sections = d.sections := (extends_complete contentless d).2.1

end Thread.Draft

open Thread.Draft

theorem exists_registerAll_draftAfter (p : Policy) (title : Text) (sections : Registry)
    (source : Text) (events : List Event) :
    ∃ headings, (draftAfter p title sections source events).sections
      = sections.registerAll headings := by
  obtain ⟨headings, h⟩ := exists_registerAll_run p
    (start p title (isContentless (Paragraph.split source)) sections) events
  exact ⟨headings, by rw [draftAfter, h, sections_start]⟩

theorem sections_draftOf (p : Policy) (title : Text) (sections : Registry) (source : Text) :
    (draftOf p title sections source).sections
      = (draftAfter p title sections source (bodyEvents source)).sections :=
  sections_complete _ _

theorem exists_registerAll_draftOf (p : Policy) (title : Text) (sections : Registry)
    (source : Text) :
    ∃ headings, (draftOf p title sections source).sections = sections.registerAll headings := by
  rw [sections_draftOf]
  exact exists_registerAll_draftAfter p title sections source _

/-! ## The scanned anchors -/

/-- The headings that the scan registers, without formatting. -/
def scanTexts (source : Text) (o : Options) : List Text := (scanDraft source o).sections.texts

/-- The scan numbers the sections, and finds the headings where they are first met. -/
theorem scanAnchors_numbered (file source : Text) (o : Options) :
    (scanAnchors file source o).1
      = Registry.numberedPairs (Registry.firstMet (scanTexts source o)) := by
  obtain ⟨headings, h⟩ := exists_registerAll_draftOf ⟨o.hasTitle, true⟩ (o.title.getD []) .empty
    source
  have hnumbered : (scanDraft source o).sections.Numbered := by
    have hscan : (scanDraft source o).sections = Registry.empty.registerAll headings := h
    rw [hscan]
    exact Registry.numbered_registerAll_empty headings
  rw [scanAnchors_eq, Registry.anchorMap_eq hnumbered.used]
  rfl

/-- The registry that the conversion of a source with scanned anchors starts from. -/
def scannedRegistry (source : Text) (o : Options) : Registry :=
  .suppliedWith (Registry.firstMet (scanTexts source o))

theorem create_scanAnchors (file source : Text) (o : Options) :
    Registry.create (scanAnchors file source o).1 = .ok (scannedRegistry source o) := by
  rw [scanAnchors_numbered]
  exact Registry.create_numberedPairs (scanTexts source o)

/-- The draft of a page with scanned anchors. -/
def scannedPage (source : Text) (o : Options) : Draft :=
  draftOf ⟨o.hasTitle, true⟩ (o.title.getD []) (scannedRegistry source o) source

/-- With navigation and no supplied anchors, a page is converted with scanned ones. -/
theorem create_resolved (file source : Text) {o : Options}
    (hnavigation : o.wantsNavigation = true) (hanchors : o.anchors = none) :
    Registry.create ((resolveAnchors file source o).1.getD []) = .ok (scannedRegistry source o) := by
  rw [resolveAnchors_scanned file source hnavigation hanchors]
  exact create_scanAnchors file source o

theorem policy_resolved (file source : Text) {o : Options}
    (hnavigation : o.wantsNavigation = true) :
    (resolvedOptions file source o).policy = ⟨o.hasTitle, true⟩ := by
  have htracks : (resolvedOptions file source o).tracksSections = true := by
    have hsame : (resolvedOptions file source o).wantsNavigation = o.wantsNavigation := rfl
    rw [Options.tracksSections, hsame, hnavigation]
    rfl
  rw [Options.policy, htracks]
  rfl

theorem pageDraft_resolved (file source : Text) {o : Options}
    (hnavigation : o.wantsNavigation = true) (sections : Registry) :
    pageDraft (resolvedOptions file source o) sections source
      = draftOf ⟨o.hasTitle, true⟩ (o.title.getD []) sections source := by
  rw [pageDraft, policy_resolved file source hnavigation]
  rfl

end PodLoom
