import PodLoom.Proofs.Pod.Ranges
import PodLoom.Proofs.Thread.Header
import PodLoom.Proofs.Thread.Sections

set_option autoImplicit false

/-!
# How a conversion ends

If the supplied anchors are anchors, a conversion fails for one reason only, which is that the
source has errors (`convert_outcome`).  The page is written all the same: it is empty if
the source has no content, and else it is complete, with its signature in the end and one
header at most.
-/

namespace PodLoom

open Text CodeUnit
open PodLoom.Pod (Erratum Paragraph bodyEvents isContentless)
open PodLoom.Thread (Desk Draft Options Policy Registry Sink Writer)

/-! ## The anchors of a conversion -/

/-- Anchors that are such make a registry. -/
theorem exists_create {anchors : List (Text × Text)}
    (h : ∀ pair ∈ anchors, Thread.isAnchor pair.2 = true) :
    ∃ sections, Registry.create anchors = .ok sections := by
  rcases Registry.create_cases anchors with ⟨heading, anchor, hmem, hnone, -⟩ | ⟨-, hok⟩
  · rw [h (heading, anchor) (Keyed.mem_of_mem_inOrder hmem)] at hnone
    cases hnone
  · exact ⟨_, hok⟩

/-- Whether they are supplied, scanned or none, the anchors of a conversion make a registry. -/
theorem exists_create_resolved (file source : Text) {o : Options}
    (hanchors : ∀ pair ∈ o.anchors.getD [], Thread.isAnchor pair.2 = true) :
    ∃ sections, Registry.create ((resolveAnchors file source o).1.getD []) = .ok sections := by
  cases hsupplied : o.anchors with
  | some anchors =>
    have hresolved : (resolveAnchors file source o).1 = some anchors := by
      simp [resolveAnchors, hsupplied]
    rw [hresolved]
    rw [hsupplied] at hanchors
    exact exists_create hanchors
  | none =>
    cases hnavigation : o.wantsNavigation with
    | true => exact ⟨_, create_resolved file source hnavigation hsupplied⟩
    | false =>
      have hnone : (resolveAnchors file source o).1 = none := by
        simp [resolveAnchors, hsupplied, hnavigation]
      rw [hnone]
      exact ⟨_, create_nil⟩

/-! ## The end of a page -/

/-- The last line of a page. -/
def signature : Text := "\\signature\n"

namespace Thread

/-- A chunk that does not start with a closing bracket comes last in the text of a sink. -/
theorem Sink.suffix_emit {chunk : Text} (h : chunk.head? ≠ some closeBracket) (navigation : Text)
    (s : Sink) : chunk <:+ Sink.finished navigation (Sink.emit chunk s) := by
  rw [Sink.finished_emit, Sink.admitted_of_head h]
  exact List.suffix_append _ _

/-- A complete page ends with its signature. -/
theorem Desk.signature_suffix (k : Desk) (d : Draft) :
    signature <:+ k.finished (d.complete false) := by
  have hsink : k.sink (d.complete false).pieces
      = Sink.emit signature (k.sink (d.exitEach d.scopes).pieces) := by
    show k.sink ((d.exitEach d.scopes).pieces ++ [.passage signature]) = _
    rw [k.sink_append]
    rfl
  rw [Desk.finished, hsink]
  exact Sink.suffix_emit (by decide) _ _

end Thread

/-! ## The outcome of a conversion -/

theorem headerKept_pageDraft (o : Options) (sections : Registry) (source : Text) :
    (pageDraft o sections source).HeaderKept :=
  (Draft.HeaderKept.start _ _ _ sections).run _ _ |>.complete _

/-- The text of a page is empty if its source has no content, and else ends with the
signature. -/
theorem finished_pageDraft (file source : Text) (o : Options) (sections : Registry) :
    let written := (conversionDesk file source o).finished
      (pageDraft (resolvedOptions file source o) sections source)
    if isContentless (Paragraph.split source) = true then written = []
      else signature <:+ written := by
  intro written
  split
  · rename_i hcontentless
    have hpieces : (pageDraft (resolvedOptions file source o) sections source).pieces = [] := by
      rw [pageDraft, draftOf, hcontentless]
      exact pieces_draftAfter_contentless hcontentless _ _ _
    show Sink.finished _ ((conversionDesk file source o).sink _) = []
    rw [hpieces]
    rfl
  · rename_i hcontent
    show signature <:+ (conversionDesk file source o).finished (Draft.complete _ _)
    rw [Bool.eq_false_iff.2 hcontent]
    exact (conversionDesk file source o).signature_suffix _

/-- The errors of a source are those that reading it found. -/
theorem sourceErrata_eq_nil_iff (source : Text) :
    sourceErrata source = [] ↔ (Pod.deliver (Paragraph.split source)).errata = [] := by
  have hperm := List.mergeSort_perm (Pod.deliver (Paragraph.split source)).errata
    fun a b => decide (a.line ≤ b.line)
  constructor
  · intro h
    rw [sourceErrata, Pod.sortErrata] at h
    rw [h] at hperm
    exact hperm.nil_eq.symm
  · intro h
    rw [sourceErrata, h]
    exact List.mergeSort_nil

/-- Whether there are errors, by the errors in the order of their lines. -/
theorem isEmpty_sourceErrata (source : Text) :
    (sourceErrata source).isEmpty = true
      ↔ (Pod.deliver (Paragraph.split source)).errata = [] :=
  List.isEmpty_iff.trans (sourceErrata_eq_nil_iff source)

/-- What a writer reports of a source at the end. -/
def sourceOutcome (file source : Text) : Except Failure Unit :=
  if (Pod.deliver (Paragraph.split source)).errata = [] then .ok ()
  else .error (.syntaxErrors file (sourceErrata source) [])

/-- A scan for anchors fails only because the source has errors. -/
theorem scan_outcome (file source : Text) (o : Options) :
    (receiveSource file source (Writer.on .fresh { o with contents := true, anchors := none })).1
      = sourceOutcome file source := by
  obtain ⟨w, hrun, -⟩ := receiveAll_sourceEvents_run
    (w := startWriter file source { o with contents := true, anchors := none }) rfl create_nil
    file source
  rw [receiveSource_eq, hrun]
  show (if (sourceErrata source).isEmpty then _ else _) = _
  simp only [isEmpty_sourceErrata]
  rfl

/-- If the supplied anchors start with letters, a conversion, and the scan before it, fails only
because reading the source found errors, and never leaves the range of an operation.  The
output is the same either way: it is empty if the source has no content, else it ends with
the signature, and there is one header in it at most. -/
theorem convert_outcome (file source : Text) (o : Options)
    (hanchors : ∀ pair ∈ o.anchors.getD [], Thread.isAnchor pair.2 = true) :
    Pod.InRange source
      ∧ (receiveSource file source
          (Writer.on .fresh { o with contents := true, anchors := none })).1
        = sourceOutcome file source
      ∧ (convert file source o).failure
        = (if (Pod.deliver (Paragraph.split source)).errata = [] then none
          else some (.syntaxErrors file (sourceErrata source) (convert file source o).output))
      ∧ ((convert file source o).output = [] ↔ isContentless (Paragraph.split source) = true)
      ∧ (isContentless (Paragraph.split source) = false →
          signature <:+ (convert file source o).output)
      ∧ ∃ sections, Registry.create ((resolveAnchors file source o).1.getD []) = .ok sections
        ∧ (convert file source o).output = (conversionDesk file source o).finished
          (pageDraft (resolvedOptions file source o) sections source)
        ∧ (pageDraft (resolvedOptions file source o) sections source).pieces.countP (·.isHeader)
          ≤ 1 := by
  obtain ⟨sections, hcreate⟩ := exists_create_resolved file source hanchors
  obtain ⟨houtput, -, hfailure⟩ := convert_run hcreate
  have hfinished := finished_pageDraft file source o sections
  have hheader := headerKept_pageDraft (resolvedOptions file source o) sections source
  have hfirst : signature ≠ [] := by decide
  simp only [isEmpty_sourceErrata] at hfailure
  dsimp only at hfinished
  rw [← houtput] at hfinished
  refine ⟨Pod.inRange source, scan_outcome file source o, hfailure, ?_, ?_, sections, hcreate,
    houtput, ?_⟩
  · cases hcontentless : isContentless (Paragraph.split source) with
    | true =>
      rw [hcontentless, if_pos rfl] at hfinished
      exact iff_of_true hfinished rfl
    | false =>
      rw [hcontentless, if_neg Bool.false_ne_true] at hfinished
      refine iff_of_false (fun hempty => ?_) Bool.false_ne_true
      rw [hempty] at hfinished
      exact hfirst (List.suffix_nil.1 hfinished)
  · intro hcontent
    rwa [hcontent, if_neg Bool.false_ne_true] at hfinished
  · rw [hheader]
    exact Bool.toNat_le _

/-- A source with a list that is not ended. -/
def openListSource : Text := "=head1 FOO\n\n=over\n"

theorem split_openListSource : Paragraph.split openListSource
    = [⟨.command "head1", 1, ["FOO"]⟩, ⟨.command "over", 3, [[]]⟩] := by
  decide +kernel

theorem errata_openListSource : (Pod.deliver (Paragraph.split openListSource)).errata
    = [⟨3, "=over without closing =back"⟩] := by
  rw [split_openListSource]
  decide +kernel

/-- Its one error is reported, and the page is complete. -/
theorem convert_outcome_open_list :
    let o : Options := { Options.plain with anchors := some [("FOO", "foo")] }
    (∀ pair ∈ o.anchors.getD [], Thread.isAnchor pair.2 = true)
      ∧ (convert defaultFileName openListSource o).failure
        = some (.syntaxErrors defaultFileName (sourceErrata openListSource)
          (convert defaultFileName openListSource o).output)
      ∧ signature <:+ (convert defaultFileName openListSource o).output := by
  intro o
  have hanchors : ∀ pair ∈ o.anchors.getD [], Thread.isAnchor pair.2 = true := by decide
  have hcontent : isContentless (Paragraph.split openListSource) = false := by
    rw [split_openListSource]
    decide
  obtain ⟨-, -, hfailure, -, hsignature, -⟩ :=
    convert_outcome defaultFileName openListSource o hanchors
  rw [errata_openListSource, if_neg (List.cons_ne_nil _ _)] at hfailure
  exact ⟨hanchors, hfailure, hsignature hcontent⟩

end PodLoom
