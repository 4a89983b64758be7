import Mathlib
import PodLoom.Proofs.Thread.Sections
import PodLoom.Proofs.Thread.Tidy

set_option autoImplicit false

/-!
# The output is well-formed thread

If the title is given and the source has no raw thread, whatever else the source and the
options hold is text: no bracket or backslash of it opens or closes anything in the
output (`convert_wellFormed`).
-/

namespace PodLoom

open Text CodeUnit
open PodLoom.Pod (Event Paragraph bodyEvents isContentless)
open PodLoom.Thread (Lawful Options Registry onlyMacros)

/-- Thread is well-formed: no bracket is closed that was not open, all are closed in the
end, and each backslash is the first of a doubled pair or starts a macro. -/
structure WellFormed (t : Text) : Prop where
  ahead : ∀ front, front <+: t → front.count closeBracket ≤ front.count openBracket
  closed : t.count closeBracket = t.count openBracket
  macros : onlyMacros t = true

theorem wellFormed_of_lawful {t : Text} (h : Lawful t) : WellFormed t := by
  refine ⟨?_, by simpa using Thread.count_of_depthAfter h.balanced, h.macros⟩
  intro front hfront
  obtain ⟨depth, hdepth⟩ := Thread.exists_depthAfter_of_prefix h.balanced hfront
  have hcount := Thread.count_of_depthAfter hdepth
  omega

/-- With no supplied anchors, the anchors that a conversion starts from do no harm. -/
theorem exists_tidy_create (file source : Text) {o : Options} (hanchors : o.anchors = none) :
    ∃ sections, Registry.create ((resolveAnchors file source o).1.getD []) = .ok sections
      ∧ sections.Tidy := by
  cases hnavigation : o.wantsNavigation with
  | true =>
    exact ⟨_, create_resolved file source hnavigation hanchors,
      Registry.tidy_suppliedWith (scanTexts source o)⟩
  | false =>
    have hnone : (resolveAnchors file source o).1 = none := by
      simp [resolveAnchors, hanchors, hnavigation]
    exact ⟨.empty, by rw [hnone]; exact create_nil, Registry.tidy_empty⟩

/-- The draft of a source without raw thread, written under a given title, is tidy, and
its lists are closed. -/
theorem tidy_draftOf (k : Thread.Desk) {p : Thread.Policy} (htitled : p.titled = true)
    (title : Text) {sections : Registry} (hsections : sections.Tidy) {source : Text}
    (hdata : ∀ target line, Event.start (.data target line) ∉ bodyEvents source) :
    (draftOf p title sections source).Tidy k ∧ (draftOf p title sections source).scopes = [] := by
  have hstart := Thread.tidy_start (k := k) p title (isContentless (Paragraph.split source))
    hsections
  have hbody := Thread.tidy_run htitled hstart (Pod.regular_bodyEvents source) hdata
  unfold draftOf draftAfter
  cases hcontentless : isContentless (Paragraph.split source) with
  | false =>
    rw [hcontentless] at hbody
    exact Thread.tidy_complete hbody
  | true =>
    rw [hcontentless] at hbody
    refine ⟨hbody, ?_⟩
    rw [bodyEvents, Pod.deliver_contentless hcontentless]
    rfl

/-- The output of a conversion, which a failure holds too, is well-formed thread if the
title is given, no anchors are supplied and the source has no raw thread. -/
theorem convert_wellFormed (file source : Text) (o : Options) (htitle : o.hasTitle = true)
    (hanchors : o.anchors = none)
    (hdata : ∀ target line, Event.start (.data target line) ∉ Pod.sourceEvents file source) :
    WellFormed (convert file source o).output
      ∧ ((convert file source o).failure = none
        ∨ ∃ errata, (convert file source o).failure
          = some (.syntaxErrors file errata (convert file source o).output)) := by
  obtain ⟨sections, hcreate, hsections⟩ := exists_tidy_create file source hanchors
  obtain ⟨houtput, -, hfailure⟩ := convert_run hcreate
  have hbody : ∀ target line, Event.start (.data target line) ∉ bodyEvents source := by
    intro target line hmem
    refine hdata target line ?_
    rw [sourceEvents_eq]
    exact List.mem_cons_of_mem _ (List.mem_append_left _ hmem)
  obtain ⟨htidy, hclosed⟩ := tidy_draftOf (conversionDesk file source o)
    (p := (resolvedOptions file source o).policy) htitle (o.title.getD []) hsections hbody
  refine ⟨?_, ?_⟩
  · rw [houtput]
    exact wellFormed_of_lawful (Thread.lawful_finished htidy hclosed)
  · rw [hfailure]
    split
    · exact .inl rfl
    · exact .inr ⟨_, rfl⟩

/-- A source whose text and codes are full of markup. -/
def markupSource : Text := "=head1 \\bold[\n\nC<]> [\n"

theorem split_markupSource : Paragraph.split markupSource
    = [⟨.command "head1", 1, ["\\bold["]⟩, ⟨.ordinary, 3, ["C<]> ["]⟩] := by
  decide +kernel

theorem bodyEvents_markupSource : bodyEvents markupSource
    = [.start (.head 1 1), .text "\\bold[", .finish (.head 1 1), .start (.para 3),
      .start (.format "C" 3), .text "]", .finish (.format "C" 3), .text " [",
      .finish (.para 3)] := by
  rw [bodyEvents, split_markupSource]
  cbv

/-- Markup in a source and in a title is text. -/
theorem convert_wellFormed_markup :
    let o : Options := { contentsPage with title := some "]\\" }
    o.hasTitle = true ∧ o.anchors = none
      ∧ (∀ target line, Event.start (.data target line)
        ∉ Pod.sourceEvents defaultFileName markupSource)
      ∧ WellFormed (convert defaultFileName markupSource o).output := by
  intro o
  have hdata : ∀ target line, Event.start (.data target line)
      ∉ Pod.sourceEvents defaultFileName markupSource := by
    rw [sourceEvents_eq, bodyEvents_markupSource]
    simp
  exact ⟨rfl, rfl, hdata, (convert_wellFormed defaultFileName markupSource o rfl rfl hdata).1⟩

end PodLoom
