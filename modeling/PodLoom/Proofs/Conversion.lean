import PodLoom.Conversion
import PodLoom.Proofs.Thread.Desk

set_option autoImplicit false

/-!
# Conversions and their drafts

A conversion into a fresh target is the draft of its source (`convert_run`): its output
is the text of the draft, its diagnostics are the warnings of the draft and the errors of
the source, and it fails if there are errors.  The scan for anchors is a conversion of
the same kind, so what it finds is a matter of drafts too.
-/

namespace PodLoom

open Text
open PodLoom.Pod (DocumentInfo Erratum Event Paragraph bodyEvents isContentless)
open PodLoom.Thread (Desk Draft Options Policy Registry Writer)

/-! ## The draft of a source -/

/-- What is known of a source before it is read. -/
def sourceInfo (file source : Text) : DocumentInfo :=
  ⟨isContentless (Paragraph.split source), Pod.revisionId? source.normalizeEndings, file⟩

/-- The errors of a source in the order of their lines. -/
def sourceErrata (source : Text) : List Erratum :=
  Pod.sortErrata (Pod.deliver (Paragraph.split source)).errata

theorem sourceEvents_eq (file source : Text) :
    Pod.sourceEvents file source
      = .docStart (sourceInfo file source)
        :: (bodyEvents source ++ [.docEnd (sourceErrata source)]) :=
  rfl

/-- The draft of the start of a source and of the given events after it. -/
def draftAfter (p : Policy) (title : Text) (sections : Registry) (source : Text)
    (events : List Event) : Draft :=
  (Draft.start p title (isContentless (Paragraph.split source)) sections).run p events

/-- The draft of a source. -/
def draftOf (p : Policy) (title : Text) (sections : Registry) (source : Text) : Draft :=
  (draftAfter p title sections source (bodyEvents source)).complete
    (isContentless (Paragraph.split source))

/-- The draft of a page. -/
def pageDraft (o : Options) (sections : Registry) (source : Text) : Draft :=
  draftOf o.policy (o.title.getD []) sections source

/-- The desk that a source is converted at. -/
def sourceDesk (file source : Text) (w : Writer) : Desk :=
  .ofDocument w (sourceInfo file source)

/-- The start of a source, and events after it, have a draft. -/
theorem receiveAll_docStart_run {w : Writer} (hfresh : w.target = .fresh) {sections : Registry}
    (hsections : Registry.create (w.options.anchors.getD []) = .ok sections) (file source : Text)
    {events : List Event} (h : ∀ e ∈ events, e.regular = true) :
    Writer.receiveAll (.docStart (sourceInfo file source) :: events) w
      = (.ok (), (sourceDesk file source w).writer
          (draftAfter w.options.policy (w.options.title.getD []) sections source events)) := by
  show (Writer.startDocument _ >>= fun _ => Writer.receiveAll events) w = _
  rw [Attempt.bind_run_ok (Desk.startDocument_run hfresh (sourceInfo file source) hsections)]
  exact (sourceDesk file source w).receiveAll_run _ h

theorem pieces_draftAfter_contentless {source : Text}
    (h : isContentless (Paragraph.split source) = true) (p : Policy) (title : Text)
    (sections : Registry) :
    (draftAfter p title sections source (bodyEvents source)).pieces = [] := by
  rw [draftAfter, bodyEvents, Pod.deliver_contentless h, h]
  rfl

/-- A writer on a fresh target receives all of a source, and does not fail before its
end. -/
theorem receiveAll_sourceEvents_run {w : Writer} (hfresh : w.target = .fresh)
    {sections : Registry}
    (hsections : Registry.create (w.options.anchors.getD []) = .ok sections)
    (file source : Text) :
    ∃ w', Writer.receiveAll (Pod.sourceEvents file source) w
        = ((sourceDesk file source w).outcome (sourceErrata source), w')
      ∧ w'.page = none
      ∧ w'.sections = (pageDraft w.options sections source).sections
      ∧ w'.diagnostics = (pageDraft w.options sections source).warnings.map
            (sourceDesk file source w).diagnostic
          ++ (sourceErrata source).map (sourceDesk file source w).errorDiagnostic
      ∧ w'.target.text = (sourceDesk file source w).finished
          (pageDraft w.options sections source) := by
  let body := draftAfter w.options.policy (w.options.title.getD []) sections source
    (bodyEvents source)
  obtain ⟨w', hend, hpage, hsections', hdiagnostics, htext⟩ :=
    (sourceDesk file source w).endDocument_run body (sourceErrata source)
      (fun h => pieces_draftAfter_contentless h _ _ _)
  obtain ⟨scopes, pieces, hcomplete⟩ :=
    body.complete_with (isContentless (Paragraph.split source))
  refine ⟨w', ?_, hpage, ?_, ?_, htext⟩
  · have hbody := receiveAll_docStart_run hfresh hsections file source
      (Pod.regular_bodyEvents source)
    have happend := Attempt.forEach_append Writer.receive
      (.docStart (sourceInfo file source) :: bodyEvents source) [.docEnd (sourceErrata source)]
    refine (congrFun happend w).trans ((Attempt.bind_run_ok hbody).trans ?_)
    show (Writer.endDocument (sourceErrata source) >>= fun _ => pure ()) _ = _
    have hdone : (Writer.endDocument (sourceErrata source) >>= fun _ => pure ())
      = Writer.endDocument (sourceErrata source) := bind_pure _
    rw [hdone]
    exact hend
  · rw [hsections', pageDraft, draftOf, hcomplete]
  · rw [hdiagnostics, pageDraft, draftOf, hcomplete]

/-- The writer that starts on a source. -/
def startWriter (file source : Text) (o : Options) : Writer :=
  { Writer.on .fresh o with journal := [parsingEntry file (Paragraph.split source)] }

theorem receiveSource_eq (file source : Text) (o : Options) :
    receiveSource file source (Writer.on .fresh o)
      = Writer.receiveAll (Pod.sourceEvents file source) (startWriter file source o) := rfl

/-- A page with a table of contents. -/
def contentsPage : Options := { Options.plain with contents := true }

/-! ## The scan for anchors -/

/-- The draft that the scan for anchors makes. -/
def scanDraft (source : Text) (o : Options) : Draft :=
  draftOf ⟨o.hasTitle, true⟩ (o.title.getD []) .empty source

theorem create_nil : Registry.create [] = .ok .empty := by
  simp [Registry.create, Keyed.inOrder, Keyed.dedup, Registry.empty]

theorem create_plain (source : Text) :
    Registry.create ((resolveAnchors defaultFileName source Options.plain).1.getD [])
      = .ok .empty :=
  create_nil

/-- The scan finds the anchors of its draft. -/
theorem scanAnchors_eq (file source : Text) (o : Options) :
    (scanAnchors file source o).1 = (scanDraft source o).sections.anchorMap := by
  let o' : Options := { o with contents := true, anchors := none }
  obtain ⟨w', hrun, -, hsections, -, -⟩ := receiveAll_sourceEvents_run
    (w := startWriter file source o') rfl create_nil file source
  have hscan : (scanAnchors file source o).1
      = (receiveSource file source (Writer.on .fresh o')).2.sections.anchorMap := rfl
  have hdraft : pageDraft o' .empty source = scanDraft source o := rfl
  rw [hscan, receiveSource_eq, hrun, ← hdraft]
  exact congrArg Registry.anchorMap hsections

/-- With navigation and no supplied anchors, the anchors of a page are the scanned
ones. -/
theorem resolveAnchors_scanned (file source : Text) {o : Options}
    (hnavigation : o.wantsNavigation = true) (hanchors : o.anchors = none) :
    (resolveAnchors file source o).1 = some (scanAnchors file source o).1 := by
  simp [resolveAnchors, hanchors, hnavigation]

/-! ## The conversion of a source -/

/-- The options that a source is converted with once its anchors are resolved. -/
def resolvedOptions (file source : Text) (o : Options) : Options :=
  { o with anchors := (resolveAnchors file source o).1 }

/-- The desk of a conversion. -/
def conversionDesk (file source : Text) (o : Options) : Desk :=
  sourceDesk file source (startWriter file source (resolvedOptions file source o))

/-- The writer of a conversion after some of the events of its source. -/
def writerAfter (file source : Text) (o : Options) (events : List Event) : Writer :=
  (Writer.receiveAll events (startWriter file source (resolvedOptions file source o))).2

theorem writerAfter_docStart {file source : Text} {o : Options} {sections : Registry}
    (hsections : Registry.create ((resolveAnchors file source o).1.getD []) = .ok sections)
    {events : List Event} (h : ∀ e ∈ events, e.regular = true) :
    writerAfter file source o (.docStart (sourceInfo file source) :: events)
      = (conversionDesk file source o).writer (draftAfter (resolvedOptions file source o).policy
          (o.title.getD []) sections source events) :=
  congrArg Prod.snd (receiveAll_docStart_run
    (w := startWriter file source (resolvedOptions file source o)) rfl hsections file source h)

/-- Events that a source begins with: none, all, or its start and some of those before its
end. -/
theorem sourceEvents_split {file source : Text} {before after : List Event}
    (h : Pod.sourceEvents file source = before ++ after) :
    before = [] ∨ after = [] ∨ ∃ events more,
      before = .docStart (sourceInfo file source) :: events
        ∧ bodyEvents source = events ++ more := by
  rw [sourceEvents_eq] at h
  cases before with
  | nil => exact .inl rfl
  | cons e events =>
    obtain ⟨rfl, hrest⟩ := List.cons.inj h
    refine .inr ?_
    rcases List.append_eq_append_iff.1 hrest with ⟨more, rfl, hafter⟩ | ⟨more, hbody, -⟩
    · cases more with
      | nil => exact .inr ⟨bodyEvents source, [], by simp, (List.append_nil _).symm⟩
      | cons e more =>
        obtain ⟨-, hnil⟩ := List.cons.inj hafter
        exact .inl (List.append_eq_nil_iff.1 hnil.symm).2
    · exact .inr ⟨events, more, rfl, hbody⟩

/-- An event that is neither the start nor the end of a source stands between them. -/
theorem exists_body_of_split {file source : Text} {before after : List Event} {e : Event}
    (hstart : ∀ info, e ≠ .docStart info) (hend : ∀ errata, e ≠ .docEnd errata)
    (h : Pod.sourceEvents file source = before ++ e :: after) :
    ∃ events more, before = .docStart (sourceInfo file source) :: events
      ∧ bodyEvents source = events ++ e :: more := by
  rw [sourceEvents_eq] at h
  cases before with
  | nil =>
    exact absurd (List.cons.inj h).1.symm (hstart _)
  | cons first events =>
    obtain ⟨rfl, hrest⟩ := List.cons.inj h
    refine ⟨events, ?_⟩
    rcases List.append_eq_append_iff.1 hrest with ⟨_ | ⟨e', more⟩, -, hlast⟩ |
      ⟨_ | ⟨e', more⟩, hbody, hlast⟩
    · exact absurd (List.cons.inj hlast).1.symm (hend _)
    · simp at hlast
    · exact absurd (List.cons.inj hlast).1 (hend _)
    · obtain ⟨rfl, -⟩ := List.cons.inj hlast
      exact ⟨more, rfl, hbody⟩

theorem writerAfter_sourceEvents {file source : Text} {o : Options} {sections : Registry}
    (hsections : Registry.create ((resolveAnchors file source o).1.getD []) = .ok sections) :
    (writerAfter file source o (Pod.sourceEvents file source)).page = none
      ∧ (writerAfter file source o (Pod.sourceEvents file source)).sections
        = (pageDraft (resolvedOptions file source o) sections source).sections := by
  obtain ⟨w', hrun, hpage, hsections', -, -⟩ := receiveAll_sourceEvents_run
    (w := startWriter file source (resolvedOptions file source o)) rfl hsections file source
  rw [writerAfter, hrun]
  exact ⟨hpage, hsections'⟩

/-- What a conversion leaves when its writer has received the source. -/
def concluded (received : Except Failure Unit × Writer) : Conversion where
  failure := match received.1 with
    | .ok _ => none
    | .error e => some e
  target := received.2.target
  diagnostics := received.2.diagnostics
  journal := received.2.journal ++ Conversion.warningEntries received.2.diagnostics

/-- What a conversion leaves is what its draft says. -/
theorem convert_run {file source : Text} {o : Options} {sections : Registry}
    (hsections : Registry.create ((resolveAnchors file source o).1.getD []) = .ok sections) :
    let d := pageDraft (resolvedOptions file source o) sections source
    let k := conversionDesk file source o
    (convert file source o).output = k.finished d
      ∧ (convert file source o).diagnostics
          = d.warnings.map k.diagnostic ++ (sourceErrata source).map k.errorDiagnostic
      ∧ (convert file source o).failure
          = if (sourceErrata source).isEmpty then none
            else some (.syntaxErrors file (sourceErrata source)
              (convert file source o).output) := by
  obtain ⟨w', hrun, -, -, hdiagnostics, htext⟩ := receiveAll_sourceEvents_run
    (w := startWriter file source (resolvedOptions file source o)) rfl hsections file source
  have hsource : receiveSource file source (Writer.on .fresh (resolvedOptions file source o))
      = ((conversionDesk file source o).outcome (sourceErrata source), w') := hrun
  have hinto : convertInto .fresh file source (resolvedOptions file source o)
      = concluded ((conversionDesk file source o).outcome (sourceErrata source), w') :=
    congrArg concluded hsource
  have htarget : (convert file source o).target
      = (convertInto .fresh file source (resolvedOptions file source o)).target := rfl
  have hdiagnostics' : (convert file source o).diagnostics
      = (convertInto .fresh file source (resolvedOptions file source o)).diagnostics := rfl
  obtain ⟨complete, hcomplete, hfailure⟩ : ∃ complete : Failure → Failure,
      (∀ name errata output, complete (.syntaxErrors name errata output)
        = .syntaxErrors name errata (convert file source o).output)
      ∧ (convert file source o).failure
        = (convertInto .fresh file source (resolvedOptions file source o)).failure.map
          complete := by
    refine ⟨_, ?_, rfl⟩
    intro name errata output
    rfl
  rw [hinto] at htarget hdiagnostics' hfailure
  refine ⟨(congrArg _ htarget).trans htext, hdiagnostics'.trans hdiagnostics, hfailure.trans ?_⟩
  unfold Desk.outcome
  cases sourceErrata source with
  | nil => rfl
  | cons e rest => exact congrArg some (hcomplete file (e :: rest) [])

end PodLoom
