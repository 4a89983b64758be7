import PodLoom.Proofs.SourceCourse
import PodLoom.Proofs.Thread.Lockstep

set_option autoImplicit false

/-!
# Reader and writer in step

The reader of a source and the writer that receives its events each keep a stack of open
lists, and neither sees the other's.  After every event that is received the two agree
(`lists_in_step`), whatever the writer was before and whatever its target does: so no item
is passed over for want of a list, each `=back` that the reader meets with no list open is
reported once, no element is left open between blocks, and when the document ends the
writer has no list left to end.

A writer stops being in step only by not receiving an event: if its target refuses a
piece, or if a supplied anchor is none.
-/

namespace PodLoom

open Text
open PodLoom.Pod (Dispatch Event Follows ListKind Nested Paragraph Sent bodyEvents bodySent
  isContentless listKinds strayBacks strays)
open PodLoom.Thread (Desk Diagnostic Draft Options Policy Registry Scope Target Writer
  unmatchedBack)

/-! ## What is sent for a source -/

/-- The start of a source, which is sent when no list is open. -/
def startSent (file source : Text) : Sent := ⟨.docStart (sourceInfo file source), none, []⟩

/-- The end of a source, which is sent when every list has ended. -/
def endSent (source : Text) : Sent := ⟨.docEnd (sourceErrata source), none, []⟩

/-- All that is sent for a source. -/
def sourceSent (file source : Text) : List Sent :=
  startSent file source :: (bodySent source ++ [endSent source])

theorem map_event_sourceSent (file source : Text) :
    (sourceSent file source).map Sent.event = Pod.sourceEvents file source := by
  rw [sourceSent, List.map_cons, List.map_append, Pod.map_event_bodySent]
  rfl

theorem strays_sourceSent (file source : Text) :
    strays (sourceSent file source) = strayBacks source := by
  show strays (bodySent source ++ [endSent source]) = _
  rw [Pod.strays_append, Pod.strays_bodySent]
  exact List.append_nil _

/-- All that is sent behind the start of a source follows the lists of its reader. -/
theorem follows_restSent (source : Text) : Follows [] (bodySent source ++ [endSent source]) :=
  Pod.follows_bodySent source ⟨⟨rfl, rfl, nofun⟩, trivial⟩

/-- The start of a source has been sent alone, or with some of its body, or with all. -/
theorem sourceSent_split {file source : Text} {before after : List Sent} {s : Sent}
    (h : sourceSent file source = before ++ s :: after) :
    (∃ sent rest, before ++ [s] = startSent file source :: sent ∧ bodySent source = sent ++ rest
        ∧ after = rest ++ [endSent source])
      ∨ (before ++ [s] = startSent file source :: (bodySent source ++ [endSent source])
        ∧ after = []) := by
  rcases before with _ | ⟨b, before⟩
  · obtain ⟨rfl, rfl⟩ := List.cons.inj h
    exact .inl ⟨[], bodySent source, rfl, rfl, rfl⟩
  · obtain ⟨rfl, hrest⟩ := List.cons.inj h
    have happend : bodySent source ++ [endSent source] = (before ++ [s]) ++ after :=
      hrest.trans (List.append_cons before s after)
    rcases List.append_eq_append_iff.1 happend with ⟨last, hlast, hend⟩ | ⟨rest, hbody, hrest⟩
    · cases last with
      | nil =>
        refine .inl ⟨before ++ [s], [], rfl, ?_, hend.symm⟩
        rw [List.append_nil] at hlast ⊢
        exact hlast.symm
      | cons e last =>
        obtain ⟨rfl, hnone⟩ := List.cons.inj hend
        obtain ⟨rfl, rfl⟩ := List.append_eq_nil_iff.1 hnone.symm
        exact .inr ⟨congrArg (startSent file source :: ·) hlast, rfl⟩
    · exact .inl ⟨before ++ [s], rest, rfl, hbody, hrest⟩

/-! ## In step -/

/-- The report of a stray `=back`. -/
def strayReport (file : Text) (stray : Dispatch) : Diagnostic :=
  ⟨.warning, file, stray.paragraph.line, unmatchedBack⟩

/-- Whether a diagnostic reports a `=back` that has no list to end. -/
def isStrayReport (d : Diagnostic) : Bool := d.severity == .warning && d.message == unmatchedBack

/-- A writer is in step with the reader of a source that has sent some events, `s` the last
of them, and is still to send others. -/
structure InStep (file source : Text) (sent : List Sent) (s : Sent) (rest : List Sent)
    (w : Writer) : Prop where
  /-- The open lists are those of the reader. -/
  lists : w.nesting.scopes.map Scope.kind = listKinds s.lists
  /-- An item that has come is noted by the innermost list. -/
  item : s.event.endsItem = true →
    ∃ scope outer, w.nesting.scopes = scope :: outer ∧ scope.pending = true
  /-- Each stray `=back` so far is reported, once and in order. -/
  reports : w.diagnostics.filter isStrayReport = (strays sent).map (strayReport file)
  /-- Once all is sent, these are the stray `=back` commands of the source. -/
  complete : rest = [] → w.diagnostics.filter isStrayReport
    = (strayBacks source).map (strayReport file)
  /-- Behind whole blocks no element is open. -/
  between : ∀ page, w.page = some page → ∀ events strays left,
    sent.map Sent.event = .docStart (sourceInfo file source) :: events →
    Nested [] events strays left → page.frames = []
  /-- When only the end is to come, no list is open and no element is. -/
  atEnd : rest = [endSent source] →
    w.nesting.scopes = [] ∧ ∃ page, w.page = some page ∧ page.frames = []

/-! ## Drafts of a source in parts -/

section

variable (p : Policy) (title : Text) (sections : Registry) {source : Text}
  {sent rest : List Sent}

theorem start_kinds (contentless : Bool) :
    (Draft.start p title contentless sections).kinds = []
      ∧ (Draft.start p title contentless sections).unmatched = []
      ∧ (Draft.start p title contentless sections).frames = [] := by
  unfold Draft.start
  split
  · exact ⟨rfl, rfl, rfl⟩
  · exact ⟨rfl, rfl, rfl⟩

/-- A draft knows the lists that are open, and has reported the stray `=back` commands. -/
theorem draftAfter_follows (h : bodySent source ++ [endSent source] = sent ++ rest) :
    Follows (draftAfter p title sections source (sent.map Sent.event)).kinds rest
      ∧ (draftAfter p title sections source (sent.map Sent.event)).unmatched
        = (strays sent).map fun stray => (stray.paragraph.line : Int) := by
  obtain ⟨hkinds, hunmatched, -⟩ :=
    start_kinds p title sections (isContentless (Paragraph.split source))
  have hfollows := follows_restSent source
  rw [h, ← hkinds] at hfollows
  obtain ⟨hrest, hreports⟩ := Draft.run_follows p hfollows
  exact ⟨hrest, hreports.trans (by rw [hunmatched, List.nil_append])⟩

theorem draftAfter_snoc (sent : List Sent) (s : Sent) :
    draftAfter p title sections source ((sent ++ [s]).map Sent.event)
      = (draftAfter p title sections source (sent.map Sent.event)).step p s.event := by
  rw [List.map_append, draftAfter, Draft.run_append]
  rfl

/-- The open lists of a draft are those of the reader. -/
theorem kinds_draftAfter {s : Sent}
    (h : bodySent source ++ [endSent source] = sent ++ s :: rest) :
    (draftAfter p title sections source ((sent ++ [s]).map Sent.event)).kinds
      = listKinds s.lists := by
  obtain ⟨⟨hfits, -⟩, -⟩ := draftAfter_follows p title sections h
  rw [draftAfter_snoc]
  exact (Draft.step_kept p _ s.event).kinds.trans hfits.lists.symm

/-- A draft has as many open elements as its events leave open. -/
theorem frames_draftAfter {events : List Event} {n : Nat}
    (h : events.foldlM Thread.depth? 0 = some n) :
    (draftAfter p title sections source events).frames.length = n := by
  obtain ⟨-, -, hframes⟩ :=
    start_kinds p title sections (isContentless (Paragraph.split source))
  exact Draft.frames_run p (by rwa [hframes])

/-- No element is open behind whole blocks. -/
theorem frames_draftAfter_nested {events : List Event} {lists left : List Pod.Element}
    (h : Nested [] events lists left) :
    (draftAfter p title sections source events).frames = [] :=
  List.length_eq_zero_iff.1 (frames_draftAfter p title sections (Thread.depth?_nested h 0))

/-- Events that a source begins with finish no element that has not started. -/
theorem depth?_sent (h : bodySent source = sent ++ rest) :
    ∃ n, (sent.map Sent.event).foldlM Thread.depth? 0 = some n := by
  have hbody := Thread.depth?_nested (Pod.nested_bodyEvents source) 0
  rw [← Pod.map_event_bodySent, h, List.map_append, List.foldlM_append] at hbody
  obtain ⟨n, hn, -⟩ := Option.bind_eq_some_iff.1 hbody
  exact ⟨n, hn⟩

/-- An item that has finished is noted by the innermost list. -/
theorem pending_draftAfter {s : Sent} (h : bodySent source = sent ++ s :: rest)
    (hitem : s.event.endsItem = true) :
    ∃ scope outer, (draftAfter p title sections source ((sent ++ [s]).map Sent.event)).scopes
      = scope :: outer ∧ scope.pending = true := by
  have hall : bodySent source ++ [endSent source]
      = sent ++ s :: (rest ++ [endSent source]) := by
    rw [h, List.append_assoc]
    rfl
  obtain ⟨⟨hfits, -⟩, -⟩ := draftAfter_follows p title sections hall
  obtain ⟨n, hn⟩ := depth?_sent (h.trans (List.append_cons sent s rest))
  rw [List.map_append, List.foldlM_append] at hn
  obtain ⟨m, hm, hfinish⟩ := Option.bind_eq_some_iff.1 hn
  have hopen : m ≠ 0 := by
    rintro rfl
    have hnone := Thread.depth?_zero_of_endsItem hitem
    rw [List.map_singleton, List.foldlM_cons, hnone] at hfinish
    cases hfinish
  rw [draftAfter_snoc]
  refine Draft.pending_step p hitem ?_ (hfits.item hitem)
  intro hnil
  have hlength : (draftAfter p title sections source (sent.map Sent.event)).frames.length = m :=
    frames_draftAfter p title sections hm
  rw [hnil] at hlength
  exact hopen hlength.symm

end

/-! ## Writers of a source in parts -/

/-- The reports of stray `=back` commands among the diagnostics of a page. -/
theorem reports_diagnostic (k : Desk) (d : Draft) :
    (d.warnings.map k.diagnostic).filter isStrayReport
      = d.unmatched.map fun line => ⟨.warning, k.file, line, unmatchedBack⟩ := by
  rw [Draft.unmatched, List.map_map, List.filter_map]
  have hreport : (isStrayReport ∘ k.diagnostic) = (·.2 == unmatchedBack) := rfl
  rw [hreport]
  refine List.map_congr_left ?_
  intro warning hwarning
  have hmessage : warning.2 = unmatchedBack := by simpa using (List.mem_filter.1 hwarning).2
  rw [Desk.diagnostic, hmessage]
  rfl

theorem reports_draftAfter {k : Desk} (p : Policy) (title : Text) (sections : Registry)
    {source : Text} {sent rest : List Sent}
    (h : bodySent source ++ [endSent source] = sent ++ rest) :
    ((draftAfter p title sections source (sent.map Sent.event)).warnings.map
      k.diagnostic).filter isStrayReport = (strays sent).map (strayReport k.file) := by
  rw [reports_diagnostic, (draftAfter_follows p title sections h).2, List.map_map]
  rfl

/-- The writer of a draft, on any target, is in step. -/
theorem inStep_draft {file source : Text} {k : Desk} (hfile : k.file = file) (p : Policy)
    (title : Text) (sections : Registry) {before sent rest : List Sent} {s : Sent}
    (hsent : before ++ [s] = startSent file source :: sent)
    (hbody : bodySent source = sent ++ rest) (t : Target) :
    InStep file source (before ++ [s]) s (rest ++ [endSent source])
      (onto (k.writer (draftAfter p title sections source (sent.map Sent.event))) t) := by
  subst hfile
  have hall : bodySent source ++ [endSent source] = sent ++ (rest ++ [endSent source]) := by
    rw [hbody, List.append_assoc]
  -- The last event sent is the start of the source, or the last of the body so far.
  have hlast : (sent = [] ∧ s = startSent k.file source) ∨ ∃ most, sent = most ++ [s] := by
    rcases before with _ | ⟨b, before⟩
    · obtain ⟨rfl, rfl⟩ := List.cons.inj hsent
      exact .inl ⟨rfl, rfl⟩
    · exact .inr ⟨before, (List.cons.inj hsent).2.symm⟩
  refine ⟨?_, ?_, ?_, ?_, ?_, ?_⟩
  · show (draftAfter _ _ _ _ _).kinds = _
    rcases hlast with ⟨rfl, rfl⟩ | ⟨most, rfl⟩
    · exact (start_kinds p title sections _).1
    · exact kinds_draftAfter p title sections (hall.trans (List.append_cons ..).symm)
  · intro hitem
    rcases hlast with ⟨rfl, rfl⟩ | ⟨most, rfl⟩
    · cases hitem
    · exact pending_draftAfter p title sections (hbody.trans (List.append_cons ..).symm) hitem
  · rw [hsent]
    exact reports_draftAfter p title sections hall
  · intro hnil
    cases List.append_eq_nil_iff.1 hnil |>.2
  · intro page hpage events lists left hevents hnested
    cases hpage
    rw [hsent] at hevents
    obtain rfl := (List.cons.inj hevents).2
    exact frames_draftAfter_nested p title sections hnested
  · intro hrest
    obtain rfl : rest = [] := List.append_cancel_right (hrest.trans (List.nil_append _).symm)
    rw [List.append_nil] at hbody
    obtain ⟨⟨hfits, -⟩, -⟩ := draftAfter_follows p title sections hall
    have hnested : Nested [] (sent.map Sent.event)
        ((strayBacks source).map Dispatch.strayList) [] := by
      rw [← hbody, Pod.map_event_bodySent]
      exact Pod.nested_bodyEvents source
    exact ⟨List.map_eq_nil_iff.1 hfits.lists.symm, _, rfl,
      frames_draftAfter_nested p title sections hnested⟩

/-! ## The end of a source -/

/-- The end of a document on any target, when no list is open. -/
theorem endDocument_draft {k : Desk} {d : Draft} (hscopes : d.scopes = [])
    (hempty : k.contentless = true → d.pieces = []) (errata : List Pod.Erratum) (t : Target) :
    let ended := Writer.endDocument errata (onto (k.writer d) t)
    Refused (onto (k.writer d) t) ended.1
      ∨ ended.2.page = none ∧ ended.2.nesting.scopes = []
        ∧ ended.2.diagnostics = d.warnings.map k.diagnostic ++ errata.map k.errorDiagnostic := by
  intro ended
  obtain ⟨r, w, pieces, hcourse⟩ := Writer.streams_endDocument errata (k.writer d)
  -- On its own target, which refuses nothing, the writer completes the page.
  have hown := hcourse.taken (Target.takeAll_willing (k.willing_sink d.pieces) pieces)
  obtain ⟨w', hend, hpage, -, hdiagnostics, -⟩ := k.endDocument_run d errata hempty
  have hunlisted := Writer.unlisted_endDocument errata (k.writer d) hscopes
  obtain ⟨-, rfl⟩ := Prod.mk.inj (hend.symm.trans hown)
  rw [hend] at hunlisted
  rcases Target.course_cases hcourse t with ⟨t', -, -, hrun⟩ | ⟨n, reason, w'', hfault, -, hrun⟩
  · have hended : ended = (r, onto w t') := hrun
    rw [hended]
    exact .inr ⟨hpage, hunlisted, hdiagnostics⟩
  · exact .inl ⟨by rw [Writer.target_onto, hfault]; rfl, reason, congrArg Prod.fst hrun⟩

/-- A writer that has received all of a source is in step. -/
theorem inStep_end {file source : Text} {k : Desk} (hfile : k.file = file) (p : Policy)
    (title : Text) (sections : Registry) {before : List Sent} {s : Sent}
    (hsent : before ++ [s] = sourceSent file source) {w : Writer} (hpage : w.page = none)
    (hscopes : w.nesting.scopes = [])
    (hdiagnostics : w.diagnostics
      = (draftAfter p title sections source (bodyEvents source)).warnings.map k.diagnostic
        ++ (sourceErrata source).map k.errorDiagnostic) :
    InStep file source (before ++ [s]) s [] w := by
  subst hfile
  have hlast : s = endSent source := by
    have hget := congrArg List.getLast? hsent
    rw [List.getLast?_concat, sourceSent, ← List.cons_append, List.getLast?_concat] at hget
    exact Option.some.inj hget
  have herrors : ((sourceErrata source).map k.errorDiagnostic).filter isStrayReport = [] := by
    rw [List.filter_map]
    refine congrArg _ (List.filter_eq_nil_iff.2 ?_)
    intro e _
    exact Bool.false_ne_true
  have hreports : w.diagnostics.filter isStrayReport
      = (strayBacks source).map (strayReport k.file) := by
    rw [hdiagnostics, List.filter_append, herrors, List.append_nil, ← Pod.map_event_bodySent,
      reports_draftAfter p title sections rfl, Pod.strays_bodySent]
  refine ⟨?_, ?_, ?_, fun _ => hreports, ?_, ?_⟩
  · rw [hscopes, hlast]
    rfl
  · rw [hlast]
    exact nofun
  · rw [hsent, strays_sourceSent, hreports]
  · intro page hsome
    rw [hpage] at hsome
    cases hsome
  · exact nofun

/-- The start of a source and some of its body, received: the writer is in step. -/
theorem received_part {file source : Text} {w : Writer} {sections : Registry}
    (hsections : Registry.create (w.options.anchors.getD []) = .ok sections)
    {before sent rest : List Sent} {s : Sent}
    (hsent : before ++ [s] = startSent file source :: sent)
    (hbody : bodySent source = sent ++ rest) :
    let received := Writer.receiveAll ((before ++ [s]).map Sent.event) w
    Refused w received.1
      ∨ InStep file source (before ++ [s]) s (rest ++ [endSent source]) received.2 := by
  intro received
  have hfile : (sourceDesk file source w).file = file := rfl
  have hregular : ∀ e ∈ sent.map Sent.event, e.regular = true := by
    intro e he
    refine Pod.regular_bodyEvents source e ?_
    rw [← Pod.map_event_bodySent, hbody, List.map_append]
    exact List.mem_append_left _ he
  have hreceived : received = Writer.receiveAll (.docStart (sourceInfo file source)
      :: sent.map Sent.event) w :=
    congrArg (fun sent => Writer.receiveAll (sent.map Sent.event) w) hsent
  rw [hreceived]
  rcases receiveAll_docStart_draft hsections file source hregular with hrefused | ⟨t, -, hrun⟩
  · exact .inl hrefused
  · rw [hrun]
    exact .inr (inStep_draft hfile _ _ sections hsent hbody t)

/-- All that is sent for a source, received: the writer is in step. -/
theorem received_whole {file source : Text} {w : Writer} {sections : Registry}
    (hsections : Registry.create (w.options.anchors.getD []) = .ok sections)
    {before : List Sent} {s : Sent} (hsent : before ++ [s] = sourceSent file source) :
    let received := Writer.receiveAll ((before ++ [s]).map Sent.event) w
    Refused w received.1 ∨ InStep file source (before ++ [s]) s [] received.2 := by
  intro received
  have hfile : (sourceDesk file source w).file = file := rfl
  have hevents : (before ++ [s]).map Sent.event
      = (.docStart (sourceInfo file source) :: bodyEvents source)
        ++ [.docEnd (sourceErrata source)] :=
    (congrArg (List.map Sent.event) hsent).trans (map_event_sourceSent file source)
  have hreceived : received = Writer.receiveAll (_ ++ [_]) w :=
    congrArg (fun events => Writer.receiveAll events w) hevents
  rw [hreceived, receiveAll_concat]
  rcases receiveAll_docStart_draft hsections file source (Pod.regular_bodyEvents source) with
    ⟨hfault, reason, hrefused⟩ | ⟨t, hfault, hrun⟩
  · refine .inl ⟨hfault, reason, ?_⟩
    exact congrArg Prod.fst (Attempt.bind_run_error (Prod.ext hrefused rfl))
  · rw [Attempt.bind_run_ok hrun]
    -- Before the end only the end is to come, so no list is open.
    have hall : bodySent source ++ [endSent source] = bodySent source ++ [endSent source] := rfl
    obtain ⟨⟨hfits, -⟩, -⟩ := draftAfter_follows w.options.policy (w.options.title.getD [])
      sections hall
    rw [Pod.map_event_bodySent] at hfits
    have hend := endDocument_draft (k := sourceDesk file source w)
      (List.map_eq_nil_iff.1 hfits.lists.symm)
      (fun h => pieces_draftAfter_contentless h _ _ _) (sourceErrata source) t
    rcases hend with ⟨hrefused, hreason⟩ | ⟨hpage, hscopes, hdiagnostics⟩
    · rw [Writer.target_onto, hfault] at hrefused
      exact .inl ⟨hrefused, hreason⟩
    · exact .inr (inStep_end hfile _ _ sections hsent hpage hscopes hdiagnostics)

/-- Once an event has been sent and received, reader and writer are in step.  It is not
received only if the target refuses a piece or a supplied anchor is none. -/
theorem lists_in_step {file source : Text} {before after : List Sent} {s : Sent}
    (hsent : sourceSent file source = before ++ s :: after) (w : Writer) :
    Refused w (Writer.receiveAll ((before ++ [s]).map Sent.event) w).1
      ∨ (∃ e, Registry.create (w.options.anchors.getD []) = .error e
        ∧ (Writer.receiveAll ((before ++ [s]).map Sent.event) w).1 = .error e)
      ∨ InStep file source (before ++ [s]) s after
        (Writer.receiveAll ((before ++ [s]).map Sent.event) w).2 := by
  cases hsections : Registry.create (w.options.anchors.getD []) with
  | error e =>
    refine .inr (.inl ⟨e, rfl, ?_⟩)
    obtain ⟨sent, hbefore⟩ : ∃ sent, before ++ [s] = startSent file source :: sent := by
      rcases sourceSent_split hsent with ⟨sent, -, hbefore, -⟩ | ⟨hbefore, -⟩
      · exact ⟨sent, hbefore⟩
      · exact ⟨_, hbefore⟩
    rw [hbefore, List.map_cons]
    exact congrArg Prod.fst (receiveAll_unstarted _ _ hsections)
  | ok sections =>
    refine Or.imp_right .inr ?_
    rcases sourceSent_split hsent with ⟨sent, rest, hbefore, hbody, rfl⟩ | ⟨hbefore, rfl⟩
    · exact received_part hsections hbefore hbody
    · exact received_whole hsections hbefore

/-- A list, an item in it, and one `=back` too many: the writer reports that one and no
other. -/
theorem lists_in_step_stray :
    let source : Text := "=over\n\n=item *\n\n=back\n\n=back\n"
    let sent := startSent defaultFileName source :: bodySent source
    sourceSent defaultFileName source = sent ++ endSent source :: []
      ∧ (Writer.receiveAll ((sent ++ [endSent source]).map Sent.event)
          (Writer.on .fresh .plain)).2.diagnostics.filter isStrayReport
        = [⟨.warning, defaultFileName, 7, unmatchedBack⟩] := by
  intro source sent
  have hsent : sourceSent defaultFileName source = sent ++ endSent source :: [] :=
    (List.cons_append ..).symm
  refine ⟨hsent, ?_⟩
  have hstrays : (strayBacks source).map (strayReport defaultFileName)
      = [⟨.warning, defaultFileName, 7, unmatchedBack⟩] := by decide +kernel
  rcases lists_in_step hsent (Writer.on .fresh .plain) with ⟨hfault, -⟩ | ⟨e, he, -⟩ | hstep
  · cases hfault
  · exact nomatch create_nil.symm.trans he
  · rw [hstep.complete rfl, hstrays]

end PodLoom
