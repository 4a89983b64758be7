import PodLoom.Proofs.Conversion
import PodLoom.Proofs.Thread.Streaming

set_option autoImplicit false

/-!
# Sources on any target

A writer that starts on a source forgets whatever it was before, except for its options,
its target and what it has said.  From there on it follows a course that its target has no
influence on (`streams_receiveBody`), so what is known of a source on a target that takes
everything is known of it on every target.
-/

namespace PodLoom

open Text
open PodLoom.Pod (DocumentInfo Event Paragraph bodyEvents)
open PodLoom.Thread (Options Registry Target Writer)

/-- A writer that has been told which source comes. -/
def announced (file source : Text) (w : Writer) : Writer :=
  { w with journal := w.journal ++ [parsingEntry file (Paragraph.split source)] }

theorem receiveSource_announced (file source : Text) (w : Writer) :
    receiveSource file source w
      = Writer.receiveAll (Pod.sourceEvents file source) (announced file source w) := rfl

/-- Receive what comes behind the start of a document, once the writer has started on
it. -/
def receiveBody (info : DocumentInfo) (events : List Event) : Attempt Writer Unit := do
  Writer.writeTitle info
  Writer.receiveAll events

theorem streams_receiveBody (info : DocumentInfo) {events : List Event}
    (h : ∀ e ∈ events, ∀ other, e ≠ .docStart other) : Streams (receiveBody info events) :=
  (Writer.streams_writeTitle info).seq (Writer.streams_receiveAll h)

/-- The last event comes when all before it were received. -/
theorem receiveAll_concat (events : List Event) (e : Event) :
    Writer.receiveAll (events ++ [e]) = Writer.receiveAll events >>= fun _ => Writer.receive e := by
  refine (Attempt.forEach_append Writer.receive events [e]).trans ?_
  have hlast : Attempt.forEach Writer.receive [e] = Writer.receive e := bind_pure_unit
  rw [hlast]
  rfl

section

variable {w : Writer} (info : DocumentInfo) (events : List Event)

theorem receiveAll_started {sections : Registry}
    (hsections : Registry.create (w.options.anchors.getD []) = .ok sections) :
    Writer.receiveAll (.docStart info :: events) w
      = receiveBody info events (w.started info sections) := by
  show (Writer.startDocument info >>= fun _ => Writer.receiveAll events) w = _
  rw [Attempt.bind_run, Writer.startDocument_ok hsections]
  rfl

theorem receiveAll_unstarted {e : Failure}
    (hsections : Registry.create (w.options.anchors.getD []) = .error e) :
    Writer.receiveAll (.docStart info :: events) w
      = (.error e, { w with diagnostics := [] }) :=
  Attempt.bind_run_error (Writer.startDocument_error hsections info)

end

/-- The events of a source behind its start. -/
def restEvents (source : Text) : List Event := bodyEvents source ++ [.docEnd (sourceErrata source)]

theorem ne_docStart_of_mem_bodyEvents {source : Text} {e : Event} (he : e ∈ bodyEvents source)
    (info : DocumentInfo) : e ≠ .docStart info := by
  rintro rfl
  exact nomatch Pod.regular_bodyEvents source _ he

theorem ne_docStart_of_mem_restEvents {source : Text} {e : Event} (he : e ∈ restEvents source)
    (info : DocumentInfo) : e ≠ .docStart info := by
  rcases List.mem_append.1 he with hbody | hend
  · exact ne_docStart_of_mem_bodyEvents hbody info
  · rw [List.mem_singleton.1 hend]
    exact Event.noConfusion

theorem receiveSource_started {w : Writer} {sections : Registry}
    (hsections : Registry.create (w.options.anchors.getD []) = .ok sections)
    (file source : Text) :
    receiveSource file source w
      = receiveBody (sourceInfo file source) (restEvents source)
          ((announced file source w).started (sourceInfo file source) sections) :=
  receiveAll_started (w := announced file source w) _ _ hsections

theorem receiveSource_unstarted {w : Writer} {e : Failure}
    (hsections : Registry.create (w.options.anchors.getD []) = .error e) (file source : Text) :
    receiveSource file source w
      = (.error e, { announced file source w with diagnostics := [] }) :=
  receiveAll_unstarted (w := announced file source w) _ _ hsections

/-! ## The draft of a source, on any target -/

/-- What receiving events comes to when it is not the reader's fault: the target refuses a
piece. -/
def Refused (w : Writer) (r : Except Failure Unit) : Prop :=
  w.target.fault.isSome = true ∧ ∃ reason, r = .error (.refused reason)

/-- A writer on any target comes to the draft of what it has received of a source, unless the
target refuses a piece. -/
theorem receiveAll_docStart_draft {w : Writer} {sections : Registry}
    (hsections : Registry.create (w.options.anchors.getD []) = .ok sections)
    (file source : Text) {events : List Event} (h : ∀ e ∈ events, e.regular = true) :
    Refused w (Writer.receiveAll (.docStart (sourceInfo file source) :: events) w).1
      ∨ ∃ t : Target, t.fault.isSome = w.target.fault.isSome
        ∧ Writer.receiveAll (.docStart (sourceInfo file source) :: events) w
          = (.ok (), onto ((sourceDesk file source w).writer (draftAfter w.options.policy
            (w.options.title.getD []) sections source events)) t) := by
  have hstream : ∀ e ∈ events, ∀ info, e ≠ .docStart info := by
    rintro _ he info rfl
    exact nomatch h _ he
  obtain ⟨r, w', pieces, hcourse⟩ := streams_receiveBody (sourceInfo file source) hstream
    (w.started (sourceInfo file source) sections)
  -- On a fresh target the writer comes to the draft.
  have hfresh := receiveAll_docStart_run (w := onto w .fresh) rfl hsections file source h
  rw [receiveAll_started (w := onto w .fresh) _ _ hsections, Writer.started_onto,
    hcourse.taken (t := .fresh) (Target.takeAll_willing rfl pieces)] at hfresh
  obtain ⟨rfl, hdraft⟩ := Prod.mk.inj hfresh
  rw [receiveAll_started _ _ hsections]
  rcases Target.course_cases hcourse w.target with
    ⟨t, -, hfault, hrun⟩ | ⟨n, reason, w'', hfault, -, hrun⟩
  · refine .inr ⟨t, hfault, hrun.trans ?_⟩
    exact (congrArg (fun left : Writer => (Except.ok (), onto left t)) hdraft :)
  · refine .inl ⟨by rw [hfault]; rfl, reason, ?_⟩
    exact congrArg Prod.fst hrun

theorem streams_receiveSource (file source : Text) :
    Streams (receiveBody (sourceInfo file source) (restEvents source)) :=
  streams_receiveBody _ fun _ he => ne_docStart_of_mem_restEvents he

/-- The course of a source, whatever the target: it gives the target the text of its draft,
reports the warnings of its draft and its errors, and fails at its end if it has errors. -/
theorem course_source {w : Writer} {sections : Registry}
    (hsections : Registry.create (w.options.anchors.getD []) = .ok sections)
    (file source : Text) :
    let k := sourceDesk file source w
    let d := pageDraft w.options sections source
    ∃ w' pieces, Course (receiveBody (sourceInfo file source) (restEvents source))
        (w.started (sourceInfo file source) sections) (k.outcome (sourceErrata source)) w' pieces
      ∧ w'.sections = d.sections
      ∧ w'.diagnostics
        = d.warnings.map k.diagnostic ++ (sourceErrata source).map k.errorDiagnostic
      ∧ pieces.flatten = k.finished d := by
  intro k d
  obtain ⟨r, w', pieces, hcourse⟩ :=
    streams_receiveSource file source (w.started (sourceInfo file source) sections)
  obtain ⟨v, hrun, -, hregistry, hdiagnostics, htext⟩ :=
    receiveAll_sourceEvents_run (w := onto w .fresh) rfl hsections file source
  have hstart := receiveAll_started (w := onto w .fresh) (sourceInfo file source)
    (restEvents source) hsections
  have hfresh := hcourse.taken (t := .fresh) (Target.takeAll_willing rfl pieces)
  obtain ⟨rfl, rfl⟩ := Prod.mk.inj ((hstart.trans hfresh).symm.trans hrun)
  exact ⟨w', pieces, hcourse, hregistry, hdiagnostics, htext⟩

end PodLoom
