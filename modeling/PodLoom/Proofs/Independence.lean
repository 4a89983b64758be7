import Mathlib.Data.List.Forall2
import PodLoom.Proofs.Press

set_option autoImplicit false

/-!
# The documents of a press are independent

A press does its jobs in turn.  Each job is a source, and may have its document cut off by
a target that refuses a piece of it; then lists, regions and elements stay open, blank
lines stay deferred and a page stays half written, and the next job starts from there.

None of it has any influence (`convertEach_independent`): a document of which no piece is
refused comes to the same as on a press of its own.  All that a press keeps from one
document to the next are its options, what its target has taken and what it has said; and
if its options hold an anchor that is none, it starts on no document at all (`Steady`).
-/

namespace PodLoom

open Text
open PodLoom.Thread (Diagnostic Options Registry Target Writer)

/-- A source to be converted in its turn, with the piece of its document that the target
refuses, if it refuses one.  The document ends there, so there is no second one. -/
structure Job where
  source : Text
  fault : Option (Nat × Text)
  deriving DecidableEq, Repr, Inhabited

/-- What a document comes to: how reading its source ended, the text that was written, the
diagnostics, the anchors of the sections, and whether a piece was refused. -/
structure Outcome where
  result : Except Failure Unit
  output : Text
  diagnostics : List Diagnostic
  anchors : List (Text × Text)
  refused : Bool

namespace Press

/-- A press whose target is bound to refuse the given piece from now on, or none. -/
def armed (fault : Option (Nat × Text)) (p : Press) : Press :=
  { p with writer := onto p.writer { p.writer.target with fault } }

/-- What a press has done since the given number of pieces was taken. -/
def outcome (job : Job) (taken : Nat) (result : Except Failure Unit) (p : Press) : Outcome where
  result := result
  output := (p.writer.target.taken.drop taken).flatten
  diagnostics := p.writer.diagnostics
  anchors := p.writer.sections.anchorMap
  refused := job.fault.isSome && p.writer.target.fault.isNone

/-- Do a job: the outcome, and the press as it is left. -/
def convert (file : Text) (job : Job) (p : Press) : Outcome × Press :=
  let (result, left) := read file job.source (p.armed job.fault)
  (left.outcome job p.writer.target.taken.length result, left)

/-- Do jobs in turn. -/
def convertEach (file : Text) : List Job → Press → List Outcome
  | [], _ => []
  | job :: rest, p => (p.convert file job).1 :: convertEach file rest (p.convert file job).2

/-- The outcome of a source on a press of its own, whose target refuses nothing. -/
def alone (file source : Text) (o : Options) : Outcome :=
  ((on .fresh o).convert file ⟨source, none⟩).1

/-- The outcome of a job is that of receiving its source. -/
theorem convert_run (file : Text) (job : Job) (p : Press) :
    ∃ reader, p.convert file job
      = (outcome job p.writer.target.taken.length
          (receiveSource file job.source (p.armed job.fault).writer).1
          ⟨reader, (receiveSource file job.source (p.armed job.fault).writer).2⟩,
        ⟨reader, (receiveSource file job.source (p.armed job.fault).writer).2⟩) := by
  obtain ⟨reader, hread⟩ := read_run file job.source (p.armed job.fault)
  refine ⟨reader, ?_⟩
  rw [convert, hread]

/-! ## Options without a wrong anchor -/

/-- What a source comes to, apart from the target it is written to. -/
def sourceOutcome (file source : Text) (o : Options) (sections : Registry) : Outcome where
  result := (sourceDesk file source (.on .fresh o)).outcome (sourceErrata source)
  output := (sourceDesk file source (.on .fresh o)).finished (pageDraft o sections source)
  diagnostics := (pageDraft o sections source).warnings.map
      (sourceDesk file source (.on .fresh o)).diagnostic
    ++ (sourceErrata source).map (sourceDesk file source (.on .fresh o)).errorDiagnostic
  anchors := (pageDraft o sections source).sections.anchorMap
  refused := false

theorem convert_ok {p : Press} {sections : Registry}
    (hsections : Registry.create (p.writer.options.anchors.getD []) = .ok sections)
    (file : Text) (job : Job) :
    (p.convert file job).2.writer.options = p.writer.options
      ∧ ((p.convert file job).1.refused = true
        ∨ (p.convert file job).1 = sourceOutcome file job.source p.writer.options sections) := by
  obtain ⟨reader, hconvert⟩ := p.convert_run file job
  let w : Writer := announced file job.source (p.armed job.fault).writer
  obtain ⟨w', pieces, hcourse, hregistry, hdiagnostics, htext⟩ :=
    course_source (w := w) hsections file job.source
  have hstart : receiveSource file job.source (p.armed job.fault).writer = _ :=
    receiveSource_started (w := (p.armed job.fault).writer) hsections file job.source
  rcases Target.course_cases hcourse w.target with
    ⟨t, htaken, hfault, hrun⟩ | ⟨n, reason, w'', hfault, hleads, hrun⟩
  · have hreceive : receiveSource file job.source (p.armed job.fault).writer = (_, onto w' t) :=
      hstart.trans hrun
    rw [hconvert, hreceive]
    have hwritten : t.taken.drop p.writer.target.taken.length = pieces := by
      rw [htaken]
      exact List.drop_left
    have hrefused : (job.fault.isSome && t.fault.isNone) = false := by
      rw [← Option.not_isSome, hfault]
      exact Bool.and_not_self _
    refine ⟨hcourse.leads.options, .inr ?_⟩
    unfold outcome sourceOutcome
    rw [Outcome.mk.injEq]
    exact ⟨rfl, (congrArg List.flatten hwritten).trans htext, hdiagnostics,
      congrArg Registry.anchorMap hregistry, hrefused⟩
  · have hreceive : receiveSource file job.source (p.armed job.fault).writer = (_, onto w'' _) :=
      hstart.trans hrun
    rw [hconvert, hreceive]
    refine ⟨hleads.options.symm.trans hcourse.leads.options, .inl ?_⟩
    show (job.fault.isSome && _) = true
    rw [show job.fault = some (n, reason) from hfault]
    rfl

/-! ## Options with a wrong anchor -/

/-- With an anchor that is none, no document is started on. -/
theorem convert_error {p : Press} {e : Failure}
    (hsections : Registry.create (p.writer.options.anchors.getD []) = .error e)
    (file : Text) (job : Job) :
    (p.convert file job).1 = ⟨.error e, [], [], p.writer.sections.anchorMap, false⟩
      ∧ (p.convert file job).2.writer.options = p.writer.options
      ∧ (p.convert file job).2.writer.sections = p.writer.sections := by
  obtain ⟨reader, hconvert⟩ := p.convert_run file job
  have hreceive := receiveSource_unstarted (w := (p.armed job.fault).writer) hsections file
    job.source
  rw [hconvert, hreceive]
  refine ⟨?_, rfl, rfl⟩
  have hwritten : p.writer.target.taken.drop p.writer.target.taken.length = [] := List.drop_length
  have hrefused : (job.fault.isSome && job.fault.isNone) = false := by
    rw [← Option.not_isSome]
    exact Bool.and_not_self _
  unfold outcome
  rw [Outcome.mk.injEq]
  exact ⟨rfl, congrArg List.flatten hwritten, rfl, rfl, hrefused⟩

/-! ## Jobs in turn -/

/-- What a press keeps from one document to the next: its options, and, if it starts on no
document because of them, that it has no sections. -/
structure Steady (o : Options) (p : Press) : Prop where
  options : p.writer.options = o
  sections : ∀ e, Registry.create (o.anchors.getD []) = .error e → p.writer.sections = .empty

theorem steady_on (t : Target) (o : Options) : Steady o (on t o) := ⟨rfl, fun _ _ => rfl⟩

/-- A job leaves a press steady. -/
theorem Steady.convert {o : Options} {p : Press} (h : Steady o p) (file : Text) (job : Job) :
    Steady o (p.convert file job).2 := by
  obtain ⟨rfl, hempty⟩ := h
  cases hsections : Registry.create (p.writer.options.anchors.getD []) with
  | ok sections =>
    refine ⟨(convert_ok hsections file job).1, ?_⟩
    intro e he
    rw [hsections] at he
    cases he
  | error e =>
    obtain ⟨-, hoptions, hkept⟩ := convert_error hsections file job
    exact ⟨hoptions, fun e' he' => hkept.trans (hempty e' he')⟩

/-- A job of which no piece is refused comes to the same on a steady press as alone. -/
theorem Steady.outcome_eq_alone {o : Options} {p : Press} (h : Steady o p) (file : Text)
    (job : Job) (hrefused : (p.convert file job).1.refused = false) :
    (p.convert file job).1 = alone file job.source o := by
  obtain ⟨rfl, hempty⟩ := h
  let own : Press := on .fresh p.writer.options
  cases hsections : Registry.create (p.writer.options.anchors.getD []) with
  | ok sections =>
    have hown := (convert_ok (p := own) hsections file ⟨job.source, none⟩).2.resolve_left
      Bool.false_ne_true
    have hjob := (convert_ok hsections file job).2.resolve_left (by simp [hrefused])
    exact hjob.trans hown.symm
  | error e =>
    rw [(convert_error hsections file job).1, hempty e hsections]
    exact (convert_error (p := own) hsections file ⟨job.source, none⟩).1.symm

/-- Whatever the documents before it have left behind, a document of which no piece is
refused ends, writes, reports and sets anchors as on a press of its own. -/
theorem convertEach_independent (file : Text) (t : Target) (o : Options) (jobs : List Job) :
    List.Forall₂ (fun job outcome => outcome.refused = false →
        outcome = alone file job.source o)
      jobs (convertEach file jobs (on t o)) := by
  have hrun : ∀ p : Press, Steady o p → List.Forall₂ (fun job outcome =>
      outcome.refused = false → outcome = alone file job.source o) jobs
      (convertEach file jobs p) := by
    induction jobs with
    | nil => exact fun _ _ => .nil
    | cons job rest ih =>
      intro p hp
      exact .cons (hp.outcome_eq_alone file job) (ih _ (hp.convert file job))
  exact hrun (on t o) (steady_on t o)

end Press

end PodLoom
