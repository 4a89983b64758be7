import PodLoom.Proofs.Course
import PodLoom.Proofs.Thread.Desk

set_option autoImplicit false

/-!
# Output on any target

The writer never looks at what its target has taken, nor at whether the target will
refuse a piece.  So all that it does streams: what an action does is settled by the rest of
its state, and only a target that refuses a piece cuts it off.

This holds of taking a single piece, and so of every event of a document behind its start
(`streams_receiveAll`).  The start itself makes the writer anew (`startDocument_ok`).
-/

namespace PodLoom.Thread

open Text CodeUnit
open PodLoom.Pod (DocumentInfo Element Erratum Event ListKind)

/-! ## Targets -/

namespace Target

instance : Intake Target Text where
  take := take

/-- A target that refuses nothing takes all pieces. -/
theorem takeAll_willing {t : Target} (h : t.fault = none) (pieces : List Text) :
    Intake.takeAll pieces t = (.ok (), { t with taken := t.taken ++ pieces }) := by
  induction pieces generalizing t with
  | nil => rw [List.append_nil]; rfl
  | cons piece rest ih =>
    have hrest := ih (t := { t with taken := t.taken ++ [piece] }) h
    rw [List.append_assoc, List.singleton_append] at hrest
    exact (Attempt.bind_run_ok (Sink.take_run h piece)).trans hrest

theorem take_refused (taken : List Text) (reason piece : Text) :
    take piece ⟨taken, some (0, reason)⟩ = (.error (.refused reason), ⟨taken, none⟩) := rfl

theorem take_before_fault (taken : List Text) (n : Nat) (reason piece : Text) :
    take piece ⟨taken, some (n + 1, reason)⟩
      = (.ok (), ⟨taken ++ [piece], some (n, reason)⟩) := rfl

/-- A target takes the pieces before the one it refuses, and no other. -/
theorem takeAll_fault (taken : List Text) (n : Nat) (reason : Text) (pieces : List Text) :
    Intake.takeAll pieces (⟨taken, some (n, reason)⟩ : Target)
      = if n < pieces.length then (.error (.refused reason), ⟨taken ++ pieces.take n, none⟩)
        else (.ok (), ⟨taken ++ pieces, some (n - pieces.length, reason)⟩) := by
  induction pieces generalizing taken n with
  | nil => simp [Intake.takeAll, Attempt.forEach]
  | cons piece rest ih =>
    cases n with
    | zero =>
      refine (Attempt.bind_run_error (take_refused taken reason piece)).trans ?_
      simp
    | succ n =>
      refine (Attempt.bind_run_ok (take_before_fault taken n reason piece)).trans ?_
      refine (ih (taken ++ [piece]) n).trans ?_
      simp [List.append_assoc]

/-- What taking pieces comes to: the target has them all, or has refused one of them. -/
theorem takeAll_cases (pieces : List Text) (t : Target) :
    (∃ fault, fault.isSome = t.fault.isSome
        ∧ Intake.takeAll pieces t = (.ok (), ⟨t.taken ++ pieces, fault⟩))
      ∨ ∃ n reason, t.fault = some (n, reason) ∧ n < pieces.length
        ∧ Intake.takeAll pieces t
          = (.error (.refused reason), ⟨t.taken ++ pieces.take n, none⟩) := by
  obtain ⟨taken, _ | ⟨n, reason⟩⟩ := t
  · exact .inl ⟨none, rfl, takeAll_willing rfl pieces⟩
  · by_cases hn : n < pieces.length
    · exact .inr ⟨n, reason, rfl, hn, (takeAll_fault taken n reason pieces).trans (if_pos hn)⟩
    · exact .inl ⟨some (n - pieces.length, reason), rfl,
        (takeAll_fault taken n reason pieces).trans (if_neg hn)⟩

end Target

/-! ## States that hold a target -/

/-- The warnings among log entries. -/
def warnings (journal : List Log.Entry) : List Log.Entry := journal.filter (·.level == .warn)

instance : Outlet Target Target where
  onto _ t := t
  Leads _ _ := True
  refl _ := trivial
  trans _ _ := trivial

instance : Outlet Sink Target where
  onto s t := { s with target := t }
  Leads _ _ := True
  refl _ := trivial
  trans _ _ := trivial

instance : Outlet Nesting Target where
  onto n t := { n with sink := onto n.sink t }
  Leads _ _ := True
  refl _ := trivial
  trans _ _ := trivial

/-- What a writer keeps while it writes a document: its options do not change, no
diagnostic is taken back, and nothing it says is a warning. -/
structure Writer.Continues (w w' : Writer) : Prop where
  options : w'.options = w.options
  diagnostics : w.diagnostics <+: w'.diagnostics
  warnings : Thread.warnings w'.journal = Thread.warnings w.journal

instance : Outlet Writer Target where
  onto w t := { w with nesting := onto w.nesting t }
  Leads := Writer.Continues
  refl _ := ⟨rfl, List.prefix_rfl, rfl⟩
  trans h h' := ⟨h'.options.trans h.options, h.diagnostics.trans h'.diagnostics,
    h'.warnings.trans h.warnings⟩

/-- A writer has the target it is put on. -/
theorem Writer.target_onto (w : Writer) (t : Target) : (onto w t).target = t := rfl

section

variable {σ α : Type} [Outlet σ Target]

/-- An action on any target: it comes to where its course leads, or the target refuses a
piece on the way. -/
theorem Target.course_cases {m : Attempt σ α} {s s' : σ} {r : Except Failure α} {pieces : List Text}
    (h : Course m s r s' pieces) (t : Target) :
    (∃ t' : Target, t'.taken = t.taken ++ pieces ∧ t'.fault.isSome = t.fault.isSome
        ∧ m (onto s t) = (r, onto s' t'))
      ∨ ∃ (n : Nat) (reason : Text) (s'' : σ), t.fault = some (n, reason) ∧ Leads s'' s'
        ∧ m (onto s t) = (.error (.refused reason), onto s'' ⟨t.taken ++ pieces.take n, none⟩) := by
  rcases Target.takeAll_cases pieces t with ⟨fault, hfault, htake⟩ | ⟨n, reason, hfault, -, htake⟩
  · exact .inl ⟨_, rfl, hfault, h.taken htake⟩
  · obtain ⟨s'', hleads, hrun⟩ := h.refused htake
    exact .inr ⟨n, reason, s'', hfault, hleads, hrun⟩

/-- Targets that refuse nothing make no difference to an action but for what they had taken
before. -/
theorem Target.course_willing {m : Attempt σ α} (hm : Streams m) (s : σ) :
    ∃ r s' pieces, ∀ taken : List Text,
      m (onto s ⟨taken, none⟩) = (r, onto s' ⟨taken ++ pieces, none⟩) := by
  obtain ⟨r, s', pieces, hcourse⟩ := hm s
  exact ⟨r, s', pieces, fun taken => hcourse.taken (Target.takeAll_willing rfl pieces)⟩

end

/-! ## The sink -/

theorem streams_take (piece : Text) : Streams (Target.take piece) := by
  intro s
  refine ⟨.ok (), s, [piece], trivial, ?_, ?_⟩
  · intro t t' htake
    rwa [Intake.takeAll_singleton] at htake
  · intro t t' e htake
    rw [Intake.takeAll_singleton] at htake
    exact ⟨t', trivial, htake⟩

namespace Sink

theorem streams_write (piece : Text) : Streams (write piece) := by
  unfold write
  split
  · exact .pure ()
  · refine .inspect (fun _ _ => rfl) fun _ => ?_
    split
    · exact .change (fun _ _ => rfl) fun _ => trivial
    · exact (streams_take piece).within (fun _ _ => rfl) (fun _ _ _ _ => rfl)
        (fun _ _ => trivial) fun _ _ _ => trivial

theorem streams_flush : Streams flush :=
  .inspect (fun _ _ => rfl) fun _ =>
    (streams_write _).seq (.change (fun _ _ => rfl) fun _ => trivial)

theorem streams_output (chunk : Text) : Streams (output chunk) := by
  have hbody : ∀ chunk : Text, Streams (do
      Attempt.change fun s : Sink => { s with deferred := (splitBlankLines chunk).2 }
      write (splitBlankLines chunk).1) := fun chunk =>
    .seq (.change (fun _ _ => rfl) fun _ => trivial) (streams_write _)
  refine .inspect (fun _ _ => rfl) fun _ => ?_
  simp only [pure_bind]
  split
  · exact hbody chunk
  · split
    · exact (streams_write _).seq (streams_flush.seq (hbody _))
    · exact streams_flush.seq (hbody chunk)

theorem streams_reserve : Streams reserve := by
  refine .inspect (fun _ _ => rfl) fun s => ?_
  split
  · exact .pure ()
  · exact streams_flush.seq (.change (fun _ _ => rfl) fun _ => trivial)

theorem streams_finish (navigation : Text) : Streams (finish navigation) := by
  refine .inspect (fun _ _ => rfl) fun _ => .seq (.change (fun _ _ => rfl) fun _ => trivial) ?_
  dsimp only
  split
  · exact (streams_write navigation).seq
      (.seq (.forEach fun piece _ => streams_write piece) streams_flush)
  · exact streams_flush

end Sink

/-! ## Lists -/

namespace Nesting

theorem streams_onSink {α : Type} {m : Attempt Sink α} (hm : Streams m) : Streams (onSink m) :=
  hm.within (fun _ _ => rfl) (fun _ _ _ _ => rfl) (fun _ _ => trivial) fun _ _ _ => trivial

theorem streams_output (chunk : Text) : Streams (output chunk) :=
  streams_onSink (Sink.streams_output chunk)

theorem streams_changeScope (f : Scope → Scope) : Streams (changeScope f) :=
  .change (fun _ _ => rfl) fun _ => trivial

theorem streams_closeOpen (scope : Scope) : Streams (closeOpen scope) := by
  unfold closeOpen
  split
  · exact (streams_output _).seq (streams_changeScope _)
  · exact .pure ()

theorem streams_openItem (tag body : Text) : Streams (openItem tag body) :=
  (streams_output _).seq (streams_changeScope _)

theorem streams_item (body : Text) : Streams (item body) := by
  refine .inspect (fun _ _ => rfl) fun n => ?_
  split
  · exact streams_output body
  · split
    · exact (streams_closeOpen _).seq ((streams_openItem _ body).seq (streams_changeScope _))
    · split
      · exact streams_openItem blockTag body
      · exact streams_output body

theorem streams_openPending (scope : Scope) : Streams (openPending scope) := by
  unfold openPending
  split
  · exact streams_item []
  · exact .pure ()

theorem streams_enter (kind : ListKind) : Streams (enter kind) := by
  refine .inspect (fun _ _ => rfl) fun _ => ?_
  dsimp only
  split
  · exact (streams_openPending _).seq (.change (fun _ _ => rfl) fun _ => trivial)
  · exact .change (fun _ _ => rfl) fun _ => trivial

theorem streams_startItem (tag : Text) : Streams (startItem tag) := by
  refine .inspect (fun _ _ => rfl) fun n => ?_
  split
  · exact .pure ()
  · exact (streams_openPending _).seq (streams_changeScope _)

theorem streams_closeItem : Streams closeItem := by
  refine .inspect (fun _ _ => rfl) fun n => ?_
  split
  · exact .pure ()
  · refine (streams_openPending _).seq (.inspect (fun _ _ => rfl) fun n => ?_)
    split
    · exact .pure ()
    · exact streams_closeOpen _

theorem streams_exit : Streams exit := by
  refine .inspect (fun _ _ => rfl) fun n => ?_
  split
  · exact streams_closeItem.seq (.seq (.change (fun _ _ => rfl) fun _ => trivial) (.pure true))
  · exact .pure false

theorem streams_exitEach (scopes : List Scope) : Streams (exitEach scopes) := by
  induction scopes with
  | nil => exact .pure ()
  | cons s rest ih => exact streams_exit.bind fun _ => ih

theorem streams_exitAll : Streams exitAll :=
  .inspect (fun _ _ => rfl) fun n => streams_exitEach n.scopes

end Nesting

/-! ## The writer -/

namespace Writer

theorem streams_onNesting {α : Type} {m : Attempt Nesting α} (hm : Streams m) :
    Streams (onNesting m) :=
  hm.within (fun _ _ => rfl) (fun _ _ _ _ => rfl) (fun _ _ => ⟨rfl, List.prefix_rfl, rfl⟩)
    fun _ _ _ => ⟨rfl, List.prefix_rfl, rfl⟩

theorem streams_output (chunk : Text) : Streams (output chunk) :=
  streams_onNesting (Nesting.streams_output chunk)

theorem streams_currentPage : Streams currentPage := by
  refine .inspect (fun _ _ => rfl) fun _ => ?_
  split
  · exact .pure _
  · exact .fail _

theorem streams_changePage (f : Page → Page) : Streams (changePage f) :=
  .change (fun _ _ => rfl) fun _ => ⟨rfl, List.prefix_rfl, rfl⟩

theorem streams_warn (page : Page) (line : Int) (message : Text) :
    Streams (warn page line message) :=
  .change (fun _ _ => rfl) fun _ => ⟨rfl, List.prefix_append _ _, rfl⟩

/-- What the writer says is no warning. -/
theorem streams_say (message : Text) (data : Json) : Streams (say message data) := by
  refine .change (fun _ _ => rfl) fun w => ⟨rfl, List.prefix_rfl, ?_⟩
  rw [warnings, warnings, List.filter_append]
  exact List.append_nil _

theorem streams_writeHeader (page : Page) (title : Text) (description : Option Text) :
    Streams (writeHeader page title description) := by
  refine .inspect (fun _ _ => rfl) fun _ => .optional (streams_output _) ?_
  refine .seq (streams_output _) (.seq (streams_output _) ?_)
  have hreserve := streams_onNesting (Nesting.streams_onSink Sink.streams_reserve)
  dsimp only
  split
  · exact (streams_output _).seq (.optional hreserve (streams_changePage _))
  · exact .optional hreserve (streams_changePage _)

theorem streams_writeHeading (page : Page) (level : Nat) (content : Rendered) :
    Streams (writeHeading page level content) := by
  refine .inspect (fun _ _ => rfl) fun _ => ?_
  split
  · exact streams_changePage _
  · refine .seq (streams_changePage _) (.seq (streams_onNesting Nesting.streams_closeItem) ?_)
    refine .inspect (fun _ _ => rfl) fun _ => ?_
    simp only [pure_bind]
    split
    · exact .seq (.change (fun _ _ => rfl) fun _ => ⟨rfl, List.prefix_rfl, rfl⟩)
        (streams_output _)
    · exact streams_output _

theorem streams_writeParagraph (page : Page) (content : Rendered) :
    Streams (writeParagraph page content) := by
  unfold writeParagraph
  split
  · exact .pure ()
  · split
    · exact streams_writeHeader page _ _
    · dsimp only
      split
      · exact .pure ()
      · exact streams_onNesting (Nesting.streams_item _)

theorem streams_writeVerbatim (content : Rendered) : Streams (writeVerbatim content) := by
  unfold writeVerbatim
  dsimp only
  split
  · exact .pure ()
  · exact streams_onNesting (Nesting.streams_item _)

theorem streams_writeData (content : Rendered) : Streams (writeData content) := by
  unfold writeData
  dsimp only
  split
  · exact .pure ()
  · exact streams_output _

theorem streams_appendContent (rendered : Rendered) : Streams (appendContent rendered) :=
  streams_changePage _

theorem streams_appendRendering (page : Page) (line : Int) (rendering : Rendering) :
    Streams (appendRendering page line rendering) := by
  unfold appendRendering
  dsimp only
  split
  · exact (streams_warn page line _).seq (streams_appendContent _)
  · exact streams_appendContent _

theorem streams_startElement (element : Element) : Streams (startElement element) := by
  refine streams_currentPage.bind fun _ => ?_
  cases element with
  | «over» kind line => exact streams_onNesting (Nesting.streams_enter kind)
  | _ => exact streams_changePage _

theorem streams_receiveText (t : Text) : Streams (receiveText t) :=
  streams_currentPage.bind fun _ => streams_changePage _

theorem streams_finishBlock (page : Page) (element : Element) (content : Rendered) :
    Streams (finishBlock page element content) := by
  cases element with
  | format code line => exact streams_appendRendering page line _
  | link kind target heading hasLabel line =>
    exact .inspect (fun _ _ => rfl) fun _ => streams_appendContent _
  | head level line => exact streams_writeHeading page level content
  | para line => exact streams_writeParagraph page content
  | verbatim line => exact streams_writeVerbatim content
  | data target line => exact streams_writeData content
  | item kind marker line => exact streams_onNesting (Nesting.streams_startItem _)
  | command name text line => exact streams_warn page line _
  | «over» kind line => exact .pure ()

theorem streams_finishElement (element : Element) : Streams (finishElement element) := by
  refine streams_currentPage.bind fun page => ?_
  cases element with
  | «over» kind line =>
    refine (streams_onNesting Nesting.streams_exit).bind fun ended => ?_
    split
    · exact .pure ()
    · exact streams_warn page line _
  | _ =>
    dsimp only
    split
    · exact .pure ()
    · exact (streams_changePage _).seq (streams_finishBlock page _ _)

/-- What is done when all of a page is written: the writer leaves it, and reports the errors
of its source. -/
def leavePage (file : Text) (errata : List Erratum) : Attempt Writer Unit := do
  Attempt.change fun w => { w with page := none }
  say (ofString "Document end") (.object
    [(ofString "file", .string file),
      (ofString "sections", .ofNat (← Attempt.state).sections.size)])
  if errata.isEmpty then pure () else Attempt.fail (.syntaxErrors file errata [])

theorem streams_leavePage (file : Text) (errata : List Erratum) :
    Streams (leavePage file errata) := by
  refine .seq (.change (fun _ _ => rfl) fun _ => ⟨rfl, List.prefix_rfl, rfl⟩) ?_
  refine .inspect (fun _ _ => rfl) fun _ => (streams_say _ _).seq ?_
  split
  · exact .pure ()
  · exact .fail _

theorem streams_endDocument (errata : List Erratum) : Streams (endDocument errata) := by
  refine streams_currentPage.bind fun page => ?_
  refine .seq (.change (fun _ _ => rfl) fun _ => ⟨rfl, List.prefix_append _ _, rfl⟩) ?_
  dsimp only
  split
  · refine .seq (streams_onNesting Nesting.streams_exitAll) (.seq (streams_output _) ?_)
    refine .inspect (fun _ _ => rfl) fun _ => .seq ?_ (streams_leavePage page.file errata)
    exact streams_onNesting (Nesting.streams_onSink (Sink.streams_finish _))
  · exact streams_leavePage page.file errata

/-- Every event behind the start of a document has a course that no target changes. -/
theorem streams_receive {e : Event} (he : ∀ info, e ≠ .docStart info) : Streams (receive e) := by
  cases e with
  | docStart info => exact absurd rfl (he info)
  | start element => exact streams_startElement element
  | text t => exact streams_receiveText t
  | finish element => exact streams_finishElement element
  | docEnd errata => exact streams_endDocument errata

theorem streams_receiveAll {events : List Event} (h : ∀ e ∈ events, ∀ info, e ≠ .docStart info) :
    Streams (receiveAll events) :=
  .forEach fun e he => streams_receive (h e he)

/-! ## The start of a document -/

/-- A writer that starts on a document and has written nothing of it: of what it was before,
its options, its target and what it has said are left. -/
def started (info : DocumentInfo) (sections : Registry) (w : Writer) : Writer where
  options := w.options
  nesting := .on (.on w.target)
  sections := sections
  diagnostics := []
  page := some ⟨info.file, w.options.id <|> info.id, info.contentless, [], false, false⟩
  journal := w.journal ++ [Desk.startEntry info]

/-- Write the header of a page whose title is given. -/
def writeTitle (info : DocumentInfo) : Attempt Writer Unit := do
  let options := (← Attempt.state).options
  if !info.contentless && options.hasTitle then
    writeHeader ⟨info.file, options.id <|> info.id, info.contentless, [], false, false⟩
      (escape (options.title.getD [])) none

theorem streams_writeTitle (info : DocumentInfo) : Streams (writeTitle info) := by
  refine .inspect (fun _ _ => rfl) fun _ => ?_
  dsimp only
  split
  · exact streams_writeHeader _ _ _
  · exact .pure ()

theorem started_onto (info : DocumentInfo) (sections : Registry) (w : Writer) (t : Target) :
    started info sections (onto w t) = onto (started info sections w) t := rfl

theorem startDocument_ok {w : Writer} {sections : Registry}
    (hsections : Registry.create (w.options.anchors.getD []) = .ok sections)
    (info : DocumentInfo) :
    startDocument info w = writeTitle info (started info sections w) := by
  unfold startDocument
  rw [Attempt.bind_run_ok (Attempt.change_run _ w), Attempt.bind_run_ok (Attempt.state_run _)]
  simp only [hsections]
  rfl

/-- A writer whose options hold an anchor that is none does not start on a document. -/
theorem startDocument_error {w : Writer} {e : Failure}
    (hsections : Registry.create (w.options.anchors.getD []) = .error e) (info : DocumentInfo) :
    startDocument info w = (.error e, { w with diagnostics := [] }) := by
  unfold startDocument
  rw [Attempt.bind_run_ok (Attempt.change_run _ w), Attempt.bind_run_ok (Attempt.state_run _)]
  simp only [hsections]
  rfl

end Writer

end PodLoom.Thread
