import PodLoom.Proofs.SourceCourse

set_option autoImplicit false

/-!
# A press: a reader and a writer that outlive a document

A press reads sources one after the other.  Its reader takes the paragraphs of a source in
order and remembers what is open and which errors it has found; its writer receives each
event as it is sent.  When an event is not received the press stops where it is, with
whatever the two then hold, and reads the next source from there.

Reading a source begins by clearing the reader, so what was left in it has no influence:
a press does to its writer what `receiveSource` does (`read_run`).
-/

namespace PodLoom

open Text
open PodLoom.Pod (Context Erratum Event OpenList Paragraph Region takeParagraph takeParagraphs)
open PodLoom.Thread (Options Target Writer)

/-- What a reader knows of the paragraphs behind it: what is open, and the errors found. -/
structure Reader where
  context : Context
  errata : List Erratum
  deriving DecidableEq, Repr, Inhabited

/-- A reader that has read nothing. -/
def Reader.clear : Reader := ⟨.empty, []⟩

/-- A reader and the writer that receives what it sends. -/
structure Press where
  reader : Reader
  writer : Writer
  deriving Repr, Inhabited

namespace Press

/-- A press on a target, new in all its parts. -/
def on (target : Target) (options : Options) : Press := ⟨.clear, .on target options⟩

/-- Change the reader. -/
def changeReader (f : Reader → Reader) : Attempt Press Unit :=
  Attempt.change fun p => { p with reader := f p.reader }

/-- Act on the writer. -/
def onWriter {α : Type} (m : Attempt Writer α) : Attempt Press α :=
  m.within Press.writer fun writer p => { p with writer }

/-- Have the writer receive events. -/
def send (events : List Event) : Attempt Press Unit := onWriter (Writer.receiveAll events)

/-- Take a paragraph; `next` is the one after it.  What it opens and closes is noted before
its events are sent. -/
def take (paragraph : Paragraph) (next : Option Paragraph) : Attempt Press Unit := do
  let reader := (← Attempt.state).reader
  let (context, delivery) := takeParagraph reader.context paragraph next
  changeReader fun _ => ⟨context, reader.errata ++ delivery.errata⟩
  send delivery.events

/-- Take paragraphs in order. -/
def takeEach : List Paragraph → Attempt Press Unit
  | [] => pure ()
  | paragraph :: rest => do
      take paragraph rest.head?
      takeEach rest

/-- Report the regions left open, outermost first. -/
def reportRegions : Attempt Press Unit :=
  changeReader fun r => { r with errata := r.errata ++ r.context.regions.reverse.map fun region =>
    ⟨region.line, ofString "=begin " ++ region.target ++ ofString " without matching =end"⟩ }

/-- Report and end lists that are left open. -/
def endEach : List OpenList → Attempt Press Unit
  | [] => pure ()
  | list :: outer => do
      changeReader fun r => ⟨{ r.context with lists := outer },
        r.errata ++ [⟨list.line, ofString "=over without closing =back"⟩]⟩
      send [.finish list.element]
      endEach outer

/-- Send the end of a source. -/
def endSource : Attempt Press Unit := do
  reportRegions
  endEach (← Attempt.state).reader.context.lists
  send [.docEnd (Pod.sortErrata (← Attempt.state).reader.errata)]

/-- Send a source. -/
def sendSource (file source : Text) : Attempt Press Unit := do
  send [.docStart (sourceInfo file source)]
  takeEach (Paragraph.split source)
  endSource

/-- Read a source: clear the reader, say which source comes, and send it. -/
def read (file source : Text) : Attempt Press Unit := do
  changeReader fun _ => .clear
  onWriter (Attempt.change (announced file source))
  sendSource file source

/-! ## What is sent -/

instance : Intake Writer Event where
  take := Writer.receive

instance : Outlet Press Writer where
  onto p writer := { p with writer }
  Leads _ _ := True
  refl _ := trivial
  trans _ _ := trivial

theorem course_changeReader (f : Reader → Reader) (p : Press) :
    Course (changeReader f) p (.ok ()) { p with reader := f p.reader } [] :=
  .change (fun _ => rfl) trivial

theorem course_send (events : List Event) (p : Press) :
    Course (send events) p (.ok ()) p events := by
  have hrun : ∀ w : Writer, send events (onto p w)
      = ((Writer.receiveAll events w).1, onto p (Writer.receiveAll events w).2) := fun _ => rfl
  refine ⟨trivial, ?_, ?_⟩
  · intro w w' hsent
    rw [hrun, show Writer.receiveAll events w = _ from hsent]
  · intro w w' e hfailed
    rw [hrun, show Writer.receiveAll events w = _ from hfailed]
    exact ⟨p, trivial, rfl⟩

/-- A press whose reader has taken a paragraph. -/
def taking (p : Press) (paragraph : Paragraph) (next : Option Paragraph) : Press :=
  let (context, delivery) := takeParagraph p.reader.context paragraph next
  { p with reader := ⟨context, p.reader.errata ++ delivery.errata⟩ }

theorem course_take (p : Press) (paragraph : Paragraph) (next : Option Paragraph) :
    Course (take paragraph next) p (.ok ()) (p.taking paragraph next)
      (takeParagraph p.reader.context paragraph next).2.events :=
  .inspect (fun _ => rfl) ((course_changeReader _ p).bind (course_send _ _))

theorem course_takeEach (p : Press) (ps : List Paragraph) :
    Course (takeEach ps) p (.ok ())
      { p with reader := ⟨(takeParagraphs p.reader.context ps).1,
          p.reader.errata ++ (takeParagraphs p.reader.context ps).2.errata⟩ }
      (takeParagraphs p.reader.context ps).2.events := by
  induction ps generalizing p with
  | nil =>
    refine .silent trivial fun w => ?_
    have hnone : p.reader.errata ++ (takeParagraphs p.reader.context []).2.errata
        = p.reader.errata := List.append_nil _
    rw [hnone]
    rfl
  | cons paragraph ps ih =>
    let found := (takeParagraph p.reader.context paragraph ps.head?).2.errata
    have hrest := ih (p.taking paragraph ps.head?)
    have herrata : ∀ more, (p.taking paragraph ps.head?).reader.errata ++ more
        = p.reader.errata ++ (found ++ more) := fun _ => List.append_assoc ..
    rw [herrata] at hrest
    exact (course_take p paragraph ps.head?).bind hrest

theorem course_endEach (p : Press) (lists : List OpenList) (regions : List Region)
    (errata : List Erratum) :
    Course (endEach lists) { p with reader := ⟨⟨lists, regions⟩, errata⟩ } (.ok ())
      { p with reader := ⟨⟨[], regions⟩,
          errata ++ lists.map fun l => ⟨l.line, ofString "=over without closing =back"⟩⟩ }
      (lists.map fun l => .finish l.element) := by
  induction lists generalizing errata with
  | nil =>
    refine .silent trivial fun w => ?_
    rw [List.map_nil, List.append_nil]
    rfl
  | cons l outer ih =>
    have hrest := ih (errata ++ [⟨l.line, ofString "=over without closing =back"⟩])
    rw [List.append_assoc] at hrest
    exact (course_changeReader _ _).bind ((course_send [.finish l.element] _).bind hrest)

theorem course_endSource (p : Press) :
    let ended := Pod.endDocument p.reader.context
    Course endSource p (.ok ())
      { p with reader := ⟨⟨[], p.reader.context.regions⟩, p.reader.errata ++ ended.errata⟩ }
      (ended.events ++ [.docEnd (Pod.sortErrata (p.reader.errata ++ ended.errata))]) := by
  intro ended
  let reported : List Erratum := p.reader.errata ++ p.reader.context.regions.reverse.map fun r =>
    ⟨r.line, ofString "=begin " ++ r.target ++ ofString " without matching =end"⟩
  have hlists := course_endEach p p.reader.context.lists p.reader.context.regions reported
  rw [List.append_assoc] at hlists
  have hreport : Course reportRegions p (.ok ())
      { p with reader := ⟨p.reader.context, reported⟩ } [] := course_changeReader _ p
  exact hreport.bind (.inspect (fun _ => rfl)
    (hlists.bind (.inspect (fun _ => rfl) (course_send _ _))))

/-- A press whose reader is clear sends the events of a source. -/
theorem course_sendSource (file source : Text) {p : Press} (hclear : p.reader = .clear) :
    ∃ p', Course (sendSource file source) p (.ok ()) p' (Pod.sourceEvents file source) := by
  obtain ⟨reader, writer⟩ := p
  obtain rfl : reader = .clear := hclear
  let body := takeParagraphs .empty (Paragraph.split source)
  let left : Press := ⟨⟨body.1, body.2.errata⟩, writer⟩
  have htake : Course (takeEach (Paragraph.split source)) ⟨.clear, writer⟩ (.ok ()) left
      body.2.events := course_takeEach ⟨.clear, writer⟩ (Paragraph.split source)
  have hevents : Pod.sourceEvents file source = [.docStart (sourceInfo file source)]
      ++ (body.2.events ++ ((Pod.endDocument body.1).events
        ++ [.docEnd (Pod.sortErrata (body.2.errata ++ (Pod.endDocument body.1).errata))])) :=
    congrArg _ (List.append_assoc ..)
  rw [hevents]
  exact ⟨_, (course_send _ _).bind (htake.bind (course_endSource left))⟩

/-- A press does to its writer what receiving the source does, whatever was left in its
reader. -/
theorem read_run (file source : Text) (p : Press) :
    ∃ reader, read file source p
      = ((receiveSource file source p.writer).1,
        ⟨reader, (receiveSource file source p.writer).2⟩) := by
  let ready : Press := ⟨.clear, announced file source p.writer⟩
  have hread : read file source p = sendSource file source (onto ready ready.writer) := rfl
  obtain ⟨p', hcourse⟩ := course_sendSource file source (p := ready) rfl
  rw [hread, receiveSource_announced]
  rcases hreceive : Writer.receiveAll (Pod.sourceEvents file source) ready.writer with ⟨e | _, w⟩
  · obtain ⟨left, -, hrun⟩ := hcourse.refused hreceive
    exact ⟨left.reader, hrun⟩
  · exact ⟨p'.reader, hcourse.taken hreceive⟩

end Press

end PodLoom
