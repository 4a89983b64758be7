import PodLoom.Proofs.Pod.Blocks
import PodLoom.Proofs.Thread.Draft

set_option autoImplicit false

/-!
# The writer follows the draft

A desk is what a draft leaves open: the options of the page, the identifier and the
names that diagnostics and log lines use.  At a desk a draft is a writer
(`Desk.writer`): its pieces are chunks of output for a sink on a target that refuses
nothing.

Each operation of the lists and of the writer does to that writer what the operation
of the same name does to the draft, and none fails (`receive_run`).
-/

namespace PodLoom.Thread

open Text CodeUnit
open PodLoom.Pod (Element Event ListKind)

/-- The options of a page, the names of its source in diagnostics and of the page
itself, whether the source has no content, and what was said before. -/
structure Desk where
  options : Options
  file : Text
  id : Option Text
  contentless : Bool
  journal : List Log.Entry
  deriving Repr, Inhabited

namespace Desk

/-! ## The chunks of a piece -/

/-- An anchor behind the macro of a heading. -/
def anchorMark : Option Text → Text
  | some anchor => ofString "(#" ++ anchor ++ ofString ")"
  | none => []

/-- The block that names a page. -/
def idBlocks (id : Text) : List Text :=
  if id.isEmpty then [] else [Writer.block (command "id" [escape id])]

/-- The block of a description. -/
def subheads (description : Option Text) : List Text :=
  description.toList.map fun text =>
    Writer.block (command "p(subhead)" [ofString "(" ++ text ++ ofString ")"])

/-- The blocks of a page header: the identifier, the title with the style sheet, and the
description. -/
def headerBlocks (id style title : Text) (description : Option Text) : List Text :=
  idBlocks id
    ++ (Writer.block (command "heading" [title, escape style])
      :: Writer.block (command "h1" [title]) :: subheads description)

/-- The chunks of output that a piece consists of. -/
def chunks (k : Desk) : Piece → List Text
  | .header title description =>
      headerBlocks (k.id.getD []) (k.options.style.getD []) title description
  | .heading level anchor label =>
      [Writer.block (ofString "\\h" ++ ofNat (level + 1) ++ anchorMark anchor ++ bracketed label)]
  | .opening tag body => [tag ++ newline :: openBracket :: body]
  | .closing => [[closeBracket, newline]]
  | .passage text => [text]

/-- What is done to the sink behind a piece: the header reserves the place of the
navigation. -/
def reservation (k : Desk) : Piece → List Sink.Step
  | .header .. => if k.options.wantsNavigation then [.reserve] else []
  | _ => []

/-- What a piece does to the sink. -/
def steps (k : Desk) (p : Piece) : List Sink.Step :=
  (k.chunks p).map .output ++ k.reservation p

/-- The sink behind pieces. -/
def sink (k : Desk) (pieces : List Piece) : Sink :=
  (pieces.flatMap k.steps).foldl Sink.after (.on .fresh)

/-- The lists and the sink behind pieces. -/
def nesting (k : Desk) (scopes : List Scope) (pieces : List Piece) : Nesting :=
  ⟨scopes, k.sink pieces⟩

/-- The page of a draft. -/
def page (k : Desk) (d : Draft) : Page :=
  ⟨k.file, k.id, k.contentless, d.frames, d.inName, d.headerDone⟩

/-- A warning about the page. -/
def diagnostic (k : Desk) (warning : Int × Text) : Diagnostic :=
  ⟨.warning, k.file, warning.1, warning.2⟩

/-- The writer of a draft. -/
def writer (k : Desk) (d : Draft) : Writer where
  options := k.options
  nesting := k.nesting d.scopes d.pieces
  sections := d.sections
  diagnostics := d.warnings.map k.diagnostic
  page := some (k.page d)
  journal := k.journal

variable (k : Desk)

theorem sink_append (pieces more : List Piece) :
    k.sink (pieces ++ more) = (more.flatMap k.steps).foldl Sink.after (k.sink pieces) := by
  rw [sink, List.flatMap_append, List.foldl_append]
  rfl

theorem willing_sink (pieces : List Piece) : (k.sink pieces).Willing := by
  refine List.foldlRecOn (pieces.flatMap k.steps) _ (show (Sink.on .fresh).Willing from rfl) ?_
  intro s hs step _
  exact (Sink.perform_run hs step).2

/-- The chunks of pieces, one after the other. -/
def text (pieces : List Piece) : Text := (pieces.flatMap k.chunks).flatten

theorem text_append (pieces more : List Piece) :
    k.text (pieces ++ more) = k.text pieces ++ k.text more := by
  rw [text, List.flatMap_append, List.flatten_append]
  rfl

/-! ## Lists -/

theorem output_run (scopes : List Scope) (pieces : List Piece) {p : Piece} {chunk : Text}
    (hp : k.steps p = [.output chunk]) :
    Nesting.output chunk (k.nesting scopes pieces)
      = (.ok (), k.nesting scopes (pieces ++ [p])) := by
  have hsink : k.sink (pieces ++ [p]) = Sink.emit chunk (k.sink pieces) := by
    rw [sink_append, List.flatMap_singleton, hp]
    rfl
  have hrun := Sink.output_run (willing_sink k pieces) chunk
  rw [nesting, nesting, hsink]
  simp only [Nesting.output, Nesting.onSink, Attempt.within, hrun]

theorem closeOpen_run (s : Scope) (outer : List Scope) (pieces : List Piece) :
    Nesting.closeOpen s (k.nesting (s :: outer) pieces)
      = (.ok (), k.nesting ({ s with isOpen := false } :: outer) (pieces ++ s.closers)) := by
  unfold Nesting.closeOpen Scope.closers
  cases hopen : s.isOpen with
  | true =>
    simp only [if_true]
    rw [Attempt.bind_run_ok (k.output_run _ _ (p := .closing) rfl)]
    rfl
  | false =>
    obtain ⟨kind, tag, pending, isOpen⟩ := s
    obtain rfl : isOpen = false := hopen
    simp [List.append_nil]

theorem openItem_run (s : Scope) (outer : List Scope) (pieces : List Piece) (tag body : Text) :
    Nesting.openItem tag body (k.nesting (s :: outer) pieces)
      = (.ok (), k.nesting ({ s with isOpen := true } :: outer)
          (pieces ++ [.opening tag body])) := by
  unfold Nesting.openItem
  rw [Attempt.bind_run_ok (k.output_run _ _ (p := .opening tag body) rfl)]
  rfl

theorem item_run (s : Scope) (outer : List Scope) (pieces : List Piece) (body : Text) :
    Nesting.item body (k.nesting (s :: outer) pieces)
      = (.ok (), k.nesting ((s.place body).1 :: outer) (pieces ++ (s.place body).2)) := by
  unfold Nesting.item Scope.place
  rw [Attempt.bind_run_ok (Attempt.state_run _)]
  show (if s.pending then _ else _ : Attempt Nesting Unit) _ = _
  by_cases hpending : s.pending = true
  · rw [if_pos hpending, if_pos hpending, Attempt.bind_run_ok (k.closeOpen_run s outer pieces),
      Attempt.bind_run_ok (k.openItem_run _ outer _ s.tag body), ← List.append_assoc]
    rfl
  · rw [if_neg hpending, if_neg hpending]
    split
    · exact k.openItem_run s outer pieces blockTag body
    · exact k.output_run _ _ rfl

theorem item_run_page (pieces : List Piece) (body : Text) :
    Nesting.item body (k.nesting [] pieces)
      = (.ok (), k.nesting [] (pieces ++ [.passage body])) := by
  unfold Nesting.item
  rw [Attempt.bind_run_ok (Attempt.state_run _)]
  exact k.output_run _ _ rfl

theorem openPending_run (s : Scope) (outer : List Scope) (pieces : List Piece) :
    Nesting.openPending s (k.nesting (s :: outer) pieces)
      = (.ok (), k.nesting (s.settle.1 :: outer) (pieces ++ s.settle.2)) := by
  unfold Nesting.openPending Scope.settle
  split
  · exact k.item_run s outer pieces []
  · simp

/-- What an operation of the lists does to the innermost scope. -/
def onScope (f : Scope → Scope × List Piece) (scopes : List Scope) (pieces : List Piece) :
    Nesting :=
  match scopes with
  | [] => k.nesting [] pieces
  | s :: outer => k.nesting ((f s).1 :: outer) (pieces ++ (f s).2)

theorem startItem_run (scopes : List Scope) (pieces : List Piece) (tag : Text) :
    Nesting.startItem tag (k.nesting scopes pieces)
      = (.ok (), k.onScope (Scope.next tag) scopes pieces) := by
  unfold Nesting.startItem
  rw [Attempt.bind_run_ok (Attempt.state_run _)]
  cases scopes with
  | nil => rfl
  | cons s outer =>
    show (Nesting.openPending s >>= fun _ => _) _ = _
    rw [Attempt.bind_run_ok (k.openPending_run s outer pieces)]
    rfl

theorem closeItem_run (scopes : List Scope) (pieces : List Piece) :
    Nesting.closeItem (k.nesting scopes pieces) = (.ok (), k.onScope Scope.close scopes pieces) := by
  unfold Nesting.closeItem
  rw [Attempt.bind_run_ok (Attempt.state_run _)]
  cases scopes with
  | nil => rfl
  | cons s outer =>
    show (Nesting.openPending s >>= fun _ => _) _ = _
    rw [Attempt.bind_run_ok (k.openPending_run s outer pieces),
      Attempt.bind_run_ok (Attempt.state_run _)]
    show Nesting.closeOpen s.settle.1 _ = _
    rw [closeOpen_run, List.append_assoc]
    rfl

/-- The lists of a draft on its sink. -/
def lists (d : Draft) : Nesting := k.nesting d.scopes d.pieces

theorem lists_onScope (f : Scope → Scope × List Piece) (d : Draft) :
    k.lists (d.onScope f) = k.onScope f d.scopes d.pieces := by
  rcases d with ⟨frames, _ | ⟨s, outer⟩, inName, headerDone, sections, warnings, pieces⟩ <;> rfl

theorem place_lists (d : Draft) (body : Text) :
    Nesting.item body (k.lists d) = (.ok (), k.lists (d.place body)) := by
  rcases d with ⟨frames, _ | ⟨s, outer⟩, inName, headerDone, sections, warnings, pieces⟩
  · exact k.item_run_page pieces body
  · exact k.item_run s outer pieces body

theorem next_lists (d : Draft) (tag : Text) :
    Nesting.startItem tag (k.lists d) = (.ok (), k.lists (d.onScope (Scope.next tag))) := by
  rw [lists_onScope]
  exact k.startItem_run d.scopes d.pieces tag

theorem close_lists (d : Draft) :
    Nesting.closeItem (k.lists d) = (.ok (), k.lists (d.onScope Scope.close)) := by
  rw [lists_onScope]
  exact k.closeItem_run d.scopes d.pieces

theorem enter_lists (d : Draft) (kind : ListKind) :
    Nesting.enter kind (k.lists d) = (.ok (), k.lists (d.enter kind)) := by
  unfold Nesting.enter
  rw [Attempt.bind_run_ok (Attempt.state_run _)]
  rcases d with ⟨frames, _ | ⟨s, outer⟩, inName, headerDone, sections, warnings, pieces⟩
  · rfl
  · show (Nesting.openPending s >>= fun _ => _) _ = _
    rw [lists, Attempt.bind_run_ok (k.openPending_run s outer pieces)]
    rfl

theorem exit_lists (d : Draft) :
    Nesting.exit (k.lists d) = (.ok (!d.scopes.isEmpty), k.lists d.exit) := by
  unfold Nesting.exit
  rw [Attempt.bind_run_ok (Attempt.state_run _)]
  rcases d with ⟨frames, _ | ⟨s, outer⟩, inName, headerDone, sections, warnings, pieces⟩
  · rfl
  · show (Nesting.closeItem >>= fun _ => _) _ = _
    rw [lists, Attempt.bind_run_ok (k.closeItem_run (s :: outer) pieces)]
    rfl

theorem exitEach_lists (scopes : List Scope) (d : Draft) :
    Nesting.exitEach scopes (k.lists d) = (.ok (), k.lists (d.exitEach scopes)) := by
  induction scopes generalizing d with
  | nil => rfl
  | cons s rest ih =>
    rw [Nesting.exitEach, Attempt.bind_run_ok (k.exit_lists d)]
    exact ih d.exit

/-! ## The writer -/

/-- An operation of the lists on the writer of a draft. -/
theorem onNesting_run {α : Type} {m : Attempt Nesting α} {r : Except Failure α} {d d' : Draft}
    (hd : ∃ scopes pieces, d' = { d with scopes, pieces }) (hm : m (k.lists d) = (r, k.lists d')) :
    Writer.onNesting m (k.writer d) = (r, k.writer d') := by
  obtain ⟨scopes, pieces, rfl⟩ := hd
  have hget : (k.writer d).nesting = k.lists d := rfl
  simp only [Writer.onNesting, Attempt.within, hget, hm]
  rfl

theorem place_run (d : Draft) (body : Text) :
    Writer.onNesting (Nesting.item body) (k.writer d) = (.ok (), k.writer (d.place body)) :=
  k.onNesting_run (d.place_with body) (k.place_lists d body)

theorem next_run (d : Draft) (tag : Text) :
    Writer.onNesting (Nesting.startItem tag) (k.writer d)
      = (.ok (), k.writer (d.onScope (Scope.next tag))) :=
  k.onNesting_run (d.onScope_with _) (k.next_lists d tag)

theorem close_run (d : Draft) :
    Writer.onNesting Nesting.closeItem (k.writer d) = (.ok (), k.writer (d.onScope Scope.close)) :=
  k.onNesting_run (d.onScope_with _) (k.close_lists d)

theorem enter_run (d : Draft) (kind : ListKind) :
    Writer.onNesting (Nesting.enter kind) (k.writer d) = (.ok (), k.writer (d.enter kind)) :=
  k.onNesting_run (d.enter_with kind) (k.enter_lists d kind)

theorem exit_run (d : Draft) :
    Writer.onNesting Nesting.exit (k.writer d) = (.ok (!d.scopes.isEmpty), k.writer d.exit) :=
  k.onNesting_run d.exit_with (k.exit_lists d)

theorem exitEach_run (scopes : List Scope) (d : Draft) :
    Writer.onNesting (Nesting.exitEach scopes) (k.writer d)
      = (.ok (), k.writer (d.exitEach scopes)) :=
  k.onNesting_run (d.exitEach_with scopes) (k.exitEach_lists scopes d)

/-! ## Blocks -/

/-- The writer of a draft in the middle of a piece, after some of its steps. -/
def writerAfter (d : Draft) (steps : List Sink.Step) : Writer :=
  { k.writer d with nesting := ⟨d.scopes, steps.foldl Sink.after (k.sink d.pieces)⟩ }

theorem willing_after (d : Draft) (steps : List Sink.Step) :
    (steps.foldl Sink.after (k.sink d.pieces)).Willing := by
  refine List.foldlRecOn steps _ (k.willing_sink d.pieces) ?_
  intro s hs step _
  exact (Sink.perform_run hs step).2

theorem output_run_after (d : Draft) (steps : List Sink.Step) (chunk : Text) :
    Writer.output chunk (k.writerAfter d steps)
      = (.ok (), k.writerAfter d (steps ++ [.output chunk])) := by
  have hrun := Sink.output_run (k.willing_after d steps) chunk
  simp only [Writer.output, Writer.onNesting, Nesting.output, Nesting.onSink, Attempt.within,
    writerAfter, hrun, List.foldl_append, List.foldl_cons, List.foldl_nil, Sink.after]

theorem reserve_run_after (d : Draft) (steps : List Sink.Step) :
    Writer.onNesting (Nesting.onSink Sink.reserve) (k.writerAfter d steps)
      = (.ok (), k.writerAfter d (steps ++ [.reserve])) := by
  have hrun := Sink.reserve_run (k.willing_after d steps)
  simp only [Writer.onNesting, Nesting.onSink, Attempt.within, writerAfter, hrun,
    List.foldl_append, List.foldl_cons, List.foldl_nil, Sink.after]

/-- The steps of a piece make the piece. -/
theorem writer_write (d : Draft) (p : Piece) :
    k.writer (d.write [p]) = k.writerAfter d (k.steps p) := by
  have hsink : k.sink (d.pieces ++ [p]) = (k.steps p).foldl Sink.after (k.sink d.pieces) := by
    rw [sink_append, List.flatMap_singleton]
  unfold writerAfter
  rw [← hsink]
  rfl

theorem write_run (d : Draft) {p : Piece} {chunk : Text} (hp : k.steps p = [.output chunk]) :
    Writer.output chunk (k.writer d) = (.ok (), k.writer (d.write [p])) := by
  rw [writer_write, hp]
  exact k.output_run_after d [] chunk

theorem writeHeader_run (d : Draft) (title : Text) (description : Option Text) :
    Writer.writeHeader (k.page d) title description (k.writer d)
      = (.ok (), k.writer (d.writeHeader title description)) := by
  have hdone : ∀ steps, Writer.changePage (fun p => { p with headerDone := true, inName := false })
      (k.writerAfter d steps)
        = (.ok (), k.writerAfter { d with headerDone := true, inName := false } steps) :=
    fun _ => rfl
  have hstart : k.writer d = k.writerAfter d [] := rfl
  have hend : k.writer (d.writeHeader title description)
      = k.writerAfter { d with headerDone := true, inName := false }
        (k.steps (.header title description)) :=
    k.writer_write { d with headerDone := true, inName := false } _
  have hid : (k.page d).id.getD [] = k.id.getD [] := rfl
  have hoptions : (k.writerAfter d []).options = k.options := rfl
  rw [hend, hstart]
  unfold Writer.writeHeader
  rw [Attempt.bind_run_ok (Attempt.state_run _)]
  simp only [hid, hoptions]
  -- The identifier, the description and the navigation are each there or not.
  cases hempty : (k.id.getD []).isEmpty <;> cases description <;>
    cases hnav : k.options.wantsNavigation <;>
    simp [hempty, hnav, steps, chunks, reservation, headerBlocks, idBlocks, subheads, Attempt.bind_run,
      output_run_after, reserve_run_after, hdone]

theorem writeHeading_run (d : Draft) (level : Nat) (content : Rendered) :
    Writer.writeHeading (k.page d) level content (k.writer d)
      = (.ok (), k.writer (d.writeHeading k.options.policy level content)) := by
  have hname : (k.writer d).introducesName (k.page d) level content.plain.squeeze
      = d.introducesName k.options.policy level content.plain.squeeze := rfl
  unfold Writer.writeHeading Draft.writeHeading
  rw [Attempt.bind_run_ok (Attempt.state_run _), hname]
  split
  · rfl
  · have hleave : Writer.changePage (fun p => { p with inName := false }) (k.writer d)
        = (.ok (), k.writer { d with inName := false }) := rfl
    rw [Attempt.bind_run_ok hleave, Attempt.bind_run_ok (k.close_run _),
      Attempt.bind_run_ok (Attempt.state_run _)]
    show (if level = 1 ∧ k.options.policy.tracks = true then _ else _ : Attempt Writer Unit) _ = _
    split
    · -- The anchor is made before the heading is written.
      let left := { d with inName := false }.onScope Scope.close
      let registered := left.sections.register content.plain.squeeze content.text.trim
      exact k.write_run { left with sections := registered.2 }
        (p := .heading level (some registered.1) content.text.trim) rfl
    · exact k.write_run _ (p := .heading level none content.text.trim) rfl

/-- A block that is written unless it is empty. -/
theorem body_run (d : Draft) (body : Text) :
    (if body.isEmpty then pure () else Writer.onNesting (Nesting.item body) : Attempt Writer Unit)
      (k.writer d) = (.ok (), k.writer (d.writeBody body)) := by
  unfold Draft.writeBody
  split
  · rfl
  · exact k.place_run d body

theorem writeParagraph_run (d : Draft) (content : Rendered) :
    Writer.writeParagraph (k.page d) content (k.writer d)
      = (.ok (), k.writer (d.writeParagraph content)) := by
  unfold Writer.writeParagraph Draft.writeParagraph
  split
  · rfl
  · cases hfound : if d.inName && !d.headerDone then Writer.nameLine? content.text.words
      else none with
    | none =>
      have hpage : (if (k.page d).inName && !(k.page d).headerDone then
          Writer.nameLine? content.text.words else none) = none := hfound
      rw [hpage]
      exact k.body_run d (fill content.text)
    | some header =>
      have hpage : (if (k.page d).inName && !(k.page d).headerDone then
          Writer.nameLine? content.text.words else none) = some header := hfound
      rw [hpage]
      exact k.writeHeader_run d header.1 (some header.2)

theorem writeVerbatim_run (d : Draft) (content : Rendered) :
    Writer.writeVerbatim content (k.writer d)
      = (.ok (), k.writer (d.writeBody (Draft.verbatimBlock content.text))) := by
  have hblock : Draft.verbatimBlock content.text = if content.text.trimEnd.isEmpty then []
      else Writer.block (ofString "\\pre\n" ++ bracketed content.text.trimEnd) := rfl
  by_cases hempty : content.text.trimEnd.isEmpty = true
  · rw [hblock, if_pos hempty, Writer.writeVerbatim, if_pos hempty]
    rfl
  · rw [hblock, if_neg hempty, Writer.writeVerbatim, if_neg hempty]
    exact k.place_run d _

theorem writeData_run (d : Draft) (content : Rendered) :
    Writer.writeData content (k.writer d) = (.ok (), k.writer (d.writeData content)) := by
  by_cases hempty : content.text.trimEnd.isEmpty = true
  · rw [Writer.writeData, if_pos hempty, Draft.writeData, if_pos hempty]
    rfl
  · rw [Writer.writeData, if_neg hempty, Draft.writeData, if_neg hempty]
    exact k.write_run d rfl

/-! ## Events -/

theorem currentPage_run (d : Draft) :
    Writer.currentPage (k.writer d) = (.ok (k.page d), k.writer d) := rfl

theorem appendContent_run (d : Draft) (rendered : Rendered) :
    Writer.appendContent rendered (k.writer d) = (.ok (), k.writer (d.append rendered)) := rfl

theorem warn_run (d : Draft) (page : Page) (hpage : page.file = k.file) (line : Int)
    (message : Text) :
    Writer.warn page line message (k.writer d) = (.ok (), k.writer (d.warn line message)) := by
  have hmap : (d.warn line message).warnings.map k.diagnostic
      = d.warnings.map k.diagnostic ++ [⟨.warning, page.file, line, message⟩] := by
    rw [hpage, Draft.warn, List.map_append]
    rfl
  have hwriter : k.writer (d.warn line message)
      = { k.writer d with diagnostics := (d.warn line message).warnings.map k.diagnostic } := rfl
  rw [hwriter, hmap]
  rfl

theorem startElement_run (d : Draft) (element : Element) :
    Writer.startElement element (k.writer d) = (.ok (), k.writer (d.startElement element)) := by
  unfold Writer.startElement
  rw [Attempt.bind_run_ok (k.currentPage_run d)]
  cases element with
  | «over» kind line => exact k.enter_run d kind
  | _ => rfl

theorem receiveText_run (d : Draft) (t : Text) :
    Writer.receiveText t (k.writer d) = (.ok (), k.writer (d.receiveText t)) := rfl

theorem appendRendering_run (d : Draft) (page : Page) (hpage : page.file = k.file) (line : Int)
    (rendering : Rendering) :
    Writer.appendRendering page line rendering (k.writer d)
      = (.ok (), k.writer (d.appendRendering line rendering)) := by
  obtain ⟨rendered, _ | message⟩ := rendering
  · exact k.appendContent_run d rendered
  · show (Writer.warn page line message >>= fun _ => Writer.appendContent rendered) _ = _
    rw [Attempt.bind_run_ok (k.warn_run d page hpage line message)]
    exact k.appendContent_run (d.warn line message) rendered

/-- What the writer does when a block finishes does not depend on the open elements it
knew of before. -/
theorem finishBlock_run (d : Draft) (frames : List Frame) (element : Element)
    (content : Rendered) :
    Writer.finishBlock (k.page { d with frames }) element content (k.writer d)
      = (.ok (), k.writer (d.finishBlock k.options.policy element content)) := by
  cases element with
  | format code line => exact k.appendRendering_run d _ rfl line (renderCode code content)
  | link kind target heading hasLabel line =>
    exact k.appendContent_run d (renderLink d.sections kind target heading hasLabel content)
  | head level line => exact k.writeHeading_run d level content
  | para line => exact k.writeParagraph_run d content
  | verbatim line => exact k.writeVerbatim_run d content
  | data target line => exact k.writeData_run d content
  | item kind marker line => exact k.next_run d _
  | command name text line => exact k.warn_run d _ rfl line _
  | «over» kind line => rfl

theorem finishElement_run (d : Draft) (element : Element) :
    Writer.finishElement element (k.writer d)
      = (.ok (), k.writer (d.finishElement k.options.policy element)) := by
  have hpop : ∀ frames : List Frame, Writer.changePage (fun p => { p with frames }) (k.writer d)
      = (.ok (), k.writer { d with frames }) := fun _ => rfl
  have hblock : ∀ (frame : Frame) (frames : List Frame),
      (Writer.changePage (fun p => { p with frames }) >>= fun _ =>
        Writer.finishBlock (k.page d) element frame.content) (k.writer d)
      = (.ok (), k.writer ({ d with frames }.finishBlock k.options.policy element frame.content)) :=
    fun frame frames => (Attempt.bind_run_ok (hpop frames)).trans
      (k.finishBlock_run { d with frames } d.frames element frame.content)
  unfold Writer.finishElement
  rw [Attempt.bind_run_ok (k.currentPage_run d)]
  cases element with
  | «over» kind line =>
    show (Writer.onNesting Nesting.exit >>= fun ended => if ended then _ else _) _ = _
    rw [Attempt.bind_run_ok (k.exit_run d)]
    rcases d with ⟨frames, _ | ⟨s, outer⟩, inName, headerDone, sections, warnings, pieces⟩
    · exact k.warn_run ⟨frames, [], inName, headerDone, sections, warnings, pieces⟩ _ rfl line _
    · rfl
  | _ =>
    rcases d with ⟨_ | ⟨frame, frames⟩, scopes, inName, headerDone, sections, warnings, pieces⟩
    · rfl
    · exact hblock frame frames

/-- An event between the start and the end of a document does to the writer what it does
to the draft, and does not fail. -/
theorem receive_run (d : Draft) {e : Event} (he : e.regular = true) :
    Writer.receive e (k.writer d) = (.ok (), k.writer (d.step k.options.policy e)) := by
  cases e with
  | docStart info => cases he
  | docEnd errata => cases he
  | start element => exact k.startElement_run d element
  | text t => exact k.receiveText_run d t
  | finish element => exact k.finishElement_run d element

theorem receiveAll_run (d : Draft) {events : List Event} (h : ∀ e ∈ events, e.regular = true) :
    Writer.receiveAll events (k.writer d) = (.ok (), k.writer (d.run k.options.policy events)) := by
  induction events generalizing d with
  | nil => rfl
  | cons e rest ih =>
    show (Writer.receive e >>= fun _ => Writer.receiveAll rest) _ = _
    rw [Attempt.bind_run_ok (k.receive_run d (h e List.mem_cons_self))]
    exact ih _ fun e' he' => h e' (List.mem_cons_of_mem _ he')

/-! ## The start and the end of a document -/

/-- What is said when a document starts. -/
def startEntry (info : Pod.DocumentInfo) : Log.Entry :=
  .plain .debug "Export" "Document start" (some (.object
    [(ofString "file", .string info.file), (ofString "contentless", .bool info.contentless)]))

/-- The desk of a document that a writer starts on. -/
def ofDocument (w : Writer) (info : Pod.DocumentInfo) : Desk :=
  ⟨w.options, info.file, w.options.id <|> info.id, info.contentless,
    w.journal ++ [startEntry info]⟩

theorem startDocument_run {w : Writer} (hfresh : w.target = .fresh) (info : Pod.DocumentInfo)
    {sections : Registry} (hsections : Registry.create (w.options.anchors.getD []) = .ok sections) :
    Writer.startDocument info w
      = (.ok (), (ofDocument w info).writer
          (.start w.options.policy (w.options.title.getD []) info.contentless sections)) := by
  have hsay : Writer.say (ofString "Document start") (.object
        [(ofString "file", .string info.file), (ofString "contentless", .bool info.contentless)])
      { w with
        nesting := .on (.on w.target), sections, diagnostics := []
        page := some ⟨info.file, w.options.id <|> info.id, info.contentless, [], false, false⟩ }
      = (.ok (), (ofDocument w info).writer (.blank sections)) := by
    rw [hfresh]
    rfl
  unfold Writer.startDocument Draft.start
  rw [Attempt.bind_run_ok (Attempt.change_run _ w), Attempt.bind_run_ok (Attempt.state_run _)]
  simp only [hsections]
  rw [Attempt.bind_run_ok (Attempt.change_run _ _)]
  refine (Attempt.bind_run_ok hsay).trans ?_
  show (if !info.contentless && w.options.policy.titled then _ else _ : Attempt Writer Unit) _ = _
  split
  · exact writeHeader_run (ofDocument w info) (.blank sections) _ _
  · rfl

/-- A writer with other diagnostics. -/
def reporting (diagnostics : List Diagnostic) (w : Writer) : Writer := { w with diagnostics }

/-- An operation of the lists leaves the diagnostics alone. -/
theorem onNesting_reporting {m : Attempt Nesting Unit} {w w' : Writer} {r : Except Failure Unit}
    (h : Writer.onNesting m w = (r, w')) (diagnostics : List Diagnostic) :
    Writer.onNesting m (reporting diagnostics w) = (r, reporting diagnostics w') := by
  simp only [Writer.onNesting, Attempt.within, Prod.mk.injEq] at h ⊢
  obtain ⟨hr, rfl⟩ := h
  exact ⟨hr, rfl⟩

/-- The navigation of a page with the given sections. -/
def navigation (sections : Registry) : Text :=
  (if k.options.navbar then sections.navbar else [])
    ++ if k.options.contents then sections.contents else []

/-- The text of a page: its pieces, with the navigation in its place. -/
def finished (d : Draft) : Text := Sink.finished (k.navigation d.sections) (k.sink d.pieces)

/-- An error as a diagnostic about the page. -/
def errorDiagnostic (e : Pod.Erratum) : Diagnostic := ⟨.error, k.file, e.line, e.message⟩

/-- How a document ends. -/
def outcome (errata : List Pod.Erratum) : Except Failure Unit :=
  if errata.isEmpty then .ok () else .error (.syntaxErrors k.file errata [])

theorem finish_run (d : Draft) :
    ∃ w : Writer, Writer.onNesting (Nesting.onSink (Sink.finish (k.navigation d.sections)))
        (k.writer d) = (.ok (), w)
      ∧ w.sections = d.sections ∧ w.target.text = k.finished d := by
  obtain ⟨s, hrun, htext⟩ := Sink.finish_run (k.willing_sink d.pieces) (k.navigation d.sections)
  have hget : (k.writer d).nesting.sink = k.sink d.pieces := rfl
  simp only [Writer.onNesting, Nesting.onSink, Attempt.within, hget, hrun]
  exact ⟨_, rfl, rfl, htext⟩

/-- What is left to do when all of a page is written. -/
def leave (errata : List Pod.Erratum) : Attempt Writer Unit := do
  Attempt.change fun w => { w with page := none }
  Writer.say (ofString "Document end") (.object
    [(ofString "file", .string k.file),
      (ofString "sections", .ofNat (← Attempt.state).sections.size)])
  if errata.isEmpty then pure () else Attempt.fail (.syntaxErrors k.file errata [])

theorem leave_run (errata : List Pod.Erratum) (w : Writer) :
    ∃ w', k.leave errata w = (k.outcome errata, w') ∧ w'.page = none
      ∧ w'.sections = w.sections ∧ w'.diagnostics = w.diagnostics ∧ w'.target = w.target := by
  unfold leave outcome
  cases errata with
  | nil => exact ⟨_, rfl, rfl, rfl, rfl, rfl⟩
  | cons e rest => exact ⟨_, rfl, rfl, rfl, rfl, rfl⟩

/-- Write what is left of a page that has content. -/
def closePage : Attempt Writer Unit := do
  Writer.onNesting Nesting.exitAll
  Writer.output "\\signature\n"
  Writer.onNesting (Nesting.onSink (Sink.finish (← Attempt.state).navigation))

theorem closePage_run (d : Draft) (diagnostics : List Diagnostic) :
    ∃ w, closePage (reporting diagnostics (k.writer d)) = (.ok (), w)
      ∧ w.sections = d.sections ∧ w.diagnostics = diagnostics
      ∧ w.target.text = k.finished (d.complete false) := by
  obtain ⟨w, hfinish, hsections, htext⟩ := k.finish_run (d.complete false)
  obtain ⟨scopes, pieces, hcomplete⟩ := d.complete_with false
  have hexit := onNesting_reporting (k.exitEach_run d.scopes d) diagnostics
  have hsignature := onNesting_reporting
    (k.write_run (d.exitEach d.scopes) (p := .passage "\\signature\n") rfl) diagnostics
  refine ⟨reporting diagnostics w, ?_, ?_, rfl, htext⟩
  · refine (Attempt.bind_run_ok hexit).trans ((Attempt.bind_run_ok hsignature).trans ?_)
    exact onNesting_reporting hfinish diagnostics
  · refine hsections.trans ?_
    rw [hcomplete]

/-- When a document ends, its page is complete. -/
theorem endDocument_run (d : Draft) (errata : List Pod.Erratum)
    (hempty : k.contentless = true → d.pieces = []) :
    ∃ w, Writer.endDocument errata (k.writer d) = (k.outcome errata, w) ∧ w.page = none
      ∧ w.sections = d.sections
      ∧ w.diagnostics = d.warnings.map k.diagnostic ++ errata.map k.errorDiagnostic
      ∧ w.target.text = k.finished (d.complete k.contentless) := by
  let diagnostics := d.warnings.map k.diagnostic ++ errata.map k.errorDiagnostic
  suffices hwritten : ∃ w, Writer.endDocument errata (k.writer d) = k.leave errata w
      ∧ w.sections = d.sections ∧ w.diagnostics = diagnostics
      ∧ w.target.text = k.finished (d.complete k.contentless) by
    obtain ⟨w, hend, hsections, hdiagnostics, htext⟩ := hwritten
    obtain ⟨w', hrun, hpage, hsections', hdiagnostics', htarget⟩ := k.leave_run errata w
    exact ⟨w', hend.trans hrun, hpage, hsections'.trans hsections,
      hdiagnostics'.trans hdiagnostics, by rw [htarget, htext]⟩
  cases hcontentless : k.contentless with
  | true =>
    refine ⟨reporting diagnostics (k.writer d), ?_, rfl, rfl, ?_⟩
    · show (if !k.contentless then _ else _ : Attempt Writer Unit) _ = _
      rw [hcontentless]
      rfl
    · show (k.sink d.pieces).target.text = Sink.finished _ (k.sink d.pieces)
      rw [hempty hcontentless]
      rfl
  | false =>
    obtain ⟨w, hclose, hsections, hdiagnostics, htext⟩ := k.closePage_run d diagnostics
    refine ⟨w, ?_, hsections, hdiagnostics, htext⟩
    show (if !k.contentless then _ else _ : Attempt Writer Unit) _ = _
    rw [hcontentless]
    have hleave := Attempt.bind_run_ok (f := fun _ => k.leave errata) hclose
    simp only [closePage, bind_assoc] at hleave
    exact hleave

end Desk

end PodLoom.Thread
