import PodLoom.Log
import PodLoom.Pod.Document
import PodLoom.Thread.Fill
import PodLoom.Thread.Nesting
import PodLoom.Thread.Rendered

set_option autoImplicit false

/-!
# The writer: from events to thread

The writer receives the events of a document and writes it as thread.  Text is
escaped as it arrives and collected in a frame for each open element; each block is
written when its element finishes.  A page begins with a header, made from the
title or from the paragraph under a `NAME` heading, and ends with a signature.

The writer outlives a document.  A document start resets everything but the target,
so what a document leaves behind, even one that was cut off, has no influence on
the next.
-/

namespace PodLoom.Thread

open Text CodeUnit
open PodLoom.Pod (DocumentInfo Element Erratum Event ListKind)

/-! ## Options and diagnostics -/

/-- What a page should have. -/
structure Options where
  /-- A table of contents after the header. -/
  contents : Bool
  /-- A navigation bar after the header. -/
  navbar : Bool
  /-- The style sheet named in the header. -/
  style : Option Text
  /-- The title; with one, the `NAME` section is a section like any other. -/
  title : Option Text
  /-- The document identifier, in place of the source's revision keyword. -/
  id : Option Text
  /-- Anchors by heading text. -/
  anchors : Option (List (Text × Text))
  deriving DecidableEq, Repr, Inhabited

namespace Options

/-- A page with nothing but its text. -/
def plain : Options := ⟨false, false, none, none, none, none⟩

/-- Whether a page has navigation, whose place comes before the sections it lists. -/
def wantsNavigation (o : Options) : Bool := o.contents || o.navbar

/-- Whether top-level headings get anchors. -/
def tracksSections (o : Options) : Bool := o.wantsNavigation || o.anchors.isSome

/-- Whether the title is given; an empty one is not. -/
def hasTitle (o : Options) : Bool := !(o.title.getD []).isEmpty

end Options

/-- How bad a diagnostic is. -/
inductive Severity where
  | warning
  | error
  deriving DecidableEq, Repr, Inhabited

/-- A thing to report about a place in a document. -/
structure Diagnostic where
  severity : Severity
  file : Text
  line : Int
  message : Text
  deriving DecidableEq, Repr, Inhabited

/-! ## State -/

/-- The content collected for an open element; raw content is not escaped. -/
structure Frame where
  isRaw : Bool
  content : Rendered
  deriving DecidableEq, Repr, Inhabited

/-- A document being written. -/
structure Page where
  file : Text
  id : Option Text
  contentless : Bool
  /-- The open elements other than lists, innermost first. -/
  frames : List Frame
  /-- Between a `NAME` heading and the header it leads to. -/
  inName : Bool
  headerDone : Bool
  deriving DecidableEq, Repr, Inhabited

/-- A writer: its options, the lists and the sink it writes to, the sections and the
diagnostics of the last document, the document being written, if there is one, and
what it has said on the way. -/
structure Writer where
  options : Options
  nesting : Nesting
  sections : Registry
  diagnostics : List Diagnostic
  page : Option Page
  journal : List Log.Entry
  deriving Repr, Inhabited

namespace Writer

/-- A writer on a target that has received nothing. -/
def on (target : Target) (options : Options) : Writer :=
  ⟨options, .on (.on target), .empty, [], none, []⟩

/-- The target of a writer. -/
def target (w : Writer) : Target := w.nesting.sink.target

/-- Act on the lists. -/
def onNesting {α : Type} (m : Attempt Nesting α) : Attempt Writer α :=
  m.within Writer.nesting fun nesting w => { w with nesting }

/-- Write a chunk. -/
def output (chunk : Text) : Attempt Writer Unit := onNesting (Nesting.output chunk)

/-- The document being written; outside one, an event is an error. -/
def currentPage : Attempt Writer Page := do
  match (← Attempt.state).page with
  | some page => pure page
  | none => Attempt.fail .outsideDocument

/-- Change the document being written. -/
def changePage (f : Page → Page) : Attempt Writer Unit :=
  Attempt.change fun w => { w with page := w.page.map f }

/-- Report a warning about the document being written. -/
def warn (page : Page) (line : Int) (message : Text) : Attempt Writer Unit :=
  Attempt.change fun w =>
    { w with diagnostics := w.diagnostics ++ [⟨.warning, page.file, line, message⟩] }

/-- Say something in the log. -/
def say (message : Text) (data : Json) : Attempt Writer Unit :=
  Attempt.change fun w =>
    { w with journal := w.journal ++ [.plain .debug "Export" message (some data)] }

/-! ## The header -/

/-- An output block: a piece of thread and a blank line. -/
def block (t : Text) : Text := t ++ ofString "\n\n"

/-- Write the page header: the identifier, the title with the style sheet, and the
description, then reserve the place of the navigation. -/
def writeHeader (page : Page) (title : Text) (description : Option Text) :
    Attempt Writer Unit := do
  let options := (← Attempt.state).options
  let id := page.id.getD []
  if !id.isEmpty then output (block (command "id" [escape id]))
  output (block (command "heading" [title, escape (options.style.getD [])]))
  output (block (command "h1" [title]))
  match description with
  | some text =>
      output (block (command "p(subhead)" [ofString "(" ++ text ++ ofString ")"]))
  | none => pure ()
  if options.wantsNavigation then onNesting (Nesting.onSink Sink.reserve)
  changePage fun p => { p with headerDone := true, inName := false }

/-- The title and the description in the words of a `NAME` paragraph: the word
before the first lone hyphen that has a word on either side, and all the words after
it. -/
def nameLine? : List Text → Option (Text × Text)
  | title :: hyphen :: first :: rest =>
      if hyphen = ofString "-" then some (title, join [space] (first :: rest))
      else nameLine? (hyphen :: first :: rest)
  | _ => none

/-- The navigation of the sections registered so far. -/
def navigation (w : Writer) : Text :=
  (if w.options.navbar then w.sections.navbar else [])
    ++ if w.options.contents then w.sections.contents else []

/-! ## Blocks -/

/-- Whether a heading introduces the paragraph that the header is made of. -/
def introducesName (w : Writer) (page : Page) (level : Nat) (plain : Text) : Bool :=
  level == 1 && plain == ofString "NAME" && !w.options.hasTitle && !page.headerDone

/-- Write a heading.  It ends the item it stands in, if any, though the list goes
on. -/
def writeHeading (page : Page) (level : Nat) (content : Rendered) : Attempt Writer Unit := do
  let text := content.text.trim
  let plain := content.plain.squeeze
  if introducesName (← Attempt.state) page level plain then
    changePage fun p => { p with inName := true }
  else do
    changePage fun p => { p with inName := false }
    onNesting Nesting.closeItem
    let w ← Attempt.state
    let anchor ←
      if level = 1 ∧ w.options.tracksSections then do
        let (anchor, sections) := w.sections.register plain text
        Attempt.change fun w => { w with sections }
        pure (ofString "(#" ++ anchor ++ ofString ")")
      else pure []
    output (block (ofString "\\h" ++ ofNat (level + 1) ++ anchor ++ bracketed text))

/-- Write a paragraph: as the header if it is the one under `NAME`, else filled. -/
def writeParagraph (page : Page) (content : Rendered) : Attempt Writer Unit :=
  if content.text.isBlank then pure ()
  else
    match if page.inName && !page.headerDone then nameLine? content.text.words else none with
    | some (title, description) => writeHeader page title (some description)
    | none =>
        let body := fill content.text
        if body.isEmpty then pure () else onNesting (Nesting.item body)

/-- Write a verbatim block. -/
def writeVerbatim (content : Rendered) : Attempt Writer Unit :=
  let text := content.text.trimEnd
  if text.isEmpty then pure ()
  else onNesting (Nesting.item (block (ofString "\\pre\n" ++ bracketed text)))

/-- Write raw thread, which belongs to no list. -/
def writeData (content : Rendered) : Attempt Writer Unit :=
  let text := content.text.trimEnd
  if text.isEmpty then pure () else output (block text)

/-- The macro of a list item. -/
def itemTag (kind : ListKind) (label : Text) : Text :=
  match kind with
  | .bullet => "\\bullet"
  | .number => "\\number"
  | .block => blockTag
  | .text => command "desc" [label]

/-! ## Events -/

/-- Add rendered text to the innermost open element, if there is one. -/
def appendContent (rendered : Rendered) : Attempt Writer Unit :=
  changePage fun p => { p with frames := p.frames.modifyHead fun f =>
    { f with content := f.content ++ rendered } }

/-- Add rendered text and report the warning that goes with it. -/
def appendRendering (page : Page) (line : Int) (rendering : Rendering) : Attempt Writer Unit := do
  match rendering.2 with
  | some message => warn page line message
  | none => pure ()
  appendContent rendering.1

/-- A document starts. -/
def startDocument (info : DocumentInfo) : Attempt Writer Unit := do
  Attempt.change fun w => { w with diagnostics := [] }
  let w ← Attempt.state
  match Registry.create (w.options.anchors.getD []) with
  | .error e => Attempt.fail e
  | .ok sections => do
      let page : Page :=
        { file := info.file, id := w.options.id <|> info.id, contentless := info.contentless
          frames := [], inName := false, headerDone := false }
      Attempt.change fun w =>
        { w with nesting := .on (.on w.target), sections, page := some page }
      say "Document start" (.object
        [(ofString "file", .string page.file),
          (ofString "contentless", .bool page.contentless)])
      if !page.contentless && w.options.hasTitle then
        writeHeader page (escape (w.options.title.getD [])) none

/-- An element starts. -/
def startElement (element : Element) : Attempt Writer Unit := do
  let _ ← currentPage
  match element with
  | .over kind _ => onNesting (Nesting.enter kind)
  | .data .. => changePage fun p => { p with frames := ⟨true, .empty⟩ :: p.frames }
  | _ => changePage fun p => { p with frames := ⟨false, .empty⟩ :: p.frames }

/-- Text comes.  Outside every element it is dropped. -/
def receiveText (t : Text) : Attempt Writer Unit := do
  let _ ← currentPage
  changePage fun p => { p with frames := p.frames.modifyHead fun f =>
    { f with content := f.content ++ if f.isRaw then Rendered.ofRaw t else .ofText t } }

/-- An element other than a list finishes with the given content. -/
def finishBlock (page : Page) (element : Element) (content : Rendered) :
    Attempt Writer Unit := do
  match element with
  | .format code line => appendRendering page line (renderCode code content)
  | .link kind target heading hasLabel _ =>
      appendContent
        (renderLink (← Attempt.state).sections kind target heading hasLabel content)
  | .head level _ => writeHeading page level content
  | .para _ => writeParagraph page content
  | .verbatim _ => writeVerbatim content
  | .data .. => writeData content
  | .item kind _ _ => onNesting (Nesting.startItem (itemTag kind content.text.trim))
  | .command name text line =>
      warn page line (ofString "Unknown command paragraph: =" ++ name
        ++ if text.isEmpty then [] else space :: text)
  | .over .. => pure ()

/-- An element finishes. -/
def finishElement (element : Element) : Attempt Writer Unit := do
  let page ← currentPage
  match element with
  | .over _ line =>
      if ← onNesting Nesting.exit then pure () else warn page line "Unmatched =back"
  | element =>
      match page.frames with
      | [] => pure ()
      | frame :: frames => do
          changePage fun p => { p with frames }
          finishBlock page element frame.content

/-- A document ends.  Its errors are diagnostics, and a failure once everything is
written. -/
def endDocument (errata : List Erratum) : Attempt Writer Unit := do
  let page ← currentPage
  let errors := errata.map fun e => ⟨.error, page.file, e.line, e.message⟩
  Attempt.change fun w => { w with diagnostics := w.diagnostics ++ errors }
  if !page.contentless then do
    onNesting Nesting.exitAll
    output "\\signature\n"
    let navigation := (← Attempt.state).navigation
    onNesting (Nesting.onSink (Sink.finish navigation))
  Attempt.change fun w => { w with page := none }
  say "Document end" (.object
    [(ofString "file", .string page.file),
      (ofString "sections", .ofNat (← Attempt.state).sections.size)])
  if errata.isEmpty then pure () else Attempt.fail (.syntaxErrors page.file errata [])

/-- Receive an event. -/
def receive : Event → Attempt Writer Unit
  | .docStart info => startDocument info
  | .start element => startElement element
  | .text t => receiveText t
  | .finish element => finishElement element
  | .docEnd errata => endDocument errata

/-- Receive events in order, up to the first that fails. -/
def receiveAll (events : List Event) : Attempt Writer Unit := Attempt.forEach receive events

end Writer

end PodLoom.Thread
