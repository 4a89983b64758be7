import PodLoom.Proofs.Thread.Sink
import PodLoom.Thread.Writer

set_option autoImplicit false

/-!
# Drafts: a page as a list of pieces

A draft is what the events of a document make of a page, apart from everything that
only its look depends on: the style sheet, the identifier, the navigation and the
place the output goes to.  It keeps the state of the writer that the events can
change, and the pieces written so far in their order.

Two pages whose titles are both given or both not, and which both have anchors or
both have none, start from drafts that only their registries can make differ; so what
one conversion says about another is a comparison of drafts.
-/

namespace PodLoom.Thread

open Text CodeUnit
open PodLoom.Pod (Element Event ListKind)

/-! ## Pieces -/

/-- A piece of a page. -/
inductive Piece where
  /-- The page header. -/
  | header (title : Text) (description : Option Text)
  /-- A heading, with its anchor if it has one. -/
  | heading (level : Nat) (anchor : Option Text) (label : Text)
  /-- The macro and the opening bracket of a list item, and the start of its body. -/
  | opening (tag body : Text)
  /-- The closing bracket of a list item. -/
  | closing
  /-- A block that stands for itself. -/
  | passage (text : Text)
  deriving DecidableEq, Repr, Inhabited

/-! ## The pieces of a list -/

namespace Scope

/-- What closes the item of a scope. -/
def closers (s : Scope) : List Piece := if s.isOpen then [.closing] else []

/-- Put a block into the list of a scope. -/
def place (body : Text) (s : Scope) : Scope × List Piece :=
  if s.pending then
    ({ s with pending := false, isOpen := true }, s.closers ++ [.opening s.tag body])
  else if s.kind = .block ∧ s.isOpen = false then
    ({ s with isOpen := true }, [.opening blockTag body])
  else (s, [.passage body])

/-- Write the pending item of a scope. -/
def settle (s : Scope) : Scope × List Piece := if s.pending then s.place [] else (s, [])

/-- Note the next item of a scope. -/
def next (tag : Text) (s : Scope) : Scope × List Piece :=
  ({ s.settle.1 with tag, pending := true }, s.settle.2)

/-- Write the pending item of a scope and close the open one. -/
def close (s : Scope) : Scope × List Piece :=
  ({ s.settle.1 with isOpen := false }, s.settle.2 ++ s.settle.1.closers)

theorem kind_place (body : Text) (s : Scope) : (s.place body).1.kind = s.kind := by
  unfold place
  split
  · rfl
  · split <;> rfl

theorem kind_settle (s : Scope) : s.settle.1.kind = s.kind := by
  unfold settle
  split
  · exact kind_place [] s
  · rfl

theorem kind_next (tag : Text) (s : Scope) : (s.next tag).1.kind = s.kind := kind_settle s

theorem kind_close (s : Scope) : s.close.1.kind = s.kind := kind_settle s

theorem tag_place (body : Text) (s : Scope) : (s.place body).1.tag = s.tag := by
  unfold place
  split
  · rfl
  · split <;> rfl

theorem tag_settle (s : Scope) : s.settle.1.tag = s.tag := by
  unfold settle
  split
  · exact tag_place [] s
  · rfl

/-! What is true of the closing of an item, of its opening and of a block is true of all
pieces of a list. -/

section

variable {p : Piece → Prop} {s : Scope}

theorem each_closers (hclosing : p .closing) : ∀ q ∈ s.closers, p q := by
  unfold closers
  split
  · exact fun q hq => List.mem_singleton.1 hq ▸ hclosing
  · simp

theorem each_place (hclosing : p .closing) {body : Text} (hitem : p (.opening s.tag body))
    (hblock : p (.opening blockTag body)) (hbody : p (.passage body)) :
    ∀ q ∈ (s.place body).2, p q := by
  unfold place
  intro q hq
  split at hq
  · rcases List.mem_append.1 hq with hq | hq
    · exact each_closers hclosing q hq
    · exact List.mem_singleton.1 hq ▸ hitem
  · split at hq
    · exact List.mem_singleton.1 hq ▸ hblock
    · exact List.mem_singleton.1 hq ▸ hbody

theorem each_settle (hclosing : p .closing) (hitem : p (.opening s.tag [])) :
    ∀ q ∈ s.settle.2, p q := by
  unfold settle place
  intro q hq
  split at hq
  · rcases List.mem_append.1 hq with hq | hq
    · exact each_closers hclosing q hq
    · exact List.mem_singleton.1 hq ▸ hitem
  · cases hq

theorem each_close (hclosing : p .closing) (hitem : p (.opening s.tag [])) :
    ∀ q ∈ s.close.2, p q := by
  intro q hq
  rcases List.mem_append.1 hq with hq | hq
  · exact each_settle hclosing hitem q hq
  · exact each_closers hclosing q hq

end

end Scope

/-! ## Drafts -/

/-- What the course of a draft depends on besides the events: whether the title is
given, and whether top-level headings get anchors. -/
structure Policy where
  titled : Bool
  tracks : Bool
  deriving DecidableEq, Repr, Inhabited

/-- The policy of a page. -/
def Options.policy (o : Options) : Policy := ⟨o.hasTitle, o.tracksSections⟩

/-- A page being drafted: the open elements and lists, innermost first, what the
writer knows of the header, the sections, the warnings by line and the pieces. -/
structure Draft where
  frames : List Frame
  scopes : List Scope
  inName : Bool
  headerDone : Bool
  sections : Registry
  warnings : List (Int × Text)
  pieces : List Piece
  deriving DecidableEq, Repr, Inhabited

namespace Draft

/-- Nothing is drafted. -/
def blank (sections : Registry) : Draft := ⟨[], [], false, false, sections, [], []⟩

/-- Add pieces. -/
def write (pieces : List Piece) (d : Draft) : Draft := { d with pieces := d.pieces ++ pieces }

/-- Report a warning. -/
def warn (line : Int) (message : Text) (d : Draft) : Draft :=
  { d with warnings := d.warnings ++ [(line, message)] }

/-- Change the innermost list, if there is one, and add the pieces that go with it. -/
def onScope (f : Scope → Scope × List Piece) (d : Draft) : Draft :=
  match d.scopes with
  | [] => d
  | s :: outer => { d with scopes := (f s).1 :: outer, pieces := d.pieces ++ (f s).2 }

/-- Put a block into the innermost list, or else on the page. -/
def place (body : Text) (d : Draft) : Draft :=
  match d.scopes with
  | [] => d.write [.passage body]
  | _ :: _ => d.onScope (Scope.place body)

/-- Start a list. -/
def enter (kind : ListKind) (d : Draft) : Draft :=
  { d.onScope Scope.settle with scopes := .ofKind kind :: (d.onScope Scope.settle).scopes }

/-- End the innermost list, if there is one. -/
def exit (d : Draft) : Draft :=
  { d.onScope Scope.close with scopes := (d.onScope Scope.close).scopes.tail }

/-- End as many lists as there are scopes in a list. -/
def exitEach : List Scope → Draft → Draft
  | [], d => d
  | _ :: rest, d => exitEach rest d.exit

/-! The lists of a page change its scopes and its pieces, and nothing else. -/

theorem onScope_with (f : Scope → Scope × List Piece) (d : Draft) :
    ∃ scopes pieces, d.onScope f = { d with scopes, pieces } := by
  unfold onScope
  split
  · exact ⟨d.scopes, d.pieces, rfl⟩
  · exact ⟨_, _, rfl⟩

theorem place_with (body : Text) (d : Draft) :
    ∃ scopes pieces, d.place body = { d with scopes, pieces } := by
  unfold place
  split
  · exact ⟨d.scopes, _, rfl⟩
  · exact d.onScope_with (Scope.place body)

theorem enter_with (kind : ListKind) (d : Draft) :
    ∃ scopes pieces, d.enter kind = { d with scopes, pieces } := by
  obtain ⟨scopes, pieces, h⟩ := d.onScope_with Scope.settle
  exact ⟨.ofKind kind :: scopes, pieces, by rw [enter, h]⟩

theorem exit_with (d : Draft) : ∃ scopes pieces, d.exit = { d with scopes, pieces } := by
  obtain ⟨scopes, pieces, h⟩ := d.onScope_with Scope.close
  exact ⟨scopes.tail, pieces, by rw [exit, h]⟩

theorem exitEach_with (ended : List Scope) (d : Draft) :
    ∃ scopes pieces, d.exitEach ended = { d with scopes, pieces } := by
  induction ended generalizing d with
  | nil => exact ⟨d.scopes, d.pieces, rfl⟩
  | cons s rest ih =>
    obtain ⟨scopes, pieces, hexit⟩ := d.exit_with
    obtain ⟨scopes', pieces', hrest⟩ := ih d.exit
    exact ⟨scopes', pieces', by rw [exitEach, hrest, hexit]⟩

theorem scopes_exit (d : Draft) : d.exit.scopes = d.scopes.tail := by
  rcases d with ⟨frames, _ | ⟨s, outer⟩, inName, headerDone, sections, warnings, pieces⟩ <;> rfl

theorem scopes_exitEach (ended : List Scope) (d : Draft) :
    (d.exitEach ended).scopes = d.scopes.drop ended.length := by
  induction ended generalizing d with
  | nil => rfl
  | cons s rest ih =>
    rw [exitEach, ih, scopes_exit, List.drop_tail]
    rfl

/-- Write the page header. -/
def writeHeader (title : Text) (description : Option Text) (d : Draft) : Draft :=
  { d.write [.header title description] with headerDone := true, inName := false }

/-! ## Blocks -/

/-- Whether a heading introduces the paragraph that the header is made of. -/
def introducesName (p : Policy) (level : Nat) (plain : Text) (d : Draft) : Bool :=
  level == 1 && plain == ofString "NAME" && !p.titled && !d.headerDone

/-- Register a heading and write it with its anchor. -/
def writeSection (level : Nat) (text plain : Text) (d : Draft) : Draft :=
  { d.write [.heading level (some (d.sections.register plain text).1) text] with
    sections := (d.sections.register plain text).2 }

/-- Write a heading. -/
def writeHeading (p : Policy) (level : Nat) (content : Rendered) (d : Draft) : Draft :=
  if d.introducesName p level content.plain.squeeze then { d with inName := true }
  else if level = 1 ∧ p.tracks then
    ({ d with inName := false }.onScope Scope.close).writeSection level content.text.trim
      content.plain.squeeze
  else ({ d with inName := false }.onScope Scope.close).write
    [.heading level none content.text.trim]

/-- Write a paragraph that is not the page header. -/
def writeBody (t : Text) (d : Draft) : Draft := if t.isEmpty then d else d.place t

/-- Write a paragraph. -/
def writeParagraph (content : Rendered) (d : Draft) : Draft :=
  if content.text.isBlank then d
  else
    match if d.inName && !d.headerDone then Writer.nameLine? content.text.words else none with
    | some (title, description) => d.writeHeader title (some description)
    | none => d.writeBody (fill content.text)

/-- The block of a verbatim paragraph. -/
def verbatimBlock (content : Text) : Text :=
  if content.trimEnd.isEmpty then []
  else Writer.block (ofString "\\pre\n" ++ bracketed content.trimEnd)

/-- Write raw thread. -/
def writeData (content : Rendered) (d : Draft) : Draft :=
  if content.text.trimEnd.isEmpty then d
  else d.write [.passage (Writer.block content.text.trimEnd)]

/-! ## Events -/

/-- Add rendered text to the innermost open element, if there is one. -/
def append (rendered : Rendered) (d : Draft) : Draft :=
  { d with frames := d.frames.modifyHead fun f => { f with content := f.content ++ rendered } }

/-- Add rendered text and report the warning that goes with it. -/
def appendRendering (line : Int) (rendering : Rendering) (d : Draft) : Draft :=
  match rendering.2 with
  | some message => (d.warn line message).append rendering.1
  | none => d.append rendering.1

/-- An element starts. -/
def startElement (element : Element) (d : Draft) : Draft :=
  match element with
  | .over kind _ => d.enter kind
  | .data .. => { d with frames := ⟨true, .empty⟩ :: d.frames }
  | _ => { d with frames := ⟨false, .empty⟩ :: d.frames }

/-- Text comes. -/
def receiveText (t : Text) (d : Draft) : Draft :=
  { d with frames := d.frames.modifyHead fun f =>
    { f with content := f.content ++ if f.isRaw then Rendered.ofRaw t else .ofText t } }

/-- An element other than a list finishes with the given content. -/
def finishBlock (p : Policy) (element : Element) (content : Rendered) (d : Draft) : Draft :=
  match element with
  | .format code line => d.appendRendering line (renderCode code content)
  | .link kind target heading hasLabel _ =>
      d.append (renderLink d.sections kind target heading hasLabel content)
  | .head level _ => d.writeHeading p level content
  | .para _ => d.writeParagraph content
  | .verbatim _ => d.writeBody (verbatimBlock content.text)
  | .data .. => d.writeData content
  | .item kind _ _ => d.onScope (Scope.next (Writer.itemTag kind content.text.trim))
  | .command name text line =>
      d.warn line (ofString "Unknown command paragraph: =" ++ name
        ++ if text.isEmpty then [] else space :: text)
  | .over .. => d

/-- An element finishes. -/
def finishElement (p : Policy) (element : Element) (d : Draft) : Draft :=
  match element with
  | .over _ line => if d.scopes.isEmpty then d.warn line "Unmatched =back" else d.exit
  | element =>
      match d.frames with
      | [] => d
      | frame :: frames => { d with frames }.finishBlock p element frame.content

/-- What happens when an element finishes: a list ends or there is none, an element that
did not start is passed over, and any other is a block. -/
theorem finishElement_cases (p : Policy) (element : Element) (d : Draft) :
    (∃ kind line, element = .over kind line
        ∧ (d.finishElement p element = d.warn line "Unmatched =back"
          ∨ d.finishElement p element = d.exit))
      ∨ d.finishElement p element = d
      ∨ ∃ frame frames, d.frames = frame :: frames ∧ (∀ kind line, element ≠ .over kind line)
        ∧ d.finishElement p element = { d with frames }.finishBlock p element frame.content := by
  have hblock : (match d.frames with
      | [] => d
      | frame :: frames => { d with frames }.finishBlock p element frame.content) = d
    ∨ ∃ frame frames, d.frames = frame :: frames
        ∧ (match d.frames with
          | [] => d
          | frame :: frames => { d with frames }.finishBlock p element frame.content)
          = { d with frames }.finishBlock p element frame.content := by
    cases d.frames with
    | nil => exact .inl rfl
    | cons frame frames => exact .inr ⟨frame, frames, rfl, rfl⟩
  cases element with
  | «over» kind line =>
    refine .inl ⟨kind, line, rfl, ?_⟩
    show (if _ then _ else _) = _ ∨ (if _ then _ else _) = _
    split
    · exact .inl rfl
    · exact .inr rfl
  | _ =>
    rcases hblock with h | ⟨frame, frames, hframes, h⟩
    · exact .inr (.inl h)
    · exact .inr (.inr ⟨frame, frames, hframes, by simp, h⟩)

/-- An event between the start and the end of a document comes. -/
def step (p : Policy) (d : Draft) : Event → Draft
  | .start element => d.startElement element
  | .text t => d.receiveText t
  | .finish element => d.finishElement p element
  | .docStart _ | .docEnd _ => d

/-- The draft after events. -/
def run (p : Policy) (d : Draft) (events : List Event) : Draft := events.foldl (step p) d

theorem run_append (p : Policy) (d : Draft) (events more : List Event) :
    d.run p (events ++ more) = (d.run p events).run p more := List.foldl_append

/-- The draft of a document that starts. -/
def start (p : Policy) (title : Text) (contentless : Bool) (sections : Registry) : Draft :=
  if !contentless && p.titled then (blank sections).writeHeader (escape title) none
  else blank sections

/-- The draft of a document that ends. -/
def complete (contentless : Bool) (d : Draft) : Draft :=
  if contentless then d
  else (exitEach d.scopes d).write [.passage "\\signature\n"]

theorem complete_with (contentless : Bool) (d : Draft) :
    ∃ scopes pieces, d.complete contentless = { d with scopes, pieces } := by
  unfold complete
  split
  · exact ⟨d.scopes, d.pieces, rfl⟩
  · obtain ⟨scopes, pieces, h⟩ := d.exitEach_with d.scopes
    exact ⟨scopes, _, by rw [h]; rfl⟩

end Draft

end PodLoom.Thread
