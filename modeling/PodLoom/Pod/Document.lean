import PodLoom.Pod.Event
import PodLoom.Pod.Paragraph

set_option autoImplicit false

/-!
# Documents: from paragraphs to events

Reading a document never fails.  Its paragraphs are taken in order; each delivers
events and errors, and changes the context in which the paragraphs after it stand:
the lists and the format regions that are open.  At the end every open list is
ended, open lists and regions are reported, and the errors are sorted by line.

What is delivered and what is remembered are kept apart: `Context` is all that a
paragraph knows of those before it, `Delivery` all that it adds to the document.
-/

namespace PodLoom.Pod

open Text CodeUnit

/-! ## Context and delivery -/

/-- How the paragraphs of a format region are taken. -/
inductive RegionMode where
  /-- Their text is raw data. -/
  | data
  /-- They are POD. -/
  | pod
  /-- They are passed over. -/
  | skip
  deriving DecidableEq, Repr, Inhabited

/-- An open format region. -/
structure Region where
  target : Text
  mode : RegionMode
  line : Int
  deriving DecidableEq, Repr, Inhabited

/-- An open list. -/
structure OpenList where
  kind : ListKind
  line : Int
  deriving DecidableEq, Repr, Inhabited

/-- The element of an open list. -/
def OpenList.element (l : OpenList) : Element := .over l.kind l.line

/-- What is open at a point of a document, innermost first. -/
structure Context where
  lists : List OpenList
  regions : List Region
  deriving DecidableEq, Repr, Inhabited

/-- Nothing is open. -/
def Context.empty : Context := ⟨[], []⟩

/-- What a piece of a document adds to it. -/
structure Delivery where
  events : List Event
  errata : List Erratum
  deriving DecidableEq, Repr, Inhabited

namespace Delivery

/-- Nothing is added. -/
def empty : Delivery := ⟨[], []⟩

/-- One delivery after another. -/
def append (a b : Delivery) : Delivery := ⟨a.events ++ b.events, a.errata ++ b.errata⟩

instance : Append Delivery := ⟨append⟩

/-- A single error. -/
def erratum (line : Int) (message : Text) : Delivery := ⟨[], [⟨line, message⟩]⟩

/-- Events without errors. -/
def ofEvents (es : List Event) : Delivery := ⟨es, []⟩

/-- Formatted text, with the errors in its codes. -/
def formatted (line : Int) (t : Text) : Delivery :=
  let nodes := Inline.parse line t.expandTabs
  ⟨inlineEvents nodes, Inline.allErrata nodes⟩

/-- An element around a delivery. -/
def enclose (element : Element) (inner : Delivery) : Delivery :=
  ⟨.start element :: (inner.events ++ [.finish element]), inner.errata⟩

/-- A block element around formatted text. -/
def block (element : Element) (t : Text) : Delivery := enclose element (formatted element.line t)

/-- An element around text that is delivered as it stands. -/
def raw (element : Element) (t : Text) : Delivery := enclose element (ofEvents [.text t])

end Delivery

/-! ## Format regions -/

/-- The one output format whose raw text is kept. -/
def acceptedFormat : Text := "thread"

/-- The mode of a region of a format: a colon before the name marks POD, and
formats that are not accepted are passed over. -/
def RegionMode.ofTarget (target : Text) : RegionMode :=
  match target with
  | colon :: name =>
      if colon == ofChar ':' && name == acceptedFormat then .pod
      else if target == acceptedFormat then .data
      else .skip
  | [] => .skip

/-- The mode of the innermost region. -/
def Context.mode? (c : Context) : Option RegionMode := c.regions.head?.map (·.mode)

/-- Open a region for a `=begin` with the given text.  Inside a region that is
passed over, every region is. -/
def beginRegion (c : Context) (line : Int) (text : Text) : Context × Delivery :=
  match text.words with
  | [] => (c, .erratum line "=begin without a format name")
  | target :: _ =>
      let mode := if c.mode? = some .skip then .skip else RegionMode.ofTarget target
      ({ c with regions := ⟨target, mode, line⟩ :: c.regions }, .empty)

/-- Close the innermost region, whatever format the `=end` names. -/
def endRegion (c : Context) (line : Int) (text : Text) : Context × Delivery :=
  let target := text.words.headD []
  match c.regions with
  | [] => (c, .erratum line (ofString "=end " ++ target ++ ofString " without matching =begin"))
  | region :: outer =>
      ({ c with regions := outer },
        if region.target = target then .empty
        else .erratum line (ofString "=end " ++ target ++ ofString " doesn't match =begin "
          ++ region.target))

/-- The format and the content of a `=for` paragraph: a word on the first line, and
what follows it after blanks and at most one line feed. -/
def splitFor? (text : Text) : Option (Text × Text) :=
  let (target, after) := spanWord (text.dropWhile CodeUnit.isSpaceOrTab)
  if target.isEmpty then none
  else
    let content := after.dropWhile CodeUnit.isSpaceOrTab
    some (target, if content.head? = some newline then content.tail else content)

/-- The delivery of a `=for` paragraph. -/
def deliverFor (line : Int) (text : Text) : Delivery :=
  match splitFor? text with
  | none => .erratum line "=for without a format name"
  | some (target, content) =>
      match RegionMode.ofTarget target with
      | .data => .raw (.data target line) content
      | .pod => .block (.para line) content
      | .skip => .empty

/-! ## Lists -/

/-- The text after a marker, trimmed of the white space between them; the marker
ends the item's text or white space follows it. -/
def afterMarker? (t : Text) : Option Text :=
  if t.head?.all CodeUnit.isBlank then some t.trimStart else none

/-- The text of an item after a bullet. -/
def afterBullet? : Text → Option Text
  | mark :: rest => if mark == ofChar '*' then afterMarker? rest else none
  | [] => none

/-- The text without the full stop or parenthesis at its front. -/
def dropNumberEnd : Text → Text
  | u :: rest => if u == dot || u == ofChar ')' then rest else u :: rest
  | [] => []

/-- The text of an item after a number. -/
def afterNumber? (t : Text) : Option Text :=
  if t.head?.any CodeUnit.isDigit then afterMarker? (dropNumberEnd (t.dropWhile CodeUnit.isDigit))
  else none

/-- Whether an item's text starts a numbered list: its number is one. -/
def startsNumbering (t : Text) : Bool :=
  match t with
  | one :: rest => one == ofChar '1' && (afterMarker? (dropNumberEnd rest)).isSome
  | [] => false

/-- The kind of a list, decided by the paragraph that follows its `=over`. -/
def listKind (next : Option Paragraph) : ListKind :=
  match next with
  | none => .block
  | some p =>
      if p.kind = .command "item" then
        let marker := p.joined
        if marker.isEmpty || (afterBullet? marker).isSome then .bullet
        else if startsNumbering marker then .number
        else .text
      else .block

/-- An item as read: its kind, its label and the text of its first paragraph. -/
structure Item where
  kind : ListKind
  label : Text
  body : Text
  deriving DecidableEq, Repr, Inhabited

/-- Read an item's text in a list of the given kind.  An empty item is a bullet; a
number counts as one only in a numbered list. -/
def Item.read (kind : ListKind) (marker : Text) : Item :=
  if marker.isEmpty then ⟨.bullet, [], []⟩
  else
    match afterBullet? marker with
    | some body => ⟨.bullet, [], body⟩
    | none =>
        match if kind = .number then afterNumber? marker else none with
        | some body => ⟨.number, [], body⟩
        | none => ⟨.text, marker, []⟩

/-- The delivery of an item: its element around its label, and the text after its
marker as a paragraph. -/
def deliverItem (c : Context) (line : Int) (marker : Text) : Delivery :=
  match c.lists with
  | [] =>
      .erratum line "=item outside of any =over"
        ++ if marker.isEmpty then .empty else .block (.para line) marker
  | list :: _ =>
      let item := Item.read list.kind marker
      let element := Element.item item.kind marker line
      (if item.label.isEmpty then .enclose element .empty else .block element item.label)
        ++ if item.body.isBlank then .empty else .block (.para line) item.body

/-- End the innermost list.  A `=back` without one is delivered all the same; what
to make of it is for the receiver to say. -/
def endList (c : Context) (line : Int) : Context × Delivery :=
  match c.lists with
  | [] => (c, .ofEvents [.finish (.over .block line)])
  | list :: outer => ({ c with lists := outer }, .ofEvents [.finish list.element])

/-! ## Paragraphs -/

/-- The level of a heading command. -/
def headLevel? (name : Text) : Option Nat :=
  if name = ofString "head1" then some 1
  else if name = ofString "head2" then some 2
  else if name = ofString "head3" then some 3
  else if name = ofString "head4" then some 4
  else none

/-- The commands that have no content of their own. -/
def isStructural (name : Text) : Bool :=
  name == ofString "pod" || name == ofString "cut" || name == ofString "encoding"

/-- Whether a paragraph opens or closes a format region. -/
def Paragraph.boundsRegion (p : Paragraph) : Bool :=
  p.kind == .command "begin" || p.kind == .command "end"

/-- Take a command paragraph outside the regions that are passed over. -/
def takeCommand (c : Context) (name : Text) (p : Paragraph) (next : Option Paragraph) :
    Context × Delivery :=
  let line : Int := p.line
  match headLevel? name with
  | some level => (c, .block (.head level line) p.joined)
  | none =>
      if name = ofString "over" then
        let list : OpenList := ⟨listKind next, line⟩
        ({ c with lists := list :: c.lists }, .ofEvents [.start list.element])
      else if name = ofString "item" then (c, deliverItem c line p.joined)
      else if name = ofString "back" then endList c line
      else if name = ofString "begin" then beginRegion c line p.text
      else if name = ofString "end" then endRegion c line p.text
      else if name = ofString "for" then (c, deliverFor line p.text)
      else if isStructural name then (c, .empty)
      else (c, .enclose (.command name p.text.trim line) .empty)

/-- Take a paragraph; `next` is the one after it. -/
def takeParagraph (c : Context) (p : Paragraph) (next : Option Paragraph) : Context × Delivery :=
  if c.mode? = some .skip ∧ p.boundsRegion = false then (c, .empty)
  else
    let line : Int := p.line
    match p.kind with
    | .command name => takeCommand c name p next
    | kind =>
        match c.regions.head? with
        | some ⟨target, .data, _⟩ => (c, .raw (.data target line) p.text)
        | _ =>
            if kind = .verbatim then
              (c, .raw (.verbatim line) (stripLineEnds p.text.expandTabs))
            else (c, .block (.para line) p.text)

/-- Take paragraphs in order. -/
def takeParagraphs (c : Context) : List Paragraph → Context × Delivery
  | [] => (c, .empty)
  | p :: rest =>
      let (c', first) := takeParagraph c p rest.head?
      let (c'', more) := takeParagraphs c' rest
      (c'', first ++ more)

/-- End a document: report the regions left open, outermost first, and the lists
left open, innermost first, ending each. -/
def endDocument (c : Context) : Delivery where
  events := c.lists.map fun l => .finish l.element
  errata :=
    c.regions.reverse.map (fun r =>
      ⟨r.line, ofString "=begin " ++ r.target ++ ofString " without matching =end"⟩)
    ++ c.lists.map fun l => ⟨l.line, ofString "=over without closing =back"⟩

/-! ## Documents -/

/-- All that the paragraphs of a document deliver. -/
def deliver (ps : List Paragraph) : Delivery :=
  let (c, body) := takeParagraphs .empty ps
  body ++ endDocument c

/-- Errors in the order of their lines, those of one line in the order found. -/
def sortErrata (es : List Erratum) : List Erratum := es.mergeSort fun a b => a.line ≤ b.line

/-- A unit that may stand inside a revision keyword. -/
def isKeywordUnit (u : CodeUnit) : Bool := u != ofChar '$' && u != newline

/-- The first revision keyword in a text: `$Id:`, then anything on the same line up
to the next dollar sign. -/
def revisionId? : Text → Option Text
  | [] => none
  | u :: rest =>
      match afterFront? (ofString "$Id:") (u :: rest) with
      | some after =>
          if (after.dropWhile isKeywordUnit).head? = some (ofChar '$') then
            some (ofString "$Id:" ++ after.takeWhile isKeywordUnit ++ ofString "$")
          else revisionId? rest
      | none => revisionId? rest

/-- Whether paragraphs hold no content: each is a command without any of its own. -/
def isContentless (ps : List Paragraph) : Bool :=
  ps.all fun p =>
    match p.kind with
    | .command name => isStructural name
    | _ => false

/-- The events of a document made of the given paragraphs. -/
def documentEvents (file : Text) (id : Option Text) (ps : List Paragraph) : List Event :=
  let d := deliver ps
  .docStart ⟨isContentless ps, id, file⟩ :: (d.events ++ [.docEnd (sortErrata d.errata)])

/-- The events of a source read under a file name. -/
def sourceEvents (file : Text) (source : Text) : List Event :=
  documentEvents file (revisionId? source.normalizeEndings) (Paragraph.split source)

end PodLoom.Pod
