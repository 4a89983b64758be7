import PodLoom.Pod.Link

set_option autoImplicit false

/-!
# Events: a document as a stream

A document is delivered as a list of events: its start, then elements that start
and finish around text, then its end with the errors found.  Block elements
(headings, paragraphs, verbatim and data blocks, list items) hold inline elements
(formatting codes and links), which may nest.
-/

namespace PodLoom.Pod

open Text CodeUnit

/-- List kinds.  A list with no leading item is a block list: its content is only
set in. -/
inductive ListKind where
  | bullet
  | number
  | text
  | block
  deriving DecidableEq, Repr, Inhabited

/-- An element of a document, with the line it starts at. -/
inductive Element where
  /-- A heading of level one to four. -/
  | head (level : Nat) (line : Int)
  /-- An ordinary paragraph. -/
  | para (line : Int)
  /-- Indented text, delivered as it stands. -/
  | verbatim (line : Int)
  /-- Raw text for an accepted output format. -/
  | data (target : Text) (line : Int)
  /-- A list. -/
  | over (kind : ListKind) (line : Int)
  /-- A list item; only the label of a text item is its content. -/
  | item (kind : ListKind) (marker : Text) (line : Int)
  /-- A command that has no meaning here. -/
  | command (name : Text) (text : Text) (line : Int)
  /-- A formatting code other than a link; it is for the receiver to know its
  codes. -/
  | format (code : Text) (line : Int)
  /-- A link, around the text it shows. -/
  | link (kind : LinkKind) (target heading : Option Text) (hasLabel : Bool) (line : Int)
  deriving DecidableEq, Repr, Inhabited

/-- The line an element starts at. -/
def Element.line : Element → Int
  | .head _ line | .para line | .verbatim line | .data _ line | .over _ line
  | .item _ _ line | .command _ _ line | .format _ line | .link _ _ _ _ line => line

/-- What is known of a document before it is read. -/
structure DocumentInfo where
  /-- The source has no content at all. -/
  contentless : Bool
  /-- The revision keyword found in the source. -/
  id : Option Text
  /-- The name used in diagnostics. -/
  file : Text
  deriving DecidableEq, Repr, Inhabited

/-- A step of the delivery of a document. -/
inductive Event where
  | docStart (info : DocumentInfo)
  | start (element : Element)
  | text (content : Text)
  | finish (element : Element)
  | docEnd (errata : List Erratum)
  deriving DecidableEq, Repr, Inhabited

/-! ## The events of formatted text -/

/-- The opening brackets in the source of a sequence of nodes. -/
def Inline.brackets (nodes : List Inline) : Nat := (Inline.sources nodes).count less

theorem Inline.brackets_cons (node : Inline) (rest : List Inline) :
    Inline.brackets (node :: rest) = node.source.count less + Inline.brackets rest := by
  simp [brackets, sources]

/-- The content of a code has fewer opening brackets than the code. -/
theorem Inline.brackets_children_lt (letter : CodeUnit) (d : Delimiter) (children : List Inline)
    (line : Int) : brackets children < (Inline.code letter d children line).source.count less := by
  have : 0 < (List.replicate d.count less).count less := by
    simp [Delimiter.count]
  simp only [source, brackets, Delimiter.front, List.count_cons, List.count_append]
  omega

/-- What a link delivers besides its text. -/
def linkElement (link : Link) (line : Int) : Element :=
  .link link.kind link.target
    (link.heading.map fun s => Inline.plains (Inline.parse line s)) link.label.isSome line

/-- The events of formatted text.  The content of a link is not delivered; its
display text is, read as formatted text in its turn. -/
def inlineEvents : List Inline → List Event
  | [] => []
  | .text content :: rest => .text content :: inlineEvents rest
  | .code letter _ children line :: rest =>
      if letter = 'L' then
        let link := Link.parse (Inline.sources children)
        let element := linkElement link line
        .start element :: (inlineEvents (Inline.parse line link.display)
          ++ .finish element :: inlineEvents rest)
      else
        let element := Element.format [letter] line
        .start element :: (inlineEvents children ++ .finish element :: inlineEvents rest)
termination_by nodes => (Inline.brackets nodes, sizeOf nodes)
decreasing_by
  · rw [Inline.brackets_cons]
    exact Prod.Lex.right' _ (Nat.le_add_left ..) (by rw [List.cons.sizeOf_spec]; omega)
  · refine Prod.Lex.left _ _ ?_
    rw [Inline.brackets_cons, Inline.brackets, sources_parse]
    refine Nat.lt_of_le_of_lt (count_less_display _) ?_
    exact Nat.lt_of_lt_of_le (Inline.brackets_children_lt ..) (Nat.le_add_right ..)
  · rw [Inline.brackets_cons]
    exact Prod.Lex.right' _ (Nat.le_add_left ..) (by rw [List.cons.sizeOf_spec]; omega)
  · refine Prod.Lex.left _ _ ?_
    rw [Inline.brackets_cons]
    exact Nat.lt_of_lt_of_le (Inline.brackets_children_lt ..) (Nat.le_add_right ..)
  · rw [Inline.brackets_cons]
    exact Prod.Lex.right' _ (Nat.le_add_left ..) (by rw [List.cons.sizeOf_spec]; omega)

end PodLoom.Pod
