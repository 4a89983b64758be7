import PodLoom.Pod.Event
import PodLoom.Thread.Section

set_option autoImplicit false

/-!
# Rendered text: formatting codes and links as thread

The content of an element is collected twice: as thread, and plain, with all
formatting removed.  A formatting code or a link turns the content it encloses into
rendered text, and may have a warning to go with it.
-/

namespace PodLoom.Thread

open Text CodeUnit
open PodLoom.Pod (LinkKind escapeText?)

/-- A content as thread and without formatting. -/
structure Rendered where
  text : Text
  plain : Text
  deriving DecidableEq, Repr, Inhabited

namespace Rendered

/-- No content. -/
def empty : Rendered := ⟨[], []⟩

/-- One content after another. -/
def append (a b : Rendered) : Rendered := ⟨a.text ++ b.text, a.plain ++ b.plain⟩

instance : Append Rendered := ⟨append⟩

/-- Text without markup. -/
def ofText (t : Text) : Rendered := ⟨escape t, t⟩

/-- Raw thread. -/
def ofRaw (t : Text) : Rendered := ⟨t, t⟩

/-- A content as the argument of a macro; an empty content needs none. -/
def wrapped (name : String) (content : Rendered) : Rendered :=
  if content.text.isEmpty then empty else ⟨command name [content.text], content.plain⟩

/-- A code as it stands in the source, around thread or plain text. -/
def literalCode (code content : Text) : Text := code ++ less :: (content ++ [greater])

end Rendered

/-- Rendered text, with the warning it gives rise to. -/
abbrev Rendering : Type := Rendered × Option Text

/-- An escape.  One that is not known is left to the page generator. -/
def renderEscape (content : Rendered) : Rendering :=
  let name := content.plain.trim
  match escapeText? name with
  | some value => (.ofText value, none)
  | none =>
      let literal := Rendered.literalCode [ofChar 'E'] name
      (⟨command "entity" [escape name], literal⟩, some (ofString "Unknown escape: " ++ literal))

/-- A formatting code around its content.  Codes that are not known stay as they
are. -/
def renderCode (code : Text) (content : Rendered) : Rendering :=
  if code = ofString "B" then (content.wrapped "bold", none)
  else if code = ofString "C" then (content.wrapped "code", none)
  else if code = ofString "I" then (content.wrapped "italic", none)
  else if code = ofString "F" then (content.wrapped "italic(file)", none)
  else if code = ofString "S" then (content, none)
  else if code = ofString "X" ∨ code = ofString "Z" then (.empty, none)
  else if code = ofString "E" then renderEscape content
  else
    (⟨Rendered.literalCode code content.text, Rendered.literalCode code content.plain⟩,
      some (ofString "Unknown formatting code: " ++ Rendered.literalCode code content.plain))

/-- A text without a double quote at its start. -/
def dropQuoteAtStart (t : Text) : Text := if t.head? = some quote then t.tail else t

/-- A text without a double quote at its end. -/
def dropQuoteAtEnd (t : Text) : Text := if t.getLast? = some quote then t.dropLast else t

/-- A text without a double quote at its start and one at its end, each on its
own. -/
def stripQuotes (t : Text) : Text := dropQuoteAtEnd (dropQuoteAtStart t)

/-- A link around the text it shows.  A URL is a link, in angle brackets if it is its
own text; a section of this document is a link to its anchor if it has one; anything
else is its text. -/
def renderLink (sections : Registry) (kind : LinkKind) (target heading : Option Text)
    (hasLabel : Bool) (content : Rendered) : Rendered :=
  let target := target.getD []
  let sectionName := heading.getD []
  if kind = .url ∧ target ≠ [] then
    let link := command "link" [escape target, content.text]
    if !hasLabel ∨ content.plain = target then ⟨less :: (link ++ [greater]), content.plain⟩
    else ⟨link, content.plain⟩
  else if kind = .pod ∧ target = [] ∧ sectionName ≠ [] then
    match (sections.lookup sectionName).filter (!·.isEmpty) with
    | some anchor =>
        ⟨anchorLink anchor (stripQuotes content.text), stripQuotes content.plain⟩
    | none => content
  else content

end PodLoom.Thread
