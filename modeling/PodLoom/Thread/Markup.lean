import PodLoom.Text.Basic

set_option autoImplicit false

/-!
# Thread: macros and escaped text

Thread is the language of the output.  A macro is a backslash and a name, followed
by arguments in square brackets.  Text that is not markup is escaped: a backslash is
doubled, and a bracket becomes an entity reference to its code point, so nothing in
a text can start a macro or open or close an argument.
-/

namespace PodLoom.Thread

open Text CodeUnit

/-- A unit of text as thread. -/
def escapeUnit (u : CodeUnit) : Text :=
  if u = backslash then [backslash, backslash]
  else if u = openBracket then "\\entity[91]"
  else if u = closeBracket then "\\entity[93]"
  else [u]

/-- A text as thread.  The units are escaped one by one, so a text may be escaped in
pieces. -/
def escape (t : Text) : Text := t.flatMap escapeUnit

theorem escape_append (s t : Text) : escape (s ++ t) = escape s ++ escape t :=
  List.flatMap_append

/-- A text in square brackets. -/
def bracketed (t : Text) : Text := openBracket :: (t ++ [closeBracket])

/-- A macro with its arguments; the name may hold an option in parentheses. -/
def command (name : String) (arguments : List Text) : Text :=
  backslash :: (ofString name ++ arguments.flatMap bracketed)

/-- A link to an anchor of this document. -/
def anchorLink (anchor text : Text) : Text :=
  command "link" [ofChar '#' :: anchor, text]

end PodLoom.Thread
