import PodLoom.Pod.EscapeName
import PodLoom.Text.Numeral

set_option autoImplicit false

/-!
# Escapes: the content of an `E<>` code

An escape is a number (decimal, hexadecimal after `0x`, octal after a leading
zero) or a name.  The forms overlap only in `0` followed by digits: it is octal if
every digit after the zero is one, and decimal otherwise, so `010` is eight and
`08` is eight too.  A number beyond the last code point is no number; it is then
looked up as a name, and no name starts with a digit.
-/

namespace PodLoom.Pod

open Text

/-- The highest code point of Unicode. -/
def maxCodePoint : Nat := 0x10FFFF

/-- The value of a numeric escape, however large. -/
def escapeNumber? (name : Text) : Option Nat :=
  match name with
  | 48 :: 120 :: digits => numeral? 16 digits <|> numeral? 10 name
  | 48 :: 88 :: digits => numeral? 16 digits <|> numeral? 10 name
  | 48 :: digits => numeral? 8 digits <|> numeral? 10 name
  | _ => numeral? 10 name

/-- The code point that a numeric escape names. -/
def numericEscape? (name : Text) : Option Nat :=
  (escapeNumber? name).filter (· ≤ maxCodePoint)

/-- The text that a named escape stands for. -/
def namedEscape? (name : Text) : Option Text :=
  (escapeNames.find? fun row => ofString row.1 == name).map (·.2)

/-- The text that an escape stands for, by number or else by name. -/
def escapeText? (name : Text) : Option Text :=
  match numericEscape? name with
  | some point => some (ofCodePoint point)
  | none => namedEscape? name

end PodLoom.Pod
