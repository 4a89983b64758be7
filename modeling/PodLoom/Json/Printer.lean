import PodLoom.Json.Value

set_option autoImplicit false

/-!
# Writing JSON

JSON in its shortest form: no white space, members in key order.  In a string, the
quote, the backslash and the control characters are escaped, the common ones by a
letter; so are lone surrogates, which leaves the output well-formed whatever the
text.
-/

namespace PodLoom.Json

open Text CodeUnit

/-- The hexadecimal digit of a number below sixteen, in lower case. -/
def hexDigit (n : Nat) : CodeUnit := if n < 10 then (48 + n).toUInt16 else (87 + n).toUInt16

/-- The escape of a code unit by its number. -/
def unitEscape (u : CodeUnit) : Text :=
  let n := u.toNat
  [backslash, 'u', hexDigit (n / 4096), hexDigit (n / 256 % 16), hexDigit (n / 16 % 16),
    hexDigit (n % 16)]

/-- A code unit inside a string. -/
def escapeUnit (u : CodeUnit) : Text :=
  if u = quote then [backslash, quote]
  else if u = backslash then [backslash, backslash]
  else if u = 8 then [backslash, 'b']
  else if u = tab then [backslash, 't']
  else if u = newline then [backslash, 'n']
  else if u = 12 then [backslash, 'f']
  else if u = carriageReturn then [backslash, 'r']
  else if u < 32 then unitEscape u
  else [u]

/-- The content of a string, escaped. -/
def escapeText : Text → Text
  | [] => []
  | [u] => if u.isHighSurrogate || u.isLowSurrogate then unitEscape u else escapeUnit u
  | u :: v :: rest =>
      if u.isHighSurrogate && v.isLowSurrogate then u :: v :: escapeText rest
      else if u.isHighSurrogate || u.isLowSurrogate then unitEscape u ++ escapeText (v :: rest)
      else escapeUnit u ++ escapeText (v :: rest)

/-- A string in quotes. -/
def quoted (t : Text) : Text := quote :: (escapeText t ++ [quote])

mutual

/-- A value in its shortest form. -/
def print : Json → Text
  | .null => ofString "null"
  | .bool true => ofString "true"
  | .bool false => ofString "false"
  | .number literal => literal
  | .string value => quoted value
  | .array items => openBracket :: (join [','] (printItems items) ++ [closeBracket])
  | .object pairs => (123 : CodeUnit) :: (join [','] ((Keyed.inOrder (printPairs pairs)).map
      fun (name, value) => quoted name ++ (58 : CodeUnit) :: value) ++ [125])

/-- The values of an array, each in its shortest form. -/
def printItems : List Json → List Text
  | [] => []
  | item :: rest => print item :: printItems rest

/-- The members of an object, each value in its shortest form. -/
def printPairs : List (Text × Json) → List (Text × Text)
  | [] => []
  | (name, value) :: rest => (name, print value) :: printPairs rest

end

end PodLoom.Json
