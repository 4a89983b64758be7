import PodLoom.Json.Value
import PodLoom.Text.Numeral

set_option autoImplicit false

/-!
# Reading JSON

A reader for JSON texts, exact in what it refuses: no comma after the last item,
no leading zero, no control character in a string, nothing after the value but
white space.  Every recursive step consumes a unit, so as many steps as the text
has units are enough; `Json.read?` starts with that many.
-/

namespace PodLoom.Json

open Text CodeUnit

/-- JSON white space. -/
def isSpace (u : CodeUnit) : Bool := u == space || u == tab || u == newline || u == carriageReturn

/-- The text after the white space at its front. -/
def skip (t : Text) : Text := t.dropWhile isSpace

/-! ## Strings and numbers -/

/-- The character of a one-letter escape. -/
def shortEscape? (u : CodeUnit) : Option CodeUnit :=
  if u = quote ∨ u = backslash ∨ u = slash then some u
  else if u = 'b' then some 8
  else if u = 'f' then some 12
  else if u = 'n' then some newline
  else if u = 'r' then some carriageReturn
  else if u = 't' then some tab
  else none

/-- The content of a string up to its closing quote, and the text after it. -/
def readString? : Text → Option (Text × Text)
  | [] => none
  | u :: rest =>
      if u = quote then some ([], rest)
      else if u = backslash then
        match rest with
        | 117 :: a :: b :: c :: d :: after =>
            match numeral? 16 [a, b, c, d] with
            | some n => (readString? after).map fun (content, left) => (n.toUInt16 :: content, left)
            | none => none
        | letter :: after =>
            match shortEscape? letter with
            | some v => (readString? after).map fun (content, left) => (v :: content, left)
            | none => none
        | [] => none
      else if u < 32 then none
      else (readString? rest).map fun (content, left) => (u :: content, left)

/-- Split off a non-empty run of digits. -/
def digits? (t : Text) : Option (Text × Text) :=
  let run := t.takeWhile isDigit
  if run.isEmpty then none else some (run, t.dropWhile isDigit)

/-- The fraction at the front of a text, possibly none; fails on a point without
digits. -/
def fraction? (t : Text) : Option (Text × Text) :=
  match t with
  | u :: rest =>
      if u = dot then (digits? rest).map fun (run, after) => (u :: run, after) else some ([], t)
  | [] => some ([], t)

/-- The sign at the front of an exponent, possibly none. -/
def sign (t : Text) : Text × Text :=
  match t with
  | u :: rest => if u = '+' ∨ u = '-' then ([u], rest) else ([], t)
  | [] => ([], t)

/-- The exponent at the front of a text, possibly none; fails on a mark without
digits. -/
def exponent? (t : Text) : Option (Text × Text) :=
  match t with
  | u :: rest =>
      if u = 'e' ∨ u = 'E' then
        let (mark, after) := sign rest
        (digits? after).map fun (run, left) => (u :: (mark ++ run), left)
      else some ([], t)
  | [] => some ([], t)

/-- The whole part at the front of a number: a lone zero, or digits that do not
start with one. -/
def whole? (t : Text) : Option (Text × Text) :=
  (digits? t).bind fun (run, after) =>
    if run.head? = some 48 ∧ 1 < run.length then none else some (run, after)

/-- The number at the front of a text, as written. -/
def readNumber? (t : Text) : Option (Text × Text) := do
  let (minus, t) := match t with
    | u :: rest => if u = '-' then ([u], rest) else (([] : Text), t)
    | [] => ([], t)
  let (whole, t) ← whole? t
  let (fraction, t) ← fraction? t
  let (exponent, t) ← exponent? t
  some (minus ++ whole ++ fraction ++ exponent, t)

/-! ## Values -/

mutual

/-- The value at the front of a text, white space before it allowed. -/
def readValue? : Nat → Text → Option (Json × Text)
  | 0, _ => none
  | fuel + 1, t =>
      match skip t with
      | [] => none
      | u :: rest =>
          if u = quote then (readString? rest).map fun (value, after) => (.string value, after)
          else if u = openBracket then
            match skip rest with
            | 93 :: after => some (.array [], after)
            | _ => (readItems? fuel rest).map fun (items, after) => (.array items, after)
          else if u = 123 then
            match skip rest with
            | 125 :: after => some (.object [], after)
            | _ => (readMembers? fuel rest).map fun (pairs, after) => (.object pairs, after)
          else if let some after := afterFront? (ofString "null") (u :: rest) then
            some (.null, after)
          else if let some after := afterFront? (ofString "true") (u :: rest) then
            some (.bool true, after)
          else if let some after := afterFront? (ofString "false") (u :: rest) then
            some (.bool false, after)
          else (readNumber? (u :: rest)).map fun (literal, after) => (.number literal, after)

/-- The items of an array up to its closing bracket, at least one. -/
def readItems? : Nat → Text → Option (List Json × Text)
  | 0, _ => none
  | fuel + 1, t => do
      let (item, after) ← readValue? fuel t
      match skip after with
      | 44 :: rest => (readItems? fuel rest).map fun (items, left) => (item :: items, left)
      | 93 :: rest => some ([item], rest)
      | _ => none

/-- The members of an object up to its closing brace, at least one. -/
def readMembers? : Nat → Text → Option (List (Text × Json) × Text)
  | 0, _ => none
  | fuel + 1, t =>
      match skip t with
      | 34 :: rest => do
          let (name, after) ← readString? rest
          match skip after with
          | 58 :: rest =>
              let (value, after) ← readValue? fuel rest
              match skip after with
              | 44 :: rest =>
                  (readMembers? fuel rest).map fun (pairs, left) => ((name, value) :: pairs, left)
              | 125 :: rest => some ([(name, value)], rest)
              | _ => none
          | _ => none
      | _ => none

end

/-- The value that a text writes, if it is a JSON text. -/
def read? (t : Text) : Option Json :=
  match readValue? (t.length + 1) t with
  | some (value, after) => if (skip after).isEmpty then some value else none
  | none => none

end PodLoom.Json
