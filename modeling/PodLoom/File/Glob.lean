import PodLoom.File.Path

set_option autoImplicit false

/-!
# Globs

A glob is a pattern for paths, matched part by part.  In a part, `*` stands for any
run of units, `?` for one unit and `[…]` for one of a class; a pattern that starts
with any of them does not match a name that starts with a dot.  A part `**` stands
for any number of parts, none of which may start with a dot.  `{a,b}` stands for
either of its choices.  A glob of a single part is matched against the last part of
a path, wherever that is, and a leading `!` turns a glob into its opposite.

This is the matcher that the program comes with, and one among all that a search can be
given.  Groups of alternatives in parentheses, classes by name and ranges in braces are
text to it.
-/

namespace PodLoom

open Text CodeUnit

/-- What stands for one unit or for a run of them. -/
inductive Glob.Token where
  | exactly (u : CodeUnit)
  | anyUnit
  | anyRun
  | oneOf (negated : Bool) (ranges : List (CodeUnit × CodeUnit))
  deriving DecidableEq, Repr, Inhabited

/-- A part of a glob. -/
inductive Glob.Part where
  /-- Any number of parts. -/
  | anyParts
  /-- A single part. -/
  | tokens (tokens : List Glob.Token)
  deriving DecidableEq, Repr, Inhabited

/-- A glob: the part lists one of which a path must match, or must not if the glob
is negated. -/
structure Glob where
  negated : Bool
  choices : List (List Glob.Part)
  deriving DecidableEq, Repr, Inhabited

namespace Glob

/-! ## Matching -/

namespace Token

/-- Whether a token for one unit accepts a unit. -/
def accepts : Token → CodeUnit → Bool
  | .exactly v, u => u == v
  | .anyUnit, _ => true
  | .anyRun, _ => false
  | .oneOf negated ranges, u => negated != ranges.any fun (a, b) => a ≤ u && u ≤ b

/-- Whether a token stands for exactly one given unit. -/
def isExact : Token → Bool
  | .exactly _ => true
  | _ => false

/-- Whether a test holds of a text or of what is left of it after some units. -/
def anySuffix (p : Text → Bool) : Text → Bool
  | [] => p []
  | u :: rest => p (u :: rest) || anySuffix p rest

/-- Whether tokens match a text from end to end. -/
def matchAll : List Token → Text → Bool
  | [], t => t.isEmpty
  | .anyRun :: rest, t => anySuffix (matchAll rest) t
  | token :: rest, u :: after => token.accepts u && matchAll rest after
  | _ :: _, [] => false

end Token

/-- Whether tokens match a name.  Wildcards alone do not match an empty name, and a
wildcard at the start does not match a hidden one. -/
def matchName (tokens : List Token) (name : Text) : Bool :=
  let wild := !(tokens.head?.all Token.isExact)
  if wild && (Path.isHidden name || name.isEmpty) then false
  else Token.matchAll tokens name

/-- Whether parts match the parts of a path.  An empty part at the end of the path
need not be matched. -/
def matchParts : List Part → List Text → Bool
  | [], [] => true
  | [], [name] => name.isEmpty
  | [], _ :: _ :: _ => false
  | _ :: _, [] => false
  | .anyParts :: rest, name :: names =>
      if rest.isEmpty then (name :: names).all (!Path.isHidden ·)
      else matchParts rest (name :: names)
        || (!Path.isHidden name && matchParts (.anyParts :: rest) names)
  | .tokens tokens :: rest, name :: names => matchName tokens name && matchParts rest names
termination_by parts names => parts.length + names.length

/-- Cut at slashes; slashes in a row are one. -/
def splitParts (t : Text) : List Text :=
  match splitOn slash t with
  | [] => []
  | first :: rest =>
      let inner := rest.dropLast.filter (!·.isEmpty)
      first :: (inner ++ rest.getLast?.toList)

/-- The last part of a path that is not empty. -/
def lastName (names : List Text) : Text :=
  ((names.reverse.find? (!·.isEmpty)).getD [])

/-- Whether a glob matches a path. -/
def isMatch (g : Glob) (path : Text) : Bool :=
  let names := splitParts path
  let hit := g.choices.any fun parts =>
    matchParts parts (if parts.length = 1 then [lastName names] else names)
  hit != g.negated

/-! ## Reading a class -/

/-- Whether a class ends here: its first unit does not close it. -/
def closesClass (started : Bool) (u : CodeUnit) : Bool := started && u == closeBracket

/-- Read the ranges of a class up to its closing bracket, `found` last first.  A unit
and another with a hyphen between them are a range, unless the hyphen is the last
unit of the class; a range that runs backwards is dropped. -/
def readRanges (fuel : Nat) (started : Bool) (found : List (CodeUnit × CodeUnit)) (t : Text) :
    Option (List (CodeUnit × CodeUnit) × Text) :=
  match fuel, t with
  | 0, _ => none
  | _, [] => none
  | fuel + 1, u :: rest =>
      if closesClass started u then some (found.reverse, rest)
      else
        match if u = backslash then rest else u :: rest with
        | [] => none
        | low :: after =>
            match after with
            | 45 :: 93 :: _ =>
                readRanges fuel true ((45, 45) :: (low, low) :: found) after.tail
            | 45 :: next =>
                match if next.head? = some backslash then next.tail else next with
                | [] => none
                | high :: left =>
                    readRanges fuel true (if low ≤ high then (low, high) :: found else found) left
            | _ => readRanges fuel true ((low, low) :: found) after

/-- The class at the front of a text after its opening bracket.  A class of a single
unit is that unit, and a class that names no unit, negated or not, accepts none. -/
def readClass? (t : Text) : Option (Token × Text) :=
  let negated := t.head?.any fun u => u == ofChar '!' || u == ofChar '^'
  let body := if negated then t.tail else t
  (readRanges (body.length + 1) false [] body).map fun (ranges, after) =>
    match negated, ranges with
    | _, [] => (.oneOf false [], after)
    | false, [(low, high)] => (if low = high then .exactly low else .oneOf false ranges, after)
    | _, _ => (.oneOf negated ranges, after)

/-! ## Reading a glob -/

/-- Read the tokens of a part. -/
def readTokens : Nat → Text → List Token
  | 0, _ => []
  | _, [] => []
  | fuel + 1, u :: rest =>
      if u = ofChar '*' then .anyRun :: readTokens fuel rest
      else if u = ofChar '?' then .anyUnit :: readTokens fuel rest
      else if u = backslash then
        match rest with
        | v :: after => .exactly v :: readTokens fuel after
        | [] => [.exactly backslash]
      else if u = openBracket then
        match readClass? rest with
        | some (token, after) => token :: readTokens fuel after
        | none => .exactly u :: readTokens fuel rest
      else .exactly u :: readTokens fuel rest

/-- Read a part. -/
def readPart (t : Text) : Part :=
  if t = ofString "**" then .anyParts else .tokens (readTokens t.length t)

/-- Add a part to those before it, last first: `**` twice is `**` once, and `..`
takes back a plain part. -/
def pushPart (parts : List Text) (part : Text) : List Text :=
  match parts with
  | last :: rest =>
      if part = ofString "**" ∧ last = part then parts
      else if part = ofString ".." ∧ last ≠ part ∧ last ≠ ofString "." ∧ last ≠ ofString "**"
          ∧ last ≠ [] then rest
      else part :: parts
  | [] => [part]

/-- Read the parts of a glob without choices. -/
def readParts (t : Text) : List Part :=
  match ((splitParts t).foldl pushPart []).reverse with
  | [] => [.tokens []]
  | parts => parts.map readPart

/-! ## Choices -/

/-- Cut a text at the brace that closes one opened before it: what the braces hold
and what follows them.  `depth` more are open. -/
def splitAtClose? : Nat → Text → Option (Text × Text)
  | _, [] => none
  | depth, u :: rest =>
      if u = 125 then
        match depth with
        | 0 => some ([], rest)
        | depth + 1 => (splitAtClose? depth rest).map fun (body, after) => (u :: body, after)
      else
        (splitAtClose? (if u = 123 then depth + 1 else depth) rest).map fun (body, after) =>
          (u :: body, after)

/-- Cut a text at its first pair of braces: what is before, between and after. -/
def splitAtBraces? : Text → Option (Text × Text × Text)
  | [] => none
  | u :: rest =>
      match if u = 123 then splitAtClose? 0 rest else none with
      | some (body, after) => some ([], body, after)
      | none => (splitAtBraces? rest).map fun (before, body, after) => (u :: before, body, after)

/-- Cut a text at the commas outside braces. -/
def splitAtCommas : Nat → Text → List Text
  | _, [] => [[]]
  | depth, u :: rest =>
      if u = ofChar ',' ∧ depth = 0 then [] :: splitAtCommas depth rest
      else
        let depth := if u = 123 then depth + 1 else if u = 125 then depth - 1 else depth
        match splitAtCommas depth rest with
        | [] => [[u]]
        | piece :: pieces => (u :: piece) :: pieces

/-- The globs that a glob with choices stands for.  Braces without a comma are
themselves. -/
def expandChoices : Nat → Text → List Text
  | 0, t => [t]
  | fuel + 1, t =>
      match splitAtBraces? t with
      | none => [t]
      | some (before, body, after) =>
          let middles := match splitAtCommas 0 body with
            | [single] => (expandChoices fuel single).map fun m => (123 : CodeUnit) :: (m ++ [125])
            | choices => choices.flatMap (expandChoices fuel)
          let afters := expandChoices fuel after
          middles.flatMap fun m => afters.map fun a => before ++ m ++ a

/-- Read a glob.  One that starts with `#` is a comment and matches nothing. -/
def read (pattern : Text) : Glob :=
  if pattern.head? = some (ofChar '#') then ⟨false, []⟩
  else
    let marks := pattern.takeWhile (· == ofChar '!')
    let body := pattern.drop marks.length
    ⟨marks.length % 2 == 1, (expandChoices body.length body).map readParts⟩

end Glob

end PodLoom
