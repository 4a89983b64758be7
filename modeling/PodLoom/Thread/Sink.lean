import PodLoom.Failure

set_option autoImplicit false

/-!
# The sink: where output goes

Converted text reaches its target through a sink, which holds two things back.

* The blank lines at the end of a chunk are deferred until the next chunk comes, so
  that a closing bracket can be written straight after the text it closes and before
  the blank lines that separate blocks.
* Once a place is reserved for the navigation, everything after it is held until
  the end of the document, when the navigation is known.

A target takes pieces of text one by one and may refuse one of them; what was taken
before stays.
-/

namespace PodLoom.Thread

open Text CodeUnit

/-! ## Targets -/

/-- A destination for text: the pieces it has taken, and, if it is bound to refuse
one, how many it takes before that and the reason it gives. -/
structure Target where
  taken : List Text
  fault : Option (Nat × Text)
  deriving DecidableEq, Repr, Inhabited

namespace Target

/-- A target that takes everything. -/
def fresh : Target := ⟨[], none⟩

/-- The text a target has taken. -/
def text (t : Target) : Text := t.taken.flatten

/-- Give a target a piece of text.  A target that refuses a piece takes the next
again. -/
def take (piece : Text) : Attempt Target Unit := do
  let t ← Attempt.state
  match t.fault with
  | some (0, reason) => do
      Attempt.change fun t => { t with fault := none }
      Attempt.fail (.refused reason)
  | some (n + 1, reason) =>
      Attempt.change fun t => { taken := t.taken ++ [piece], fault := some (n, reason) }
  | none => Attempt.change fun t => { t with taken := t.taken ++ [piece] }

end Target

/-! ## Sinks -/

/-- A sink on a target: the number of deferred blank lines, and the pieces held
behind the navigation, if its place is reserved. -/
structure Sink where
  deferred : Nat
  held : Option (List Text)
  target : Target
  deriving DecidableEq, Repr, Inhabited

namespace Sink

/-- A sink on a target, holding nothing. -/
def on (target : Target) : Sink := ⟨0, none, target⟩

/-- Act on the target of a sink. -/
def onTarget {α : Type} (m : Attempt Target α) : Attempt Sink α :=
  m.within Sink.target fun target s => { s with target }

/-- Pass a piece of text on: to the held pieces if there are such, else to the
target.  Empty text is not passed on. -/
def write (piece : Text) : Attempt Sink Unit := do
  if piece.isEmpty then pure ()
  else
    match (← Attempt.state).held with
    | some pieces => Attempt.change fun s => { s with held := some (pieces ++ [piece]) }
    | none => onTarget (Target.take piece)

/-- Write the deferred blank lines. -/
def flush : Attempt Sink Unit := do
  write (List.replicate (← Attempt.state).deferred newline)
  Attempt.change fun s => { s with deferred := 0 }

/-- What follows a closing bracket line at the front of a chunk: the bracket, white
space, and the last line feed in that white space. -/
def afterClosingLine? : Text → Option Text
  | u :: rest =>
      let (gap, after) := spanBlank rest
      if u = closeBracket ∧ newline ∈ gap then
        some ((gap.reverse.takeWhile (· != newline)).reverse ++ after)
      else none
  | [] => none

/-- A chunk without the blank lines at its end, and their number.  The line feed
that ends its last line stays. -/
def splitBlankLines (chunk : Text) : Text × Nat :=
  let feeds := (chunk.reverse.takeWhile (· == newline)).length
  (chunk.take (chunk.length - (feeds - 1)), feeds - 1)

/-- Write a chunk of output.  If blank lines are deferred they come first, unless
the chunk starts with a closing bracket line, which then goes before them.  The
blank lines at the end of the chunk are deferred in their turn. -/
def output (chunk : Text) : Attempt Sink Unit := do
  let chunk ←
    if (← Attempt.state).deferred = 0 then pure chunk
    else do
      let rest ← match afterClosingLine? chunk with
        | some rest => do
            write [closeBracket, newline]
            pure rest
        | none => pure chunk
      flush
      pure rest
  let (body, blankLines) := splitBlankLines chunk
  Attempt.change fun s => { s with deferred := blankLines }
  write body

/-- Reserve the place for the navigation here; everything after it is held.  Only
the first reservation counts. -/
def reserve : Attempt Sink Unit := do
  match (← Attempt.state).held with
  | some _ => pure ()
  | none => do
      flush
      Attempt.change fun s => { s with held := some [] }

/-- Write the navigation into its place, if one was reserved, then everything held
behind it and the blank lines still deferred. -/
def finish (navigation : Text) : Attempt Sink Unit := do
  let held := (← Attempt.state).held
  Attempt.change fun s => { s with held := none }
  match held with
  | some pieces => do
      write navigation
      Attempt.forEach write pieces
  | none => pure ()
  flush

end Sink

end PodLoom.Thread
