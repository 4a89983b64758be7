import PodLoom.Json.Printer
import PodLoom.Text.Case

set_option autoImplicit false

/-!
# Log lines

What a run has to say beside its output is a list of log entries, each with a level
and the name of the part that speaks.  Entries are data: a run collects them all,
and `Log.lines` writes those that the configured level lets through, one line each.
Errors are always let through; at the lowest level an error is followed by a line
for its stack.
-/

namespace PodLoom.Log

open Text CodeUnit

/-- Log levels in order of severity. -/
inductive Level where
  | debug
  | info
  | warn
  | error
  deriving DecidableEq, Repr, Inhabited

/-- The number of a level. -/
def Level.rank : Level → Nat
  | .debug => 0
  | .info => 1
  | .warn => 2
  | .error => 3

/-- The name of a level on a log line, as wide as the widest. -/
def Level.label : Level → Text
  | .debug => "DEBUG"
  | .info => "INFO "
  | .warn => "WARN "
  | .error => "ERROR"

/-- The level that a name stands for, in any case and with white space around
it. -/
def Level.parse? (name : Text) : Option Level :=
  let name := name.trim.lower
  if name = ofString "debug" then some .debug
  else if name = ofString "info" then some .info
  else if name = ofString "warn" ∨ name = ofString "warning" then some .warn
  else if name = ofString "error" then some .error
  -- Every table of names has these two besides its own.  They stand for no level there, and
  -- what is no level lets through what the highest does.
  else if name = ofString "constructor" ∨ name = ofString "__proto__" then some .error
  else none

/-- The least rank that is written.  It need not be the rank of a level: a number
above all of them lets only errors through. -/
abbrev Threshold : Type := Int

/-- The threshold that a level sets. -/
def Level.threshold (level : Level) : Threshold := level.rank

/-- The threshold in force when nothing is configured. -/
def defaultThreshold : Threshold := Level.info.threshold

/-- A thing said by a part of the program. -/
structure Entry where
  level : Level
  part : Text
  message : Text
  data : Option Json
  /-- The entry carries an error, whose stack can be shown. -/
  hasStack : Bool
  deriving Repr, Inhabited

/-- An entry without a stack. -/
def Entry.plain (level : Level) (part message : Text) (data : Option Json) : Entry :=
  ⟨level, part, message, data, false⟩

/-- Whether an entry of a level is written under a threshold. -/
def Level.isShown (threshold : Threshold) (level : Level) : Bool :=
  level == .error || threshold ≤ level.threshold

/-- The line of an entry. -/
def Entry.line (e : Entry) : Text :=
  let data := match e.data with
    | some value => space :: value.print
    | none => []
  openBracket :: (e.level.label ++ ofString "] [" ++ e.part ++ ofString "] " ++ e.message ++ data)

/-- The line that stands for the stack of an error. -/
def stackLine : Text := "  Stack: <stack>"

/-- The lines written for an entry under a threshold. -/
def Entry.lines (threshold : Threshold) (e : Entry) : List Text :=
  if e.level.isShown threshold then
    e.line :: if e.hasStack && threshold == Level.debug.threshold then [stackLine] else []
  else []

/-- The lines written for entries under a threshold. -/
def lines (threshold : Threshold) (entries : List Entry) : List Text :=
  entries.flatMap (Entry.lines threshold)

end PodLoom.Log
