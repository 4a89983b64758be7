import PodLoom.Settings
import PodLoom.Thread.Writer

set_option autoImplicit false

/-!
# Command lines

A command line is read in two steps.  Its arguments are first cut into tokens, each a
positional argument or a flag with its value; only here does it matter what stands
next to what, since a flag may take the argument after it for its value.  The tokens
are then sorted into a command, its arguments and its flags, and from there on the
order of flags among arguments is forgotten.
-/

namespace PodLoom

open Text CodeUnit

/-- What a run is asked to do. -/
inductive Command where
  /-- Convert one source. -/
  | convert
  /-- Convert every source below a directory. -/
  | batch
  /-- Show the help text. -/
  | help
  deriving DecidableEq, Repr, Inhabited

namespace Command

/-- The name of a command. -/
def name : Command → Text
  | convert => "convert"
  | batch => "batch"
  | help => "help"

/-- The command with a name. -/
def ofName? (t : Text) : Option Command := [convert, batch, help].find? (·.name == t)

theorem ofName?_name (c : Command) : ofName? c.name = some c := by
  cases c <;> decide

end Command

/-! ## Endpoints -/

/-- Where a conversion reads or writes: a standard stream or a file. -/
inductive Endpoint where
  | standard
  | path (path : Text)
  deriving DecidableEq, Repr, Inhabited

/-- The argument that stands for a standard stream. -/
def Endpoint.dash : Text := "-"

/-- What an argument stands for; a missing one stands for a standard stream. -/
def Endpoint.ofArgument? : Option Text → Endpoint
  | none => .standard
  | some arg => if arg = dash then .standard else .path arg

/-- The name of a source in diagnostics. -/
def Endpoint.sourceName : Endpoint → Text
  | .standard => "<standard input>"
  | .path file => file

namespace CommandLine

/-! ## Tokens -/

/-- A part of a command line. -/
inductive Token where
  | argument (text : Text)
  /-- A flag by its long name; a flag that takes no value, or that nothing follows,
  has none. -/
  | flag (name : Text) (value : Option Text)
  deriving DecidableEq, Repr, Inhabited

/-- The mark of a flag. -/
def hyphen : CodeUnit := ofChar '-'

/-- Whether an argument is a flag.  A lone hyphen is not: it stands for a standard
stream. -/
def isFlag (arg : Text) : Bool := arg.head? == some hyphen && arg != [hyphen]

/-- The flags that take a value. -/
def valueFlags : List Text := ["style", "title", "id", "output", "log-level"]

/-- The short names of flags. -/
def shortNames : List (Text × Text) :=
  [("c", "contents"), ("n", "navbar"), ("s", "style"), ("t", "title"), ("o", "output"),
    ("h", "help")]

/-- How a function that is built in is shown. -/
def builtInText (name : Text) : Text :=
  ofString "function " ++ name ++ ofString "() \x7b [native code] \x7d"

/-- Names that every table of names has besides its own, with what they stand for there. -/
def builtInNames : List (Text × Text) :=
  ("constructor", builtInText "Object") :: ("__proto__", "[object Object]")
    :: ["__defineGetter__", "__defineSetter__", "__lookupGetter__", "__lookupSetter__",
      "hasOwnProperty", "isPrototypeOf", "propertyIsEnumerable", "toLocaleString", "toString",
      "valueOf"].map fun name => (ofString name, builtInText (ofString name))

/-- The long name of a flag; a name that is no short one, and none that is built in, stands for
itself. -/
def longName (written : Text) : Text :=
  (Keyed.find? written (shortNames ++ builtInNames)).getD written

/-- Whether a flag takes a value. -/
def takesValue (name : Text) : Bool := valueFlags.contains name

/-- What a flag says by itself: its name as written, and, after two hyphens only, the
value that follows an equals sign. -/
def cutFlag (arg : Text) : Text × Option Text :=
  match afterFront? [hyphen, hyphen] arg with
  | some body =>
      let name := body.takeWhile (· != equals)
      (name, if name.length < body.length then some (body.drop (name.length + 1)) else none)
  | none => (arg.drop 1, none)

/-- The long name of a flag argument. -/
def flagName (arg : Text) : Text := longName (cutFlag arg).1

/-- Whether the argument after this one is its value. -/
def awaitsValue (arg : Text) : Bool :=
  isFlag arg && takesValue (flagName arg) && (cutFlag arg).2.isNone

/-- The token of an argument that takes nothing from those after it.  A value
attached to a flag that takes none is dropped. -/
def Token.alone (arg : Text) : Token :=
  if isFlag arg then
    .flag (flagName arg) (if takesValue (flagName arg) then (cutFlag arg).2 else none)
  else .argument arg

/-- The tokens of a command line. -/
def tokens : List Text → List Token
  | [] => []
  | [arg] => [.alone arg]
  | arg :: next :: rest =>
      if awaitsValue arg then .flag (flagName arg) (some next) :: tokens rest
      else .alone arg :: tokens (next :: rest)

/-- The text of a positional argument. -/
def Token.argument? : Token → Option Text
  | .argument text => some text
  | .flag .. => none

/-- The name and the value of a flag. -/
def Token.flag? : Token → Option (Text × Option Text)
  | .argument _ => none
  | .flag name value => some (name, value)

end CommandLine

/-! ## Command lines -/

/-- A command line: the command, its arguments, and the flags with the value each was
given last. -/
structure CommandLine where
  command : Command
  arguments : List Text
  flags : List (Text × Option Text)
  deriving DecidableEq, Repr, Inhabited

namespace CommandLine

/-- The command line that tokens make up.  The first argument names the command;
without a name, the command is to convert. -/
def ofTokens (ts : List Token) : CommandLine :=
  let arguments := ts.filterMap Token.argument?
  let flags := Keyed.dedup (ts.filterMap Token.flag?)
  match arguments with
  | [] => ⟨.convert, [], flags⟩
  | first :: rest =>
      match Command.ofName? first with
      | some command => ⟨command, rest, flags⟩
      | none => ⟨.convert, arguments, flags⟩

/-- Read a command line. -/
def read (args : List Text) : CommandLine := ofTokens (tokens args)

/-- Whether a flag is given. -/
def has (c : CommandLine) (flag : Text) : Bool := (Keyed.find? flag c.flags).isSome

/-- The value that a flag is given. -/
def value? (c : CommandLine) (flag : Text) : Option Text := (Keyed.find? flag c.flags).join

/-- What a page should have: what the flags say, and what the settings say where the
flags are silent.  An empty style sheet is none. -/
def options (c : CommandLine) (settings : Settings) : Thread.Options where
  contents := c.has "contents" || settings.contents
  navbar := c.has "navbar" || settings.navbar
  style :=
    let style := (c.value? "style").getD settings.style
    if style.isEmpty then none else some style
  title := c.value? "title"
  id := c.value? "id"
  anchors := none

/-- The level that entries are logged from: what the flag says, or else the
settings. -/
def logLevel? (c : CommandLine) (settings : Settings) : Option Text :=
  (c.value? "log-level").or settings.logLevel

/-- Whether a run of the command line reads standard input. -/
def readsInput (c : CommandLine) : Bool :=
  c.command == .convert && !c.has "help" && c.arguments.length ≤ 2
    && Endpoint.ofArgument? c.arguments[0]? == .standard

end CommandLine

end PodLoom
