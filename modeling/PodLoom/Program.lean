import PodLoom.Batch

set_option autoImplicit false

/-!
# Runs of the program

A run reads its command line and its settings, does what the command says, and ends
with an exit status.  It is a function from one session to another, so all that a
run does is in the session it leaves.  It takes whatever matcher of globs and whatever
decoders it is given.
-/

namespace PodLoom

open Text

/-- The help text. -/
def helpLines : List Text := [
  "",
  "pod2thread - Convert POD documentation to thread",
  "",
  "USAGE:",
  "    pod2thread [convert] [options] [input [output]]",
  "    pod2thread batch <directory> [options]",
  "",
  "COMMANDS:",
  "    convert                 Convert one file (standard input/output by default)",
  "    batch <directory>       Convert every POD file under a directory",
  "    help                    Show this help message",
  "",
  "EXAMPLES:",
  "    pod2thread lib/Module.pm module.th",
  "    pod2thread --contents --navbar -s page < doc.pod > doc.th",
  "    pod2thread batch docs --output site",
  "",
  "OPTIONS:",
  "    --contents, -c          Add a table of contents",
  "    --navbar, -n            Add a navigation bar",
  "    --style, -s <name>      Style sheet for the page",
  "    --title, -t <title>     Page title (instead of the NAME section)",
  "    --id <id>               Document identifier",
  "    --output, -o <dir>      Output directory for batch",
  "    --log-level <level>     debug, info, warn or error",
  "    --help, -h              Show this help message",
  "",
  "Settings are read from the nearest .pod2thread.json.",
  ""]

namespace Session

/-- A session that begins: nothing is written, and entries are logged from the level
that the environment names. -/
def start (locale : Locale) (files : FileTree) (input : Bytes) (level : Option Text) : Session :=
  let s : Session := ⟨locale, files, input, [], [], Log.defaultThreshold⟩
  s.logFrom (level.getD [])

section

variable [Decoders]

/-- Do what a command line that asks for a conversion says. -/
def runConvert (s : Session) (c : CommandLine) (settings : Settings) : Nat × Session :=
  if c.arguments.length > 2 then
    (1, s.complain "Usage: pod2thread convert [options] [input [output]]")
  else
    let source := Endpoint.ofArgument? c.arguments[0]?
    let destination := Endpoint.ofArgument? c.arguments[1]?
    match s.convertFile source destination none (c.options settings) with
    | (none, s) => (0, s)
    | (some e, s) => (1, s.complain (ofString "Error: " ++ e.message))

variable [GlobMatcher]

/-- Do what a command line that asks for a batch says. -/
def runBatch (s : Session) (c : CommandLine) (settings : Settings) : Nat × Session :=
  let directory := (c.arguments.head?).getD []
  if directory.isEmpty then
    (1, s.complain "Usage: pod2thread batch <directory> [--output DIR] [options]")
  else
    let root := Path.resolve s.locale.cwd directory
    if !(s.files.at? (Path.components root)).any FileTree.isDirectory then
      (1, s.complain (ofString "Not a directory: " ++ root))
    else
      let search : Search := ⟨s.locale, settings.exclude, settings.extensions⟩
      let (found, journal) := search.run s.files root
      let s := s.say journal
      if found.isEmpty then (0, s.print (ofString "No POD files found in " ++ root))
      else
        let batch : Batch :=
          ⟨root, c.value? "output", settings.outputExtension, c.options settings⟩
        batch.run s found

/-- Run a command line: the exit status and the session after it. -/
def run (s : Session) (args : List Text) : Nat × Session :=
  let c := CommandLine.read args
  if c.has "help" || c.command == .help then (0, s.print (unlines helpLines))
  else
    let (settings, journal) := Settings.load s.files s.locale.cwd s.locale.cwd
    let s := s.say journal
    let s := match c.logLevel? settings with
      | some level => s.logFrom level
      | none => s
    match c.command with
    | .batch => s.runBatch c settings
    | _ => s.runConvert c settings

end

end Session

end PodLoom
