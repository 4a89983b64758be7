import PodLoom.Session

set_option autoImplicit false

/-!
# Batches: every source below a directory

A batch converts the files that a search finds, one after the other in the order of
their paths.  A file that fails is reported and counted, and the batch goes on with
the next.
-/

namespace PodLoom

open Text

/-- What is the same for all files of a batch. -/
structure Batch where
  /-- The absolute path of the directory that is converted. -/
  root : Text
  /-- Where the output goes; beside the sources if nowhere else. -/
  outputDirectory : Option Text
  outputExtension : Text
  options : Thread.Options
  deriving DecidableEq, Repr, Inhabited

namespace Batch

/-- Where the output of a file goes: beside it, or to the same place below the output
directory, with the extension of output. -/
def outputPath (b : Batch) (cwd file : Text) : Text :=
  let parsed := Path.parse file
  let renamed := Path.join parsed.directory (parsed.name ++ b.outputExtension)
  let directory := b.outputDirectory.getD []
  if directory.isEmpty then renamed
  else Path.join (Path.resolve cwd directory) (Path.relative cwd b.root renamed)

/-- The name of a file in what a batch reports. -/
def reportName (b : Batch) (cwd file : Text) : Text := Path.relative cwd b.root file

/-- Make the directory for an output file. -/
def prepare (s : Session) (target : Text) : Except Failure Session :=
  match s.files.makeDirectories (Path.parent target) with
  | .ok files => .ok { s with files }
  | .error e => .error (.noDirectory e.code)

/-- Convert a file of a batch: the failure, if it failed, and the session after it. -/
def convertOne [Decoders] (b : Batch) (s : Session) (file : Text) : Option Failure × Session :=
  let cwd := s.locale.cwd
  let target := b.outputPath cwd file
  match prepare s target with
  | .error e => (some e, s)
  | .ok s => s.convertFile (.path file) (.path target) (some (b.reportName cwd file)) b.options

/-- What is said of a file that failed. -/
def failedEntry (name : Text) (e : Failure) : Log.Entry :=
  ⟨.error, "CLI", ofString "Failed to convert " ++ name ++ ofString ": " ++ e.message, none, true⟩

/-- Report on a file of a batch. -/
def report (b : Batch) (s : Session) (file : Text) : Option Failure → Session
  | none =>
      s.print (b.reportName s.locale.cwd file ++ ofString " -> " ++ b.outputPath s.locale.cwd file)
  | some e => s.say [failedEntry (b.reportName s.locale.cwd file) e]

/-- Convert files one by one and report on each: how many failed, and the session
after them. -/
def convertAll [Decoders] (b : Batch) : Session → List Text → Nat × Session
  | s, [] => (0, s)
  | s, file :: rest =>
      let (failure, s) := b.convertOne s file
      let (failures, s) := b.convertAll (b.report s file failure) rest
      ((if failure.isSome then 1 else 0) + failures, s)

/-- Convert files and sum up: the exit status and the session. -/
def run [Decoders] (b : Batch) (s : Session) (files : List Text) : Nat × Session :=
  let (failures, s) := b.convertAll s files
  (if failures > 0 then 1 else 0,
    s.print (ofString "Converted " ++ ofNat (files.length - failures) ++ ofString " of "
      ++ ofNat files.length ++ ofString " files"))

end Batch

end PodLoom
