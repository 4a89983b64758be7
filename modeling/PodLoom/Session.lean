import PodLoom.CommandLine
import PodLoom.Discovery
import PodLoom.Manuscript

set_option autoImplicit false

/-!
# Sessions: runs under way

A session is what a run works on: the place it runs at, the files, the standard
input, and what it has written so far.  Each thing a run does is a function from one
session to the next, and the order of what is written on one stream is the order in
which it was said.
-/

namespace PodLoom

open Text CodeUnit
open PodLoom.Thread (Options Target)

/-- A run under way. -/
structure Session where
  locale : Locale
  files : FileTree
  /-- What there is to read on standard input. -/
  input : Bytes
  /-- What was written on standard output. -/
  output : Bytes
  /-- The lines written on standard error. -/
  errors : List Text
  /-- The least rank of the entries that are logged. -/
  threshold : Log.Threshold
  deriving Repr, Inhabited

namespace Session

/-! ## Saying and writing -/

/-- Write a line on standard error. -/
def complain (s : Session) (line : Text) : Session := { s with errors := s.errors ++ [line] }

/-- Log entries. -/
def say (s : Session) (entries : List Log.Entry) : Session :=
  { s with errors := s.errors ++ Log.lines s.threshold entries }

/-- Write bytes on standard output. -/
def write (s : Session) (bytes : Bytes) : Session := { s with output := s.output ++ bytes }

/-- Write a line on standard output. -/
def print (s : Session) (line : Text) : Session := s.write (Utf8.encode (line ++ [newline]))

/-- Log from a level on, given by its name.  A name of no level changes nothing. -/
def logFrom (s : Session) (level : Text) : Session :=
  match Log.Level.parse? level with
  | some level => { s with threshold := level.threshold }
  | none => s

/-! ## Reading and opening -/

/-- The bytes of a source. -/
def readSource (s : Session) : Endpoint → Except Failure Bytes
  | .standard => .ok s.input
  | .path path =>
      match s.files.read s.locale.cwd path with
      | .ok bytes => .ok bytes
      | .error e => .error (.unreadable path e.code)

/-- A destination that is open for writing: standard output, or the file at a
place. -/
inductive Destination where
  | standard
  | file (place : List Text)
  deriving DecidableEq, Repr, Inhabited

/-- Open a destination.  A file that is opened is empty until something is written. -/
def openDestination (s : Session) : Endpoint → Except Failure (Destination × Session)
  | .standard => .ok (.standard, s)
  | .path path =>
      match s.files.openFile s.locale.cwd path with
      | .ok (place, files) => .ok (.file place, { s with files })
      | .error e => .error (.cannotOpen path e.code)

/-- Write bytes to an open destination. -/
def deliver (s : Session) (bytes : Bytes) : Destination → Session
  | .standard => s.write bytes
  | .file place => { s with files := FileTree.put (.file bytes) place s.files }

/-! ## Converting files -/

/-- The bytes of what a target has taken.  Each piece is written by itself, so halves
of a surrogate pair in two pieces do not join. -/
def piecesEncoded (target : Target) : Bytes := target.taken.flatMap Utf8.encode

/-- Convert a source to a destination, under a name for diagnostics other than its
own if there is one.  What was converted before a failure stays written. -/
def convertFile [Decoders] (s : Session) (source destination : Endpoint) (name : Option Text)
    (options : Options) : Option Failure × Session :=
  match s.readSource source with
  | .error e => (some e, s)
  | .ok bytes =>
      let m := Manuscript.ofBytes (name.getD source.sourceName) bytes options
      let s := s.say m.journal
      match s.openDestination destination with
      | .error e => (some e, s)
      | .ok (opened, s) =>
          let c := m.convertInto .fresh
          (c.failure, (s.deliver (piecesEncoded c.target) opened).say c.journal)

end Session

end PodLoom
