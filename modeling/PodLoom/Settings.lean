import PodLoom.File.Tree
import PodLoom.Json.Reader

set_option autoImplicit false

/-!
# Settings

The settings file nearest to the working directory, upwards from it, supplies
defaults for the flags and says which files a batch takes.  A setting that is
missing or of the wrong type has its default; a file that cannot be read, or is no
JSON object, supplies nothing but a warning.
-/

namespace PodLoom

open Text

/-- The settings of a run. -/
structure Settings where
  contents : Bool
  navbar : Bool
  style : Text
  /-- The extensions of the files that a batch converts. -/
  extensions : List Text
  /-- The extension of the files that a batch writes. -/
  outputExtension : Text
  /-- Patterns for what a batch passes over. -/
  exclude : List Text
  logLevel : Option Text
  deriving DecidableEq, Repr, Inhabited

namespace Settings

/-- The name of a settings file. -/
def fileName : Text := ".pod2thread.json"

/-- The settings where no file says otherwise. -/
def default : Settings where
  contents := false
  navbar := false
  style := []
  extensions := [".pod", ".pm", ".pl"]
  outputExtension := ".th"
  exclude := ["**/node_modules/**", "**/.git/**", "**/blib/**"]
  logLevel := none

/-! ## Reading values -/

/-- A member that is true or false. -/
def bool? (name : String) (j : Json) : Option Bool :=
  match j.member? (ofString name) with
  | some (.bool value) => some value
  | _ => none

/-- A member that is a string. -/
def text? (name : String) (j : Json) : Option Text :=
  match j.member? (ofString name) with
  | some (.string value) => some value
  | _ => none

/-- The strings of an array, if it holds nothing else. -/
def stringItems? : List Json → Option (List Text)
  | [] => some []
  | .string value :: rest => (stringItems? rest).map (value :: ·)
  | _ :: _ => none

/-- A member that is an array of strings. -/
def texts? (name : String) (j : Json) : Option (List Text) :=
  match j.member? (ofString name) with
  | some (.array items) => stringItems? items
  | _ => none

/-- Settings overlaid with the members of a JSON object. -/
def overlaid (base : Settings) (j : Json) : Settings where
  contents := (bool? "contents" j).getD base.contents
  navbar := (bool? "navbar" j).getD base.navbar
  style := (text? "style" j).getD base.style
  extensions := (texts? "extensions" j).getD base.extensions
  outputExtension := (text? "outputExtension" j).getD base.outputExtension
  exclude := (texts? "exclude" j).getD base.exclude
  logLevel := text? "logLevel" j

/-! ## Finding and reading the file -/

/-- The directories from a place up to the root, given by their names, last first. -/
def upwards : List Text → List (List Text)
  | [] => [[]]
  | name :: rest => (name :: rest) :: upwards rest

/-- The settings file nearest to a directory, upwards from it. -/
def find? (tree : FileTree) (cwd start : Text) : Option Text :=
  let candidates := (upwards (Path.resolveComponents cwd start).reverse).map fun names =>
    names.reverse ++ [fileName]
  (candidates.find? fun place => (tree.at? place).isSome).map Path.ofComponents

/-- An entry of the command line's log. -/
def entry (level : Log.Level) (message : Text) (data : Option Json) : Log.Entry :=
  .plain level "CLI" message data

/-- The reason given for a settings file that is no JSON text. -/
def malformed : Text := "malformed JSON"

/-- Read a settings file as a JSON object, an empty one if it is none. -/
def readFile (tree : FileTree) (path : Text) : Json × List Log.Entry :=
  let failed (reason : Text) : Json × List Log.Entry :=
    (.object [], [entry .warn (ofString "Failed to read " ++ path ++ ofString ": " ++ reason) none])
  match tree.read [] path with
  | .error e => failed e.code
  | .ok bytes =>
      match Json.read? (Utf8.decode bytes) with
      | none => failed malformed
      | some (.object pairs) => (.object pairs, [])
      | some _ =>
          (.object [], [entry .warn
            (ofString "Ignoring " ++ path ++ ofString ": expected a JSON object") none])

/-- The settings for a run in a directory, and what is to be said about them. -/
def load (tree : FileTree) (cwd start : Text) : Settings × List Log.Entry :=
  match find? tree cwd start with
  | none => (default, [])
  | some path =>
      let (object, journal) := readFile tree path
      (default.overlaid object,
        journal ++
          [entry .debug "Loaded settings" (some (.object [(ofString "path", .string path)]))])

end Settings

end PodLoom
