import PodLoom.File.Path
import PodLoom.Source

set_option autoImplicit false

/-!
# File trees

A file system as a value: a tree of directories and regular files.  What a run does
to its files is a function from one tree to another, so that it can be said which
files a run leaves as they were.

Names are looked up part by part from a working directory, as an operating system
does it: every directory on the way must exist, also one that a later `..` leaves
again.
-/

namespace PodLoom

open Text

/-- A file or a directory. -/
inductive FileTree where
  | file (content : Bytes)
  | directory (entries : List (Text × FileTree))
  deriving Repr, Inhabited

/-- Why the file system refuses something. -/
inductive FileError where
  /-- There is no such file or directory. -/
  | notFound
  /-- A directory stands where a file is wanted. -/
  | isDirectory
  /-- A file stands where a directory is wanted. -/
  | notDirectory
  /-- A file stands where a directory is to be made. -/
  | exists
  deriving DecidableEq, Repr, Inhabited

/-- The code of a file error, which is all that messages say of it. -/
def FileError.code : FileError → Text
  | .notFound => "ENOENT"
  | .isDirectory => "EISDIR"
  | .notDirectory => "ENOTDIR"
  | .exists => "EEXIST"

namespace FileTree

/-- An empty directory. -/
def empty : FileTree := .directory []

/-! ## Looking up and putting in -/

/-- The entries of a directory; a file has none. -/
def entries : FileTree → List (Text × FileTree)
  | .file _ => []
  | .directory entries => entries

/-- The entry of a directory with a name. -/
def entry? (tree : FileTree) (name : Text) : Option FileTree := Keyed.find? name tree.entries

/-- What stands at a place, given by the names that lead to it. -/
def at? (tree : FileTree) : List Text → Option FileTree
  | [] => some tree
  | name :: rest => (tree.entry? name).bind fun t => t.at? rest

/-- Put a file or a directory at a place.  Directories that are missing on the way
are made, and a file on the way gives way to one. -/
def put (new : FileTree) : List Text → FileTree → FileTree
  | [], _ => new
  | name :: rest, tree =>
      .directory (Keyed.put name (put new rest ((tree.entry? name).getD empty)) tree.entries)

/-- Whether this is a directory. -/
def isDirectory : FileTree → Bool
  | .file _ => false
  | .directory _ => true

/-! ## Paths in a tree -/

/-- Follow names from a place that exists, as far as to the place they name; that
one need not exist. -/
def follow (tree : FileTree) (place : List Text) : List Text → Except FileError (List Text)
  | [] => .ok place
  | name :: rest =>
      match tree.at? place with
      | none => .error .notFound
      | some (.file _) => .error .notDirectory
      | some (.directory _) =>
          if name = Path.here then tree.follow place rest
          else if name = Path.above then tree.follow place.dropLast rest
          else tree.follow (place ++ [name]) rest

/-- The place that a path names, seen from a directory. -/
def locate (tree : FileTree) (cwd path : Text) : Except FileError (List Text) :=
  if path.isEmpty then .error .notFound
  else
    tree.follow (if Path.isAbsolute path then [] else Path.components cwd) (Path.components path)

/-- Read the file that a path names. -/
def read (tree : FileTree) (cwd path : Text) : Except FileError Bytes := do
  let place ← tree.locate cwd path
  match tree.at? place with
  | none => .error .notFound
  | some (.directory _) => .error .isDirectory
  | some (.file content) => if Path.endsInSlash path then .error .notDirectory else .ok content

/-- Open the file that a path names for writing: its place, and the tree with the
file in it, empty. -/
def openFile (tree : FileTree) (cwd path : Text) : Except FileError (List Text × FileTree) := do
  let place ← tree.locate cwd path
  match tree.at? place with
  | some (.directory _) => .error .isDirectory
  | some (.file _) =>
      if Path.endsInSlash path then .error .notDirectory
      else .ok (place, put (.file []) place tree)
  | none =>
      if Path.endsInSlash path then .error .isDirectory
      else .ok (place, put (.file []) place tree)

/-- Make the directory at a place, and those that lead to it as far as they are
missing. -/
def makeDirectory (tree : FileTree) (made : List Text) :
    List Text → Except FileError FileTree
  | [] => .ok tree
  | name :: rest =>
      let place := made ++ [name]
      match tree.at? place with
      | some (.directory _) => tree.makeDirectory place rest
      | some (.file _) => .error (if rest.isEmpty then .exists else .notDirectory)
      | none => .ok (put empty (place ++ rest) tree)

/-- Make the directory that an absolute path names. -/
def makeDirectories (tree : FileTree) (path : Text) : Except FileError FileTree :=
  tree.makeDirectory [] (Path.components path)

/-! ## All files -/

mutual

/-- The files in a tree with their places, which start with `place`. -/
def filesFrom (place : List Text) : FileTree → List (List Text × Bytes)
  | .file content => [(place, content)]
  | .directory entries => entryFiles place entries

/-- The files in the entries of a directory at `place`. -/
def entryFiles (place : List Text) : List (Text × FileTree) → List (List Text × Bytes)
  | [] => []
  | (name, tree) :: rest => filesFrom (place ++ [name]) tree ++ entryFiles place rest

end

/-- The files in a tree with their places. -/
def files (tree : FileTree) : List (List Text × Bytes) := filesFrom [] tree

/-- The files of a tree that another does not hold with the same content. -/
def changedSince (new old : FileTree) : List (List Text × Bytes) :=
  new.files.filter fun (place, content) =>
    match old.at? place with
    | some (.file before) => before != content
    | _ => true

end FileTree

end PodLoom
