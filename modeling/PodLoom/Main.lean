import PodLoom.Run

set_option autoImplicit false

/-!
# The program

The program takes those files from the disk that its command line can touch, runs the
command line on them, and puts back what changed.  Nothing is decided here.
-/

namespace PodLoom.Disk

open Text

/-- The path of a place on the disk. -/
def pathOf (place : List Text) : String := (Path.ofComponents place).toString

/-- The bytes of a file, if there is a file that can be read. -/
def readBytes? (path : String) : IO (Option Bytes) := do
  try
    return some (← IO.FS.readBinFile path).toList
  catch _ => return none

/-- The names in a directory, if there is a directory that can be listed. -/
def listNames? (path : String) : IO (Option (List Text)) := do
  try
    let entries ← (← IO.FS.realPath path).readDir
    return some (entries.toList.map fun entry => ofString entry.fileName)
  catch _ => return none

/-- A tree with what stands at a place on the disk; of a directory, the directory
alone. -/
def addEntry (tree : FileTree) (place : List Text) : IO FileTree := do
  if (tree.at? place).isSome then return tree
  let path := pathOf place
  if (← listNames? path).isSome then return FileTree.put .empty place tree
  match ← readBytes? path with
  | some bytes => return FileTree.put (.file bytes) place tree
  | none => return tree

/-- A tree with what stands on the disk along a path. -/
def addAlong (cwd path : Text) (tree : FileTree) : IO FileTree := do
  let written :=
    if Path.isAbsolute path then Path.components path
    else Path.components cwd ++ Path.components path
  let places := (List.range (written.length + 1)).map fun n =>
    Path.normalComponents true (written.take n)
  places.foldlM addEntry tree

/-- A tree with all that stands on the disk below a place. -/
partial def addBelow (tree : FileTree) (place : List Text) : IO FileTree := do
  let tree ← addEntry tree place
  match ← listNames? (pathOf place) with
  | none => return tree
  | some names => names.foldlM (fun tree name => addBelow tree (place ++ [name])) tree

/-- The part of the disk that a command line can touch. -/
def load (cwd : Text) (c : CommandLine) : IO FileTree := do
  let candidates := (Settings.upwards (Path.components cwd).reverse).map fun names =>
    Path.ofComponents (names.reverse ++ [Settings.fileName])
  let named := c.arguments ++ (c.value? "output").toList
  let tree ← (candidates ++ named).foldlM (fun tree path => addAlong cwd path tree) .empty
  match c.command with
  | .batch => (c.arguments.take 1 ++ (c.value? "output").toList).foldlM (fun tree path =>
      addBelow tree (Path.resolveComponents cwd path)) tree
  | _ => return tree

mutual

/-- Put a tree on the disk at a place, where `old` stood before. -/
def store (place : List Text) (old : Option FileTree) : FileTree → IO Unit
  | .file bytes =>
      let unchanged := match old with
        | some (.file before) => before == bytes
        | _ => false
      if unchanged then pure () else IO.FS.writeBinFile (pathOf place) ⟨bytes.toArray⟩
  | .directory entries => do
      if !old.any FileTree.isDirectory then IO.FS.createDirAll (pathOf place)
      storeEntries place (old.getD .empty) entries

/-- Put the entries of a directory on the disk, where those of `old` stood before. -/
def storeEntries (place : List Text) (old : FileTree) : List (Text × FileTree) → IO Unit
  | [] => pure ()
  | (name, tree) :: rest => do
      store (place ++ [name]) (old.entry? name) tree
      storeEntries place old rest

end

/-- Run a command line on the disk. -/
def run (args : List Text) : IO UInt32 := do
  let c := CommandLine.read args
  let cwd := ofString (← IO.currentDir).toString
  let home := ofString ((← IO.getEnv "HOME").getD "/")
  let level := (← IO.getEnv "POD2THREAD_LOG_LEVEL").map ofString
  let files ← load cwd c
  let input ← if c.readsInput then (← IO.getStdin).readBinToEnd else pure .empty
  let (status, after) := (Session.start ⟨cwd, home⟩ files input.toList level).run args
  store [] (some files) after.files
  for line in after.errors do
    IO.eprintln line.toString
  (← IO.getStdout).write ⟨after.output.toArray⟩
  return status.toUInt32

end PodLoom.Disk

/-- The program. -/
def main (args : List String) : IO UInt32 := PodLoom.Disk.run (args.map PodLoom.Text.ofString)
