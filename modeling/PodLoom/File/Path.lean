import PodLoom.Text.Basic

set_option autoImplicit false

/-!
# Paths

Paths are text, as people write them; what they mean is in their components.  A path
is normal when it has no empty component, no `.`, and no `..` but at the front of a
relative path.  All operations but `parse` give normal paths, and none of them looks
at any file.
-/

namespace PodLoom.Path

open Text CodeUnit

/-- The component that stands for the directory itself. -/
def here : Text := "."

/-- The component that stands for the directory above. -/
def above : Text := ".."

/-- Whether a path starts at the root. -/
def isAbsolute (path : Text) : Bool := path.head? == some slash

/-- Whether a path ends in a slash. -/
def endsInSlash (path : Text) : Bool := path.getLast? == some slash

/-- Whether a name starts with a dot. -/
def isHidden (name : Text) : Bool := name.head? == some dot

/-- The components of a path, empty ones left out. -/
def components (path : Text) : List Text := (splitOn slash path).filter (!·.isEmpty)

/-- The absolute path with the given components. -/
def ofComponents (parts : List Text) : Text := slash :: join [slash] parts

/-! ## Normal form -/

/-- Add a component to normal ones, last first.  Above the root is the root; above
the start of a relative path stays as it is. -/
def pushComponent (absolute : Bool) (parts : List Text) (part : Text) : List Text :=
  if part = here then parts
  else if part = above then
    match parts with
    | last :: rest => if last = above then above :: parts else rest
    | [] => if absolute then [] else [above]
  else part :: parts

/-- Components with `.` and `..` resolved. -/
def normalComponents (absolute : Bool) (parts : List Text) : List Text :=
  (parts.foldl (pushComponent absolute) []).reverse

/-- A path in normal form.  A slash at its end stays. -/
def normalize (path : Text) : Text :=
  let absolute := isAbsolute path
  let body := join [slash] (normalComponents absolute (components path))
  let tail : Text := if endsInSlash path then [slash] else []
  if absolute then
    if body.isEmpty then [slash] else slash :: (body ++ tail)
  else if body.isEmpty then here ++ tail
  else body ++ tail

/-- A path below another. -/
def join (parent child : Text) : Text :=
  if parent.isEmpty ∧ child.isEmpty then here
  else if parent.isEmpty then normalize child
  else if child.isEmpty then normalize parent
  else normalize (parent ++ slash :: child)

/-- The normal components of a path seen from a directory. -/
def resolveComponents (cwd path : Text) : List Text :=
  normalComponents true
    (if isAbsolute path then components path else components cwd ++ components path)

/-- The absolute path of a path seen from a directory. -/
def resolve (cwd path : Text) : Text := ofComponents (resolveComponents cwd path)

/-! ## Names -/

/-- The name of a file without its extension, and the extension: what starts with
the last dot, unless that dot starts the name, and `..` has none. -/
def splitExtension (name : Text) : Text × Text :=
  let back := (name.reverse.takeWhile (· != dot)).length
  if back < name.length ∧ back + 1 ≠ name.length ∧ name ≠ above then
    (name.take (name.length - (back + 1)), name.drop (name.length - (back + 1)))
  else (name, [])

/-- The extension of a file name. -/
def extension (name : Text) : Text := (splitExtension name).2

/-- A path cut into the directory it names, the file name without its extension, and
the extension. -/
structure Parsed where
  directory : Text
  name : Text
  extension : Text
  deriving DecidableEq, Repr, Inhabited

/-- Cut a path at its last slash; slashes at its end do not count. -/
def parse (path : Text) : Parsed :=
  let trimmed := (path.reverse.dropWhile (· == slash)).reverse
  let base := (trimmed.reverse.takeWhile (· != slash)).reverse
  let before := trimmed.take (trimmed.length - base.length)
  let directory :=
    if before.length ≤ 1 then (if isAbsolute path then [slash] else []) else before.dropLast
  let (name, extension) := splitExtension base
  ⟨directory, name, extension⟩

/-- The directory that an absolute path is in. -/
def parent (path : Text) : Text := ofComponents (components path).dropLast

/-! ## From one path to another -/

/-- What is left of two lists after their common front. -/
def dropCommon : List Text → List Text → List Text × List Text
  | a :: as, b :: bs => if a = b then dropCommon as bs else (a :: as, b :: bs)
  | as, bs => (as, bs)

/-- The path that leads from one path to another, both seen from a directory. -/
def relative (cwd origin target : Text) : Text :=
  let (up, down) := dropCommon (resolveComponents cwd origin) (resolveComponents cwd target)
  Text.join [slash] (up.map (fun _ => above) ++ down)

end PodLoom.Path
