import PodLoom.Settings

set_option autoImplicit false

/-!
# Discovery: the POD files under a directory

A batch takes the files below a directory whose extension is wanted.  It passes over
what an exclude pattern names, with everything below it, and over directories whose
names start with a dot.  The files come in the order of their paths.

What a glob stands for is not decided here: the matcher of globs is given to the program.
-/

namespace PodLoom

open Text CodeUnit

/-- The matcher of globs that a program runs with: whether a glob stands for a path.  A search
relies on nothing but its answers. -/
class GlobMatcher where
  isMatch (glob path : Text) : Bool

/-- Where paths and patterns are read: the working directory and the home directory
of a run. -/
structure Locale where
  cwd : Text
  home : Text
  deriving DecidableEq, Repr, Inhabited

namespace Locale

/-- What a replacement stands for where it is put for a `~` with `rest` behind it.  A `$` before
some units is no text: `$$` stands for `$`, `$&` for what is replaced, and a quote behind the `$`
for what comes before or behind that. -/
def replacement (rest : Text) : Text → Text
  | 36 :: u :: more =>
      if u = ofChar '$' then u :: replacement rest more
      else if u = ofChar '&' then ofChar '~' :: replacement rest more
      else if u = 96 then replacement rest more
      else if u = 39 then rest ++ replacement rest more
      else 36 :: replacement rest (u :: more)
  | u :: more => u :: replacement rest more
  | [] => []

/-- A path with a leading `~` replaced by the home directory. -/
def expand (l : Locale) (path : Text) : Text :=
  match path with
  | u :: rest => if u = ofChar '~' then replacement rest l.home ++ rest else path
  | [] => []

section

variable [GlobMatcher]

/-- Whether a pattern excludes a path.  A pattern with a `*` is a glob; any other is
a path, which excludes itself and all below it. -/
def patternExcludes (l : Locale) (path pattern : Text) : Bool :=
  let expanded := l.expand pattern
  if pattern.contains (ofChar '*') then GlobMatcher.isMatch expanded path
  else
    let resolved := Path.resolve l.cwd expanded
    path == resolved || startsWith path (resolved ++ [slash])

/-- Whether any pattern excludes a path. -/
def excludes (l : Locale) (patterns : List Text) (path : Text) : Bool :=
  patterns.any (l.patternExcludes path)

end

end Locale

/-- What a search is for. -/
structure Search where
  locale : Locale
  exclude : List Text
  extensions : List Text
  deriving DecidableEq, Repr, Inhabited

namespace Search

/-- Whether a file name has a wanted extension. -/
def wants (s : Search) (name : Text) : Bool := s.extensions.contains (Path.extension name)

section

variable [GlobMatcher]

mutual

/-- The paths found in a file or a directory that is called `name` and stands at
`place`. -/
def entryPaths (s : Search) (place : List Text) (name : Text) : FileTree → List Text
  | .file _ =>
      let path := Path.ofComponents (place ++ [name])
      if !s.locale.excludes s.exclude path && s.wants name then [path] else []
  | .directory entries =>
      let path := Path.ofComponents (place ++ [name])
      if s.locale.excludes s.exclude path || Path.isHidden name then []
      else directoryPaths s (place ++ [name]) entries

/-- The paths found in the entries of a directory at `place`. -/
def directoryPaths (s : Search) (place : List Text) : List (Text × FileTree) → List Text
  | [] => []
  | (name, tree) :: rest => entryPaths s place name tree ++ directoryPaths s place rest

end

/-- The paths found below a directory, in order, and what is to be said if it cannot
be listed. -/
def run (s : Search) (tree : FileTree) (dir : Text) : List Text × List Log.Entry :=
  let place := Path.resolveComponents s.locale.cwd dir
  let skipped (e : FileError) : List Text × List Log.Entry :=
    ([], [Settings.entry .debug "Skipping unreadable directory" (some (.object
      [(ofString "dir", .string (Path.ofComponents place)), (ofString "error", .string e.code)]))])
  match tree.follow [] place with
  | .error e => skipped e
  | .ok _ =>
      match tree.at? place with
      | none => skipped .notFound
      | some (.file _) => skipped .notDirectory
      | some (.directory entries) => (Text.sort (directoryPaths s place entries), [])

end

end Search

end PodLoom
