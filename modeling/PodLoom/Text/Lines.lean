import PodLoom.Text.Basic

set_option autoImplicit false

/-!
# Lines: endings, tab stops and the ends of lines

Source text may end its lines with LF, CR or CRLF; `normalizeEndings` makes LF
the only one.  Tabs stand for spaces up to the next tab stop (`expandTabs`), and
the spaces and tabs that end a line mean nothing (`stripLineEnds`).  Each of the
three is one pass over the units, so what it does to a line does not depend on
the lines around it.
-/

namespace PodLoom.Text

open CodeUnit

/-- Every CRLF pair and every lone carriage return becomes a line feed. -/
def normalizeEndings : Text → Text
  | [] => []
  | u :: rest =>
      if u = carriageReturn then
        if rest.head? = some newline then normalizeEndings rest
        else newline :: normalizeEndings rest
      else u :: normalizeEndings rest

/-- The lines of a text, split at line feeds; a text without one is a single
line. -/
def lines (t : Text) : List Text := splitOn newline t

/-- Lines joined by line feeds. -/
def unlines (ls : List Text) : Text := join [newline] ls

/-! ## Tab stops -/

/-- Columns between tab stops in source text. -/
def tabWidth : Nat := 8

/-- Expand tabs in a text that starts at column `column`.  A tab becomes as many
spaces as lead to the next multiple of `width`; columns restart at each line
feed. -/
def expandTabsFrom (width : Nat) : Nat → Text → Text
  | _, [] => []
  | column, u :: rest =>
      if u = tab then
        let gap := width - column % width
        List.replicate gap space ++ expandTabsFrom width (column + gap) rest
      else if u = newline then u :: expandTabsFrom width 0 rest
      else u :: expandTabsFrom width (column + 1) rest

/-- Expand tabs to spaces, with a tab stop every `width` columns. -/
def expandTabsTo (width : Nat) (t : Text) : Text := expandTabsFrom width 0 t

/-- Expand the tabs of source text. -/
def expandTabs (t : Text) : Text := t.expandTabsTo tabWidth

/-! ## The ends of lines -/

/-- Whether nothing is left of the current line. -/
def atLineEnd (t : Text) : Bool := t.head?.all CodeUnit.isLineEnd

/-- Put a unit before a text whose line ends are stripped: a space or a tab that
would end its line is dropped. -/
def consUnlessTrailing (u : CodeUnit) (t : Text) : Text :=
  if u.isSpaceOrTab && atLineEnd t then t else u :: t

/-- The text without the spaces and tabs at the end of each line, where any line
end counts. -/
def stripLineEnds (t : Text) : Text := t.foldr consUnlessTrailing []

/-- The number of line feeds in a text. -/
def countLines (t : Text) : Nat := t.count newline

end PodLoom.Text
