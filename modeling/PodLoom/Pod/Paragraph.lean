import PodLoom.Text.Lines

set_option autoImplicit false

/-!
# Paragraphs: the units of a source

A source is text that holds POD in places.  POD starts at any line that begins with
`=` and a letter, and stops at a `=cut` command.  Inside it, blank lines separate
paragraphs, and a line that begins with `=` and a letter starts a command
paragraph wherever it stands.  Other lines continue the paragraph that is open,
except that an unindented line after an item's label starts the item's body.

`Paragraph.split` cuts a source; verbatim paragraphs with nothing but blank lines
between them are one paragraph.
-/

namespace PodLoom.Pod

open Text CodeUnit

/-- What a paragraph is: a command with its name, indented text, or text. -/
inductive ParagraphKind where
  | command (name : Text)
  | verbatim
  | ordinary
  deriving DecidableEq, Repr, Inhabited

/-- A paragraph before it is interpreted, with the number of its first line.  The
first line of a command is the text after the command name. -/
structure Paragraph where
  kind : ParagraphKind
  line : Nat
  lines : List Text
  deriving DecidableEq, Repr, Inhabited

/-! ## Lines -/

/-- Whether a line begins with `=` and a letter. -/
def startsCommand : Text → Bool
  | mark :: letter :: _ => mark == equals && letter.isLetter
  | _ => false

/-- Whether a line begins with a space or a tab. -/
def isIndented (line : Text) : Bool := line.head?.any CodeUnit.isSpaceOrTab

/-- The name and the argument of a command line, white space at its end left out.
The name is a letter and word characters, then the line ends or white space
follows; the argument may not hold a line separator. -/
def commandLine? (line : Text) : Option (Text × Text) :=
  match line.trimEnd with
  | mark :: letter :: rest =>
      let after := rest.dropWhile CodeUnit.isWord
      let argument := trimStart after
      if mark == equals && letter.isLetter && after.head?.all CodeUnit.isBlank
          && !argument.any CodeUnit.isLineEnd then
        some (letter :: rest.takeWhile CodeUnit.isWord, argument)
      else none
  | _ => none

/-! ## Cutting a source -/

/-- Read lines on from line `number`.  `inPod` says whether they are POD, and
`opened` what paragraph is open, if one is.  The result is the lines that continue
the open paragraph and the paragraphs after it.  Outside POD nothing is read, and
nothing closes either: a line that starts POD again without being a command
continues the paragraph that was open. -/
def readLines (inPod : Bool) (opened : Option ParagraphKind) (number : Nat) :
    List Text → List Text × List Paragraph
  | [] => ([], [])
  | line :: rest =>
      if !inPod && !startsCommand line then readLines false opened (number + 1) rest
      else if line.isBlank then readLines true none (number + 1) rest
      else
        match commandLine? line with
        | some (name, argument) =>
            let kind := ParagraphKind.command name
            let (more, after) := readLines (name != ofString "cut") (some kind) (number + 1) rest
            ([], ⟨kind, number, argument :: more⟩ :: after)
        | none =>
            let isBody := opened == some (.command (ofString "item")) && !isIndented line
            match if isBody then none else opened with
            | some kind =>
                let (more, after) := readLines true (some kind) (number + 1) rest
                (line :: more, after)
            | none =>
                let kind := if isIndented line then ParagraphKind.verbatim else .ordinary
                let (more, after) := readLines true (some kind) (number + 1) rest
                ([], ⟨kind, number, line :: more⟩ :: after)

/-- Put a paragraph before others.  Two verbatim paragraphs in a row become one,
with the blank lines between them. -/
def consParagraph (p : Paragraph) (ps : List Paragraph) : List Paragraph :=
  match ps with
  | [] => [p]
  | q :: rest =>
      if p.kind = .verbatim ∧ q.kind = .verbatim then
        let gap := q.line - (p.line + p.lines.length)
        { p with lines := p.lines ++ List.replicate gap [] ++ q.lines } :: rest
      else p :: ps

/-- Cut a source into its paragraphs. -/
def Paragraph.split (source : Text) : List Paragraph :=
  (readLines false none 1 source.normalizeEndings.lines).2.foldr consParagraph []

/-! ## The text of a paragraph -/

/-- The lines of a paragraph as one text. -/
def Paragraph.text (p : Paragraph) : Text := unlines p.lines

/-- The lines of a paragraph, trimmed and joined by single spaces. -/
def Paragraph.joined (p : Paragraph) : Text :=
  join [space] ((p.lines.map Text.trim).filter (!·.isEmpty))

/-- The command name of a paragraph, nothing for text. -/
def Paragraph.command (p : Paragraph) : Text :=
  match p.kind with
  | .command name => name
  | _ => []

end PodLoom.Pod
