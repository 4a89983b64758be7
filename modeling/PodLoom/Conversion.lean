import PodLoom.Thread.Writer

set_option autoImplicit false

/-!
# Conversion: a source to thread

A conversion reads a source and has a writer receive its events.  Links may point to
sections that come later, so when a page has navigation the source is scanned
first: it is converted once for the anchors alone, and these are supplied to the
conversion proper.

A conversion always ends, and what it leaves is a `Conversion`: the failure, if it
failed, the target, the diagnostics, and the log.
-/

namespace PodLoom

open Text
open PodLoom.Pod (Paragraph)
open PodLoom.Thread (Options Target Writer Diagnostic)

/-- The name of a source that has none. -/
def defaultFileName : Text := "<string>"

/-- What reading a source says before its first event. -/
def parsingEntry (file : Text) (paragraphs : List Paragraph) : Log.Entry :=
  .plain .debug "Parser" "Parsing POD" (some (.object
    [(ofString "file", .string file), (ofString "paragraphs", .ofNat paragraphs.length)]))

/-- Have a writer receive a source. -/
def receiveSource (file source : Text) : Attempt Writer Unit := do
  Attempt.change fun w =>
    { w with journal := w.journal ++ [parsingEntry file (Paragraph.split source)] }
  Writer.receiveAll (Pod.sourceEvents file source)

/-! ## Scanning for anchors -/

/-- The anchors that the sections of a source get, and what scanning it says.
Errors in the source are left to the conversion to report. -/
def scanAnchors (file source : Text) (options : Options) :
    List (Text × Text) × List Log.Entry :=
  let options := { options with contents := true, anchors := none }
  let (result, w) := receiveSource file source (Writer.on .fresh options)
  let found := match result with
    | .error (.syntaxErrors file errata _) =>
        [.plain .debug "Convert" "Section scan found syntax errors" (some (.object
          [(ofString "file", .string file), (ofString "errors", .ofNat errata.length)]))]
    | _ => []
  (w.sections.anchorMap, w.journal ++ found)

/-- The anchors to convert a source with: the supplied ones, or, for a page with
navigation, the scanned ones. -/
def resolveAnchors (file source : Text) (options : Options) :
    Option (List (Text × Text)) × List Log.Entry :=
  if options.anchors.isSome then (options.anchors, [])
  else if options.wantsNavigation then
    let (anchors, journal) := scanAnchors file source options
    (some anchors, journal)
  else (none, [])

/-! ## Converting -/

/-- What a conversion leaves. -/
structure Conversion where
  failure : Option Failure
  target : Target
  diagnostics : List Diagnostic
  journal : List Log.Entry
  deriving Repr, Inhabited

namespace Conversion

/-- The text that was written. -/
def output (c : Conversion) : Text := c.target.text

/-- The log lines of the warnings among diagnostics; errors are told by the
failure. -/
def warningEntries (diagnostics : List Diagnostic) : List Log.Entry :=
  (diagnostics.filter (·.severity == .warning)).map fun d =>
    .plain .warn "Convert"
      (d.file ++ ofString ":" ++ ofInt d.line ++ ofString ": " ++ d.message) none

end Conversion

/-- Convert a source into a target, with anchors resolved and nothing else done
first. -/
def convertInto (target : Target) (file source : Text) (options : Options) : Conversion :=
  let (result, w) := receiveSource file source (Writer.on target options)
  { failure := match result with
      | .ok _ => none
      | .error e => some e
    target := w.target
    diagnostics := w.diagnostics
    journal := w.journal ++ Conversion.warningEntries w.diagnostics }

/-- Convert a source.  If it has errors, the failure holds the output all the
same. -/
def convert (file source : Text) (options : Options) : Conversion :=
  let (anchors, scanned) := resolveAnchors file source options
  let c := convertInto .fresh file source { options with anchors }
  { c with
    failure := c.failure.map fun
      | .syntaxErrors file errata _ => .syntaxErrors file errata c.output
      | e => e
    journal := scanned ++ c.journal }

end PodLoom
