import PodLoom.Conversion
import PodLoom.Source

set_option autoImplicit false

/-!
# Manuscripts: sources ready to be converted

A source comes as bytes.  Decoding them and resolving the anchors of the sections
makes a manuscript, which needs nothing but a target to be converted.  All that can
be said against the source itself is said before its target is touched.
-/

namespace PodLoom

open Text
open PodLoom.Thread (Options Target)

/-- A source that is decoded, with the options to convert it with and what was said
on the way. -/
structure Manuscript where
  /-- The name of the source in diagnostics. -/
  file : Text
  text : Text
  options : Options
  journal : List Log.Entry
  deriving Repr, Inhabited

namespace Manuscript

/-- The manuscript of a source. -/
def ofBytes [Decoders] (file : Text) (bytes : Bytes) (options : Options) : Manuscript :=
  let (text, decoding) := decodeSource file bytes
  let (anchors, scanning) := resolveAnchors file text options
  ⟨file, text, { options with anchors }, decoding ++ scanning⟩

/-- What is said when a conversion has succeeded. -/
def convertedEntry (file : Text) (diagnostics : Nat) : Log.Entry :=
  .plain .debug "Convert" "Converted" (some (.object
    [(ofString "file", .string file), (ofString "diagnostics", .ofNat diagnostics)]))

/-- Convert a manuscript into a target. -/
def convertInto (m : Manuscript) (target : Target) : Conversion :=
  let c := PodLoom.convertInto target m.file m.text m.options
  let success := if c.failure.isNone then [convertedEntry m.file c.diagnostics.length] else []
  { c with journal := c.journal ++ success }

end Manuscript

end PodLoom
