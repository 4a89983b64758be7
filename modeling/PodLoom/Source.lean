import PodLoom.Log
import PodLoom.Text.Lines
import PodLoom.Text.Utf8

set_option autoImplicit false

/-!
# Source bytes

A source names its own encoding in an `=encoding` line, which is looked for before
the bytes are text: every encoding that a line can name in this way writes the line
itself in ASCII.  Without such a line, or with one that names no known encoding, the
source is UTF-8.  The decoders for other encodings are given to the program.
-/

namespace PodLoom

open Text CodeUnit

/-- A string of bytes. -/
abbrev Bytes : Type := List UInt8

/-- The lines of bytes read one unit a byte, split at line feeds and carriage
returns. -/
def rawLines (bytes : Bytes) : List Text :=
  lines (bytes.map fun b => if b = 13 then newline else b.toUInt16)

/-- The label in an `=encoding` line: the word after the command, which spaces or
tabs come before. -/
def encodingLabel? (line : Text) : Option Text := do
  let after ← afterFront? "=encoding" line
  let argument := after.dropWhile CodeUnit.isSpaceOrTab
  let label := (spanWord argument).1
  if argument.length < after.length ∧ label ≠ [] then some label else none

/-- The label of the first `=encoding` line. -/
def declaredEncoding? (bytes : Bytes) : Option Text := (rawLines bytes).findSome? encodingLabel?

/-! ## Decoders -/

/-- An ASCII letter in lower case. -/
def Text.lowerLetter (u : CodeUnit) : CodeUnit := if u.isUpper then u + 32 else u

/-- A label is ASCII if it is one of some names, all of them ASCII, but for the case. -/
theorem ascii_of_any_lower {names : List String} {label : Text}
    (hnames : ∀ name ∈ names, (ofString name).all (·.toNat < 0x80) = true)
    (h : (names.any fun name => ofString name == label.map lowerLetter) = true) :
    ∀ u ∈ label, u.toNat < 0x80 := by
  obtain ⟨name, hname, heq⟩ := List.any_eq_true.1 h
  have hlower := hnames name hname
  rw [beq_iff_eq.1 heq] at hlower
  intro u hu
  have hunit : (lowerLetter u).toNat < 0x80 :=
    of_decide_eq_true (List.all_eq_true.1 hlower _ (List.mem_map_of_mem hu))
  unfold lowerLetter at hunit
  split at hunit
  · rename_i hupper
    have hletter : 65 ≤ u.toNat ∧ u.toNat ≤ 90 := by
      simpa [CodeUnit.isUpper, UInt16.le_iff_toNat_le] using hupper
    omega
  · exact hunit

/-- The labels of UTF-8, in lower case. -/
def utf8Labels : List String :=
  ["unicode-1-1-utf-8", "unicode11utf8", "unicode20utf8", "utf-8", "utf8", "x-unicode20utf8"]

/-- Whether a label is one of UTF-8, in any case. -/
def isUtf8Label (label : Text) : Bool :=
  utf8Labels.any fun name => ofString name == label.map lowerLetter

/-- The decoders that a program runs with: for the label of an encoding other than UTF-8, what
reads bytes in that encoding.  Which encodings there are is no matter of the program, but a label
that is known is ASCII, and reading never fails. -/
class Decoders where
  ofLabel? : Text → Option (Bytes → Text)
  ascii : ∀ label decoder, ofLabel? label = some decoder → ∀ u ∈ label, u.toNat < 0x80

section

variable [Decoders]

/-- What reads bytes in the encoding of a label, if the label is known. -/
def decoder? (label : Text) : Option (Bytes → Text) :=
  if isUtf8Label label then some Utf8.read else Decoders.ofLabel? label

/-- The text of a source, and what is to be said about its encoding. -/
def decodeSource (file : Text) (bytes : Bytes) : Text × List Log.Entry :=
  match declaredEncoding? bytes with
  | none => (Utf8.read bytes, [])
  | some label =>
      match decoder? label with
      | some decode => (decode bytes, [])
      | none =>
          (Utf8.read bytes,
            [.plain .warn "Convert"
              (file ++ ofString ": unsupported encoding " ++ label ++ ofString ", reading as UTF-8")
              (some (.object [(ofString "error", .string
                (ofString "The \"" ++ label ++ ofString "\" encoding is not supported"))]))])

end

end PodLoom
