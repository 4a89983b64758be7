import PodLoom.Source

set_option autoImplicit false

/-!
# Other encodings

The encodings besides UTF-8 that the program reads: UTF-16 in either byte order, and the
two single-byte encodings for Western text.  An encoding goes by many labels, in any
case; what is commonly called Latin-1 or ASCII is the wider windows-1252.  A label of any
other encoding is one that the program does not know.

Reading never fails.  A byte order mark of the encoding used is dropped.
-/

namespace PodLoom.Text

/-- A character encoding that is not UTF-8. -/
inductive Encoding where
  | utf16le
  | utf16be
  | windows1252
  | iso8859x15
  deriving DecidableEq, Repr, Inhabited

namespace Encoding

/-- The labels of the encodings, in lower case. -/
def labels : List (Encoding × List String) :=
  [(.utf16le, ["csunicode", "iso-10646-ucs-2", "ucs-2", "unicode", "unicodefeff", "utf-16",
      "utf-16le"]),
    (.utf16be, ["unicodefffe", "utf-16be"]),
    (.windows1252, ["ansi_x3.4-1968", "ascii", "cp1252", "cp819", "csisolatin1", "ibm819",
      "iso-8859-1", "iso-ir-100", "iso8859-1", "iso88591", "iso_8859-1", "iso_8859-1:1987", "l1",
      "latin1", "us-ascii", "windows-1252", "x-cp1252"]),
    (.iso8859x15, ["csisolatin9", "iso-8859-15", "iso8859-15", "iso885915", "iso_8859-15",
      "l9"])]

/-- The encoding of a label. -/
def ofLabel? (label : Text) : Option Encoding :=
  let label := label.map lowerLetter
  (labels.find? fun row => row.2.any fun name => ofString name == label).map (·.1)

/-! ## Single bytes -/

/-- The units of the bytes `80` to `9F` in windows-1252. -/
def windows1252Row : List CodeUnit :=
  [0x20AC, 0x81, 0x201A, 0x192, 0x201E, 0x2026, 0x2020, 0x2021, 0x2C6, 0x2030, 0x160, 0x2039,
    0x152, 0x8D, 0x17D, 0x8F, 0x90, 0x2018, 0x2019, 0x201C, 0x201D, 0x2022, 0x2013, 0x2014,
    0x2DC, 0x2122, 0x161, 0x203A, 0x153, 0x9D, 0x17E, 0x178]

/-- The unit of a byte in windows-1252. -/
def windows1252Unit (b : UInt8) : CodeUnit :=
  if 0x80 ≤ b && b ≤ 0x9F then windows1252Row.getD (b.toNat - 0x80) b.toUInt16 else b.toUInt16

/-- The bytes whose unit in ISO-8859-15 is not their own number. -/
def iso8859x15Changes : List (UInt8 × CodeUnit) :=
  [(0xA4, 0x20AC), (0xA6, 0x160), (0xA8, 0x161), (0xB4, 0x17D), (0xB8, 0x17E), (0xBC, 0x152),
    (0xBD, 0x153), (0xBE, 0x178)]

/-- The unit of a byte in ISO-8859-15. -/
def iso8859x15Unit (b : UInt8) : CodeUnit :=
  match iso8859x15Changes.find? (·.1 == b) with
  | some (_, u) => u
  | none => b.toUInt16

/-! ## Pairs of bytes -/

/-- Read pairs of bytes as units, given the first half of a surrogate pair before
them.  A half without its other half, and what is left over at the end, become
U+FFFD. -/
def decodePairs (unit : UInt8 → UInt8 → CodeUnit) (high : Option CodeUnit) :
    List UInt8 → Text
  | [] => if high.isSome then [Utf8.replacement] else []
  | [_] => [Utf8.replacement]
  | a :: b :: rest =>
      let u := unit a b
      match high with
      | some h =>
          if u.isLowSurrogate then h :: u :: decodePairs unit none rest
          else if u.isHighSurrogate then Utf8.replacement :: decodePairs unit (some u) rest
          else Utf8.replacement :: u :: decodePairs unit none rest
      | none =>
          if u.isHighSurrogate then decodePairs unit (some u) rest
          else if u.isLowSurrogate then Utf8.replacement :: decodePairs unit none rest
          else u :: decodePairs unit none rest

/-! ## Reading -/

/-- The text of bytes in an encoding. -/
def decode (encoding : Encoding) (bytes : List UInt8) : Text :=
  match encoding with
  | .utf16le => Utf8.dropMark (decodePairs (fun a b => a.toUInt16 ||| b.toUInt16 <<< 8) none bytes)
  | .utf16be => Utf8.dropMark (decodePairs (fun a b => b.toUInt16 ||| a.toUInt16 <<< 8) none bytes)
  | .windows1252 => bytes.map windows1252Unit
  | .iso8859x15 => bytes.map iso8859x15Unit

end Encoding

end PodLoom.Text
