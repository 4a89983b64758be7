import PodLoom.Text.Basic

set_option autoImplicit false

/-!
# UTF-8

Text and bytes.  Writing makes a text well-formed: a lone surrogate becomes U+FFFD.
Reading never fails: a byte that cannot continue what was begun ends it, as U+FFFD,
and is looked at again as a first byte.  So each maximal beginning of a character
that is not completed becomes one U+FFFD.
-/

namespace PodLoom.Text.Utf8

/-- The replacement character. -/
def replacement : CodeUnit := 0xFFFD

/-! ## Writing -/

/-- The bytes of a code point. -/
def encodePoint (n : Nat) : List UInt8 :=
  if n < 0x80 then [n.toUInt8]
  else if n < 0x800 then [(0xC0 + n / 0x40).toUInt8, (0x80 + n % 0x40).toUInt8]
  else if n < 0x10000 then
    [(0xE0 + n / 0x1000).toUInt8, (0x80 + n / 0x40 % 0x40).toUInt8, (0x80 + n % 0x40).toUInt8]
  else
    [(0xF0 + n / 0x40000).toUInt8, (0x80 + n / 0x1000 % 0x40).toUInt8,
      (0x80 + n / 0x40 % 0x40).toUInt8, (0x80 + n % 0x40).toUInt8]

/-- Whether a code point is a surrogate. -/
def isSurrogate (n : Nat) : Bool := 0xD800 ≤ n && n ≤ 0xDFFF

/-- The bytes of a text. -/
def encode (t : Text) : List UInt8 :=
  t.codePoints.flatMap fun n => encodePoint (if isSurrogate n then 0xFFFD else n)

/-! ## Reading -/

/-- A character begun: how many bytes it lacks, the range of the next one, and the
value so far. -/
structure Begun where
  lacking : Nat
  least : UInt8
  greatest : UInt8
  value : Nat
  deriving DecidableEq, Repr, Inhabited

/-- What a first byte gives: units, or a character begun.  The ranges of the second
byte leave out overlong forms, surrogates and values that are no code points. -/
def begin (b : UInt8) : Text × Option Begun :=
  if b < 0x80 then ([b.toUInt16], none)
  else if b < 0xC2 then ([replacement], none)
  else if b < 0xE0 then ([], some ⟨1, 0x80, 0xBF, b.toNat - 0xC0⟩)
  else if b < 0xF0 then
    ([], some ⟨2, if b = 0xE0 then 0xA0 else 0x80, if b = 0xED then 0x9F else 0xBF,
      b.toNat - 0xE0⟩)
  else if b < 0xF5 then
    ([], some ⟨3, if b = 0xF0 then 0x90 else 0x80, if b = 0xF4 then 0x8F else 0xBF,
      b.toNat - 0xF0⟩)
  else ([replacement], none)

/-- Take a byte, given the character begun before it. -/
def step (begun : Option Begun) (b : UInt8) : Text × Option Begun :=
  match begun with
  | none => begin b
  | some c =>
      if c.least ≤ b && b ≤ c.greatest then
        let value := c.value * 0x40 + (b.toNat - 0x80)
        if c.lacking ≤ 1 then (ofCodePoint value, none)
        else ([], some ⟨c.lacking - 1, 0x80, 0xBF, value⟩)
      else
        let (units, next) := begin b
        (replacement :: units, next)

/-- Read bytes after a character begun. -/
def decodeFrom (begun : Option Begun) : List UInt8 → Text
  | [] => if begun.isSome then [replacement] else []
  | b :: rest =>
      let (units, next) := step begun b
      units ++ decodeFrom next rest

/-- The text of bytes. -/
def decode (bytes : List UInt8) : Text := decodeFrom none bytes

/-- The text without a byte order mark at its start. -/
def dropMark (t : Text) : Text := if t.head? = some 0xFEFF then t.tail else t

/-- The text of bytes that a byte order mark may come before. -/
def read (bytes : List UInt8) : Text := dropMark (decode bytes)

end PodLoom.Text.Utf8
