set_option autoImplicit false

/-!
# Text: strings of UTF-16 code units

A document is a string of 16-bit code units.  Every measure of the library (the
length of a line, the column of a tab stop, the budget of a navigation bar) and
every sorted listing counts code units, and a numeric escape may name a lone
surrogate, which no `Char` can hold.  So text is a list of code units: cutting
and joining are `List` operations, two halves of a surrogate pair that come to
stand side by side are one character again without further ado, and the laws of
`List` apply as they stand.

This module fixes the carrier, the character classes and the trimming functions;
the classes are those of the formats read and written here, and each is a
decidable predicate on one unit.
-/

namespace PodLoom

/-- A UTF-16 code unit. -/
abbrev CodeUnit : Type := UInt16

/-- A string of UTF-16 code units, possibly ill-formed. -/
abbrev Text : Type := List CodeUnit

namespace CodeUnit

/-- The code unit of a character of the basic plane. -/
def ofChar (c : Char) : CodeUnit := c.toNat.toUInt16

instance : Coe Char CodeUnit := ⟨ofChar⟩

/-! ## Units that the formats give a meaning -/

/-- Horizontal tab. -/
@[match_pattern] def tab : CodeUnit := 9
/-- Line feed: the line separator of normalised text. -/
@[match_pattern] def newline : CodeUnit := 10
/-- Carriage return. -/
@[match_pattern] def carriageReturn : CodeUnit := 13
/-- The plain space. -/
@[match_pattern] def space : CodeUnit := 32
/-- `"` -/
@[match_pattern] def quote : CodeUnit := 34
/-- `.` -/
@[match_pattern] def dot : CodeUnit := 46
/-- `/` -/
@[match_pattern] def slash : CodeUnit := 47
/-- `<` -/
@[match_pattern] def less : CodeUnit := 60
/-- `=` -/
@[match_pattern] def equals : CodeUnit := 61
/-- `>` -/
@[match_pattern] def greater : CodeUnit := 62
/-- `[` -/
@[match_pattern] def openBracket : CodeUnit := 91
/-- `\` -/
@[match_pattern] def backslash : CodeUnit := 92
/-- `]` -/
@[match_pattern] def closeBracket : CodeUnit := 93

/-! ## Classes -/

/-- `A` to `Z`. -/
def isUpper (u : CodeUnit) : Bool := 65 ≤ u && u ≤ 90

/-- `a` to `z`. -/
def isLower (u : CodeUnit) : Bool := 97 ≤ u && u ≤ 122

/-- An ASCII letter. -/
def isLetter (u : CodeUnit) : Bool := u.isUpper || u.isLower

/-- `0` to `9`. -/
def isDigit (u : CodeUnit) : Bool := 48 ≤ u && u ≤ 57

/-- An ASCII letter, an ASCII digit or an underscore. -/
def isWord (u : CodeUnit) : Bool := u.isLetter || u.isDigit || u == 95

/-- White space: the ASCII controls from tab to carriage return, the Unicode
space separators, the two Unicode line separators and the byte order mark.
Neither U+0085 nor U+200B is white space. -/
def isBlank (u : CodeUnit) : Bool :=
  (9 ≤ u && u ≤ 13) || u == 32 || u == 0xA0 || u == 0x1680
    || (0x2000 ≤ u && u ≤ 0x200A) || u == 0x2028 || u == 0x2029
    || u == 0x202F || u == 0x205F || u == 0x3000 || u == 0xFEFF

/-- A unit that ends a line in the widest sense: line feed, carriage return and
the two Unicode line separators. -/
def isLineEnd (u : CodeUnit) : Bool :=
  u == newline || u == carriageReturn || u == 0x2028 || u == 0x2029

/-- A plain space or a tab: the white space that can stand inside a line of
source. -/
def isSpaceOrTab (u : CodeUnit) : Bool := u == space || u == tab

/-- A first half of a surrogate pair. -/
def isHighSurrogate (u : CodeUnit) : Bool := 0xD800 ≤ u && u ≤ 0xDBFF

/-- A second half of a surrogate pair. -/
def isLowSurrogate (u : CodeUnit) : Bool := 0xDC00 ≤ u && u ≤ 0xDFFF

theorem isBlank_of_isLineEnd {u : CodeUnit} (h : u.isLineEnd = true) : u.isBlank = true := by
  simp only [isLineEnd, newline, carriageReturn, Bool.or_eq_true, beq_iff_eq] at h
  rcases h with ((h | h) | h) | h <;> subst h <;> decide

theorem isBlank_of_isSpaceOrTab {u : CodeUnit} (h : u.isSpaceOrTab = true) :
    u.isBlank = true := by
  simp only [isSpaceOrTab, space, tab, Bool.or_eq_true, beq_iff_eq] at h
  rcases h with h | h <;> subst h <;> decide

end CodeUnit

namespace Text

open CodeUnit

/-! ## Literals -/

/-- The one or two code units of a Unicode code point. -/
def ofCodePoint (n : Nat) : Text :=
  if n < 0x10000 then [n.toUInt16]
  else [(0xD800 + (n - 0x10000) / 0x400).toUInt16, (0xDC00 + (n - 0x10000) % 0x400).toUInt16]

/-- The code units of a string. -/
def ofString (s : String) : Text := s.toList.flatMap fun c => ofCodePoint c.toNat

instance : Coe String Text := ⟨ofString⟩

/-- The code point of a surrogate pair. -/
def pairCodePoint (high low : CodeUnit) : Nat :=
  0x10000 + (high.toNat - 0xD800) * 0x400 + (low.toNat - 0xDC00)

/-- The code points of a text, where a lone surrogate counts as a code point of
its own. -/
def codePoints : Text → List Nat
  | [] => []
  | [u] => [u.toNat]
  | u :: v :: rest =>
      if u.isHighSurrogate && v.isLowSurrogate then pairCodePoint u v :: codePoints rest
      else u.toNat :: codePoints (v :: rest)

/-- The character of a code point, U+FFFD for a surrogate. -/
def characterOf (n : Nat) : Char :=
  if h : n.isValidChar then Char.ofNatAux n h else '\uFFFD'

/-- The well-formed string nearest to a text: each lone surrogate becomes
U+FFFD. -/
def toString (t : Text) : String := String.ofList (t.codePoints.map characterOf)

/-- A number in decimal digits. -/
def ofNat (n : Nat) : Text := (Nat.toDigits 10 n).map ofChar

/-- An integer in decimal digits, a minus sign before a negative one. -/
def ofInt : Int → Text
  | .ofNat n => ofNat n
  | .negSucc n => ofChar '-' :: ofNat (n + 1)

/-! ## Trimming -/

/-- Nothing but white space. -/
def isBlank (t : Text) : Bool := t.all CodeUnit.isBlank

/-- The text without the white space at its start. -/
def trimStart (t : Text) : Text := t.dropWhile CodeUnit.isBlank

/-- The text without the white space at its end. -/
def trimEnd (t : Text) : Text := (t.reverse.dropWhile CodeUnit.isBlank).reverse

/-- The text without the white space at either end. -/
def trim (t : Text) : Text := t.trimEnd.trimStart

/-! ## Looking at the front -/

/-- What follows `front` in `t`, if `t` starts with it. -/
def afterFront? (front t : Text) : Option Text :=
  if front.isPrefixOf t then some (t.drop front.length) else none

/-- Whether `t` starts with `front`. -/
def startsWith (t front : Text) : Bool := front.isPrefixOf t

/-- Whether `t` ends with `back`. -/
def endsWith (t back : Text) : Bool := back.isSuffixOf t

/-- The white space at the front, and what follows it. -/
def spanBlank (t : Text) : Text × Text :=
  (t.takeWhile CodeUnit.isBlank, t.dropWhile CodeUnit.isBlank)

/-- The word at the front, and what follows it. -/
def spanWord (t : Text) : Text × Text :=
  (t.takeWhile (!·.isBlank), t.dropWhile (!·.isBlank))

/-! ## Cutting and joining -/

/-- The pieces of a text between the occurrences of a separator; one piece more
than there are separators. -/
def splitOn (sep : CodeUnit) : Text → List Text
  | [] => [[]]
  | u :: rest =>
      if u = sep then [] :: splitOn sep rest
      else
        match splitOn sep rest with
        | [] => [[u]]
        | piece :: pieces => (u :: piece) :: pieces

/-- The pieces joined by a separator. -/
def join (sep : Text) (pieces : List Text) : Text := sep.intercalate pieces

/-- The words of a text: its maximal runs of units that are not white space. -/
def words : Text → List Text
  | [] => []
  | u :: rest =>
      if u.isBlank then words rest
      else if rest.head?.all CodeUnit.isBlank then [u] :: words rest
      else
        match words rest with
        | [] => [[u]]
        | word :: more => (u :: word) :: more

/-- The words of a text joined by single spaces: no white space at either end,
and every gap one plain space. -/
def squeeze (t : Text) : Text := join [space] t.words

/-! ## Order -/

/-- The order of code units, shorter before longer: the order of every sorted
listing. -/
def le : Text → Text → Bool
  | [], _ => true
  | _ :: _, [] => false
  | u :: s, v :: t => u < v || (u == v && le s t)

/-- The texts in the order of their code units. -/
def sort (ts : List Text) : List Text := ts.mergeSort le

end Text

end PodLoom
