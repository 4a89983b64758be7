import PodLoom.Text.CaseTable

set_option autoImplicit false

/-!
# Case

Full Unicode case mapping, independent of any locale.  Lower case looks at a whole
text: a capital sigma that ends a word becomes a final sigma.  Upper case is needed
for a single code unit only, where one unit may become two or three.
-/

namespace PodLoom.Text

open Case

/-- The code point that a table of shifts maps to, if it has an entry. -/
def Case.shifted? (table : List Shift) (n : Nat) : Option Nat :=
  (table.find? (·.covers n)).map fun s => ((n : Int) + s.distance).toNat

/-- Whether a code point lies in one of the ranges. -/
def Case.inRanges (ranges : List (Nat × Nat)) (n : Nat) : Bool :=
  ranges.any fun (first, last) => first ≤ n && n ≤ last

/-- Whether a code point is passed over when its neighbours' case is asked for. -/
def Case.isIgnorable (n : Nat) : Bool := inRanges ignorableRanges n

/-- Whether a code point has a case. -/
def Case.isCased (n : Nat) : Bool := inRanges casedRanges n

/-- Whether the first code point that counts has a case. -/
def Case.startsCased (ns : List Nat) : Bool := (ns.dropWhile isIgnorable).head?.any isCased

/-- The lower case of code points; `afterCased` says whether the last one that
counts before them has a case. -/
def Case.lowerFrom (afterCased : Bool) : List Nat → List Nat
  | [] => []
  | n :: rest =>
      let mapped :=
        if n = 0x3A3 then [if afterCased && !startsCased rest then 0x3C2 else 0x3C3]
        else if n = 0x130 then [0x69, 0x307]
        else [(shifted? lowerShifts n).getD n]
      mapped ++ lowerFrom (if isIgnorable n then afterCased else isCased n) rest

/-- A text in lower case. -/
def lower (t : Text) : Text := (lowerFrom false t.codePoints).flatMap ofCodePoint

/-- The upper case of a code unit taken as a character; a surrogate has none. -/
def upperUnit (u : CodeUnit) : Text :=
  let n := u.toNat
  match upperExpansions.find? (·.1 == n) with
  | some (_, ns) => ns.flatMap ofCodePoint
  | none => ofCodePoint ((shifted? upperShifts n).getD n)

end PodLoom.Text
