import PodLoom.Text.Basic

set_option autoImplicit false

/-!
# Numerals: digit strings and their values

A digit of base up to sixteen is worth what `digitValue?` says, a run of digits is
worth its positional value, and a run with a foreign unit in it, or an empty one,
is no numeral.  Values are natural numbers, so a numeral of any length has its
exact value.
-/

namespace PodLoom.Text

/-- The value of a hexadecimal digit, in either case. -/
def digitValue? (u : CodeUnit) : Option Nat :=
  if u.isDigit then some (u.toNat - 48)
  else if 97 ≤ u && u ≤ 102 then some (u.toNat - 87)
  else if 65 ≤ u && u ≤ 70 then some (u.toNat - 55)
  else none

/-- The value of a digit in a base up to sixteen. -/
def digitIn? (base : Nat) (u : CodeUnit) : Option Nat :=
  (digitValue? u).filter (· < base)

/-- The value of the digits `t` after digits worth `sofar`. -/
def numeralFrom? (base : Nat) : Nat → Text → Option Nat
  | sofar, [] => some sofar
  | sofar, u :: rest => (digitIn? base u).bind fun d => numeralFrom? base (sofar * base + d) rest

/-- The positional value of a non-empty run of digits. -/
def numeral? (base : Nat) (t : Text) : Option Nat :=
  if t.isEmpty then none else numeralFrom? base 0 t

end PodLoom.Text
