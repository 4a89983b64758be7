import PodLoom.Text.Keyed

set_option autoImplicit false

/-!
# JSON values

A JSON value over text of code units.  A number is kept as it is written, since
nothing here computes with one.  The members of an object are in the order in which
they were read; they are put in key order where they are written.
-/

namespace PodLoom

/-- A JSON value. -/
inductive Json where
  | null
  | bool (value : Bool)
  | number (literal : Text)
  | string (value : Text)
  | array (items : List Json)
  | object (pairs : List (Text × Json))
  deriving Repr, Inhabited

namespace Json

/-- An integer as a JSON number. -/
def ofInt (n : Int) : Json := .number (Text.ofInt n)

/-- A natural number as a JSON number. -/
def ofNat (n : Nat) : Json := .number (Text.ofNat n)

/-- The member of an object with the given name, the last one if it is repeated. -/
def member? (name : Text) : Json → Option Json
  | .object pairs => Keyed.find? name pairs.reverse
  | _ => none

end Json

end PodLoom
