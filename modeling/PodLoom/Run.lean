import PodLoom.File.Glob
import PodLoom.Program
import PodLoom.Text.Encoding

set_option autoImplicit false

/-!
# What the program is given

The program comes with a matcher of globs and with decoders for some encodings.  Both
are named here alone, so nothing that is said of a run in general depends on them.
-/

namespace PodLoom

open Text

/-- The matcher of globs that the program comes with. -/
instance Glob.matcher : GlobMatcher where
  isMatch glob path := (Glob.read glob).isMatch path

namespace Text.Encoding

/-- The encodings are known by labels in ASCII. -/
theorem ascii_of_ofLabel? {label : Text} {e : Encoding} (h : ofLabel? label = some e) :
    ∀ u ∈ label, u.toNat < 0x80 := by
  obtain ⟨row, hrow, -⟩ := Option.map_eq_some_iff.1 h
  have hany := List.find?_some hrow
  have hascii : ∀ row ∈ labels, ∀ name ∈ row.2, (ofString name).all (·.toNat < 0x80) = true := by
    decide +kernel
  exact ascii_of_any_lower (hascii row (List.mem_of_find?_eq_some hrow)) hany

/-- The decoders that the program comes with. -/
instance decoders : Decoders where
  ofLabel? label := (ofLabel? label).map decode
  ascii label decoder h := by
    obtain ⟨e, he, -⟩ := Option.map_eq_some_iff.1 h
    exact ascii_of_ofLabel? he

end Text.Encoding

end PodLoom
