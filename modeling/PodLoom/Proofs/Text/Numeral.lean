import Mathlib.Data.List.Forall2
import Mathlib.Data.Nat.Digits.Defs
import PodLoom.Text.Numeral

set_option autoImplicit false

/-!
# Numerals and their positional values

What a numeral is and what it is worth, without reading it: its units stand one by one for digits
below the base (`HasDigits`), and the digits have a positional value.  Reading a numeral finds
exactly this value, and finds one for numerals alone (`numeral?_eq_some_iff`).
-/

namespace PodLoom.Text

/-! ## Digits -/

/-- The digits of all bases up to sixteen, each at the place of its value, in lower case. -/
def lowerDigits : Text := ofString "0123456789abcdef"

/-- The same digits in upper case. -/
def upperDigits : Text := ofString "0123456789ABCDEF"

/-- The unit `u` is, in either case, the digit worth `d` of a base up to sixteen. -/
def IsDigit (base : Nat) (u : CodeUnit) (d : Nat) : Prop :=
  d < base ∧ (lowerDigits[d]? = some u ∨ upperDigits[d]? = some u)

section Digits

variable {base d : Nat} {u : CodeUnit}

instance : Decidable (IsDigit base u d) := inferInstanceAs (Decidable (_ ∧ _))

theorem eq_ofNat_of_toNat_eq {n : Nat} (h : u.toNat = n) : u = UInt16.ofNat n := by
  rw [← h, UInt16.ofNat_toNat]

/-- The ranges of units that give a digit its value are the digits in their order. -/
theorem digitValue?_eq_some_iff : digitValue? u = some d ↔ IsDigit 16 u d := by
  constructor
  · have hfigures : ∀ d < 10, IsDigit 16 (UInt16.ofNat (d + 48)) d := by decide
    have hlower : ∀ d < 6, IsDigit 16 (UInt16.ofNat (d + 97)) (d + 10) := by decide
    have hupper : ∀ d < 6, IsDigit 16 (UInt16.ofNat (d + 65)) (d + 10) := by decide
    intro h
    simp only [digitValue?, CodeUnit.isDigit, UInt16.le_iff_toNat_le, UInt16.reduceToNat,
      Bool.and_eq_true, decide_eq_true_eq] at h
    split at h
    · have hd := Option.some_inj.1 h
      rw [eq_ofNat_of_toNat_eq (u := u) (n := d + 48) (by omega)]
      exact hfigures d (by omega)
    · split at h
      · have hd := Option.some_inj.1 h
        obtain ⟨k, rfl⟩ : ∃ k, d = k + 10 := ⟨d - 10, by omega⟩
        rw [eq_ofNat_of_toNat_eq (u := u) (n := k + 97) (by omega)]
        exact hlower k (by omega)
      · obtain ⟨hrange, hsome⟩ := Option.ite_none_right_eq_some.1 h
        have hd := Option.some_inj.1 hsome
        obtain ⟨k, rfl⟩ : ∃ k, d = k + 10 := ⟨d - 10, by omega⟩
        rw [eq_ofNat_of_toNat_eq (u := u) (n := k + 65) (by omega)]
        exact hupper k (by omega)
  · have hvalues : ∀ d < 16, digitValue? <$> lowerDigits[d]? = some (some d)
        ∧ digitValue? <$> upperDigits[d]? = some (some d) := by decide
    rintro ⟨hd, hu | hu⟩
    · have hvalue := (hvalues d hd).1
      rw [hu] at hvalue
      exact Option.some_inj.1 hvalue
    · have hvalue := (hvalues d hd).2
      rw [hu] at hvalue
      exact Option.some_inj.1 hvalue

theorem digitIn?_eq_some_iff (hbase : base ≤ 16) :
    digitIn? base u = some d ↔ IsDigit base u d := by
  rw [digitIn?, Option.filter_eq_some_iff, digitValue?_eq_some_iff, decide_eq_true_iff]
  exact ⟨fun ⟨⟨_, hplace⟩, hd⟩ => ⟨hd, hplace⟩,
    fun ⟨hd, hplace⟩ => ⟨⟨Nat.lt_of_lt_of_le hd hbase, hplace⟩, hd⟩⟩

end Digits

/-! ## Numerals -/

/-- The units of `t` are one by one the digits `ds` of a base. -/
def HasDigits (base : Nat) : Text → List Nat → Prop := List.Forall₂ (IsDigit base)

instance (base : Nat) (t : Text) (ds : List Nat) : Decidable (HasDigits base t ds) :=
  inferInstanceAs (Decidable (List.Forall₂ _ _ _))

/-- The positional value of digits, the most significant digit first. -/
def positional (base : Nat) (ds : List Nat) : Nat := Nat.ofDigits base ds.reverse

section Numerals

variable {base n : Nat} {t : Text}

theorem HasDigits.unique {ds ds' : List Nat} (hbase : base ≤ 16) (h : HasDigits base t ds)
    (h' : HasDigits base t ds') : ds = ds' := by
  have hdigit : Relator.RightUnique (IsDigit base) := by
    intro u d d' hd hd'
    rw [← digitIn?_eq_some_iff hbase] at hd hd'
    exact Option.some_inj.1 (hd.symm.trans hd')
  exact hdigit.forall₂ h h'

@[simp] theorem positional_nil : positional base [] = 0 := rfl

theorem positional_append (ds more : List Nat) :
    positional base (ds ++ more)
      = positional base ds * base ^ more.length + positional base more := by
  rw [positional, List.reverse_append, Nat.ofDigits_append, List.length_reverse, Nat.add_comm,
    Nat.mul_comm]
  rfl

theorem positional_cons (d : Nat) (ds : List Nat) :
    positional base (d :: ds) = d * base ^ ds.length + positional base ds := by
  have hdigit : positional base [d] = d := Nat.ofDigits_singleton
  rw [← List.singleton_append, positional_append, hdigit]

/-- What is read so far moves up by a place for every digit that follows. -/
theorem numeralFrom?_eq_some_iff (hbase : base ≤ 16) {sofar : Nat} :
    numeralFrom? base sofar t = some n ↔
      ∃ ds, HasDigits base t ds ∧ n = sofar * base ^ ds.length + positional base ds := by
  induction t generalizing sofar with
  | nil =>
    rw [numeralFrom?, Option.some_inj]
    constructor
    · rintro rfl
      exact ⟨[], .nil, by simp⟩
    · rintro ⟨ds, hds, rfl⟩
      cases hds
      simp
  | cons u rest ih =>
    have hmove : ∀ (d : Nat) (ds : List Nat),
        (sofar * base + d) * base ^ ds.length + positional base ds
          = sofar * base ^ (d :: ds).length + positional base (d :: ds) := by
      intro d ds
      rw [positional_cons, List.length_cons, Nat.pow_succ', Nat.add_mul, Nat.mul_assoc,
        Nat.add_assoc]
    rw [numeralFrom?, Option.bind_eq_some_iff]
    constructor
    · rintro ⟨d, hd, hrest⟩
      obtain ⟨ds, hds, rfl⟩ := ih.1 hrest
      exact ⟨d :: ds, .cons ((digitIn?_eq_some_iff hbase).1 hd) hds, hmove d ds⟩
    · rintro ⟨ds, hds, rfl⟩
      cases hds with
      | @cons _ d _ ds hd hds =>
        exact ⟨d, (digitIn?_eq_some_iff hbase).2 hd, ih.2 ⟨ds, hds, (hmove d ds).symm⟩⟩

/-- A text is read as a numeral if it is one, and as its positional value. -/
theorem numeral?_eq_some_iff (hbase : base ≤ 16) :
    numeral? base t = some n ↔
      t ≠ [] ∧ ∃ ds, HasDigits base t ds ∧ n = positional base ds := by
  cases t with
  | nil => exact ⟨nofun, fun h => (h.1 rfl).elim⟩
  | cons u rest =>
    show numeralFrom? base 0 (u :: rest) = some n ↔ _
    rw [numeralFrom?_eq_some_iff hbase]
    simp only [Nat.zero_mul, Nat.zero_add, ne_eq, reduceCtorEq, not_false_eq_true, true_and]

theorem HasDigits.numeral?_eq {ds : List Nat} (hbase : base ≤ 16) (ht : t ≠ [])
    (h : HasDigits base t ds) : numeral? base t = some (positional base ds) :=
  (numeral?_eq_some_iff hbase).2 ⟨ht, ds, h, rfl⟩

end Numerals

end PodLoom.Text
