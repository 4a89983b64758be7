import PodLoom.Proofs.Double
import PodLoom.Proofs.Pod.Ranges
import PodLoom.Proofs.Text.Numeral

set_option autoImplicit false

/-!
# Numeric escapes and their code points

An escape is a number in one of three forms (`EscapeNumeral`), of which no two apply together
(`EscapeNumeral.unique`), and it is then worth the positional value of its digits.

The value is computed as a double.  Beyond 53 bits a double is not exact, and of a long decimal
numeral only the first twenty significant digits need be read at all (`ReadAs`); but a number that
long is out of bounds whichever way it is read, and the bound itself is a double.  So the double
that passes the check is the one of the exact value, at every length (`bounded?_of_readAs`).
-/

namespace PodLoom.Pod

open Text
open CodeUnit (ofChar)

/-! ## The three forms -/

/-- The text `name` is a numeric escape with the digits `ds` of a base: hexadecimal digits after
`0x`, octal ones after a zero, or decimal ones that are not of the form before. -/
inductive EscapeNumeral : Text → Nat → List Nat → Prop where
  | hexadecimal {x : CodeUnit} {t : Text} {ds : List Nat} :
      x = ofChar 'x' ∨ x = ofChar 'X' → t ≠ [] → HasDigits 16 t ds →
        EscapeNumeral (ofChar '0' :: x :: t) 16 ds
  | octal {t : Text} {ds : List Nat} :
      t ≠ [] → HasDigits 8 t ds → EscapeNumeral (ofChar '0' :: t) 8 ds
  | decimal {t : Text} {ds : List Nat} :
      t ≠ [] → HasDigits 10 t ds →
      (∀ rest, t = ofChar '0' :: rest → rest ≠ [] → ∀ more, ¬ HasDigits 8 rest more) →
        EscapeNumeral t 10 ds

section Forms

variable {name t : Text} {base base' n : Nat} {ds ds' : List Nat}

theorem digitIn?_letter {x : CodeUnit} (hx : x = ofChar 'x' ∨ x = ofChar 'X') :
    digitIn? base x = none := by
  rcases hx with rfl | rfl <;> rfl

/-- The letter of the prefix is no digit, so nothing with a prefix is a plain numeral. -/
theorem not_hasDigits_letter {x : CodeUnit} (hx : x = ofChar 'x' ∨ x = ofChar 'X')
    (hbase : base ≤ 16) : ¬ HasDigits base (x :: t) ds := by
  rintro (_ | ⟨hd, _⟩)
  rw [← digitIn?_eq_some_iff hbase, digitIn?_letter hx] at hd
  cases hd

theorem not_hasDigits_zero_letter {x : CodeUnit} (hx : x = ofChar 'x' ∨ x = ofChar 'X')
    (hbase : base ≤ 16) : ¬ HasDigits base (ofChar '0' :: x :: t) ds := by
  rintro (_ | ⟨_, hrest⟩)
  exact not_hasDigits_letter hx hbase hrest

/-- No text is a numeral in two forms. -/
theorem EscapeNumeral.unique (h : EscapeNumeral name base ds) (h' : EscapeNumeral name base' ds') :
    base = base' ∧ ds = ds' := by
  cases h with
  | hexadecimal hx _ hds =>
    cases h' with
    | hexadecimal _ _ hds' => exact ⟨rfl, hds.unique (by decide) hds'⟩
    | octal _ hds' => exact (not_hasDigits_letter hx (by decide) hds').elim
    | decimal _ hds' _ => exact (not_hasDigits_zero_letter hx (by decide) hds').elim
  | octal ht hds =>
    cases h' with
    | hexadecimal hx _ _ => exact (not_hasDigits_letter hx (by decide) hds).elim
    | octal _ hds' => exact ⟨rfl, hds.unique (by decide) hds'⟩
    | decimal _ _ hplain => exact (hplain _ rfl ht _ hds).elim
  | decimal _ hds hplain =>
    cases h' with
    | hexadecimal hx _ _ => exact (not_hasDigits_zero_letter hx (by decide) hds).elim
    | octal ht hds' => exact (hplain _ rfl ht _ hds').elim
    | decimal _ hds' _ => exact ⟨rfl, hds.unique (by decide) hds'⟩

/-! ## The value of a numeric escape -/

/-- A numeral is read as soon as its digits are, in the form that it has. -/
theorem EscapeNumeral.escapeNumber?_eq (h : EscapeNumeral name base ds) :
    escapeNumber? name = some (positional base ds) := by
  cases h with
  | hexadecimal hx ht hds =>
    have hnumeral := hds.numeral?_eq (by decide) ht
    rcases hx with rfl | rfl
    all_goals
      show (numeral? 16 _ <|> _) = _
      rw [hnumeral]
      rfl
  | @octal t _ ht hds =>
    have hnumeral := hds.numeral?_eq (by decide) ht
    unfold escapeNumber?
    split
    · rename_i heq
      obtain ⟨-, rfl⟩ := List.cons.inj heq
      exact (not_hasDigits_letter (.inl rfl) (by decide) hds).elim
    · rename_i heq
      obtain ⟨-, rfl⟩ := List.cons.inj heq
      exact (not_hasDigits_letter (.inr rfl) (by decide) hds).elim
    · rename_i heq
      obtain ⟨-, rfl⟩ := List.cons.inj heq
      rw [hnumeral]
      rfl
    · rename_i hother
      exact (hother _ rfl).elim
  | decimal ht hds hplain =>
    have hnumeral := hds.numeral?_eq (by decide) ht
    unfold escapeNumber?
    split
    · exact (not_hasDigits_zero_letter (.inl rfl) (by decide) hds).elim
    · exact (not_hasDigits_zero_letter (.inr rfl) (by decide) hds).elim
    · rename_i digits _ _
      -- A zero in front does not make it octal: a later digit is none, or there is none.
      have hnone : numeral? 8 digits = none := by
        rw [Option.eq_none_iff_forall_ne_some]
        intro n hn
        obtain ⟨hdigits, more, hmore, -⟩ := (numeral?_eq_some_iff (by decide)).1 hn
        exact hplain digits rfl hdigits more hmore
      rw [hnone, hnumeral]
      rfl
    · exact hnumeral

/-- What is read as a number has one of the forms. -/
theorem exists_escapeNumeral (h : escapeNumber? name = some n) :
    ∃ base ds, EscapeNumeral name base ds ∧ n = positional base ds := by
  have hexadecimal : ∀ {x : CodeUnit} {t : Text}, x = ofChar 'x' ∨ x = ofChar 'X' →
      (numeral? 16 t <|> numeral? 10 (ofChar '0' :: x :: t)) = some n →
      ∃ base ds, EscapeNumeral (ofChar '0' :: x :: t) base ds ∧ n = positional base ds := by
    intro x t hx h
    rcases (Option.orElse_eq_some ..).1 h with hn | ⟨-, hn⟩
    · obtain ⟨ht, ds, hds, rfl⟩ := (numeral?_eq_some_iff (by decide)).1 hn
      exact ⟨16, ds, .hexadecimal hx ht hds, rfl⟩
    · obtain ⟨-, ds, hds, -⟩ := (numeral?_eq_some_iff (by decide)).1 hn
      exact (not_hasDigits_zero_letter hx (by decide) hds).elim
  unfold escapeNumber? at h
  split at h
  · exact hexadecimal (.inl rfl) h
  · exact hexadecimal (.inr rfl) h
  · rename_i digits _ _
    rcases (Option.orElse_eq_some ..).1 h with hn | ⟨hnone, hn⟩
    · obtain ⟨ht, ds, hds, rfl⟩ := (numeral?_eq_some_iff (by decide)).1 hn
      exact ⟨8, ds, .octal ht hds, rfl⟩
    · obtain ⟨ht, ds, hds, rfl⟩ := (numeral?_eq_some_iff (by decide)).1 hn
      refine ⟨10, ds, .decimal ht hds fun rest heq hrest more hmore => ?_, rfl⟩
      obtain ⟨-, rfl⟩ := List.cons.inj heq
      rw [hmore.numeral?_eq (by decide) hrest] at hnone
      cases hnone
  · rename_i hother
    obtain ⟨ht, ds, hds, rfl⟩ := (numeral?_eq_some_iff (by decide)).1 h
    exact ⟨10, ds, .decimal ht hds fun rest heq _ _ _ => hother rest heq, rfl⟩

theorem EscapeNumeral.numericEscape?_eq (h : EscapeNumeral name base ds) :
    numericEscape? name
      = if positional base ds ≤ maxCodePoint then some (positional base ds) else none := by
  rw [numericEscape?, h.escapeNumber?_eq, Option.filter_some]
  exact if_congr decide_eq_true_iff rfl rfl

theorem numericEscape?_eq_some_iff :
    numericEscape? name = some n ↔
      ∃ base ds, EscapeNumeral name base ds ∧ n = positional base ds ∧ n ≤ maxCodePoint := by
  constructor
  · intro h
    rw [numericEscape?, Option.filter_eq_some_iff, decide_eq_true_iff] at h
    obtain ⟨base, ds, hnumeral, rfl⟩ := exists_escapeNumeral h.1
    exact ⟨base, ds, hnumeral, rfl, h.2⟩
  · rintro ⟨base, ds, hnumeral, rfl, hle⟩
    rw [hnumeral.numericEscape?_eq, if_pos hle]

theorem le_of_numericEscape? (h : numericEscape? name = some n) : n ≤ maxCodePoint := by
  obtain ⟨-, -, -, -, hle⟩ := numericEscape?_eq_some_iff.1 h
  exact hle

/-- No name of a character is a numeral. -/
theorem EscapeNumeral.namedEscape?_eq (h : EscapeNumeral name base ds) :
    namedEscape? name = none := by
  have hnames : ∀ row ∈ escapeNames, escapeNumber? (ofString row.1) = none := by decide +kernel
  rw [namedEscape?, Option.map_eq_none_iff, List.find?_eq_none]
  intro row hrow hname
  have hnumber := hnames row hrow
  rw [eq_of_beq hname, h.escapeNumber?_eq] at hnumber
  cases hnumber

end Forms

/-! ## Numerals read into doubles -/

/-- The digits `ds'` may be taken for the digits `ds` of a base: they are the same, or the base is
ten and some digits behind the twentieth significant one are taken for zeros. -/
inductive ReadAs : Nat → List Nat → List Nat → Prop where
  | whole (base : Nat) (ds : List Nat) : ReadAs base ds ds
  | shortened (zeros first : Nat) {kept rest rest' : List Nat} :
      0 < first → kept.length = 19 → List.Forall₂ (fun d d' => d' = d ∨ d' = 0) rest rest' →
        ReadAs 10 (List.replicate zeros 0 ++ first :: kept ++ rest)
          (List.replicate zeros 0 ++ first :: kept ++ rest')

/-- What the bounds check lets through of a number read into a double. -/
def bounded? (x : Float) : Option Float :=
  if x ≤ Double.nearest maxCodePoint then some x else none

section Doubles

variable {name : Text} {base n : Nat} {ds ds' : List Nat}

/-- The check compares doubles as it would compare the numbers. -/
theorem bounded?_nearest (n : Nat) :
    bounded? (Double.nearest n)
      = if n ≤ maxCodePoint then some (Double.nearest n) else none := by
  have hiff : Double.nearest n ≤ Double.nearest maxCodePoint ↔ n ≤ maxCodePoint :=
    Double.nearest_le_nearest_iff (by decide) (by decide)
  rw [bounded?]
  exact if_congr hiff rfl rfl

/-- Twenty significant digits are out of bounds, whatever follows them. -/
theorem maxCodePoint_lt_positional (zeros first : Nat) {kept : List Nat} (rest : List Nat)
    (hfirst : 0 < first) (hkept : kept.length = 19) :
    maxCodePoint < positional 10 (List.replicate zeros 0 ++ first :: kept ++ rest) := by
  have hplaces : 10 ^ 19 ≤ positional 10 (first :: kept) := by
    rw [positional_cons, hkept]
    omega
  calc maxCodePoint < 10 ^ 19 := by decide
    _ ≤ positional 10 (first :: kept) := hplaces
    _ ≤ positional 10 (List.replicate zeros 0 ++ first :: kept) := by
        rw [positional_append]
        exact Nat.le_add_left _ _
    _ ≤ positional 10 (List.replicate zeros 0 ++ first :: kept) * 10 ^ rest.length :=
        Nat.le_mul_of_pos_right _ (Nat.pow_pos (by decide))
    _ ≤ positional 10 (List.replicate zeros 0 ++ first :: kept ++ rest) := by
        rw [positional_append _ rest]
        exact Nat.le_add_right _ _

theorem bounded?_of_readAs (h : ReadAs base ds ds') :
    bounded? (Double.nearest (positional base ds'))
      = if positional base ds ≤ maxCodePoint then some (Double.nearest (positional base ds))
        else none := by
  cases h with
  | whole => exact bounded?_nearest _
  -- With digits left out it is another double, but neither number is within the bounds.
  | shortened zeros first hfirst hkept _ =>
    rw [bounded?_nearest,
      if_neg (Nat.not_le.2 (maxCodePoint_lt_positional zeros first _ hfirst hkept)),
      if_neg (Nat.not_le.2 (maxCodePoint_lt_positional zeros first _ hfirst hkept))]

end Doubles

/-! ## Exact values at every length -/

/-- A numeric escape is worth exactly its positional value, however long it is and though the
value is computed as a double, as long as there is such a code point; no other code point gets
as far as making a character, and a numeral beyond the last one stands for nothing, not for a
name. -/
theorem numericEscape?_exact (name : Text) :
    (∀ n, numericEscape? name = some n ↔
      ∃ base ds, EscapeNumeral name base ds ∧ n = positional base ds ∧ n ≤ maxCodePoint)
    ∧ (∀ base ds ds', EscapeNumeral name base ds → ReadAs base ds ds' →
        bounded? (Double.nearest (positional base ds'))
          = (numericEscape? name).map Double.nearest)
    ∧ (∀ n, numericEscape? name = some n → (Double.nearest n).toUInt32.toNat = n)
    ∧ resolveEscape? name = some (escapeText? name)
    ∧ (∀ text, escapeText? name = some text →
        (∃ n ≤ maxCodePoint, numericEscape? name = some n ∧ text = ofCodePoint n)
          ∨ (¬ ∃ base ds, EscapeNumeral name base ds) ∧ namedEscape? name = some text)
    ∧ (∀ base ds, EscapeNumeral name base ds → maxCodePoint < positional base ds →
        numericEscape? name = none ∧ escapeText? name = none) := by
  refine ⟨fun n => numericEscape?_eq_some_iff, ?_, ?_, resolveEscape?_eq name, ?_, ?_⟩
  · intro base ds ds' h hread
    rw [bounded?_of_readAs hread, h.numericEscape?_eq]
    split <;> rfl
  · intro n hn
    exact Double.toUInt32_nearest (Nat.lt_of_le_of_lt (le_of_numericEscape? hn) (by decide))
  · intro text htext
    rw [escapeText?] at htext
    split at htext
    · rename_i n hn
      exact .inl ⟨n, le_of_numericEscape? hn, hn, (Option.some_inj.1 htext).symm⟩
    · refine .inr ⟨?_, htext⟩
      rintro ⟨base, ds, h⟩
      rw [h.namedEscape?_eq] at htext
      cases htext
  · intro base ds h hlarge
    have hnone : numericEscape? name = none := by
      rw [h.numericEscape?_eq, if_neg (Nat.not_le.2 hlarge)]
    refine ⟨hnone, ?_⟩
    rw [escapeText?, hnone]
    exact h.namedEscape?_eq

/-- The last code point has a number; a numeral of 21 digits is none, also if its last digit is
not read. -/
theorem numericEscape?_exact_limits :
    numericEscape? (ofString "0x10ffFF") = some maxCodePoint
    ∧ bounded? (Double.nearest (positional 10 ([1] ++ List.replicate 20 0))) = none
    ∧ escapeText? (ofString "100000000000000000009") = none := by
  have hlast : EscapeNumeral (ofString "0x10ffFF") 16 [1, 0, 15, 15, 15, 15] :=
    .hexadecimal (.inl rfl) (by decide) (by decide)
  have hlong : EscapeNumeral (ofString "100000000000000000009") 10
      ([1] ++ List.replicate 19 0 ++ [9]) :=
    .decimal (by decide) (by decide) (by rintro rest ⟨⟩)
  have hread : ReadAs 10 ([1] ++ List.replicate 19 0 ++ [9]) ([1] ++ List.replicate 20 0) :=
    .shortened 0 1 (by decide) rfl (.cons (.inr rfl) .nil)
  obtain ⟨hvalue, -⟩ := numericEscape?_exact (ofString "0x10ffFF")
  obtain ⟨-, hcomputed, -, -, -, hbeyond⟩ :=
    numericEscape?_exact (ofString "100000000000000000009")
  obtain ⟨hnone, htext⟩ := hbeyond _ _ hlong (by decide +kernel)
  refine ⟨(hvalue _).2 ⟨16, _, hlast, by decide, by decide⟩, ?_, htext⟩
  rw [hcomputed _ _ _ hlong hread, hnone]
  rfl

end PodLoom.Pod
