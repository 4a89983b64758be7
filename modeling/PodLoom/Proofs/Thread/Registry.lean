import Mathlib.Data.List.Induction
import Mathlib.Data.List.Nodup
import Mathlib.Data.List.Perm.Subperm
import PodLoom.Proofs.Text.Keyed
import PodLoom.Thread.Section

set_option autoImplicit false

/-!
# Registering sections

A registration never gives an anchor twice (`nodup_used_registerAll`).  When no two
headings are supplied the same anchor, the anchor that a heading has been promised is
the one it gets, and no other heading gets it (`Faithful`).

Anchors that are made up count from one as long as the supplied ones keep step
(`Numbered`).  The anchor mapping of a registry holds the headings where they are first
met (`anchorMap_eq`), so a registry that is supplied with the mapping of another gives
the same anchors exactly if the headings are first met at the same places in both
(`numbered_iff`).
-/

namespace PodLoom.Thread

open Text CodeUnit

/-! ## Made-up anchors -/

/-- The character of a unit of the basic plane. -/
def character (u : CodeUnit) : Char := Char.ofNat u.toNat

theorem digit_bounds {n : Nat} {c : Char} (hc : c ∈ Nat.toDigits 10 n) :
    48 ≤ c.toNat ∧ c.toNat ≤ 57 := by
  have hdigit := Nat.isDigit_of_mem_toDigits (by decide) (by decide) hc
  simp only [Char.isDigit, Bool.and_eq_true, decide_eq_true_eq, ge_iff_le,
    UInt32.le_iff_toNat_le] at hdigit
  exact hdigit

theorem toNat_ofChar {c : Char} (h : c.toNat < 65536) : (ofChar c).toNat = c.toNat := by
  rw [CodeUnit.ofChar, Nat.toUInt16, UInt16.toNat_ofNat', Nat.mod_eq_of_lt h]

theorem map_character_ofNat (n : Nat) : (ofNat n).map character = Nat.toDigits 10 n := by
  have hdigit : ∀ c ∈ Nat.toDigits 10 n, character (ofChar c) = c := by
    intro c hc
    have := digit_bounds hc
    rw [character, toNat_ofChar (by omega), Char.ofNat_toNat]
  rw [ofNat, List.map_map]
  exact (List.map_congr_left hdigit).trans (List.map_id _)

theorem isDigit_of_mem_ofNat {n : Nat} {u : CodeUnit} (h : u ∈ ofNat n) : u.isDigit = true := by
  obtain ⟨c, hc, rfl⟩ := List.mem_map.1 h
  have hbounds := digit_bounds hc
  simp only [CodeUnit.isDigit, Bool.and_eq_true, decide_eq_true_eq, UInt16.le_iff_toNat_le,
    toNat_ofChar (show c.toNat < 65536 by omega)]
  exact hbounds

theorem ofNat_injective {m n : Nat} (h : ofNat m = ofNat n) : m = n := by
  calc
    m = Nat.ofDigitChars 10 ((ofNat m).map character) 0 := by
      rw [map_character_ofNat, Nat.ofDigitChars_ten_toDigits]
    _ = Nat.ofDigitChars 10 ((ofNat n).map character) 0 := by rw [h]
    _ = n := by rw [map_character_ofNat, Nat.ofDigitChars_ten_toDigits]

theorem numberedAnchor_injective {m n : Nat} (h : numberedAnchor m = numberedAnchor n) : m = n :=
  ofNat_injective (List.cons.inj h).2

theorem isAnchor_numberedAnchor (n : Nat) : isAnchor (numberedAnchor n) = true := rfl

namespace Registry

/-- There are more candidates than taken anchors, and no two have the same anchor, so one
of them is free. -/
theorem exists_free (r : Registry) :
    ∃ i ∈ List.range (r.taken.length + 1), numberedAnchor (r.counter + 1 + i) ∉ r.taken := by
  by_contra hnone
  let candidates := (List.range (r.taken.length + 1)).map fun i =>
    numberedAnchor (r.counter + 1 + i)
  have hnodup : candidates.Nodup := by
    refine List.Nodup.map ?_ List.nodup_range
    intro i j hij
    have := numberedAnchor_injective hij
    omega
  have hsub : candidates ⊆ r.taken := by
    intro a ha
    obtain ⟨i, hi, rfl⟩ := List.mem_map.1 ha
    by_contra hfree
    exact hnone ⟨i, hi, hfree⟩
  have hlength : candidates.length ≤ r.taken.length := (hnodup.subperm hsub).length_le
  simp only [candidates, List.length_map, List.length_range] at hlength
  omega

/-- The next number is the first after the last one whose anchor is free. -/
theorem nextNumber_spec (r : Registry) :
    r.counter < r.nextNumber ∧ numberedAnchor r.nextNumber ∉ r.taken
      ∧ ∀ n, r.counter < n → n < r.nextNumber → numberedAnchor n ∈ r.taken := by
  have hnext : r.nextNumber = ((((List.range (r.taken.length + 1)).find? fun i =>
      !r.taken.contains (numberedAnchor (r.counter + 1 + i))).map (r.counter + 1 + ·)).getD
        (r.counter + 1)) := by
    rw [nextNumber, List.find?_map]
    rfl
  cases hfound : (List.range (r.taken.length + 1)).find? fun i =>
      !r.taken.contains (numberedAnchor (r.counter + 1 + i)) with
  | none =>
    obtain ⟨i, hi, hfree⟩ := r.exists_free
    have htaken := List.find?_eq_none.1 hfound i hi
    simp [hfree] at htaken
  | some i =>
    rw [hnext, hfound]
    obtain ⟨hfree, -, hbefore⟩ := List.find?_range_eq_some.1 hfound
    simp only [Option.map_some, Option.getD_some]
    refine ⟨by omega, by simpa using hfree, ?_⟩
    intro n hlow hhigh
    have htaken := hbefore (n - (r.counter + 1)) (by omega)
    rw [show r.counter + 1 + (n - (r.counter + 1)) = n by omega] at htaken
    simpa using htaken

theorem nextNumber_eq {r : Registry} {n : Nat} (hlow : r.counter < n)
    (hfree : numberedAnchor n ∉ r.taken)
    (htaken : ∀ m, r.counter < m → m < n → numberedAnchor m ∈ r.taken) : r.nextNumber = n := by
  obtain ⟨hlow', hfree', htaken'⟩ := r.nextNumber_spec
  rcases Nat.lt_trichotomy r.nextNumber n with h | h | h
  · exact absurd (htaken _ hlow' h) hfree'
  · exact h
  · exact absurd (htaken' n hlow h) hfree

/-! ## Supplied anchors -/

/-- A registry is made with the supplied mapping in key order, unless one of its anchors is
none. -/
theorem create_cases (anchors : List (Text × Text)) :
    (∃ heading anchor, (heading, anchor) ∈ Keyed.inOrder anchors ∧ isAnchor anchor = false
        ∧ create anchors = .error (.invalidAnchor anchor heading))
      ∨ ((∀ pair ∈ Keyed.inOrder anchors, isAnchor pair.2 = true)
        ∧ create anchors = .ok { empty with supplied := Keyed.inOrder anchors }) := by
  cases hfound : (Keyed.inOrder anchors).find? fun pair => !isAnchor pair.2 with
  | some pair =>
    have hpair := List.find?_some hfound
    refine .inl ⟨pair.1, pair.2, List.mem_of_find?_eq_some hfound, by simpa using hpair, ?_⟩
    simp only [create, hfound]
  | none =>
    have hall := List.find?_eq_none.1 hfound
    refine .inr ⟨fun pair hpair => by simpa using hall pair hpair, ?_⟩
    simp only [create, hfound]

theorem eq_of_create {anchors : List (Text × Text)} {r : Registry} (h : create anchors = .ok r) :
    r = { empty with supplied := Keyed.inOrder anchors } := by
  rcases create_cases anchors with ⟨heading, anchor, -, -, herror⟩ | ⟨-, hok⟩
  · rw [herror] at h
    cases h
  · rw [hok] at h
    exact (Except.ok.inj h).symm

/-! ## One registration -/

/-- The headings of the registered sections, without formatting. -/
def texts (r : Registry) : List Text := r.sections.map (·.text)

/-- A registration takes the supplied anchor of the heading if it is free, and makes one
up if there is none or it is used. -/
theorem register_cases (r : Registry) (text label : Text) :
    (∃ anchor, Keyed.find? text r.supplied = some anchor ∧ anchor ∉ r.used
        ∧ r.register text label
          = (anchor, { r with sections := r.sections ++ [⟨text, label, anchor⟩] }))
      ∨ ((∀ anchor, Keyed.find? text r.supplied = some anchor → anchor ∈ r.used)
        ∧ r.register text label
          = (numberedAnchor r.nextNumber,
            { r with
              sections := r.sections ++ [⟨text, label, numberedAnchor r.nextNumber⟩]
              counter := r.nextNumber })) := by
  unfold register
  cases hfind : Keyed.find? text r.supplied with
  | none => exact .inr ⟨by simp, rfl⟩
  | some anchor =>
    by_cases hused : anchor ∈ r.used
    · refine .inr ⟨by simpa using hused, ?_⟩
      simp [Option.filter, hused]
    · refine .inl ⟨anchor, rfl, hused, ?_⟩
      simp [Option.filter, hused]

theorem sections_register (r : Registry) (text label : Text) :
    (r.register text label).2.sections
      = r.sections ++ [⟨text, label, (r.register text label).1⟩] := by
  rcases r.register_cases text label with ⟨anchor, -, -, h⟩ | ⟨-, h⟩ <;> rw [h]

theorem supplied_register (r : Registry) (text label : Text) :
    (r.register text label).2.supplied = r.supplied := by
  rcases r.register_cases text label with ⟨anchor, -, -, h⟩ | ⟨-, h⟩ <;> rw [h]

theorem used_register (r : Registry) (text label : Text) :
    (r.register text label).2.used = r.used ++ [(r.register text label).1] := by
  rw [used, sections_register, List.map_append]
  rfl

/-- The anchor of a registration is a new one. -/
theorem register_not_mem_used (r : Registry) (text label : Text) :
    (r.register text label).1 ∉ r.used := by
  rcases r.register_cases text label with ⟨anchor, -, hfree, h⟩ | ⟨-, h⟩
  · rw [h]
    exact hfree
  · rw [h]
    exact fun hmem => r.nextNumber_spec.2.1 (List.mem_append_left _ hmem)

/-! ## Many registrations -/

/-- Register headings in order, each with its label. -/
def registerAll (r : Registry) (headings : List (Text × Text)) : Registry :=
  headings.foldl (fun r h => (r.register h.1 h.2).2) r

theorem registerAll_cons (r : Registry) (text label : Text) (rest : List (Text × Text)) :
    r.registerAll ((text, label) :: rest) = (r.register text label).2.registerAll rest := rfl

theorem registerAll_append (r : Registry) (headings more : List (Text × Text)) :
    r.registerAll (headings ++ more) = (r.registerAll headings).registerAll more :=
  List.foldl_append

/-- What one registration keeps, many do. -/
theorem registerAll_keeps {P : Registry → Prop}
    (hstep : ∀ r text label, P r → P (r.register text label).2) {r : Registry}
    (hr : P r) (headings : List (Text × Text)) : P (r.registerAll headings) := by
  induction headings generalizing r with
  | nil => exact hr
  | cons heading rest ih => exact ih (hstep r heading.1 heading.2 hr)

theorem supplied_registerAll (r : Registry) (headings : List (Text × Text)) :
    (r.registerAll headings).supplied = r.supplied :=
  registerAll_keeps (P := fun r' => r'.supplied = r.supplied)
    (fun r' text label h => (supplied_register r' text label).trans h) rfl headings

/-- Registered sections stay, and the new ones come behind them. -/
theorem exists_sections_registerAll (r : Registry) (headings : List (Text × Text)) :
    ∃ more, (r.registerAll headings).sections = r.sections ++ more :=
  registerAll_keeps (P := fun r' => ∃ more, r'.sections = r.sections ++ more)
    (fun r' text label h => by
      obtain ⟨more, hmore⟩ := h
      exact ⟨more ++ [⟨text, label, (r'.register text label).1⟩],
        by rw [sections_register, hmore, List.append_assoc]⟩)
    ⟨[], (List.append_nil _).symm⟩ headings

theorem nodup_used_register {r : Registry} (h : r.used.Nodup) (text label : Text) :
    (r.register text label).2.used.Nodup := by
  rw [used_register]
  refine List.nodup_append.2 ⟨h, by simp, ?_⟩
  intro a ha b hb
  obtain rfl := List.mem_singleton.1 hb
  rintro rfl
  exact register_not_mem_used r text label ha

/-- No anchor is given twice. -/
theorem nodup_used_registerAll {r : Registry} (h : r.used.Nodup)
    (headings : List (Text × Text)) : (r.registerAll headings).used.Nodup :=
  registerAll_keeps (P := fun r => r.used.Nodup)
    (fun _ text label h => nodup_used_register h text label) h headings

/-! ## All anchors -/

/-- All anchors, those that are supplied and those of the sections, have a property. -/
structure AllAnchors (P : Text → Prop) (r : Registry) : Prop where
  supplied : ∀ pair ∈ r.supplied, P pair.2
  anchors : ∀ s ∈ r.sections, P s.anchor

namespace AllAnchors

variable {P : Text → Prop} {r : Registry}

theorem register (hnumbered : ∀ n, P (numberedAnchor n)) (h : r.AllAnchors P)
    (text label : Text) : (r.register text label).2.AllAnchors P := by
  have hanchor : P (r.register text label).1 := by
    rcases r.register_cases text label with ⟨anchor, hfind, -, hr⟩ | ⟨-, hr⟩
    · rw [hr]
      exact h.supplied _ (Keyed.mem_of_find? hfind)
    · rw [hr]
      exact hnumbered _
  refine ⟨?_, fun s hs => ?_⟩
  · rw [supplied_register]
    exact h.supplied
  · rw [sections_register] at hs
    rcases List.mem_append.1 hs with hs | hs
    · exact h.anchors s hs
    · obtain rfl := List.mem_singleton.1 hs
      exact hanchor

theorem registerAll (hnumbered : ∀ n, P (numberedAnchor n)) (h : r.AllAnchors P)
    (headings : List (Text × Text)) : (r.registerAll headings).AllAnchors P :=
  registerAll_keeps (P := AllAnchors P) (fun _ text label h => h.register hnumbered text label) h
    headings

theorem of_lookup (h : r.AllAnchors P) {t anchor : Text} (hlookup : r.lookup t = some anchor) :
    P anchor := by
  unfold lookup at hlookup
  split at hlookup
  · rename_i s hfound
    cases hlookup
    exact h.anchors s (List.mem_of_find?_eq_some hfound)
  · exact h.supplied _ (Keyed.mem_of_find? hlookup)

end AllAnchors

/-- A heading has an anchor if it is registered or supplied with one. -/
theorem exists_lookup_iff {r : Registry} {t : Text} :
    (∃ anchor, r.lookup t = some anchor) ↔ t ∈ r.texts ∨ t ∈ Keyed.keys r.supplied := by
  unfold lookup texts
  split
  · rename_i s hfound
    have htext : s.text = t := by simpa using List.find?_some hfound
    exact ⟨fun _ => .inl (List.mem_map.2 ⟨s, List.mem_of_find?_eq_some hfound, htext⟩),
      fun _ => ⟨s.anchor, rfl⟩⟩
  · rename_i hnone
    have hunregistered : t ∉ r.sections.map (·.text) := by
      intro hmem
      obtain ⟨s, hs, rfl⟩ := List.mem_map.1 hmem
      simpa using List.find?_eq_none.1 hnone s hs
    rw [or_iff_right hunregistered, ← not_iff_not, ← Keyed.find?_eq_none_iff,
      Option.eq_none_iff_forall_ne_some, not_exists]

/-! ## Promised anchors -/

/-- The anchors supplied to a registry are each promised to one heading, and the
promises are kept: the first section of a heading has the anchor supplied for it, and
no other heading has that anchor. -/
structure Faithful (r : Registry) : Prop where
  distinct : ∀ {t t' anchor : Text}, Keyed.find? t r.supplied = some anchor →
    Keyed.find? t' r.supplied = some anchor → t = t'
  nodup : r.used.Nodup
  owner : ∀ s ∈ r.sections, ∀ t, Keyed.find? t r.supplied = some s.anchor → s.text = t
  kept : ∀ {t anchor : Text} {s : Section}, Keyed.find? t r.supplied = some anchor →
    r.sections.find? (·.text == t) = some s → s.anchor = anchor

theorem find?_sections_concat (sections : List Section) (s : Section) (t : Text) :
    (sections ++ [s]).find? (·.text == t)
      = (sections.find? (·.text == t)).or (if s.text = t then some s else none) := by
  rw [List.find?_append]
  congr 1
  by_cases h : s.text = t <;> simp [h]

/-- Whoever is supplied with the anchor that a heading gets is that heading. -/
theorem Faithful.owner_register {r : Registry} (h : r.Faithful) {text label t : Text}
    (ht : Keyed.find? t r.supplied = some (r.register text label).1) : text = t := by
  rcases r.register_cases text label with ⟨anchor, hfind, -, hr⟩ | ⟨-, hr⟩
  · rw [hr] at ht
    exact h.distinct hfind ht
  · rw [hr] at ht
    have hmem := List.mem_map_of_mem (f := (·.2)) (Keyed.mem_of_find? ht)
    exact absurd (List.mem_append_right r.used hmem) r.nextNumber_spec.2.1

/-- A heading without a section gets the anchor supplied for it. -/
theorem Faithful.register_of_not_mem {r : Registry} (h : r.Faithful) {text anchor : Text}
    (label : Text) (hfind : Keyed.find? text r.supplied = some anchor)
    (hnew : r.sections.find? (·.text == text) = none) : (r.register text label).1 = anchor := by
  rcases r.register_cases text label with ⟨anchor', hfind', -, hr⟩ | ⟨hused, -⟩
  · rw [hr]
    rw [hfind'] at hfind
    exact Option.some.inj hfind
  · -- The promised anchor would be used by its owner, who is not registered.
    obtain ⟨s, hs, rfl⟩ := List.mem_map.1 (hused anchor hfind)
    have hnone := List.find?_eq_none.1 hnew s hs
    exact absurd (h.owner s hs text hfind) (by simpa using hnone)

theorem faithful_register {r : Registry} (h : r.Faithful) (text label : Text) :
    (r.register text label).2.Faithful := by
  have hsupplied := supplied_register r text label
  have hsections := sections_register r text label
  refine ⟨?_, nodup_used_register h.nodup text label, ?_, ?_⟩
  · rw [hsupplied]
    exact h.distinct
  · rw [hsupplied, hsections]
    intro s hs t ht
    rcases List.mem_append.1 hs with hs | hs
    · exact h.owner s hs t ht
    · obtain rfl := List.mem_singleton.1 hs
      exact h.owner_register ht
  · rw [hsupplied, hsections]
    intro t anchor s ht hs
    rw [find?_sections_concat] at hs
    cases hfound : r.sections.find? (·.text == t) with
    | some s' =>
      rw [hfound] at hs
      cases hs
      exact h.kept ht hfound
    | none =>
      rw [hfound, Option.none_or] at hs
      split at hs
      · rename_i htext
        cases hs
        obtain rfl : text = t := htext
        exact h.register_of_not_mem label ht hfound
      · cases hs

theorem faithful_registerAll {r : Registry} (h : r.Faithful) (headings : List (Text × Text)) :
    (r.registerAll headings).Faithful :=
  registerAll_keeps (P := Faithful) (fun _ text label h => faithful_register h text label) h
    headings

/-- A registry with nothing registered keeps its promises, if they are to different
headings. -/
theorem faithful_start {supplied : List (Text × Text)}
    (hvalues : (supplied.map (·.2)).Nodup) : Faithful { empty with supplied } := by
  refine ⟨?_, List.nodup_nil, by simp [empty], by simp [empty]⟩
  intro t t' anchor ht ht'
  have hmem := Keyed.mem_of_find? ht
  have hmem' := Keyed.mem_of_find? ht'
  exact congrArg Prod.fst (List.inj_on_of_nodup_map hvalues hmem hmem' rfl)

/-- A heading that was looked up is found under its anchor once all are registered: its
first section has that anchor, and no other section does.  If the heading is never
registered, no section has that anchor. -/
theorem Faithful.lookup_registerAll {r : Registry} (h : r.Faithful) {t anchor : Text}
    (hlookup : r.lookup t = some anchor) (headings : List (Text × Text)) :
    (∃ s, (r.registerAll headings).sections.find? (·.text == t) = some s ∧ s.anchor = anchor
        ∧ ∀ s' ∈ (r.registerAll headings).sections, s'.anchor = anchor → s' = s)
      ∨ t ∉ (r.registerAll headings).texts
        ∧ ∀ s' ∈ (r.registerAll headings).sections, s'.anchor ≠ anchor := by
  have hfinal := faithful_registerAll h headings
  obtain ⟨more, hmore⟩ := exists_sections_registerAll r headings
  have hsupplied := supplied_registerAll r headings
  have hunique : ∀ {s s' : Section}, s ∈ (r.registerAll headings).sections →
      s' ∈ (r.registerAll headings).sections → s'.anchor = s.anchor → s' = s := fun hs hs' heq =>
    List.inj_on_of_nodup_map hfinal.nodup hs' hs heq
  unfold lookup at hlookup
  cases hfound : r.sections.find? (·.text == t) with
  | some s =>
    rw [hfound] at hlookup
    cases hlookup
    have hfirst : (r.registerAll headings).sections.find? (·.text == t) = some s := by
      rw [hmore, List.find?_append, hfound]
      rfl
    exact .inl ⟨s, hfirst, rfl, fun s' hs' => hunique (List.mem_of_find?_eq_some hfirst) hs'⟩
  | none =>
    rw [hfound] at hlookup
    have hpromised : Keyed.find? t (r.registerAll headings).supplied = some anchor := by
      rw [hsupplied]
      exact hlookup
    cases hlast : (r.registerAll headings).sections.find? (·.text == t) with
    | some s =>
      have hanchor := hfinal.kept hpromised hlast
      refine .inl ⟨s, rfl, hanchor, ?_⟩
      intro s' hs' heq
      exact hunique (List.mem_of_find?_eq_some hlast) hs' (heq.trans hanchor.symm)
    | none =>
      have hnone := List.find?_eq_none.1 hlast
      refine .inr ⟨?_, ?_⟩
      · intro hmem
        obtain ⟨s, hs, rfl⟩ := List.mem_map.1 hmem
        simpa using hnone s hs
      · rintro s hs rfl
        have htext := hfinal.owner s hs t hpromised
        exact absurd htext (by simpa using hnone s hs)

/-- The anchor that the first section of a heading gets in the end is looked up under that heading
and no other, and is there as soon as the heading has any. -/
theorem Faithful.lookup_eq_anchor_iff {r : Registry} (h : r.Faithful)
    {headings : List (Text × Text)} {t name : Text} {s : Section}
    (hfirst : (r.registerAll headings).sections.find? (·.text == t) = some s) :
    r.lookup name = some s.anchor ↔ name = t ∧ ∃ anchor, r.lookup t = some anchor := by
  have hmem := List.mem_of_find?_eq_some hfirst
  have htext : s.text = t := by simpa using List.find?_some hfirst
  constructor
  · intro hlookup
    rcases h.lookup_registerAll hlookup headings with ⟨s', hfirst', -, hunique⟩ | ⟨-, hnone⟩
    · obtain rfl := hunique s hmem rfl
      have hname : s.text = name := by simpa using List.find?_some hfirst'
      obtain rfl : name = t := hname.symm.trans htext
      exact ⟨rfl, _, hlookup⟩
    · exact absurd rfl (hnone s hmem)
  · rintro ⟨rfl, anchor, hlookup⟩
    rcases h.lookup_registerAll hlookup headings with ⟨s', hfirst', rfl, -⟩ | ⟨hnone, -⟩
    · obtain rfl := Option.some.inj (hfirst.symm.trans hfirst')
      exact hlookup
    · exact absurd (List.mem_map.2 ⟨s, hmem, htext⟩) hnone

/-! ## Counting from one -/

/-- The anchors `S1`, `S2` and so on. -/
def numbering (n : Nat) : List Text := (List.range n).map fun i => numberedAnchor (i + 1)

theorem numbering_succ (n : Nat) : numbering (n + 1) = numbering n ++ [numberedAnchor (n + 1)] := by
  rw [numbering, List.range_succ, List.map_append]
  rfl

theorem mem_numbering {n m : Nat} : numberedAnchor (m + 1) ∈ numbering n ↔ m < n := by
  constructor
  · intro h
    obtain ⟨i, hi, heq⟩ := List.mem_map.1 h
    have := numberedAnchor_injective heq
    have := List.mem_range.1 hi
    omega
  · intro h
    exact List.mem_map.2 ⟨m, List.mem_range.2 h, rfl⟩

/-- The registered sections have the anchors `S1`, `S2` and so on, in order. -/
structure Numbered (r : Registry) : Prop where
  used : r.used = numbering r.size
  counter : r.counter ≤ r.size

theorem size_register (r : Registry) (text label : Text) :
    (r.register text label).2.size = r.size + 1 := by
  rw [size, sections_register, List.length_append]
  rfl

/-- The numbering goes on if the supplied anchor is the next one, or if a new one is due
that is not supplied to another heading. -/
theorem numbered_register {r : Registry} (h : r.Numbered) {text : Text}
    (hnext : Keyed.find? text r.supplied = some (numberedAnchor (r.size + 1))
      ∨ (∀ anchor, Keyed.find? text r.supplied = some anchor → anchor ∈ r.used)
        ∧ numberedAnchor (r.size + 1) ∉ r.supplied.map (·.2)) (label : Text) :
    (r.register text label).2.Numbered := by
  have hfree : numberedAnchor (r.size + 1) ∉ r.used := by
    rw [h.used, mem_numbering]
    omega
  suffices hanchor : (r.register text label).1 = numberedAnchor (r.size + 1)
      ∧ (r.register text label).2.counter ≤ r.size + 1 by
    refine ⟨?_, ?_⟩
    · rw [used_register, size_register, h.used, numbering_succ, hanchor.1]
    · rw [size_register]
      exact hanchor.2
  have hcounter := h.counter
  rcases r.register_cases text label with ⟨anchor, hfind, hunused, hr⟩ | ⟨hused, hr⟩
  · rcases hnext with hnext | ⟨hnext, -⟩
    · rw [hr]
      rw [hfind] at hnext
      exact ⟨Option.some.inj hnext, by simp only; omega⟩
    · exact absurd (hnext anchor hfind) hunused
  · rcases hnext with hnext | ⟨-, hnext⟩
    · exact absurd (hused _ hnext) hfree
    · have hnumber : r.nextNumber = r.size + 1 := by
        refine nextNumber_eq (by omega) ?_ ?_
        · intro hmem
          rcases List.mem_append.1 hmem with hmem | hmem
          · exact hfree hmem
          · exact hnext hmem
        · intro m hlow hhigh
          refine List.mem_append_left _ ?_
          rw [h.used, show m = m - 1 + 1 by omega, mem_numbering]
          omega
      rw [hr, hnumber]
      exact ⟨rfl, Nat.le_refl _⟩

theorem numbered_start (supplied : List (Text × Text)) : Numbered { empty with supplied } :=
  ⟨rfl, Nat.le_refl 0⟩

/-- Without supplied anchors the sections are numbered. -/
theorem numbered_registerAll_empty (headings : List (Text × Text)) :
    (empty.registerAll headings).Numbered := by
  have hboth := registerAll_keeps (P := fun r => r.supplied = [] ∧ r.Numbered)
    (fun r text label ⟨hnone, h⟩ => ⟨(supplied_register r text label).trans hnone,
      numbered_register h (.inr (by simp [hnone, Keyed.find?_nil])) label⟩)
    ⟨rfl, numbered_start []⟩ headings
  exact hboth.2

/-! ## The anchor mapping -/

/-- The texts that an anchor mapping can hold, each with the place where it is first
met. -/
def firstMet (texts : List Text) : List (Text × Nat) :=
  texts.zipIdx.filter fun (t, i) => t != unmappable && !(texts.take i).contains t

theorem mem_firstMet {texts : List Text} {t : Text} {i : Nat} :
    (t, i) ∈ firstMet texts ↔ texts[i]? = some t ∧ t ≠ unmappable ∧ t ∉ texts.take i := by
  simp [firstMet, List.mem_filter, List.mem_zipIdx_iff_getElem?]

theorem firstMet_concat (texts : List Text) (t : Text) :
    firstMet (texts ++ [t])
      = firstMet texts ++ if t ≠ unmappable ∧ t ∉ texts then [(t, texts.length)] else [] := by
  unfold firstMet
  rw [List.zipIdx_append, List.filter_append]
  congr 1
  · refine List.filter_congr ?_
    rintro ⟨u, i⟩ hmem
    have hlt := (List.mem_zipIdx hmem).2.1
    have htake : (texts ++ [t]).take i = texts.take i :=
      List.take_append_of_le_length (by omega)
    simp only [htake]
  · by_cases hnew : t ≠ unmappable ∧ t ∉ texts
    · simp [hnew]
    · rw [if_neg hnew]
      have : ¬ (t ≠ unmappable ∧ t ∉ texts.take texts.length) := by rwa [List.take_length]
      simpa [List.filter_cons] using this

theorem keys_firstMet_nodup (texts : List Text) : ((firstMet texts).map (·.1)).Nodup := by
  induction texts using List.reverseRecOn with
  | nil => simp [firstMet]
  | append_singleton texts t ih =>
    rw [firstMet_concat, List.map_append]
    split
    · rename_i hnew
      refine List.nodup_append.2 ⟨ih, by simp, ?_⟩
      intro u hu v hv
      obtain rfl : v = t := by simpa using hv
      rintro rfl
      obtain ⟨⟨w, i⟩, hmem, rfl⟩ := List.mem_map.1 hu
      exact hnew.2 (List.mem_of_getElem? (mem_firstMet.1 hmem).1)
    · simpa using ih

/-- Every text that a mapping can hold is first met somewhere. -/
theorem exists_mem_firstMet {texts : List Text} {t : Text} (hmappable : t ≠ unmappable)
    (hmem : t ∈ texts) : ∃ i, (t, i) ∈ firstMet texts := by
  induction texts using List.reverseRecOn with
  | nil => cases hmem
  | append_singleton texts u ih =>
    rw [firstMet_concat]
    by_cases hearlier : t ∈ texts
    · obtain ⟨i, hi⟩ := ih hearlier
      exact ⟨i, List.mem_append_left _ hi⟩
    · obtain rfl : t = u := by simpa [hearlier] using hmem
      exact ⟨texts.length, by simp [hmappable, hearlier]⟩

theorem mem_keys_firstMet {texts : List Text} {t : Text} :
    t ∈ (firstMet texts).map (·.1) ↔ t ≠ unmappable ∧ t ∈ texts := by
  constructor
  · intro h
    obtain ⟨⟨u, i⟩, hui, rfl⟩ := List.mem_map.1 h
    obtain ⟨hget, hmappable, -⟩ := mem_firstMet.1 hui
    exact ⟨hmappable, List.mem_of_getElem? hget⟩
  · rintro ⟨hmappable, hmem⟩
    obtain ⟨i, hi⟩ := exists_mem_firstMet hmappable hmem
    exact List.mem_map.2 ⟨(t, i), hi, rfl⟩

/-- The pairs of a mapping whose anchors have the numbers of the places. -/
def numberedPairs (places : List (Text × Nat)) : List (Text × Text) :=
  places.map fun (t, i) => (t, numberedAnchor (i + 1))

theorem numberedPairs_append (places more : List (Text × Nat)) :
    numberedPairs (places ++ more) = numberedPairs places ++ numberedPairs more := List.map_append

theorem keys_numberedPairs (places : List (Text × Nat)) :
    Keyed.keys (numberedPairs places) = places.map (·.1) := by
  rw [Keyed.keys, numberedPairs, List.map_map]
  rfl

theorem numberedPairs_injective {places more : List (Text × Nat)}
    (h : numberedPairs places = numberedPairs more) : places = more := by
  refine List.map_injective_iff.2 ?_ h
  rintro ⟨t, i⟩ ⟨u, j⟩ heq
  obtain ⟨rfl, hanchor⟩ := Prod.mk.inj heq
  have := numberedAnchor_injective hanchor
  rw [show i = j by omega]

/-- The anchor mapping of a numbered registry: the headings where they are first met,
with the number of the place. -/
theorem anchorMap_eq {r : Registry} (h : r.used = numbering r.size) :
    r.anchorMap = numberedPairs (firstMet r.texts) := by
  unfold anchorMap texts
  unfold used size at h
  induction hsections : r.sections using List.reverseRecOn generalizing r with
  | nil => rfl
  | append_singleton earlier s ih =>
    rw [hsections, List.map_append, List.length_append, List.length_singleton,
      numbering_succ] at h
    obtain ⟨hearlier, hs⟩ := List.append_inj' h rfl
    have hanchor : s.anchor = numberedAnchor (earlier.length + 1) := (List.cons.inj hs).1
    have hmet : ((numberedPairs (firstMet (earlier.map (·.text)))).any (·.1 == s.text)) = true
        ↔ s.text ≠ unmappable ∧ s.text ∈ earlier.map (·.text) := by
      rw [← mem_keys_firstMet, ← keys_numberedPairs]
      simp [Keyed.keys]
    rw [List.foldl_append, ih (r := { r with sections := earlier }) hearlier rfl, List.map_append,
      List.map_singleton, firstMet_concat, numberedPairs_append, List.length_map]
    simp only [List.foldl_cons, List.foldl_nil]
    by_cases hnew : s.text ≠ unmappable ∧ s.text ∉ earlier.map (·.text)
    · rw [if_neg ?_, if_pos hnew, hanchor]
      · rfl
      · rintro (hun | hearlier)
        · exact hnew.1 hun
        · exact hnew.2 (hmet.1 hearlier).2
    · rw [if_pos ?_, if_neg hnew]
      · exact (List.append_nil _).symm
      · by_cases hun : s.text = unmappable
        · exact .inl hun
        · exact .inr (hmet.2 ⟨hun, by simpa [hun] using hnew⟩)

/-! ## A registry supplied with the mapping of another -/

/-- The registry that is supplied with the anchor mapping of places. -/
def suppliedWith (places : List (Text × Nat)) : Registry :=
  { empty with supplied := Keyed.inOrder (numberedPairs places) }

theorem supplied_perm {texts : List Text} :
    (suppliedWith (firstMet texts)).supplied.Perm (numberedPairs (firstMet texts)) :=
  Keyed.inOrder_perm_of_nodup (by rw [keys_numberedPairs]; exact keys_firstMet_nodup texts)

theorem allAnchors_suppliedWith {P : Text → Prop} (hnumbered : ∀ n, P (numberedAnchor n))
    (texts : List Text) : (suppliedWith (firstMet texts)).AllAnchors P := by
  refine ⟨?_, fun _ hs => (List.not_mem_nil hs).elim⟩
  intro pair hpair
  obtain ⟨place, -, rfl⟩ := List.mem_map.1 (supplied_perm.mem_iff.1 hpair)
  exact hnumbered _

theorem mem_keys_supplied {texts : List Text} {t : Text} :
    t ∈ Keyed.keys (suppliedWith (firstMet texts)).supplied ↔ t ≠ unmappable ∧ t ∈ texts := by
  rw [Keyed.keys, (supplied_perm.map (·.1)).mem_iff, ← Keyed.keys, keys_numberedPairs,
    mem_keys_firstMet]

theorem find?_supplied {texts : List Text} (t : Text) :
    Keyed.find? t (suppliedWith (firstMet texts)).supplied
      = Keyed.find? t (numberedPairs (firstMet texts)) :=
  Keyed.find?_inOrder (by rw [keys_numberedPairs]; exact keys_firstMet_nodup texts) t

/-- A mapping of places holds a heading exactly with the number of its place. -/
theorem find?_numberedPairs {texts : List Text} {t : Text} {i : Nat}
    (h : (t, i) ∈ firstMet texts) :
    Keyed.find? t (numberedPairs (firstMet texts)) = some (numberedAnchor (i + 1)) :=
  Keyed.find?_of_mem (by rw [keys_numberedPairs]; exact keys_firstMet_nodup texts)
    (List.mem_map.2 ⟨(t, i), h, rfl⟩)

/-- Every mapping of places can be supplied. -/
theorem create_numberedPairs (texts : List Text) :
    create (numberedPairs (firstMet texts)) = .ok (suppliedWith (firstMet texts)) := by
  rcases create_cases (numberedPairs (firstMet texts)) with
    ⟨heading, anchor, hmem, hnone, -⟩ | ⟨-, hok⟩
  · obtain ⟨⟨t, i⟩, -, hpair⟩ := List.mem_map.1 (supplied_perm.mem_iff.1 hmem)
    obtain ⟨-, rfl⟩ := Prod.mk.inj hpair
    rw [isAnchor_numberedAnchor] at hnone
    cases hnone
  · exact hok

theorem faithful_suppliedWith (texts : List Text) : (suppliedWith (firstMet texts)).Faithful := by
  refine faithful_start ?_
  have hvalues : ((numberedPairs (firstMet texts)).map (·.2)).Nodup := by
    rw [numberedPairs, List.map_map]
    refine List.Nodup.map_on ?_ (List.Nodup.of_map _ (keys_firstMet_nodup texts))
    rintro ⟨t, i⟩ hti ⟨u, j⟩ huj heq
    have hij := numberedAnchor_injective heq
    obtain rfl : i = j := by omega
    have hget := (mem_firstMet.1 hti).1
    rw [(mem_firstMet.1 huj).1] at hget
    rw [Option.some.inj hget]
  exact ((supplied_perm.map (·.2)).nodup_iff).2 hvalues

theorem texts_register (r : Registry) (text label : Text) :
    (r.register text label).2.texts = r.texts ++ [text] := by
  rw [texts, sections_register, List.map_append]
  rfl

theorem exists_first_of_mem_texts {r : Registry} {t : Text} (h : t ∈ r.texts) :
    ∃ s, r.sections.find? (·.text == t) = some s := by
  obtain ⟨s, hs, rfl⟩ := List.mem_map.1 h
  exact Option.isSome_iff_exists.1 (List.find?_isSome.2 ⟨s, hs, beq_self_eq_true s.text⟩)

theorem texts_registerAll (r : Registry) (headings : List (Text × Text)) :
    (r.registerAll headings).texts = r.texts ++ headings.map (·.1) := by
  induction headings generalizing r with
  | nil => simp [registerAll]
  | cons heading rest ih =>
    rw [registerAll_cons, ih, texts_register, List.append_assoc]
    rfl

/-- What a mapping of places promises a heading that is met behind others: the next
number if it is new, and else a number that is given already, while nobody is promised
the next one. -/
theorem find?_numberedPairs_cases {texts earlier later : List Text} {t : Text}
    (h : firstMet (earlier ++ t :: later) = firstMet texts) :
    Keyed.find? t (numberedPairs (firstMet texts)) = some (numberedAnchor (earlier.length + 1))
      ∨ (∀ anchor, Keyed.find? t (numberedPairs (firstMet texts)) = some anchor →
          anchor ∈ numbering earlier.length)
        ∧ numberedAnchor (earlier.length + 1) ∉ (numberedPairs (firstMet texts)).map (·.2) := by
  have hget : (earlier ++ t :: later)[earlier.length]? = some t := by simp
  have htake : (earlier ++ t :: later).take earlier.length = earlier := by simp
  by_cases hnew : t ≠ unmappable ∧ t ∉ earlier
  · left
    refine find?_numberedPairs ?_
    rw [← h, mem_firstMet, htake]
    exact ⟨hget, hnew⟩
  · right
    constructor
    · intro anchor hanchor
      obtain ⟨⟨u, j⟩, hmem, hpair⟩ := List.mem_map.1 (Keyed.mem_of_find? hanchor)
      obtain ⟨rfl, rfl⟩ := Prod.mk.inj hpair
      rw [← h, mem_firstMet] at hmem
      obtain ⟨-, hmappable, hearlier⟩ := hmem
      have hmet : u ∈ earlier := by simpa [hmappable] using hnew
      rw [mem_numbering]
      by_contra hge
      refine hearlier (List.take_subset_take_left _ (Nat.le_of_not_lt hge) ?_)
      rw [htake]
      exact hmet
    · intro hmem
      obtain ⟨pair, hpair, hvalue⟩ := List.mem_map.1 hmem
      obtain ⟨⟨u, j⟩, hmet, rfl⟩ := List.mem_map.1 hpair
      obtain rfl : j = earlier.length := by
        have := numberedAnchor_injective hvalue
        omega
      rw [← h, mem_firstMet, hget, htake] at hmet
      obtain ⟨heq, hmappable, hearlier⟩ := hmet
      obtain rfl := Option.some.inj heq
      exact hnew ⟨hmappable, hearlier⟩

/-- Headings that are first met where the supplied mapping says are numbered. -/
theorem numbered_of_firstMet (texts : List Text) (headings : List (Text × Text))
    (h : firstMet (headings.map (·.1)) = firstMet texts) :
    ((suppliedWith (firstMet texts)).registerAll headings).Numbered := by
  -- By the headings registered so far, which are the first ones of all.
  suffices hprefix : ∀ first rest, headings = first ++ rest →
      ((suppliedWith (firstMet texts)).registerAll first).Numbered from
    hprefix headings [] (List.append_nil _).symm
  intro first
  induction first using List.reverseRecOn with
  | nil => exact fun _ _ => numbered_start _
  | append_singleton first heading ih =>
    obtain ⟨t, label⟩ := heading
    intro rest hheadings
    have hnumbered := ih ((t, label) :: rest) (by rw [hheadings]; simp)
    have hsize : ((suppliedWith (firstMet texts)).registerAll first).size
        = (first.map (·.1)).length := by
      have hlength := congrArg List.length (texts_registerAll (suppliedWith (firstMet texts)) first)
      simpa [Registry.texts, size, suppliedWith, empty] using hlength
    rw [registerAll_append]
    refine numbered_register hnumbered ?_ label
    rw [hheadings, List.append_assoc, List.map_append] at h
    rw [supplied_registerAll, find?_supplied, hnumbered.used, hsize,
      (supplied_perm.map (·.2)).mem_iff]
    exact find?_numberedPairs_cases h

/-- A registry that is supplied with the places of headings numbers its sections, and
has the same mapping, exactly if its headings are first met at those places. -/
theorem numbered_iff (texts : List Text) (headings : List (Text × Text)) :
    let r := (suppliedWith (firstMet texts)).registerAll headings
    r.used = numbering r.size ∧ r.anchorMap = numberedPairs (firstMet texts)
      ↔ firstMet r.texts = firstMet texts := by
  intro r
  constructor
  · rintro ⟨hused, hmap⟩
    rw [anchorMap_eq hused] at hmap
    exact numberedPairs_injective hmap
  · intro h
    have htexts : r.texts = headings.map (·.1) := texts_registerAll _ headings
    rw [htexts] at h
    have hused := (numbered_of_firstMet texts headings h).used
    refine ⟨hused, ?_⟩
    rw [anchorMap_eq hused]
    exact congrArg numberedPairs (htexts ▸ h)

end Registry

end PodLoom.Thread
