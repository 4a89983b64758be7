import PodLoom.Proofs.Thread.Registry
import PodLoom.Thread.Rendered

set_option autoImplicit false

/-!
# Lookups before and after registrations

A registry that is faithful to what it is supplied with never takes an answer back: an anchor
that a heading has been looked up with is found again after every registration
(`Faithful.lookup_register`), of that heading or another.  It is the anchor the heading gets when
it is registered, unless it was registered already, for then the anchor is used up.

A link can so be rendered before the heading it leads to (`lookup_stable`).
-/

namespace PodLoom.Thread

open Text CodeUnit

namespace Registry

/-! ## Registered and unregistered headings -/

theorem find?_sections_eq_none {r : Registry} {t : Text} (h : t ∉ r.texts) :
    r.sections.find? (·.text == t) = none := by
  refine List.find?_eq_none.2 fun s hs => ?_
  rw [beq_iff_eq]
  rintro rfl
  exact h (List.mem_map_of_mem hs)

/-- A heading that is not registered has the supplied anchor, if any. -/
theorem lookup_of_not_mem {r : Registry} {t : Text} (h : t ∉ r.texts) :
    r.lookup t = Keyed.find? t r.supplied := by
  rw [lookup, find?_sections_eq_none h]

/-- The anchor of a registered heading is used up. -/
theorem mem_used_of_lookup {r : Registry} {t anchor : Text} (hmem : t ∈ r.texts)
    (hlookup : r.lookup t = some anchor) : anchor ∈ r.used := by
  obtain ⟨s, hfound⟩ := exists_first_of_mem_texts hmem
  rw [lookup, hfound] at hlookup
  obtain rfl := Option.some.inj hlookup
  exact List.mem_map_of_mem (List.mem_of_find?_eq_some hfound)

/-! ## One registration -/

/-- A heading that is looked up with an anchor is given that anchor exactly if it is registered
for the first time. -/
theorem Faithful.register_eq_iff {r : Registry} (h : r.Faithful) {text anchor : Text}
    (hlookup : r.lookup text = some anchor) (label : Text) :
    (r.register text label).1 = anchor ↔ text ∉ r.texts := by
  constructor
  · rintro rfl hmem
    exact r.register_not_mem_used text label (mem_used_of_lookup hmem hlookup)
  · intro hnew
    rw [lookup_of_not_mem hnew] at hlookup
    exact h.register_of_not_mem label hlookup (find?_sections_eq_none hnew)

/-- A registration does not change what a heading is looked up with. -/
theorem Faithful.lookup_register {r : Registry} (h : r.Faithful) {t anchor : Text}
    (hlookup : r.lookup t = some anchor) (text label : Text) :
    (r.register text label).2.lookup t = some anchor := by
  by_cases hold : t ∈ r.texts
  · -- The first section of the heading stays the first.
    obtain ⟨s, hfound⟩ := exists_first_of_mem_texts hold
    rw [lookup, hfound] at hlookup
    rw [lookup, sections_register, find?_sections_concat, hfound]
    exact hlookup
  · have hnone := find?_sections_eq_none hold
    rw [lookup, sections_register, find?_sections_concat, hnone, Option.none_or]
    by_cases htext : text = t
    · obtain rfl := htext
      rw [if_pos rfl]
      exact congrArg some ((h.register_eq_iff hlookup label).2 hold)
    · rw [if_neg htext]
      rw [lookup_of_not_mem hold] at hlookup
      exact (congrArg (Keyed.find? t) (supplied_register r text label)).trans hlookup

/-! ## Many registrations -/

theorem faithful_create {anchors : List (Text × Text)} {r : Registry}
    (hcreate : create anchors = .ok r) (hdistinct : ((Keyed.inOrder anchors).map (·.2)).Nodup) :
    r.Faithful := by
  rw [eq_of_create hcreate]
  exact faithful_start hdistinct

theorem ne_nil_of_isAnchor {anchor : Text} (h : isAnchor anchor = true) : anchor ≠ [] := by
  rintro rfl
  cases h

theorem allAnchors_create {anchors : List (Text × Text)} {r : Registry}
    (hcreate : create anchors = .ok r) : r.AllAnchors (isAnchor · = true) := by
  rcases create_cases anchors with ⟨heading, anchor, -, -, herror⟩ | ⟨hall, hok⟩
  · rw [herror] at hcreate
    cases hcreate
  · obtain rfl := Except.ok.inj (hok.symm.trans hcreate)
    exact ⟨hall, fun s hs => (List.not_mem_nil hs).elim⟩

/-- A link to a section of this document that is known shows its text without quotes. -/
theorem renderLink_of_lookup {sections : Registry} {target : Option Text} {name anchor : Text}
    (htarget : target.getD [] = []) (hname : name ≠ [])
    (hlookup : sections.lookup name = some anchor) (hanchor : anchor ≠ []) (hasLabel : Bool)
    (shown : Rendered) :
    renderLink sections .pod target (some name) hasLabel shown
      = ⟨anchorLink anchor (stripQuotes shown.text), stripQuotes shown.plain⟩ := by
  have hkept : (sections.lookup name).filter (!·.isEmpty) = some anchor := by
    rw [hlookup, Option.filter_some, if_pos (by simp [hanchor])]
  unfold renderLink
  dsimp only
  rw [if_neg (by simp), if_pos ⟨rfl, htarget, hname⟩, Option.getD_some, hkept]

/-- No two headings are supplied the same anchor, some headings are registered, and one is looked
up, registered or not.  After any other registrations it is looked up with the same anchor, and
registered then, it is given that anchor exactly if this is its first registration.  So a link
that is rendered at the first lookup leads to the anchor its heading gets later. -/
theorem lookup_stable {anchors : List (Text × Text)} {r : Registry}
    (hcreate : create anchors = .ok r) (hdistinct : ((Keyed.inOrder anchors).map (·.2)).Nodup)
    (earlier later : List (Text × Text)) {text anchor : Text}
    (hlookup : (r.registerAll earlier).lookup text = some anchor) :
    let now := r.registerAll (earlier ++ later)
    now.lookup text = some anchor
      ∧ (∀ label, (now.register text label).1 = anchor ↔ text ∉ (earlier ++ later).map (·.1))
      ∧ (text ≠ [] → text ∉ (earlier ++ later).map (·.1) → ∀ label hasLabel shown,
          (renderLink (r.registerAll earlier) .pod none (some text) hasLabel shown).text
            = anchorLink (now.register text label).1 (stripQuotes shown.text)) := by
  intro now
  have hfaithful := faithful_create hcreate hdistinct
  have htexts : now.texts = (earlier ++ later).map (·.1) := by
    rw [texts_registerAll, eq_of_create hcreate]
    rfl
  have hnow : now.Faithful ∧ now.lookup text = some anchor := by
    have hsplit : now = (r.registerAll earlier).registerAll later :=
      registerAll_append r earlier later
    rw [hsplit]
    exact registerAll_keeps (P := fun r => r.Faithful ∧ r.lookup text = some anchor)
      (fun _ t label h => ⟨faithful_register h.1 t label, h.1.lookup_register h.2 t label⟩)
      ⟨faithful_registerAll hfaithful earlier, hlookup⟩ later
  have hgiven : ∀ label, (now.register text label).1 = anchor
      ↔ text ∉ (earlier ++ later).map (·.1) := by
    intro label
    rw [← htexts]
    exact hnow.1.register_eq_iff hnow.2 label
  refine ⟨hnow.2, hgiven, ?_⟩
  intro hname hnew label hasLabel shown
  have hanchors := (allAnchors_create hcreate).registerAll isAnchor_numberedAnchor earlier
  rw [renderLink_of_lookup rfl hname hlookup (ne_nil_of_isAnchor (hanchors.of_lookup hlookup)),
    (hgiven label).2 hnew]

/-- A mapping that promises a heading the anchor that would be made up for the first one. -/
def promisedAnchors : List (Text × Text) := [("Intro", "intro"), ("Usage", "S1")]

/-- The heading is looked up while another one is registered, and a third is registered before
it, which is given `S2` as `S1` is promised. -/
theorem lookup_stable_promised :
    let r : Registry := { empty with supplied := promisedAnchors }
    let earlier := (r.registerAll [("Intro", "Intro")])
    let now := earlier.registerAll [("Other", "Other")]
    (now.register "Usage" "Usage").1 = "S1"
      ∧ (renderLink earlier .pod none (some "Usage") false (.ofText "\"Usage\"")).text
        = anchorLink "S1" "Usage" := by
  intro r earlier now
  have hcreate : create promisedAnchors = .ok r := by decide +kernel
  have hdistinct : ((Keyed.inOrder promisedAnchors).map (·.2)).Nodup := by decide +kernel
  have hlookup : earlier.lookup "Usage" = some "S1" := by decide +kernel
  obtain ⟨-, hgiven, hlink⟩ :=
    lookup_stable hcreate hdistinct [("Intro", "Intro")] [("Other", "Other")] hlookup
  have hnew : ofString "Usage" ∉ [ofString "Intro", ofString "Other"] := by decide +kernel
  have hanchor : (now.register "Usage" "Usage").1 = ofString "S1" := (hgiven "Usage").2 hnew
  refine ⟨hanchor, ?_⟩
  have hshown := hlink (by decide +kernel) hnew "Usage" false (.ofText "\"Usage\"")
  rw [hshown]
  exact congrArg₂ anchorLink hanchor (by decide +kernel)

end Registry

end PodLoom.Thread
