import PodLoom.Proofs.Thread.Registry

set_option autoImplicit false

/-!
# The anchors that registrations give

Registrations in a row give a list of anchors (`anchorsGiven`), and no anchor stands in it twice:
a supplied anchor is given once at most, and for the rest a registry counts on from the last
number it made an anchor of to one whose anchor is neither given nor supplied.  That count ends
(`countsTo_nextNumber`), so every registration does (`anchorsGiven_distinct`).

Without supplied anchors the count gives `S1`, `S2` and so on.  The anchor mapping made of them
holds each heading once, and leaves out what a mapping cannot hold; supplied to another registry
it still gives the same anchors to the same headings, for what is not in it is counted
(`anchorsGiven_again`).
-/

namespace PodLoom.Thread

open Text CodeUnit

namespace Registry

/-! ## The anchors of registrations in a row -/

/-- The anchors that headings get when they are registered in order, each with its label. -/
def anchorsGiven (r : Registry) : List (Text × Text) → List Text
  | [] => []
  | (text, label) :: rest =>
      (r.register text label).1 :: anchorsGiven (r.register text label).2 rest

theorem length_anchorsGiven (r : Registry) (headings : List (Text × Text)) :
    (r.anchorsGiven headings).length = headings.length := by
  induction headings generalizing r with
  | nil => rfl
  | cons heading rest ih => exact congrArg (· + 1) (ih _)

/-- What is used in the end was used before or has been given. -/
theorem used_registerAll (r : Registry) (headings : List (Text × Text)) :
    (r.registerAll headings).used = r.used ++ r.anchorsGiven headings := by
  induction headings generalizing r with
  | nil => exact (List.append_nil _).symm
  | cons heading rest ih =>
    obtain ⟨text, label⟩ := heading
    rw [registerAll_cons, ih, used_register, List.append_assoc]
    rfl

theorem used_registerAll_of_new {r : Registry} (hnew : r.used = [])
    (headings : List (Text × Text)) : (r.registerAll headings).used = r.anchorsGiven headings := by
  rw [used_registerAll, hnew, List.nil_append]

/-! ## Counting to a free number -/

/-- To count from a number is to go on to the next one until its anchor is free. -/
inductive CountsTo (taken : List Text) : Nat → Nat → Prop
  | stop {n : Nat} (hfree : numberedAnchor (n + 1) ∉ taken) : CountsTo taken n (n + 1)
  | next {n m : Nat} (htaken : numberedAnchor (n + 1) ∈ taken) (h : CountsTo taken (n + 1) m) :
      CountsTo taken n m

theorem countsTo_of_free {taken : List Text} {n m : Nat} (hlt : n < m)
    (hfree : numberedAnchor m ∉ taken)
    (htaken : ∀ k, n < k → k < m → numberedAnchor k ∈ taken) : CountsTo taken n m := by
  -- By the numbers that are still to be counted.
  induction hsteps : m - n generalizing n with
  | zero => omega
  | succ steps ih =>
    rcases Nat.lt_or_ge (n + 1) m with hmore | hlast
    · refine .next (htaken (n + 1) (Nat.lt_succ_self n) hmore) (ih hmore ?_ (by omega))
      exact fun k hlow => htaken k (Nat.lt_of_succ_lt hlow)
    · obtain rfl : m = n + 1 := by omega
      exact .stop hfree

/-- The count for the next anchor ends, and at its number. -/
theorem countsTo_nextNumber (r : Registry) : CountsTo r.taken r.counter r.nextNumber := by
  obtain ⟨hlt, hfree, htaken⟩ := r.nextNumber_spec
  exact countsTo_of_free hlt hfree htaken

/-! ## No anchor is given twice -/

/-- An anchor that is made up for a heading: no anchor is left that is supplied for it, so the
registry counts for one. -/
structure MadeUp (r : Registry) (text anchor : Text) : Prop where
  due : ∀ supplied, Keyed.find? text r.supplied = some supplied → supplied ∈ r.used
  counted : ∃ n, CountsTo r.taken r.counter n ∧ anchor = numberedAnchor n

/-- The anchors that a registry gives, whatever is supplied to it and registered in it, are all
different.  Each is the anchor supplied for its heading, or it is made up, by a count that ends,
and supplied for no heading at all. -/
theorem anchorsGiven_distinct {anchors : List (Text × Text)} {r : Registry}
    (h : create anchors = .ok r) (headings : List (Text × Text)) :
    (r.anchorsGiven headings).Nodup
      ∧ ∀ earlier text label later, headings = earlier ++ (text, label) :: later →
        let now := r.registerAll earlier
        let anchor := (now.register text label).1
        (Keyed.find? text (Keyed.inOrder anchors) = some anchor ∧ anchor ∉ r.anchorsGiven earlier)
          ∨ (now.MadeUp text anchor ∧ ∀ pair ∈ Keyed.inOrder anchors, pair.2 ≠ anchor) := by
  have hr := eq_of_create h
  have hnew : r.used = [] := by rw [hr]; rfl
  refine ⟨?_, ?_⟩
  · rw [← used_registerAll_of_new hnew]
    refine nodup_used_registerAll ?_ headings
    rw [hnew]
    exact List.nodup_nil
  · intro earlier text label later _ now anchor
    have hsupplied : now.supplied = Keyed.inOrder anchors := by rw [supplied_registerAll, hr]
    rcases now.register_cases text label with ⟨supplied, hfind, hfree, hnow⟩ | ⟨hdue, hnow⟩
    · obtain rfl : anchor = supplied := congrArg Prod.fst hnow
      rw [hsupplied] at hfind
      rw [used_registerAll_of_new hnew] at hfree
      exact .inl ⟨hfind, hfree⟩
    · have hanchor : anchor = numberedAnchor now.nextNumber := congrArg Prod.fst hnow
      refine .inr ⟨⟨hdue, now.nextNumber, now.countsTo_nextNumber, hanchor⟩, ?_⟩
      rintro pair hpair heq
      refine now.nextNumber_spec.2.1 (List.mem_append_right _ ?_)
      rw [← hanchor, ← heq, hsupplied]
      exact List.mem_map_of_mem hpair

/-- A mapping that gives two headings one anchor, which a registry would make up as well. -/
def sharedAnchors : List (Text × Text) := [("A", "S1"), ("B", "S1"), ("C", "c")]

/-- The anchor of one of the two is used when the other is registered, so that one's is made
up, and passes over the shared one. -/
theorem anchorsGiven_distinct_shared :
    let r : Registry := { empty with supplied := sharedAnchors }
    create sharedAnchors = .ok r
      ∧ (r.anchorsGiven [("B", "b"), ("A", "a"), ("A", "a"), ("C", "c")]).Nodup
      ∧ (r.registerAll [("B", "b")]).MadeUp "A" "S2" := by
  intro r
  have hcreate : create sharedAnchors = .ok r := by decide +kernel
  obtain ⟨hnodup, heach⟩ :=
    anchorsGiven_distinct hcreate [("B", "b"), ("A", "a"), ("A", "a"), ("C", "c")]
  refine ⟨hcreate, hnodup, ?_⟩
  have hanchor : ((r.registerAll [("B", "b")]).register "A" "a").1 = ofString "S2" := by
    decide +kernel
  have hsecond := heach [("B", "b")] "A" "a" [("A", "a"), ("C", "c")] rfl
  simp only [hanchor] at hsecond
  rcases hsecond with ⟨hfind, -⟩ | ⟨hmade, -⟩
  · exact absurd hfind (by decide +kernel)
  · exact hmade

/-! ## The anchors again -/

theorem numbering_of_numbered {r : Registry} (hnew : r.used = []) {headings : List (Text × Text)}
    (h : (r.registerAll headings).Numbered) :
    r.anchorsGiven headings = numbering headings.length := by
  have hused := used_registerAll_of_new hnew headings
  have hsize : (r.registerAll headings).size = headings.length := by
    rw [← length_anchorsGiven r headings, ← hused, used, List.length_map]
    rfl
  rw [← hused, h.used, hsize]

/-- Headings get the anchors `S1`, `S2` and so on from a registry that no anchors are supplied
to, and they get the same ones, in the same order, from a registry that is supplied with its
anchor mapping, whatever their labels are. -/
theorem anchorsGiven_again {headings again : List (Text × Text)}
    (h : again.map (·.1) = headings.map (·.1)) :
    empty.anchorsGiven headings = numbering headings.length
      ∧ ∃ r, create (empty.registerAll headings).anchorMap = .ok r
        ∧ r.anchorsGiven again = empty.anchorsGiven headings := by
  have hfirst := numbered_registerAll_empty headings
  have htexts : (empty.registerAll headings).texts = headings.map (·.1) :=
    texts_registerAll empty headings
  have hmap : (empty.registerAll headings).anchorMap
      = numberedPairs (firstMet (headings.map (·.1))) := by
    rw [anchorMap_eq hfirst.used, htexts]
  have hgiven := numbering_of_numbered rfl hfirst
  refine ⟨hgiven, suppliedWith (firstMet (headings.map (·.1))), ?_, ?_⟩
  · rw [hmap]
    exact create_numberedPairs _
  · have hlength := congrArg List.length h
    rw [List.length_map, List.length_map] at hlength
    have hagain := numbered_of_firstMet (headings.map (·.1)) again (congrArg firstMet h)
    rw [hgiven, ← hlength]
    exact numbering_of_numbered rfl hagain

/-- Headings of which some come again, one of them one that no mapping can hold. -/
def recurringHeadings : List (Text × Text) :=
  [("__proto__", "p"), ("A", "a"), ("A", "b"), ("__proto__", "q"), ("B", "c")]

/-- The headings that the second registry has to number itself get their own numbers again. -/
theorem anchorsGiven_again_recurring :
    let again := recurringHeadings.map fun heading => (heading.1, ofString "other")
    again.map (·.1) = recurringHeadings.map (·.1)
      ∧ ∃ r, create (empty.registerAll recurringHeadings).anchorMap = .ok r
        ∧ r.anchorsGiven again = ["S1", "S2", "S3", "S4", "S5"] := by
  intro again
  have hsame : again.map (·.1) = recurringHeadings.map (·.1) := by
    rw [List.map_map]
    rfl
  obtain ⟨hfirst, r, hr, hagain⟩ := anchorsGiven_again hsame
  refine ⟨hsame, r, hr, ?_⟩
  rw [hagain, hfirst]
  decide +kernel

end Registry

end PodLoom.Thread
