import Mathlib.Data.List.Chain
import PodLoom.Proofs.Text.Case
import PodLoom.Proofs.Text.Splitting
import PodLoom.Proofs.Thread.Markup
import PodLoom.Proofs.Thread.Registry

set_option autoImplicit false

/-!
# The rows of the navigation bar

The names in the navigation bar are packed into rows: each row is within the budget, or has one
name only, and is so full that the next name would pass the budget (`Packing`).  Together with the
order of the names this leaves one way to make the rows (`packLines_eq_iff`).

A row is one line of the navigation bar, and its bar at the end tells that another row follows
(`navbarWithin_rows`).  Neither a name nor the markup around it breaks the line, so only a supplied
anchor could.
-/

namespace PodLoom.Thread

open Text CodeUnit

/-! ## Packing -/

section Packing

variable {α : Type} {size : α → Nat} {budget : Int}

/-- The size of the items of a row in all. -/
def totalSize (size : α → Nat) : List α → Nat
  | [] => 0
  | item :: rest => size item + totalSize size rest

/-- Rows that hold items in order, none lost and none repeated: no row is without items, each is
within the budget or has one item only, and the first item of the next row would pass it. -/
structure Packing (size : α → Nat) (budget : Int) (items : List α) (rows : List (List α)) :
    Prop where
  flatten : rows.flatten = items
  filled : ∀ row ∈ rows, row ≠ []
  fits : ∀ row ∈ rows, (totalSize size row : Int) ≤ budget ∨ row.length = 1
  maximal : rows.IsChain fun row next =>
    ∀ item ∈ next.head?, budget < (totalSize size row + size item : Nat)

theorem totalSize_append (row more : List α) :
    totalSize size (row ++ more) = totalSize size row + totalSize size more := by
  induction row with
  | nil => exact (Nat.zero_add _).symm
  | cons item rest ih => rw [List.cons_append, totalSize, totalSize, ih, Nat.add_assoc]

theorem totalSize_concat (row : List α) (item : α) :
    totalSize size (row ++ [item]) = totalSize size row + size item :=
  totalSize_append row [item]

theorem Packing.singleton {row : List α} (hsome : row ≠ [])
    (hfits : (totalSize size row : Int) ≤ budget ∨ row.length = 1) :
    Packing size budget row [row] where
  flatten := List.flatten_singleton
  filled := List.forall_mem_singleton.2 hsome
  fits := List.forall_mem_singleton.2 hfits
  maximal := .singleton row

/-- The first row starts with the first item. -/
theorem Packing.exists_first {item : α} {items : List α} {rows : List (List α)}
    (h : Packing size budget (item :: items) rows) :
    ∃ more later, rows = (item :: more) :: later := by
  cases rows with
  | nil => cases h.flatten
  | cons row later =>
    obtain ⟨first, more, rfl⟩ := List.exists_cons_of_ne_nil (h.filled row List.mem_cons_self)
    obtain ⟨rfl, -⟩ := List.cons.inj (List.flatten_cons.symm.trans h.flatten)
    exact ⟨more, later, rfl⟩

/-- Without the first row the rows hold the items behind it. -/
theorem Packing.tail {items row : List α} {rows : List (List α)}
    (h : Packing size budget items (row :: rows)) : Packing size budget rows.flatten rows where
  flatten := rfl
  filled := (List.forall_mem_cons.1 h.filled).2
  fits := (List.forall_mem_cons.1 h.fits).2
  maximal := h.maximal.tail

/-- A row that has no room for the next item can stand before the others. -/
theorem Packing.cons {row : List α} {item : α} {items : List α} {rows : List (List α)}
    (h : Packing size budget (item :: items) rows) (hsome : row ≠ [])
    (hfits : (totalSize size row : Int) ≤ budget ∨ row.length = 1)
    (hfull : budget < (totalSize size row + size item : Nat)) :
    Packing size budget (row ++ item :: items) (row :: rows) where
  flatten := by rw [List.flatten_cons, h.flatten]
  filled := List.forall_mem_cons.2 ⟨hsome, h.filled⟩
  fits := List.forall_mem_cons.2 ⟨hfits, h.fits⟩
  maximal := by
    obtain ⟨more, later, rfl⟩ := h.exists_first
    refine List.isChain_cons_cons.2 ⟨?_, h.maximal⟩
    rintro _ ⟨⟩
    exact hfull

/-- The row being filled is within the budget, or has one item at the most: so it is kept when an
item goes on it, and when it makes way for the next row. -/
theorem packing_packLines {row items : List α}
    (hfits : (totalSize size row : Int) ≤ budget ∨ row.length ≤ 1) (hsome : row ++ items ≠ []) :
    Packing size budget (row ++ items) (packLines size budget row (totalSize size row) items) := by
  induction items generalizing row with
  | nil =>
    rw [List.append_nil] at hsome ⊢
    refine .singleton hsome (hfits.imp_right fun hlength => ?_)
    have := List.length_pos_iff.2 hsome
    omega
  | cons item rest ih =>
    rw [packLines]
    split
    · rename_i hpass
      obtain ⟨hrow, hpass⟩ := hpass
      have hrow : row ≠ [] := by simpa using hrow
      have hnext : Packing size budget (item :: rest)
          (packLines size budget [item] (size item) rest) := by
        have hitem : totalSize size [item] = size item := rfl
        have hone : ([item] : List α).length ≤ 1 := Nat.le_refl 1
        rw [← hitem]
        exact ih (.inr hone) (List.cons_ne_nil item rest)
      refine hnext.cons hrow (hfits.imp_right fun hlength => ?_) hpass
      have := List.length_pos_iff.2 hrow
      omega
    · rename_i hroom
      rw [List.append_cons, ← totalSize_concat]
      refine ih ?_ (by simp)
      cases row with
      | nil => exact .inr (Nat.le_refl 1)
      | cons first more =>
        rw [totalSize_concat]
        exact .inl (by simpa using hroom)

/-- What two packings have in their first rows is the same: the longer one would have passed the
budget. -/
theorem Packing.length_first_le {row row' : List α} {rows rows' : List (List α)} {items : List α}
    (h : Packing size budget items (row :: rows)) (h' : Packing size budget items (row' :: rows')) :
    row'.length ≤ row.length := by
  by_contra hlonger
  have hflatten : row ++ rows.flatten = row' ++ rows'.flatten :=
    (List.flatten_cons.symm.trans h.flatten).trans (h'.flatten.symm.trans List.flatten_cons)
  rcases List.append_eq_append_iff.1 hflatten with ⟨more, rfl, hrows⟩ | ⟨more, rfl, -⟩
  · cases more with
    | nil => simp at hlonger
    | cons item more =>
      -- The item that the longer row has in addition is the first of the next row.
      have hnext := h.tail
      rw [hrows, List.cons_append] at hnext
      obtain ⟨next, later, rfl⟩ := hnext.exists_first
      have hpass := (List.isChain_cons_cons.1 h.maximal).1 item rfl
      have hsome := List.length_pos_iff.2 (h.filled row List.mem_cons_self)
      have htotal : totalSize size row + size item ≤ totalSize size (row ++ item :: more) := by
        rw [totalSize_append, totalSize]
        omega
      rcases h'.fits _ List.mem_cons_self with hbudget | hlength
      · omega
      · rw [List.length_append, List.length_cons] at hlength
        omega
  · rw [List.length_append] at hlonger
    omega

theorem Packing.unique {items : List α} {rows rows' : List (List α)}
    (h : Packing size budget items rows) (h' : Packing size budget items rows') :
    rows = rows' := by
  induction rows generalizing items rows' with
  | nil =>
    obtain rfl : [] = items := h.flatten
    cases rows' with
    | nil => rfl
    | cons row' rest' =>
      exact absurd (List.append_eq_nil_iff.1 h'.flatten).1 (h'.filled row' List.mem_cons_self)
  | cons row rest ih =>
    cases rows' with
    | nil =>
      obtain rfl : [] = items := h'.flatten
      exact absurd (List.append_eq_nil_iff.1 h.flatten).1 (h.filled row List.mem_cons_self)
    | cons row' rest' =>
      have hlength : row.length = row'.length :=
        Nat.le_antisymm (h'.length_first_le h) (h.length_first_le h')
      obtain ⟨rfl, hrest⟩ := List.append_inj
        ((List.flatten_cons.symm.trans h.flatten).trans (h'.flatten.symm.trans List.flatten_cons))
        hlength
      have htail' := h'.tail
      rw [← hrest] at htail'
      rw [ih h.tail htail']

/-- Items are packed in the one way that fills the rows in order. -/
theorem packLines_eq_iff {items : List α} (hsome : items ≠ []) {rows : List (List α)} :
    packLines size budget [] 0 items = rows ↔ Packing size budget items rows := by
  have hnone : ([] : List α).length ≤ 1 := Nat.zero_le 1
  have hpacked : Packing size budget items (packLines size budget [] 0 items) :=
    packing_packLines (.inr hnone) hsome
  constructor
  · rintro rfl
    exact hpacked
  · exact hpacked.unique

end Packing

/-! ## Names and links -/

theorem flatten_navbarLines (budget : Int) (sections : List Section) :
    (navbarLines budget sections).flatten = sections := by
  by_cases h : sections = []
  · rw [h]
    rfl
  · exact ((packLines_eq_iff h).1 rfl).flatten

theorem newline_notMem_navbarName (t : Text) : newline ∉ navbarName t := by
  have hword : ∀ w ∈ t.words, newline ∉ navbarWord w := by
    intro w hw
    have hlower : newline ∉ w.lower := newline_notMem_lower fun hmem =>
      absurd ((solid_of_mem_words hw).2 newline hmem) (by decide)
    unfold navbarWord
    split
    · exact List.not_mem_nil
    · rename_i u rest heq
      rw [heq, List.mem_cons, not_or] at hlower
      split
      · rw [List.mem_cons, not_or]
        exact hlower
      · rw [List.mem_append, not_or]
        exact ⟨newline_notMem_upperUnit (Ne.symm hlower.1), hlower.2⟩
  refine notMem_join (by decide) fun w hw => ?_
  obtain ⟨word, hmem, rfl⟩ := List.mem_map.1 hw
  exact hword word hmem

theorem newline_notMem_escape {t : Text} (h : newline ∉ t) : newline ∉ escape t := by
  rw [← List.count_eq_zero, count_escape (by decide), List.count_eq_zero]
  exact h

theorem newline_notMem_navbarLink {s : Section} (h : newline ∉ s.anchor) :
    newline ∉ navbarLink s := by
  have hname := newline_notMem_escape (newline_notMem_navbarName s.text)
  have hfront : newline ∉ ofString "\\link[#" := by decide
  have hmiddle : newline ∉ ofString "][" := by decide
  have hback : newline ∉ [closeBracket] := by decide
  rw [navbarLink, anchorLink_eq]
  simp only [List.mem_append, not_or]
  exact ⟨hfront, h, hmiddle, hname, hback⟩

/-! ## Rows -/

/-- A row of the navigation bar: the links of its sections, with bars between them. -/
def navbarRow (row : List Section) : Text := ofString "  " ++ join " | " (row.map navbarLink)

/-- The lines of a navigation bar, the empty ones behind it included.  Every row but the last has
a bar at its end. -/
def navbarText (rows : List (List Section)) (last : List Section) : List Text :=
  ofString "\\div(navbar)[" :: (rows.map (navbarRow · ++ ofString " |")
    ++ [navbarRow last, [closeBracket], [], []])

theorem newline_notMem_navbarRow {row : List Section} (h : ∀ s ∈ row, newline ∉ s.anchor) :
    newline ∉ navbarRow row := by
  have hlinks : newline ∉ join " | " (row.map navbarLink) := by
    refine notMem_join (by decide) fun t ht => ?_
    obtain ⟨s, hs, rfl⟩ := List.mem_map.1 ht
    exact newline_notMem_navbarLink (h s hs)
  rw [navbarRow, List.mem_append, not_or]
  exact ⟨by decide, hlinks⟩

/-- A row ends with a link. -/
theorem getLast?_navbarRow {row : List Section} (h : row ≠ []) :
    (navbarRow row).getLast? = some closeBracket := by
  have hlinks : (join " | " (row.map navbarLink)).getLast? = some closeBracket := by
    refine getLast?_join _ (by simpa using h) fun t ht => ?_
    obtain ⟨s, -, rfl⟩ := List.mem_map.1 ht
    rw [navbarLink, anchorLink_eq]
    simp only [← List.append_assoc]
    exact List.getLast?_concat
  rw [navbarRow, List.getLast?_append, hlinks]
  rfl

theorem not_endsInBar {t : Text} (h : t.getLast? ≠ some '|') : ¬ ofString " |" <:+ t := by
  rintro ⟨front, rfl⟩
  rw [List.getLast?_append] at h
  exact h rfl

/-- The lines with a bar at the end are those of the rows before the last. -/
theorem endsInBar_iff {rows : List (List Section)} {last : List Section} (hlast : last ≠ [])
    {t : Text} (ht : t ∈ navbarText rows last) :
    ofString " |" <:+ t ↔ t ∈ rows.map (navbarRow · ++ ofString " |") := by
  constructor
  · intro hbar
    rcases List.mem_cons.1 ht with rfl | ht
    · exact absurd hbar (by decide)
    · rcases List.mem_append.1 ht with ht | ht
      · exact ht
      · have hnone : ∀ s ∈ [navbarRow last, [closeBracket], [], []], s.getLast? ≠ some '|' := by
          refine List.forall_mem_cons.2 ⟨?_, by decide⟩
          rw [getLast?_navbarRow hlast]
          decide
        exact absurd hbar (not_endsInBar (hnone t ht))
  · intro hrow
    obtain ⟨row, -, rfl⟩ := List.mem_map.1 hrow
    exact List.suffix_append _ _

theorem navbarWithin_eq {r : Registry} {budget : Int} {rows : List (List Section)}
    {last : List Section} (hsome : r.sections ≠ [])
    (hlines : navbarLines budget r.sections = rows ++ [last]) :
    r.navbarWithin budget = unlines (navbarText rows last) := by
  have hrows : ∀ rows : List (List Section), join " |\n" ((rows ++ [last]).map navbarRow)
      = unlines (rows.map (navbarRow · ++ ofString " |") ++ [navbarRow last]) := by
    intro rows
    induction rows with
    | nil => rfl
    | cons row rest ih =>
      have hmore : (rest ++ [last]).map navbarRow ≠ [] := by simp
      rw [List.cons_append, List.map_cons, join_cons _ _ hmore, ih, List.map_cons,
        List.cons_append, unlines_cons _ (by simp), List.append_assoc]
      rfl
  have hbody : unlines (rows.map (navbarRow · ++ ofString " |")
        ++ [navbarRow last, [closeBracket], [], []])
      = join " |\n" ((rows ++ [last]).map navbarRow)
        ++ newline :: closeBracket :: ofString "\n\n" := by
    rw [hrows, List.append_cons]
    exact join_append (by simp) (List.cons_ne_nil _ _)
  rw [navbarText, unlines_cons _ (by simp), hbody, Registry.navbarWithin,
    if_neg (by simpa using hsome), hlines]
  simp only [command, bracketed, List.flatMap_cons, List.flatMap_nil, List.append_nil,
    List.cons_append, List.append_assoc]
  rfl

theorem lines_navbarText {rows : List (List Section)} {last : List Section}
    (h : ∀ row ∈ rows ++ [last], newline ∉ navbarRow row) :
    lines (unlines (navbarText rows last)) = navbarText rows last := by
  obtain ⟨hrows, hlast⟩ := List.forall_mem_append.1 h
  refine splitOn_join (List.forall_mem_cons.2 ⟨by decide, ?_⟩) (List.cons_ne_nil _ _)
  refine List.forall_mem_append.2 ⟨fun t ht => ?_, ?_⟩
  · obtain ⟨row, hrow, rfl⟩ := List.mem_map.1 ht
    rw [List.mem_append, not_or]
    exact ⟨hrows row hrow, by decide⟩
  · exact List.forall_mem_cons.2 ⟨hlast last (List.mem_singleton_self last), by decide⟩

/-- The sections of a navigation bar are packed into rows by the lengths of their names, and its
lines are those of the rows between the ones that open and close it.  A bar at its end tells that
a row is not the last. -/
theorem navbarWithin_rows {r : Registry} (hsome : r.sections ≠ []) (budget : Int) :
    ∃ rows last, Packing (fun s => (navbarName s.text).length) budget r.sections (rows ++ [last])
      ∧ r.navbarWithin budget = unlines (navbarText rows last)
      ∧ ((∀ s ∈ r.sections, newline ∉ s.anchor) →
          lines (r.navbarWithin budget) = navbarText rows last)
      ∧ ∀ t ∈ navbarText rows last,
          ofString " |" <:+ t ↔ t ∈ rows.map (navbarRow · ++ ofString " |") := by
  have hpacking := (packLines_eq_iff hsome).1 (rfl : navbarLines budget r.sections = _)
  obtain ⟨rows, last, hlines⟩ : ∃ rows last, navbarLines budget r.sections = rows ++ [last] := by
    rcases List.eq_nil_or_concat (navbarLines budget r.sections) with hnil | ⟨rows, last, hlast⟩
    · exact absurd (hpacking.flatten.symm.trans (congrArg List.flatten hnil)) hsome
    · exact ⟨rows, last, by rw [hlast, List.concat_eq_append]⟩
  have htext := navbarWithin_eq hsome hlines
  have hpacked : Packing (fun s => (navbarName s.text).length) budget r.sections (rows ++ [last]) :=
    hlines ▸ hpacking
  refine ⟨rows, last, hpacked, htext, ?_, fun t ht => endsInBar_iff ?_ ht⟩
  · intro hanchors
    have hrow : ∀ row ∈ rows ++ [last], newline ∉ navbarRow row := by
      intro row hmem
      refine newline_notMem_navbarRow fun s hs => hanchors s ?_
      rw [← hpacked.flatten]
      exact List.mem_flatten_of_mem hmem hs
    rw [htext]
    exact lines_navbarText hrow
  · exact hpacked.filled last (by simp)

/-- Three sections of which two fill a row of nine units, and one is longer than that. -/
def threeSections : Registry :=
  Registry.empty.registerAll
    [("ALPHA", "Alpha"), ("BETA", "Beta"), ("CONTRIBUTING", "Contributing")]

theorem navbarWithin_rows_three :
    lines (threeSections.navbarWithin 9)
      = [ofString "\\div(navbar)[", ofString "  \\link[#S1][Alpha] | \\link[#S2][Beta] |",
        ofString "  \\link[#S3][Contributing]", [closeBracket], [], []] := by
  have hsome : threeSections.sections ≠ [] := by decide +kernel
  obtain ⟨rows, last, hpacking, -, hlines, -⟩ := navbarWithin_rows hsome 9
  have hrows : navbarLines 9 threeSections.sections = rows ++ [last] :=
    (packLines_eq_iff hsome).2 hpacking
  have hexact : navbarLines 9 threeSections.sections
      = [threeSections.sections.take 2] ++ [threeSections.sections.drop 2] := by decide +kernel
  obtain ⟨rfl, hlast⟩ := List.append_inj' (hrows.symm.trans hexact) rfl
  obtain rfl := List.singleton_inj.1 hlast
  rw [hlines (by decide +kernel)]
  decide +kernel

end PodLoom.Thread
