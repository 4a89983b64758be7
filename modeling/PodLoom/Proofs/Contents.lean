import PodLoom.Proofs.Navigation
import PodLoom.Proofs.Outcome
import PodLoom.Proofs.SourceCourse
import PodLoom.Proofs.Thread.Headings
import PodLoom.Proofs.Thread.Invariant
import PodLoom.Proofs.Thread.Navbar
import PodLoom.Proofs.Thread.Placement

set_option autoImplicit false

/-!
# The contents, the navigation bar and the headings

The navigation of a page is written at the end of the document into a place before the
sections it lists.  So it lists all of them: those whose headings come behind the page header,
and those whose headings come before it.

On a page with sections every heading of the first level is that of a section, and no other
heading has an anchor (`Ranked.invariant`).  The lines of the table of contents and the links of the
navigation bar come from the same list of sections, in order.  So the three name the same
anchors (`convert_lists_agree`).
-/

namespace PodLoom

open Text CodeUnit
open PodLoom.Pod (Element Event Paragraph bodyEvents isContentless)
open PodLoom.Thread (Desk Draft Options Piece Policy Registry Section Writer)

namespace Thread

/-! ## Headings of the first level -/

/-- The anchor and the label of a heading of the first level. -/
def Piece.topHeading? : Piece → Option (Option Text × Text)
  | .heading level anchor label => if level = 1 then some (anchor, label) else none
  | _ => none

/-- A heading has an anchor if it is of the first level on a page with sections, and not
otherwise. -/
def Piece.Ranked (p : Policy) : Piece → Prop
  | .heading level anchor _ => anchor.isSome = (level == 1 && p.tracks)
  | _ => True

namespace Draft

/-- All headings of a draft are as they should be. -/
def Ranked (p : Policy) (d : Draft) : Prop := ∀ q ∈ d.pieces, q.Ranked p

namespace Ranked

variable {p : Policy} {d : Draft}

theorem write (h : d.Ranked p) {pieces : List Piece} (hpieces : ∀ q ∈ pieces, q.Ranked p) :
    (d.write pieces).Ranked p := fun q hq =>
  (List.mem_append.1 hq).elim (h q) (hpieces q)

theorem write_one (h : d.Ranked p) {q : Piece} (hq : q.Ranked p) : (d.write [q]).Ranked p :=
  h.write (List.forall_mem_singleton.2 hq)

theorem onScope (h : d.Ranked p) {f : Scope → Scope × List Piece}
    (hf : ∀ s, ∀ q ∈ (f s).2, q.Ranked p) : (d.onScope f).Ranked p := by
  rcases d with ⟨frames, _ | ⟨s, outer⟩, inName, headerDone, sections, warnings, pieces⟩
  · exact h
  · exact h.write (hf s)

theorem place (h : d.Ranked p) (body : Text) : (d.place body).Ranked p := by
  unfold Draft.place
  split
  · exact h.write_one trivial
  · exact h.onScope fun _ => Scope.each_place (p := Piece.Ranked p) trivial trivial trivial trivial

theorem settle (h : d.Ranked p) : (d.onScope Scope.settle).Ranked p :=
  h.onScope fun _ => Scope.each_settle (p := Piece.Ranked p) trivial trivial

theorem close (h : d.Ranked p) : (d.onScope Scope.close).Ranked p :=
  h.onScope fun _ => Scope.each_close (p := Piece.Ranked p) trivial trivial

/-- An event writes headings with anchors where they belong. -/
theorem invariant (p : Policy) : Invariant p (Ranked p) where
  frames h _ := h
  inName h _ := h
  warn h _ _ := h
  header h _ _ := h.write_one trivial
  heading h label hlevel := h.write_one (by simpa [Piece.Ranked] using hlevel)
  registered h label text htracks := h.write_one (by simp [Piece.Ranked, htracks])
  passage h _ := h.write_one trivial
  place h body := h.place body
  item h _ _ := h.onScope fun _ => Scope.each_settle (p := Piece.Ranked p) trivial trivial
  close h := h.close
  enter h _ := h.settle
  exit h := h.close

end Ranked

/-- On a page with sections the headings of the first level are those with anchors. -/
theorem Ranked.topHeadings {p : Policy} {d : Draft} (h : d.Ranked p) (htracks : p.tracks = true) :
    d.pieces.filterMap Piece.topHeading?
      = (d.pieces.filter (·.anchor?.isSome)).filterMap Piece.topHeading? := by
  rw [List.filterMap_filter]
  refine List.filterMap_congr fun q hq => ?_
  cases q with
  | heading level anchor label =>
    have hranked : anchor.isSome = (level == 1 && p.tracks) := h _ hq
    rw [htracks, Bool.and_true] at hranked
    by_cases hlevel : level = 1
    · simp [Piece.anchor?, hranked, hlevel]
    · simp [Piece.topHeading?, hlevel]
  | _ => simp [Piece.topHeading?]

end Draft

/-! ## The lists of a registry -/

/-- A table of contents whose lines lead to the given anchors under the given labels. -/
def contentsOf (entries : List (Text × Text)) : Text :=
  if entries.isEmpty then []
  else
    command "h2" [ofString "Table of Contents"] ++ ofString "\n\n"
      ++ (entries.map fun (anchor, label) =>
          command "number(packed)" [anchorLink anchor label] ++ [newline]).flatten ++ [newline]

/-- A navigation bar whose links, line by line, lead to the given anchors under the given
names. -/
def navbarOf (rows : List (List (Text × Text))) : Text :=
  if rows.flatten.isEmpty then []
  else
    let lines := rows.map fun row =>
      ofString "  " ++ join " | " (row.map fun (anchor, name) => anchorLink anchor name)
    command "div(navbar)" [newline :: (join " |\n" lines ++ [newline])] ++ ofString "\n\n"

/-- The anchor of a section and its name in the navigation bar. -/
def Section.navbarEntry (s : Section) : Text × Text := (s.anchor, escape (navbarName s.text))

/-- The anchor of a section and its label in the table of contents. -/
def Section.contentsEntry (s : Section) : Text × Text := (s.anchor, s.label)

theorem Registry.contents_eq (r : Registry) :
    r.contents = contentsOf (r.sections.map Section.contentsEntry) := by
  unfold contents contentsOf
  rw [List.isEmpty_map, List.map_map]
  rfl

theorem Registry.navbar_eq (r : Registry) :
    r.navbar
      = navbarOf ((navbarLines navbarBudget r.sections).map (·.map Section.navbarEntry)) := by
  unfold navbar navbarWithin navbarOf
  rw [← List.map_flatten, flatten_navbarLines, List.isEmpty_map, List.map_map]
  have hlink : (fun line : List Section => ofString "  " ++ join " | " (line.map navbarLink))
      = (fun row =>
          ofString "  " ++ join " | " (row.map fun (anchor, name) => anchorLink anchor name))
        ∘ fun line : List Section => line.map Section.navbarEntry := by
    funext line
    rw [Function.comp, List.map_map]
    rfl
  rw [hlink]

end Thread

/-! ## The header of a page -/

/-- A page with a header has started, so its anchors made a registry. -/
theorem exists_create_of_header {file source : Text} {o : Options}
    (hheader : ¬ HeaderMissing file source o) :
    ∃ sections, Registry.create ((resolveAnchors file source o).1.getD []) = .ok sections := by
  cases hcreate : Registry.create ((resolveAnchors file source o).1.getD []) with
  | ok sections => exact ⟨sections, rfl⟩
  | error e =>
    refine absurd (fun before after hevents => ?_) hheader
    cases before with
    | nil => rfl
    | cons event events =>
      rw [sourceEvents_eq] at hevents
      obtain ⟨rfl, -⟩ := List.cons.inj hevents
      have hunstarted := receiveAll_unstarted
        (w := startWriter file source (resolvedOptions file source o))
        (sourceInfo file source) events hcreate
      rw [headerWritten, writerAfter, hunstarted]
      rfl

/-- A page whose header some event of the source writes has it among its pieces. -/
theorem exists_header {file source : Text} {o : Options} {sections : Registry}
    (hsections : Registry.create ((resolveAnchors file source o).1.getD []) = .ok sections)
    (hheader : ¬ HeaderMissing file source o) :
    ∃ before title description after,
      (pageDraft (resolvedOptions file source o) sections source).pieces
        = before ++ .header title description :: after
      ∧ ∀ q ∈ before ++ after, q.isHeader = false := by
  -- Once written, the header is still there at the end.
  have hdone : (pageDraft (resolvedOptions file source o) sections source).headerDone = true := by
    simp only [HeaderMissing, not_forall] at hheader
    obtain ⟨before, after, hevents, hwritten⟩ := hheader
    rcases headerWritten_prefix hsections hevents with hmissing | ⟨events, more, hbody, hsame⟩
    · exact absurd hmissing hwritten
    · rw [hsame, Bool.not_eq_false] at hwritten
      have hrest := Draft.headless_run_of_headerDone (resolvedOptions file source o).policy
        hwritten more
      rw [← resolvedDraft_append, ← hbody] at hrest
      rw [(headless_pageDraft file source o sections).1, hrest.1, hwritten]
  have hkept := headerKept_pageDraft (resolvedOptions file source o) sections source
  rw [Draft.HeaderKept, hdone] at hkept
  obtain ⟨q, hq, hisHeader⟩ := List.countP_pos_iff.1 (Nat.lt_of_lt_of_eq Nat.one_pos hkept.symm)
  obtain ⟨before, after, hpieces⟩ := List.append_of_mem hq
  cases q with
  | header title description =>
    refine ⟨before, title, description, after, hpieces, ?_⟩
    rw [hpieces, List.countP_append, List.countP_cons_of_pos hisHeader] at hkept
    have hone : before.countP Piece.isHeader + (after.countP Piece.isHeader + 1) = 1 := hkept
    have hnone : (before ++ after).countP Piece.isHeader = 0 := by
      rw [List.countP_append]
      omega
    exact fun p hp => Bool.eq_false_iff.2 (List.countP_eq_zero.1 hnone p hp)
  | _ => cases hisHeader

/-! ## The three lists -/

theorem sections_create {anchors : List (Text × Text)} {sections : Registry}
    (h : Registry.create anchors = .ok sections) : sections.sections = [] := by
  rw [Registry.eq_of_create h]
  rfl

/-- The three lists on a page that is made of the pieces of a draft.  The navigation stands in one
piece behind the header: the navigation bar and the table of contents of the sections that the
draft has registered.  The anchors in the lines of the contents, those in the links of the bar and
those of the headings of the first level, before the header and behind it, are the same, in the
same order and each once, and the labels in the contents are those of the headings. -/
def ListsAgree (k : Desk) (d : Draft) (output : Text) : Prop :=
  let entries := d.sections.sections.map Section.contentsEntry
  let rows := (Thread.navbarLines Thread.navbarBudget d.sections.sections).map
    (·.map Section.navbarEntry)
  (∃ before title description after ahead behind,
    d.pieces = before ++ .header title description :: after
      ∧ (∀ q ∈ before ++ after, q.isHeader = false)
      ∧ output = ahead ++ (Thread.navbarOf rows ++ Thread.contentsOf entries ++ behind)
      ∧ Respaced ahead (k.text (before ++ [.header title description]))
      ∧ Respaced behind (k.text after))
    ∧ d.pieces.filterMap Piece.topHeading?
      = entries.map (fun (anchor, label) => (some anchor, label))
    ∧ rows.flatten.map (·.1) = entries.map (·.1)
    ∧ (entries.map (·.1)).Nodup

/-- On a page with a table of contents, a navigation bar and a header, the contents, the bar
and the headings list the same sections.  These are the sections that the page has registered when
it is complete, beginning with none. -/
theorem convert_lists_agree (file source : Text) (o : Options) (hcontents : o.contents = true)
    (hnavbar : o.navbar = true) (hheader : ¬ HeaderMissing file source o) :
    ∃ sections, Registry.create ((resolveAnchors file source o).1.getD []) = .ok sections
      ∧ (convert file source o).output = (conversionDesk file source o).finished
        (pageDraft (resolvedOptions file source o) sections source)
      ∧ ListsAgree (conversionDesk file source o)
        (pageDraft (resolvedOptions file source o) sections source)
        (convert file source o).output := by
  obtain ⟨sections, hsections⟩ := exists_create_of_header hheader
  have houtput := (convert_run hsections).1
  refine ⟨sections, hsections, houtput, ?_⟩
  let d := pageDraft (resolvedOptions file source o) sections source
  have hwants : (resolvedOptions file source o).wantsNavigation = true := by
    show (o.contents || o.navbar) = true
    rw [hcontents]
    rfl
  have htracks : (resolvedOptions file source o).policy.tracks = true := by
    show ((resolvedOptions file source o).wantsNavigation || _) = true
    rw [hwants]
    rfl
  obtain ⟨before, title, description, after, hpieces, hothers⟩ := exists_header hsections hheader
  obtain ⟨ahead, behind, hfinished, hahead, hbehind⟩ :=
    (conversionDesk file source o).exists_around_navigation hwants hpieces
      fun q hq => hothers q (List.mem_append_left after hq)
  refine ⟨⟨before, title, description, after, ahead, behind, hpieces, hothers, ?_, hahead,
    hbehind⟩, ?_, ?_, ?_⟩
  · have hboth : (conversionDesk file source o).navigation d.sections
        = d.sections.navbar ++ d.sections.contents := by
      show (if o.navbar then _ else _) ++ (if o.contents then _ else _) = _
      rw [hnavbar, hcontents]
      rfl
    rw [houtput, hfinished, hboth, Registry.contents_eq, Registry.navbar_eq]
  · have hranked : d.Ranked (resolvedOptions file source o).policy :=
      (Draft.Ranked.invariant _).complete
        ((Draft.Ranked.invariant _).run ((Draft.Ranked.invariant _).start nofun _ _) _) _
    have hanchored : d.Anchored := anchored_draftOf _ _ (sections_create hsections) source
    rw [hranked.topHeadings htracks, hanchored, List.filterMap_map, List.map_map]
    exact congrFun List.filterMap_eq_map _
  · rw [← List.map_flatten, Thread.flatten_navbarLines, List.map_map, List.map_map]
    rfl
  · obtain ⟨headings, hregistered⟩ := exists_registerAll_draftOf
      (resolvedOptions file source o).policy (o.title.getD []) sections source
    have hnone : sections.used.Nodup := by
      rw [Registry.used, sections_create hsections]
      exact List.nodup_nil
    have hnodup := Registry.nodup_used_registerAll hnone headings
    rw [← hregistered] at hnodup
    rw [List.map_map]
    exact hnodup

/-- With a given title the header is written first, and of the two sections each has its line and
its link. -/
theorem convert_lists_agree_titled :
    let source : Text := "=head1 FOO\n\n=head1 BAR\n"
    let o : Options := { contentsPage with navbar := true, title := some "T" }
    o.contents = true ∧ o.navbar = true ∧ ¬ HeaderMissing defaultFileName source o
      ∧ ∃ sections,
        Registry.create ((resolveAnchors defaultFileName source o).1.getD []) = .ok sections
          ∧ ListsAgree (conversionDesk defaultFileName source o)
            (pageDraft (resolvedOptions defaultFileName source o) sections source)
            (convert defaultFileName source o).output := by
  intro source o
  have hheader : ¬ HeaderMissing defaultFileName source o := by
    intro hmissing
    have hsections := create_resolved (o := o) defaultFileName source rfl rfl
    have hstart := headerWritten_body hsections (List.nil_append (bodyEvents source)).symm
    have hcontent : isContentless (Paragraph.split source) = false := by decide +kernel
    rw [hmissing [_] _ (sourceEvents_eq defaultFileName source), resolvedDraft, draftAfter,
      hcontent] at hstart
    cases hstart
  obtain ⟨sections, hsections, -, hlists⟩ :=
    convert_lists_agree defaultFileName source o rfl rfl hheader
  exact ⟨rfl, rfl, hheader, sections, hsections, hlists⟩

end PodLoom
