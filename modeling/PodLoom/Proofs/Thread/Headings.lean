import PodLoom.Proofs.Thread.Rendering

set_option autoImplicit false

/-!
# The headings of a source and the sections of its page

The top-level headings of a source become the sections of a page in their order, except
that `NAME` is passed over when it introduces the page header (`registered_run`).  If no
such heading has a link, their texts do not depend on the sections, so the scan for
anchors and the conversion have the same headings to choose from.

A page has a heading with an anchor for each of its sections and no others
(`anchored_draftOf`).
-/

namespace PodLoom

open Text CodeUnit
open PodLoom.Pod (Block Event Inline Paragraph bodyEvents isContentless)
open PodLoom.Thread (Draft Piece Policy Registry Section)

namespace Thread

/-! ## Headings that become sections -/

/-- The headings of a source, and those of them that become sections: all, in their
order, but `NAME` may be passed over if the title is not given. -/
inductive Registered (titled : Bool) : List Text → List Text → Prop where
  | nil : Registered titled [] []
  | keep (t : Text) {heads texts : List Text} :
      Registered titled heads texts → Registered titled (t :: heads) (t :: texts)
  | skip {heads texts : List Text} :
      titled = false → Registered titled heads texts →
        Registered titled (ofString "NAME" :: heads) texts

namespace Registered

variable {titled : Bool} {heads texts : List Text}

theorem mem_heads (h : Registered titled heads texts) {t : Text} (ht : t ∈ texts) : t ∈ heads := by
  induction h with
  | nil => exact ht
  | keep u _ ih =>
    rcases List.mem_cons.1 ht with rfl | ht
    · exact List.mem_cons_self
    · exact List.mem_cons_of_mem u (ih ht)
  | skip _ _ ih => exact List.mem_cons_of_mem _ (ih ht)

theorem mem_texts (h : Registered titled heads texts) {t : Text} (ht : t ∈ heads)
    (hname : t = ofString "NAME" → titled = true) : t ∈ texts := by
  induction h with
  | nil => exact ht
  | keep u _ ih =>
    rcases List.mem_cons.1 ht with rfl | ht
    · exact List.mem_cons_self
    · exact List.mem_cons_of_mem u (ih ht)
  | skip huntitled _ ih =>
    rcases List.mem_cons.1 ht with rfl | ht
    · rw [hname rfl] at huntitled
      cases huntitled
    · exact ih ht

/-- With a title every heading becomes a section. -/
theorem eq_of_titled (h : Registered titled heads texts) (htitled : titled = true) :
    texts = heads := by
  induction h with
  | nil => rfl
  | keep u _ ih => rw [ih]
  | skip huntitled _ _ =>
    rw [htitled] at huntitled
    cases huntitled

end Registered

/-- The text of a top-level heading without links, as it is registered. -/
def headText? : Block → Option Text
  | .heading level line t =>
      if level.val = 0 then some (Draft.contentOf (Block.nodes line t) .empty).plain.squeeze
      else none
  | _ => none

theorem headText?_of_other {b : Block} (h : ∀ line t, b ≠ .heading 0 line t) :
    headText? b = none := by
  cases b with
  | heading level line t =>
    have hlevel : level.val ≠ 0 := fun hzero => h line t (by rw [Fin.ext (b := 0) hzero])
    rw [headText?, if_neg hlevel]
  | _ => rfl

namespace Draft

/-- A top-level heading becomes a section, or it introduces the page header. -/
theorem texts_writeHeading {p : Policy} (htracks : p.tracks = true) (content : Rendered)
    (d : Draft) :
    (d.writeHeading p 1 content).sections.texts = d.sections.texts ++ [content.plain.squeeze]
      ∨ p.titled = false ∧ content.plain.squeeze = ofString "NAME"
        ∧ (d.writeHeading p 1 content).sections.texts = d.sections.texts := by
  have hsections := sections_writeHeading p 1 content d
  cases hname : d.introducesName p 1 content.plain.squeeze with
  | false =>
    left
    rw [hsections, if_pos ⟨rfl, htracks, hname⟩, Registry.texts_register]
  | true =>
    right
    have hparts := hname
    simp only [introducesName, Bool.and_eq_true, beq_iff_eq, Bool.not_eq_true'] at hparts
    refine ⟨hparts.1.2, hparts.1.1.2, ?_⟩
    rw [hsections, if_neg (by simp [hname])]

/-- The sections that blocks add, if the top-level headings among them have no links. -/
theorem registered_run {p : Policy} (htracks : p.tracks = true) {bs : List Block}
    (hfree : ∀ line t, Block.heading 0 line t ∈ bs →
      Inline.allLinkFree (Block.nodes line t) = true) (d : Draft) :
    ∃ texts, Registered p.titled (bs.filterMap headText?) texts
      ∧ (d.run p (bs.flatMap Block.events)).sections.texts = d.sections.texts ++ texts := by
  induction bs generalizing d with
  | nil => exact ⟨[], .nil, (List.append_nil _).symm⟩
  | cons b rest ih =>
    have hfreeRest : ∀ line t, Block.heading 0 line t ∈ rest →
        Inline.allLinkFree (Block.nodes line t) = true :=
      fun line t h => hfree line t (List.mem_cons_of_mem b h)
    obtain ⟨texts, hregistered, hrest⟩ := ih hfreeRest (d.run p b.events)
    rw [List.flatMap_cons, run_append, hrest, List.filterMap_cons]
    rcases d.run_block p b with ⟨line, t, warnings, rfl, hrun⟩ | ⟨hother, hsections⟩
    · have hcontent := contentOf_of_linkFree (hfree line t List.mem_cons_self) d.sections .empty
      have hhead : headText? (.heading 0 line t)
          = some (contentOf (Block.nodes line t) d.sections).plain.squeeze := by
        rw [hcontent]
        rfl
      rw [hhead, hrun]
      rcases texts_writeHeading htracks (contentOf (Block.nodes line t) d.sections)
          { d with warnings } with hkeep | ⟨huntitled, hname, hskip⟩
      · refine ⟨_, hregistered.keep _, ?_⟩
        rw [hkeep, List.append_assoc]
        rfl
      · refine ⟨texts, ?_, by rw [hskip]⟩
        rw [hname]
        exact hregistered.skip huntitled
    · rw [headText?_of_other hother, hsections]
      exact ⟨texts, hregistered, rfl⟩

end Draft

/-! ## Headings with anchors -/

/-- The anchor of a piece, if it is a heading that has one. -/
def Piece.anchor? : Piece → Option Text
  | .heading _ anchor _ => anchor
  | _ => none

/-- The heading of a section. -/
def Section.heading (s : Section) : Piece := .heading 1 (some s.anchor) s.label

theorem Piece.anchor?_of_isPlain {q : Piece} (h : q.isPlain = true) : q.anchor? = none := by
  cases q with
  | heading level anchor label => exact Option.isNone_iff_eq_none.1 h
  | _ => rfl

namespace Draft

/-- The headings with anchors are those of the sections. -/
def Anchored (d : Draft) : Prop :=
  d.pieces.filter (·.anchor?.isSome) = d.sections.sections.map Section.heading

theorem filter_plain {more : List Piece} (h : ∀ q ∈ more, q.isPlain = true) :
    more.filter (·.anchor?.isSome) = [] := by
  rw [List.filter_eq_nil_iff]
  intro q hq
  rw [Piece.anchor?_of_isPlain (h q hq)]
  simp

theorem Anchored.of_extends {d d' : Draft} (hd : d.Anchored) (h : Extends d d') : d'.Anchored := by
  obtain ⟨-, hsections, more, hpieces, hmore⟩ := h
  rw [Anchored, hpieces, hsections, List.filter_append, filter_plain hmore, List.append_nil]
  exact hd

theorem anchored_step (p : Policy) {d : Draft} (hd : d.Anchored) (e : Event) :
    (d.step p e).Anchored := by
  rcases step_grown p d e with h | ⟨-, -, hsections, title, description, hpieces⟩
    | ⟨-, -, text, label, hsections, more, hmore, hpieces⟩
  · exact hd.of_extends h
  · rw [Anchored, hpieces, hsections, List.filter_append]
    exact (List.append_nil _).trans hd
  · rw [Anchored, hpieces, hsections, Registry.sections_register, List.filter_append,
      List.filter_append, filter_plain hmore, List.append_nil, List.map_append, hd]
    rfl

theorem anchored_run (p : Policy) {d : Draft} (hd : d.Anchored) (events : List Event) :
    (d.run p events).Anchored := by
  induction events generalizing d with
  | nil => exact hd
  | cons e rest ih => exact ih (anchored_step p hd e)

theorem anchored_start (p : Policy) (title : Text) (contentless : Bool) {sections : Registry}
    (h : sections.sections = []) : (start p title contentless sections).Anchored := by
  unfold start Anchored
  split
  · exact (congrArg (List.map Section.heading) h).symm
  · exact (congrArg (List.map Section.heading) h).symm

/-- An anchor that one section has stands at the heading of that section only. -/
theorem Anchored.filter_eq {d : Draft} (hd : d.Anchored) (hnodup : d.sections.used.Nodup)
    {s : Section} (hs : s ∈ d.sections.sections) :
    d.pieces.filter (fun q => q.anchor? = some s.anchor) = [s.heading] := by
  have hwithin : d.pieces.filter (fun q => q.anchor? = some s.anchor)
      = (d.pieces.filter (·.anchor?.isSome)).filter (fun q => q.anchor? = some s.anchor) := by
    rw [List.filter_filter]
    apply List.filter_congr
    intro q _
    cases q.anchor? <;> simp
  have hone : d.sections.sections.filter (fun s' => s'.anchor = s.anchor) = [s] := by
    have hsame := List.filter_congr (l := d.sections.sections)
      (p := fun s' => decide (s'.anchor = s.anchor)) (q := (· == s)) (fun s' hs' => by
        by_cases h : s'.anchor = s.anchor
        · obtain rfl := List.inj_on_of_nodup_map hnodup hs' hs h
          simp
        · have hne : s' ≠ s := fun heq => h (heq ▸ rfl)
          simp [h, hne])
    rw [hsame, List.filter_beq, List.count_eq_one_of_mem (List.Nodup.of_map _ hnodup) hs]
    rfl
  rw [hwithin, hd, List.filter_map]
  have htest : ((fun q : Piece => decide (q.anchor? = some s.anchor)) ∘ Section.heading)
      = fun s' => decide (s'.anchor = s.anchor) := by
    funext s'
    simp [Section.heading, Piece.anchor?]
  rw [htest, hone]
  rfl

end Draft

end Thread

/-! ## Whole sources -/

open Thread (Registered)

/-- No top-level heading of a source has a link. -/
def LinkFreeHeadings (source : Text) : Prop :=
  ∀ p ∈ Paragraph.split source, p.kind = .command (ofString "head1") →
    Inline.allLinkFree (Inline.parse p.line p.joined.expandTabs) = true

instance (source : Text) : Decidable (LinkFreeHeadings source) :=
  inferInstanceAs (Decidable (∀ p ∈ Paragraph.split source, _ → _))

/-- Whatever sections a draft starts from, it makes sections from the same headings. -/
theorem exists_registered {source : Text} (hfree : LinkFreeHeadings source) :
    ∃ heads, ∀ (p : Policy) (title : Text) (sections : Registry), p.tracks = true →
      ∃ texts, Registered p.titled heads texts
        ∧ (draftOf p title sections source).sections.texts = sections.texts ++ texts := by
  obtain ⟨bs, hbs, hheaded⟩ := Pod.blocked_deliver (Paragraph.split source)
  refine ⟨bs.filterMap Thread.headText?, ?_⟩
  intro p title sections htracks
  have hfreeBlocks : ∀ line t, Block.heading 0 line t ∈ bs →
      Inline.allLinkFree (Block.nodes line t) = true := by
    intro line t hb
    obtain ⟨q, hq, hkind, rfl, rfl⟩ := hheaded _ hb line t rfl
    exact hfree q hq hkind
  obtain ⟨texts, hregistered, hrun⟩ := Draft.registered_run htracks hfreeBlocks
    (Draft.start p title (isContentless (Paragraph.split source)) sections)
  refine ⟨texts, hregistered, ?_⟩
  rw [sections_draftOf, draftAfter, bodyEvents, hbs, hrun, Draft.sections_start]

/-- A page has a heading with an anchor for each of its sections, and no others. -/
theorem anchored_draftOf (p : Policy) (title : Text) {sections : Registry}
    (h : sections.sections = []) (source : Text) : (draftOf p title sections source).Anchored :=
  (Draft.anchored_run p (Draft.anchored_start p title _ h) _).of_extends
    (Draft.extends_complete _ _)

end PodLoom
