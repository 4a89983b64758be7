import PodLoom.Proofs.ListForest
import PodLoom.Proofs.Navigation
import PodLoom.Proofs.Pod.WellNested
import PodLoom.Proofs.Thread.Invariant
import PodLoom.Proofs.Thread.Placement

set_option autoImplicit false

/-!
# Raw thread

Raw thread goes past the lists, straight to the sink.  So it stands on the page in one piece,
behind the text that was written before it, but it does not write the item that the innermost
list has pending, and the macro of that item comes behind it (`raw_overtakes_item`).  Other
blocks write that item first.

No list but the innermost has an item pending (`OuterSettled.invariant`).  If that one has none
either, and no blank line is deferred or the raw thread does not start with a closing bracket
line, then raw thread stands in its place: behind all that the blocks before it come to and
before all that the blocks behind it come to (`raw_in_place`).
-/

namespace PodLoom

open Text CodeUnit
open PodLoom.Pod (Block Element Event Formatted Nested Paragraph bodyEvents isContentless)
open PodLoom.Thread (Desk Draft Options Piece Policy Registry Scope Sink Writer)

/-! ## Raw thread among the events of a source -/

namespace Pod

/-- Raw thread is delivered as one text between its start and its end. -/
theorem Nested.exists_data {opened strays left : List Element} {all events rest : List Event}
    {target : Text} {line : Int} (h : Nested opened all strays left)
    (hall : all = events ++ .start (.data target line) :: rest) :
    ∃ t more, rest = .text t :: .finish (.data target line) :: more := by
  induction h generalizing events with
  | nil opened => simp at hall
  | @block _ _ _ element inner rest' helement hinner _ ih =>
    rw [Block.enclosed_append] at hall
    rcases events with _ | ⟨e, events⟩
    · obtain ⟨hstart, hrest⟩ := List.cons.inj hall
      obtain rfl := Event.start.inj hstart
      obtain ⟨content, rfl⟩ := hinner
      exact ⟨content, rest', hrest.symm⟩
    · obtain ⟨-, hall⟩ := List.cons.inj hall
      rcases List.append_eq_append_iff.1 hall with ⟨more, rfl, hmore⟩ | ⟨more, hinner', hmore⟩
      · rcases more with _ | ⟨e', more⟩
        · cases (List.cons.inj hmore).1
        · exact ih (List.cons.inj hmore).2
      · rcases more with _ | ⟨e', more⟩
        · cases (List.cons.inj hmore).1
        · obtain ⟨rfl, -⟩ := List.cons.inj hmore
          -- Raw thread is no part of a line of text.
          cases hinner.isInline_of_start (hinner' ▸ List.mem_append_right events List.mem_cons_self)
  | listStart kind line' _ ih =>
    rcases events with _ | ⟨e, events⟩
    · cases (List.cons.inj hall).1
    · exact ih (List.cons.inj hall).2
  | listEnd kind line' _ ih =>
    rcases events with _ | ⟨e, events⟩
    · cases (List.cons.inj hall).1
    · exact ih (List.cons.inj hall).2
  | strayEnd kind line' _ ih =>
    rcases events with _ | ⟨e, events⟩
    · cases (List.cons.inj hall).1
    · exact ih (List.cons.inj hall).2

end Pod

/-! ## Raw thread and the lists -/

namespace Thread

theorem Scope.pending_settle (s : Scope) : s.settle.1.pending = false := by
  unfold settle
  split
  · exact pending_place [] s
  · exact Bool.eq_false_iff.2 ‹_›

namespace Draft

variable {p : Policy} {d : Draft}

/-- Raw thread is written where it comes, and changes nothing else. -/
theorem run_data (p : Policy) (d : Draft) (target : Text) (line : Int) {t : Text}
    (h : t.trimEnd ≠ []) :
    d.run p [.start (.data target line), .text t, .finish (.data target line)]
      = d.write [.passage (Writer.block t.trimEnd)] := by
  show d.writeData (.ofRaw t) = _
  exact if_neg fun hnone => h (List.isEmpty_iff.1 hnone)

/-- No list but the innermost has an item pending. -/
def OuterSettled (d : Draft) : Prop := ∀ s ∈ d.scopes.tail, s.pending = false

namespace OuterSettled

theorem onScope (h : d.OuterSettled) (f : Scope → Scope × List Piece) :
    (d.onScope f).OuterSettled := by
  rcases d with ⟨frames, _ | ⟨s, outer⟩, inName, headerDone, sections, warnings, pieces⟩
  · exact h
  · exact h

theorem place (h : d.OuterSettled) (body : Text) : (d.place body).OuterSettled := by
  unfold Draft.place
  split
  · exact h
  · exact h.onScope _

/-- A list that starts writes the item that the list around it has pending. -/
theorem enter (h : d.OuterSettled) (kind : Pod.ListKind) : (d.enter kind).OuterSettled := by
  rcases d with ⟨frames, _ | ⟨s, outer⟩, inName, headerDone, sections, warnings, pieces⟩
  · exact nofun
  · exact List.forall_mem_cons.2 ⟨s.pending_settle, h⟩

theorem exit (h : d.OuterSettled) : d.exit.OuterSettled := by
  intro s hs
  rw [scopes_exit] at hs
  exact h s (List.mem_of_mem_tail hs)

theorem all (h : d.OuterSettled) (hinner : ∀ s ∈ d.scopes.head?, s.pending = false) :
    ∀ s ∈ d.scopes, s.pending = false := by
  unfold OuterSettled at h
  cases hscopes : d.scopes with
  | nil => exact nofun
  | cons s outer =>
    rw [hscopes] at h hinner
    exact List.forall_mem_cons.2 ⟨hinner s rfl, h⟩

theorem invariant (p : Policy) : Invariant p OuterSettled where
  frames h _ := h
  inName h _ := h
  warn h _ _ := h
  header h _ _ := h
  heading h _ _ := h
  registered h _ _ _ := h
  passage h _ := h
  place h body := h.place body
  item h _ _ := h.onScope _
  close h := h.onScope _
  enter h kind := h.enter kind
  exit h := h.exit

end OuterSettled

end Draft

end Thread

/-! ## Raw thread on a page -/

/-- Text that is not blank ends, once trimmed, with a unit that is not blank. -/
theorem exists_concat_trimEnd {t : Text} (h : t.isBlank = false) :
    ∃ (front : Text) (u : CodeUnit), t.trimEnd = front ++ [u] ∧ u.isBlank = false := by
  have hne : t.trimEnd ≠ [] := by
    intro hnil
    rw [trimEnd_eq_nil_iff.1 hnil] at h
    cases h
  refine ⟨t.trimEnd.dropLast, t.trimEnd.getLast hne, (List.dropLast_append_getLast hne).symm, ?_⟩
  exact Bool.eq_false_iff.2 (List.rdropWhile_last_not CodeUnit.isBlank t hne)

/-- What the blocks before some point come to: what is written there, and the item that the
innermost list has pending. -/
def Thread.Draft.due (d : Draft) : Draft := d.onScope Scope.settle

theorem Thread.Draft.due_eq {d : Draft} (h : ∀ s ∈ d.scopes.head?, s.pending = false) :
    d.due = d := by
  rcases d with ⟨frames, _ | ⟨s, outer⟩, inName, headerDone, sections, warnings, pieces⟩
  · rfl
  · rw [due, onScope]
    dsimp only
    rw [Scope.settle_of_not_pending (h s rfl), List.append_nil]

/-- Raw thread stands in its place on a page: in one piece and on a line that ends with it,
between the text of what the blocks before it come to and that of what the blocks behind it
come to. -/
def RawInPlace (file source : Text) (o : Options) (sections : Registry)
    (events more : List Event) (t : Text) : Prop :=
  let k := conversionDesk file source o
  let due := (resolvedDraft file source o sections events).due
  let page := ((due.write [.passage (Writer.block t.trimEnd)]).run
    (resolvedOptions file source o).policy more).complete (isContentless (Paragraph.split source))
  let navigation := k.navigation page.sections
  ∃ (after : List Piece) (ahead behind : Text),
    page.pieces = due.pieces ++ .passage (Writer.block t.trimEnd) :: after
      ∧ (convert file source o).output = ahead ++ (t.trimEnd ++ newline :: behind)
      ∧ Respaced ahead (Sink.spliced navigation (due.pieces.flatMap k.steps))
      ∧ Respaced (newline :: behind)
          (newline :: Sink.ahead navigation (k.sink due.pieces) (after.flatMap k.steps))

/-- All raw thread of a source is delivered as one text.  If that is not blank, the innermost
list has no item pending where it comes, and no blank line is deferred there or it does not
start with a closing bracket line, then no list has an item pending and the raw thread stands
in its place. -/
theorem raw_in_place (file source : Text) (o : Options) {sections : Registry}
    (hsections : Registry.create ((resolveAnchors file source o).1.getD []) = .ok sections)
    {events rest : List Event} {target : Text} {line : Int}
    (hbody : bodyEvents source = events ++ .start (.data target line) :: rest) :
    let w := writerAfter file source o (.docStart (sourceInfo file source) :: events)
    ∃ t more, rest = .text t :: .finish (.data target line) :: more
      ∧ (t.isBlank = false → (∀ s ∈ w.nesting.scopes.head?, s.pending = false) →
          w.nesting.sink.deferred = 0 ∨ Sink.afterClosingLine? t.trimEnd = none →
          (∀ s ∈ w.nesting.scopes, s.pending = false)
            ∧ RawInPlace file source o sections events more t) := by
  intro w
  obtain ⟨t, more, rfl⟩ := (Pod.nested_bodyEvents source).exists_data hbody
  refine ⟨t, more, rfl, fun ht hitem hclosing => ?_⟩
  let p := (resolvedOptions file source o).policy
  let k := conversionDesk file source o
  let d := resolvedDraft file source o sections events
  have hw : w = k.writer d := writerAfter_body hsections hbody
  rw [hw] at hitem hclosing ⊢
  have houter : d.OuterSettled :=
    (Draft.OuterSettled.invariant p).run ((Draft.OuterSettled.invariant p).start nofun _ _) events
  refine ⟨houter.all hitem, ?_⟩
  obtain ⟨front, u, htrimmed, hu⟩ := exists_concat_trimEnd ht
  have hraw := d.run_data p target line (t := t) (by simp [htrimmed])
  let written := d.write [.passage (Writer.block t.trimEnd)]
  have hpage : pageDraft (resolvedOptions file source o) sections source
      = (written.run p more).complete (isContentless (Paragraph.split source)) := by
    have hwhole : resolvedDraft file source o sections (bodyEvents source)
        = written.run p more := by
      rw [hbody, resolvedDraft_append]
      exact (Draft.run_append p d [_, _, _] more).trans (congrArg (Draft.run p · more) hraw)
    exact congrArg (Draft.complete _) hwhole
  obtain ⟨after, hafter⟩ := written.exists_pieces_complete p more
    (isContentless (Paragraph.split source))
  have hpieces : ((written.run p more).complete (isContentless (Paragraph.split source))).pieces
      = d.pieces ++ .passage (Writer.block t.trimEnd) :: after :=
    hafter.trans (List.append_assoc ..)
  have hblock : Writer.block t.trimEnd = front ++ [u] ++ [newline, newline] :=
    congrArg (· ++ _) htrimmed
  have hcut := hpieces
  rw [hblock] at hcut
  rw [htrimmed] at hclosing
  obtain ⟨ahead, behind, hfinished, hahead, hbehind⟩ := k.exists_around_passage hu hcut hclosing
  have hdue : d.due = d := d.due_eq hitem
  rw [RawInPlace, hdue]
  refine ⟨after, ahead, behind, hpieces, ?_, hahead.trans (k.respaced_sink _ _), hbehind⟩
  rw [(convert_run hsections).1, hpage, hfinished, htrimmed]

/-- Raw thread in an item that has text. -/
def rawInItem : Text := "=over\n\n=item *\n\n code\n\n=for thread RAW\n\n=back\n"

/-- The events of that source before the raw thread. -/
def beforeRaw : List Event :=
  [.start (.over .bullet 1), .start (.item .bullet "*" 3), .finish (.item .bullet "*" 3),
    .start (.verbatim 5), .text " code", .finish (.verbatim 5)]

theorem bodyEvents_rawInItem : bodyEvents rawInItem
    = beforeRaw ++ .start (.data "thread" 7) :: [.text "RAW", .finish (.data "thread" 7),
      .finish (.over .bullet 1)] := by
  have hsplit : Paragraph.split rawInItem
      = [⟨.command "over", 1, [[]]⟩, ⟨.command "item", 3, ["*"]⟩, ⟨.verbatim, 5, [" code"]⟩,
        ⟨.command "for", 7, ["thread RAW"]⟩, ⟨.command "back", 9, [[]]⟩] := by
    decide +kernel
  rw [bodyEvents, hsplit]
  decide +kernel

/-- The writer before that raw thread. -/
theorem writerAfter_rawInItem :
    writerAfter defaultFileName rawInItem Options.plain
        (.docStart (sourceInfo defaultFileName rawInItem) :: beforeRaw)
      = (conversionDesk defaultFileName rawInItem Options.plain).writer
          (resolvedDraft defaultFileName rawInItem Options.plain .empty beforeRaw) :=
  writerAfter_body (create_plain rawInItem) bodyEvents_rawInItem

/-- The list that raw thread is in has its item open. -/
theorem raw_in_place_item :
    Registry.create ((resolveAnchors defaultFileName rawInItem Options.plain).1.getD [])
        = .ok .empty
      ∧ bodyEvents rawInItem
        = beforeRaw ++ .start (.data "thread" 7) :: [.text "RAW", .finish (.data "thread" 7),
          .finish (.over .bullet 1)]
      ∧ RawInPlace defaultFileName rawInItem Options.plain .empty beforeRaw
          [.finish (.over .bullet 1)] "RAW" := by
  have hsections := create_plain rawInItem
  refine ⟨hsections, bodyEvents_rawInItem, ?_⟩
  obtain ⟨t, more, hrest, hplace⟩ :=
    raw_in_place defaultFileName rawInItem Options.plain hsections bodyEvents_rawInItem
  obtain ⟨⟨⟩, -, rfl⟩ : Event.text "RAW" = .text t ∧ _ ∧ _ = more := by
    simpa only [List.cons.injEq] using hrest
  have hwritten : ∀ s ∈ (writerAfter defaultFileName rawInItem Options.plain
      (.docStart (sourceInfo defaultFileName rawInItem) :: beforeRaw)).nesting.scopes.head?,
      s.pending = false := by
    rw [writerAfter_rawInItem]
    decide +kernel
  exact (hplace (by decide +kernel) hwritten (.inr (by decide +kernel))).2

/-- Raw thread in the only paragraph of an item. -/
def rawAsItem : Text := "=over\n\n=item *\n\n=for thread RAW\n\n=back\n"

theorem split_rawAsItem : Paragraph.split rawAsItem
    = [⟨.command "over", 1, [[]]⟩, ⟨.command "item", 3, ["*"]⟩,
      ⟨.command "for", 5, ["thread RAW"]⟩, ⟨.command "back", 7, [[]]⟩] := by
  decide +kernel

/-- The events of that source before the raw thread. -/
def beforeRawItem : List Event :=
  [.start (.over .bullet 1), .start (.item .bullet "*" 3), .finish (.item .bullet "*" 3)]

theorem bodyEvents_rawAsItem : bodyEvents rawAsItem
    = beforeRawItem ++ .start (.data "thread" 5) :: [.text "RAW", .finish (.data "thread" 5),
      .finish (.over .bullet 1)] := by
  rw [bodyEvents, split_rawAsItem]
  decide +kernel

theorem output_rawAsItem : (convert defaultFileName rawAsItem Options.plain).output
    = ofString "RAW\n\n\\bullet\n[]\n\\signature\n" := by
  rw [(convert_run (create_plain rawAsItem)).1, pageDraft, draftOf, draftAfter,
    bodyEvents_rawAsItem, split_rawAsItem]
  decide +kernel

/-- The item comes behind the raw thread that is its only paragraph. -/
theorem raw_overtakes_item :
    Registry.create ((resolveAnchors defaultFileName rawAsItem Options.plain).1.getD [])
        = .ok .empty
      ∧ bodyEvents rawAsItem
        = beforeRawItem ++ .start (.data "thread" 5) :: [.text "RAW", .finish (.data "thread" 5),
          .finish (.over .bullet 1)]
      ∧ isBlank "RAW" = false
      ∧ ¬ RawInPlace defaultFileName rawAsItem Options.plain .empty beforeRawItem
          [.finish (.over .bullet 1)] "RAW" := by
  refine ⟨create_plain rawAsItem, bodyEvents_rawAsItem, by decide, ?_⟩
  rintro ⟨after, ahead, behind, -, hout, hahead, -⟩
  rw [output_rawAsItem] at hout
  -- The raw thread is nowhere but at the start of the page, so nothing is before it.
  have hfirst : ahead = [] := by
    have honce : ∀ n < 27, List.isPrefixOf (trimEnd "RAW")
        (List.drop n (ofString "RAW\n\n\\bullet\n[]\n\\signature\n")) = true → n = 0 := by
      decide +kernel
    have hshort : ahead.length < 27 := by
      have hlength := congrArg List.length hout
      rw [List.length_append, List.length_append, List.length_cons,
        show (ofString _).length = 27 from rfl] at hlength
      omega
    refine List.length_eq_zero_iff.mp (honce ahead.length hshort ?_)
    rw [hout, List.drop_left, List.isPrefixOf_iff_prefix]
    exact List.prefix_append _ _
  rw [hfirst] at hahead
  exact absurd hahead.words_eq (by decide +kernel)

end PodLoom
