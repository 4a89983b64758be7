import PodLoom.Proofs.Pod.Omission
import PodLoom.Proofs.Pod.Sending
import PodLoom.Proofs.Text.Trimming

set_option autoImplicit false

/-!
# The kinds of lists and of their items

The kind of a list is decided when it starts, by the paragraph behind its `=over`.  The kind of an
item is decided when it comes, by its text and by the list that it stands in.  The two decisions
are made apart, with patterns of their own, and they agree: a list that is no block list starts
with an item of its kind, and only a numbered list has numbered items (`list_kinds_agree`).

For one text this is `Item.read_listKind`.  It carries over to the events because nothing is
delivered between an `=over` and the item that gives the list its kind, and because the lists
that the events leave open are those that the reader has open.
-/

namespace PodLoom.Pod

open Text CodeUnit

/-! ## One text read twice -/

theorem not_isBlank_of_isDigit {u : CodeUnit} (h : u.isDigit = true) : u.isBlank = false :=
  not_isBlank_of_isWord (by simp [isWord, h])

/-- A number that starts a numbered list is a number in one. -/
theorem exists_afterNumber?_of_startsNumbering {t : Text} (h : startsNumbering t = true) :
    ∃ body, afterNumber? t = some body := by
  unfold startsNumbering at h
  split at h
  · rename_i one rest
    simp only [Bool.and_eq_true, beq_iff_eq] at h
    obtain ⟨rfl, hmarker⟩ := h
    -- The number is one and not the front of a longer one, for no marker ends in a digit.
    have hrest : rest.dropWhile CodeUnit.isDigit = rest := by
      cases rest with
      | nil => rfl
      | cons u rest =>
        refine List.dropWhile_cons_of_neg fun hdigit => ?_
        have hdot : u ≠ dot := by rintro rfl; cases hdigit
        have hclose : u ≠ ofChar ')' := by rintro rfl; cases hdigit
        simp [dropNumberEnd, hdot, hclose, afterMarker?, not_isBlank_of_isDigit hdigit] at hmarker
    obtain ⟨body, hbody⟩ := Option.isSome_iff_exists.1 hmarker
    refine ⟨body, ?_⟩
    rw [afterNumber?, List.dropWhile_cons_of_pos (by decide), hrest, hbody]
    rfl
  · cases h

/-- The text that gives a list its kind is read as an item of that kind. -/
theorem Item.read_listKind {p : Paragraph} (h : p.kind = .command (ofString "item")) :
    (Item.read (listKind (some p)) p.joined).kind = listKind (some p) := by
  unfold listKind Item.read
  simp only [if_pos h]
  by_cases hempty : p.joined.isEmpty = true
  · simp [hempty]
  · cases hbullet : afterBullet? p.joined with
    | some body => simp [hempty]
    | none =>
      by_cases hnumber : startsNumbering p.joined = true
      · obtain ⟨body, hbody⟩ := exists_afterNumber?_of_startsNumbering hnumber
        simp [hempty, hnumber, hbody]
      · simp [hempty, hnumber]

/-- An item is numbered only if its list is. -/
theorem Item.read_number {kind : ListKind} {marker : Text}
    (h : (Item.read kind marker).kind = .number) : kind = .number := by
  by_contra hkind
  unfold Item.read at h
  rw [if_neg hkind] at h
  split at h
  · cases h
  · split at h
    · cases h
    · cases h

/-! ## Items as they are delivered -/

/-- An item in a list is delivered as its element around its label, and then a paragraph if it has
one. -/
theorem events_deliverItem {c : Context} {l : OpenList} {outer : List OpenList}
    (hlists : c.lists = l :: outer) (line : Int) (marker : Text) :
    ∃ inner more, Formatted inner ∧ Itemless more
      ∧ (deliverItem c line marker).events
        = Block.enclosed (.item (Item.read l.kind marker).kind marker line) inner ++ more := by
  unfold deliverItem
  rw [hlists]
  dsimp only
  generalize Item.read l.kind marker = item
  obtain ⟨inner, hinner, hlabel⟩ : ∃ inner, Formatted inner
      ∧ (if item.label.isEmpty then Delivery.enclose (.item item.kind marker line) .empty
          else .block (.item item.kind marker line) item.label).events
        = Block.enclosed (.item item.kind marker line) inner := by
    split
    · exact ⟨[], .nil, rfl⟩
    · exact ⟨_, formatted_inlineEvents _, rfl⟩
  have hmore : Itemless (if item.body.isBlank then Delivery.empty
      else .block (.para line) item.body).events := by
    split
    · exact .nil
    · exact .paragraph line item.body
  exact ⟨inner, _, hinner, hmore, congrArg (· ++ _) hlabel⟩

namespace Dispatch

variable {d : Dispatch}

/-- A paragraph that is passed over delivers nothing. -/
theorem not_skipped_of_mem {e : Event} (he : e ∈ d.taken.2.events) :
    ¬ (d.context.mode? = some .skip ∧ d.paragraph.boundsRegion = false) := by
  intro hskip
  have hsilent : d.taken = (d.context, .empty) := if_pos hskip
  rw [hsilent] at he
  cases he

/-- An item that is met in a list is read as one of that list. -/
theorem taken_item (hkind : d.paragraph.kind = .command (ofString "item"))
    (hmode : d.context.mode? ≠ some .skip) :
    d.taken = (d.context, deliverItem d.context d.paragraph.line d.paragraph.joined) :=
  taken_command hkind fun hskip => hmode hskip.1

/-- An item that starts is finished by the same paragraph. -/
theorem finish_of_item_start {kind : ListKind} {marker : Text} {line : Int}
    (hstart : .start (.item kind marker line) ∈ d.taken.2.events) :
    .finish (.item kind marker line) ∈ d.taken.2.events := by
  cases d.effect with
  | blocks _ _ hblocks => exact hblocks.finish_of_start rfl hstart
  | listStart l _ _ hevents =>
    rw [hevents] at hstart
    cases List.mem_singleton.1 hstart
  | listEnd l _ _ hevents =>
    rw [hevents] at hstart
    cases List.mem_singleton.1 hstart
  | strayEnd _ _ _ hevents =>
    rw [hevents] at hstart
    cases List.mem_singleton.1 hstart

/-- Every item is read as one of the innermost list. -/
theorem kind_of_item_start {kind : ListKind} {marker : Text} {line : Int}
    (hstart : .start (.item kind marker line) ∈ d.taken.2.events) :
    ∃ l outer, d.context.lists = l :: outer ∧ kind = (Item.read l.kind marker).kind := by
  have hfinish := finish_of_item_start hstart
  -- Some item ends, so this is an `=item`, and it is met in a list.
  have hitem : d.paragraph.kind = .command (ofString "item") ∧ d.context.lists ≠ [] := by
    by_contra hnot
    have hnone := d.itemless fun hkind => by
      by_contra hlists
      exact hnot ⟨hkind, hlists⟩
    cases hnone _ hfinish
  have hmode : d.context.mode? ≠ some .skip := by
    intro hmode
    have hbounds : d.paragraph.boundsRegion = false := by
      rw [Paragraph.boundsRegion, hitem.1]
      decide
    exact not_skipped_of_mem hfinish ⟨hmode, hbounds⟩
  obtain ⟨l, outer, hlists⟩ := List.exists_cons_of_ne_nil hitem.2
  obtain ⟨inner, more, hinner, hmore, hevents⟩ :=
    events_deliverItem hlists d.paragraph.line d.paragraph.joined
  rw [taken_item hitem.1 hmode, hevents, Block.enclosed_append, List.mem_cons, List.mem_append,
    List.mem_cons] at hfinish
  rcases hfinish with hnone | hin | hown | hbehind
  · cases hnone
  · cases (hinner.isInner _ hin).2
  · obtain ⟨rfl, rfl, -⟩ := Element.item.inj (Event.finish.inj hown)
    exact ⟨l, outer, hlists, rfl⟩
  · cases hmore _ hbehind

/-- Only an `=over` starts a list. -/
theorem startsList_of_start {kind : ListKind} {line : Int}
    (hstart : .start (.over kind line) ∈ d.taken.2.events) : d.startsList = true := by
  by_contra hnot
  have hmet := not_skipped_of_mem hstart
  -- Blocks start no list.
  have hblocks : ¬ Blocks d.taken.2.events := fun hblocks => by
    cases hblocks.boundsList _ hstart
  by_cases hcommand : ∃ name, d.paragraph.kind = .command name
  · obtain ⟨name, hkind⟩ := hcommand
    have htaken := taken_command hkind hmet
    by_cases hover : name = ofString "over"
    · have hbounds : d.paragraph.boundsRegion = false := by
        rw [Paragraph.boundsRegion, hkind, hover]
        decide
      have hmode : d.context.mode? ≠ some .skip := fun hmode => hmet ⟨hmode, hbounds⟩
      exact hnot (by simp [startsList, hkind, hover, hmode])
    · by_cases hback : name = ofString "back"
      · rw [htaken, hback] at hstart
        change _ ∈ (endList d.context d.paragraph.line).2.events at hstart
        unfold endList at hstart
        split at hstart
        · cases List.mem_singleton.1 hstart
        · cases List.mem_singleton.1 hstart
      · apply hblocks
        rw [htaken]
        exact (blocks_takeCommand hover hback _ _ _).2
  · exact hblocks (blocks_text fun name hname => hcommand ⟨name, hname⟩).2

end Dispatch

/-! ## Kinds along the events -/

/-- What the kinds of lists and items say of an event, where lists of the given kinds are open
and the events of `rest` come behind it. -/
def Event.KindAgrees (kinds : List ListKind) (rest : List Event) : Event → Prop
  | .start (.over kind _) =>
      kind ≠ .block → ∃ marker line more, rest = .start (.item kind marker line) :: more
  | .start (.item kind marker _) =>
      ∃ listed outer, kinds = listed :: outer ∧ kind = (Item.read listed marker).kind
  | _ => True

/-- The kinds of lists and items agree in all events, from open lists of the given kinds on. -/
def KindsAgree (kinds : List ListKind) : List Event → Prop
  | [] => True
  | e :: rest => e.KindAgrees kinds rest ∧ KindsAgree (e.openKinds kinds) rest

namespace KindsAgree

variable {kinds : List ListKind} {events rest : List Event}

/-- Events that bound no list agree if their items do. -/
theorem append_of_boundsList (hevents : ∀ e ∈ events, e.boundsList = false)
    (hitems : ∀ kind marker line, .start (.item kind marker line) ∈ events →
      ∃ listed outer, kinds = listed :: outer ∧ kind = (Item.read listed marker).kind)
    (hrest : KindsAgree kinds rest) : KindsAgree kinds (events ++ rest) := by
  induction events with
  | nil => exact hrest
  | cons e events ih =>
    have hbound : e.boundsList = false := hevents e List.mem_cons_self
    refine ⟨?_, ?_⟩
    · cases e with
      | start element =>
        cases element with
        | «over» kind line => cases hbound
        | item kind marker line => exact hitems kind marker line List.mem_cons_self
        | _ => trivial
      | _ => trivial
    · rw [Event.openKinds_of_boundsList hbound]
      refine ih (fun e' he' => hevents e' (List.mem_cons_of_mem _ he')) ?_
      exact fun kind marker line hmem => hitems kind marker line (List.mem_cons_of_mem _ hmem)

/-- The lists that are open at the end are ended. -/
theorem ends (lists : List OpenList) (hrest : KindsAgree [] rest) :
    KindsAgree (listKinds lists) (lists.map (fun l => .finish l.element) ++ rest) := by
  induction lists with
  | nil => exact hrest
  | cons l outer ih => exact ⟨trivial, ih⟩

/-- What agreement says of one event, with the lists that the events before it leave open. -/
theorem at_event {before after : List Event} {e : Event}
    (h : KindsAgree kinds (before ++ e :: after)) :
    e.KindAgrees (before.foldl Event.openKinds kinds) after := by
  induction before generalizing kinds with
  | nil => exact h.1
  | cons first before ih => exact ih h.2

end KindsAgree

/-- A list that starts has its kind from the item behind it. -/
theorem Dispatch.kindAgrees_of_startsList {c : Context} {p : Paragraph} {ps : List Paragraph}
    (hstarts : Dispatch.startsList ⟨c, p, ps.head?⟩ = true) (rest : List Event) :
    Event.KindAgrees (listKinds c.lists)
      ((takeParagraphs (takeParagraph c p ps.head?).1 ps).2.events ++ rest)
      (.start (.over (listKind ps.head?) p.line)) := by
  intro hkind
  have htaken := Dispatch.taken_startsList hstarts
  cases ps with
  | nil => exact absurd rfl hkind
  | cons q ps =>
    have hitem : q.kind = .command (ofString "item") := by
      by_contra hitem
      exact hkind (listKind_eq_block_iff.2 (by simp [Paragraph.isItem, hitem]))
    -- The item is met in the list, and in the region that the list starts in.
    let d : Dispatch := ⟨(takeParagraph c p (some q)).1, q, ps.head?⟩
    have hcontext : d.context
        = { c with lists := ⟨listKind (some q), p.line⟩ :: c.lists } := congrArg Prod.fst htaken
    have hmode : d.context.mode? ≠ some .skip := by
      simp only [Dispatch.startsList, Bool.and_eq_true, bne_iff_ne] at hstarts
      rw [hcontext]
      exact hstarts.2
    have hlists : d.context.lists = ⟨listKind (some q), p.line⟩ :: c.lists := by rw [hcontext]
    obtain ⟨inner, more, -, -, hevents⟩ := events_deliverItem hlists q.line q.joined
    have hfirst : d.taken.2.events
        = Block.enclosed (.item (listKind (some q)) q.joined q.line) inner ++ more := by
      rw [Dispatch.taken_item hitem hmode, hevents, Item.read_listKind hitem]
    have hbehind : d.taken.2.events ++ (takeParagraphs d.taken.1 ps).2.events ++ rest
        = Block.enclosed (.item (listKind (some q)) q.joined q.line) inner ++ more
          ++ (takeParagraphs d.taken.1 ps).2.events ++ rest := by rw [hfirst]
    exact ⟨q.joined, q.line, _, hbehind⟩

/-- The kinds agree in what paragraphs deliver, before whatever they agree in behind it. -/
theorem kindsAgree_takeParagraphs (c : Context) (ps : List Paragraph) {rest : List Event}
    (hrest : KindsAgree (listKinds (takeParagraphs c ps).1.lists) rest) :
    KindsAgree (listKinds c.lists) ((takeParagraphs c ps).2.events ++ rest) := by
  induction ps generalizing c with
  | nil => exact hrest
  | cons p ps ih =>
    let d : Dispatch := ⟨c, p, ps.head?⟩
    have hafter := ih d.taken.1 hrest
    have hevents : (takeParagraphs c (p :: ps)).2.events ++ rest
        = d.taken.2.events ++ ((takeParagraphs d.taken.1 ps).2.events ++ rest) :=
      List.append_assoc ..
    rw [hevents]
    by_cases hstarts : d.startsList = true
    · have hkind := Dispatch.kindAgrees_of_startsList hstarts rest
      have htaken := Dispatch.taken_startsList hstarts
      have hfirst : d.taken.2.events = [.start (.over (listKind d.next) d.paragraph.line)] := by
        rw [htaken]
        rfl
      have hlists : listKinds d.taken.1.lists = listKind d.next :: listKinds c.lists := by
        rw [htaken]
        rfl
      rw [hlists] at hafter
      rw [hfirst]
      exact ⟨hkind, hafter⟩
    · cases d.effect with
      | blocks _ hlists hblocks =>
        rw [hlists] at hafter
        refine .append_of_boundsList hblocks.boundsList ?_ hafter
        intro kind marker line hstart
        obtain ⟨l, outer, hopen, hread⟩ := Dispatch.kind_of_item_start hstart
        exact ⟨l.kind, listKinds outer, congrArg listKinds hopen, hread⟩
      | listStart l _ _ hstart =>
        have hmem : .start (.over l.kind l.line) ∈ d.taken.2.events := by
          rw [hstart]
          exact List.mem_singleton.2 rfl
        exact absurd (Dispatch.startsList_of_start hmem) hstarts
      | listEnd l _ hlists hend =>
        have hcontext : c.lists = l :: d.taken.1.lists := hlists
        rw [hcontext, hend]
        exact ⟨trivial, hafter⟩
      | strayEnd _ hbefore hlists hend =>
        have hcontext : c.lists = [] := hbefore
        rw [hlists] at hafter
        rw [hcontext, hend]
        exact ⟨trivial, hafter⟩

/-- The kinds agree in all events of a source. -/
theorem kindsAgree_sourceEvents (file source : Text) :
    KindsAgree [] (sourceEvents file source) := by
  have hend : KindsAgree [] [.docEnd (sortErrata (deliver (Paragraph.split source)).errata)] :=
    ⟨trivial, trivial⟩
  have hbody := kindsAgree_takeParagraphs .empty (Paragraph.split source)
    (.ends (takeParagraphs .empty (Paragraph.split source)).1.lists hend)
  rw [← List.append_assoc] at hbody
  exact ⟨trivial, hbody⟩

/-- Whenever a list starts that is no block list, the very next event is the start of an item of
its kind, whatever the two paragraphs are and whatever region they stand in.  Every item that
starts is one of the innermost list that is open before it, read in the kind of that list, and
so an item is numbered only in a numbered list. -/
theorem list_kinds_agree {file source : Text} {before after : List Event} {element : Element}
    (h : sourceEvents file source = before ++ .start element :: after) :
    (∀ kind line, element = .over kind line → kind ≠ .block →
        ∃ marker itemLine rest, after = .start (.item kind marker itemLine) :: rest)
      ∧ ∀ kind marker line, element = .item kind marker line →
        ∃ listed outer, before.foldl Event.openKinds [] = listed :: outer
          ∧ kind = (Item.read listed marker).kind ∧ (kind = .number → listed = .number) := by
  have hagree := kindsAgree_sourceEvents file source
  rw [h] at hagree
  have hhere := hagree.at_event
  refine ⟨?_, ?_⟩
  · rintro kind line rfl hkind
    exact hhere hkind
  · rintro kind marker line rfl
    obtain ⟨listed, outer, hopen, hread⟩ := hhere
    refine ⟨listed, outer, hopen, hread, ?_⟩
    intro hnumber
    exact Item.read_number (hread.symm.trans hnumber)

/-- A list of bullets between the items of a numbered list. -/
def bulletsInNumbers : Text :=
  "=over\n\n=item 1.\n\n=over\n\n=item *\n\n=back\n\n=item 2)\n\n=back\n"

/-- The events of that source before the bullets. -/
def beforeBullets : List Event :=
  [.docStart ⟨false, none, "lists.pod"⟩, .start (.over .number 1), .start (.item .number "1." 3),
    .finish (.item .number "1." 3)]

/-- The events of the bullets behind the start of their list. -/
def bulletEvents : List Event :=
  [.start (.item .bullet "*" 7), .finish (.item .bullet "*" 7), .finish (.over .bullet 5)]

/-- The events of that source behind the start of its last item. -/
def afterNumber : List Event :=
  [.finish (.item .number "2)" 11), .finish (.over .number 1), .docEnd []]

/-- The bullets start with a bullet, and behind them a number is read in the outer list again. -/
theorem list_kinds_agree_bullets :
    sourceEvents "lists.pod" bulletsInNumbers
        = beforeBullets ++ .start (.over .bullet 5)
          :: (bulletEvents ++ .start (.item .number "2)" 11) :: afterNumber)
      ∧ (∃ marker itemLine rest, bulletEvents ++ .start (.item .number "2)" 11) :: afterNumber
          = .start (.item .bullet marker itemLine) :: rest)
      ∧ ∃ listed outer,
        (beforeBullets ++ .start (.over .bullet 5) :: bulletEvents).foldl Event.openKinds []
            = listed :: outer
          ∧ .number = (Item.read listed "2)").kind
          ∧ (ListKind.number = .number → listed = .number) := by
  have hevents : sourceEvents "lists.pod" bulletsInNumbers
      = beforeBullets ++ .start (.over .bullet 5)
        :: (bulletEvents ++ .start (.item .number "2)" 11) :: afterNumber) := by
    decide +kernel
  have hitem : sourceEvents "lists.pod" bulletsInNumbers
      = (beforeBullets ++ .start (.over .bullet 5) :: bulletEvents)
        ++ .start (.item .number "2)" 11) :: afterNumber := by
    rw [hevents, List.append_assoc, List.cons_append]
  refine ⟨hevents, ?_, ?_⟩
  · exact (list_kinds_agree hevents).1 .bullet 5 rfl (by decide)
  · exact (list_kinds_agree hitem).2 .number "2)" 11 rfl

end PodLoom.Pod
