import PodLoom.Proofs.Pod.WellNested

set_option autoImplicit false

/-!
# The lists that are open when an event is sent

The reader of a source keeps a stack of open lists and sends events; whoever receives
them sees the events alone.  Here each event is written down with the lists that are open
in the reader when it has been sent, and with the paragraph it comes from (`Sent`).

The events tell all there is to know of that stack (`follows_bodySent`): a list that
starts is pushed, a list that ends is popped, no other event changes it, an item is sent
only when a list is open, and a list ends on an empty stack exactly when a `=back` is met
that has no list to end.
-/

namespace PodLoom.Pod

open Text

/-! ## Events and open lists -/

/-- Whether an element is a list. -/
def Element.isList : Element → Bool
  | .over .. => true
  | _ => false

/-- Whether an element is a list item. -/
def Element.isItem : Element → Bool
  | .item .. => true
  | _ => false

theorem Element.isList_of_isBlock {element : Element} (h : element.isBlock = true) :
    element.isList = false := by
  cases element with
  | «over» kind line => cases h
  | _ => rfl

theorem Element.isList_of_isInline {element : Element} (h : element.isInline = true) :
    element.isList = false ∧ element.isItem = false := by
  cases element with
  | format code line => exact ⟨rfl, rfl⟩
  | link kind target heading hasLabel line => exact ⟨rfl, rfl⟩
  | _ => cases h

/-- Whether an event is the start or the end of a list. -/
def Event.boundsList : Event → Bool
  | .start element | .finish element => element.isList
  | _ => false

/-- Whether an event is the end of a list item. -/
def Event.endsItem : Event → Bool
  | .finish element => element.isItem
  | _ => false

/-- The kinds of the open lists after an event, for one who only sees the events. -/
def Event.openKinds (kinds : List ListKind) : Event → List ListKind
  | .start (.over kind _) => kind :: kinds
  | .finish (.over ..) => kinds.tail
  | _ => kinds

/-- The lists that an event ends though none is open, for one who only sees the events. -/
def Event.strayEnds (kinds : List ListKind) : Event → List Element
  | .finish (.over kind line) => if kinds.isEmpty then [.over kind line] else []
  | _ => []

theorem Event.openKinds_of_boundsList {e : Event} (he : e.boundsList = false)
    (kinds : List ListKind) : e.openKinds kinds = kinds := by
  cases e with
  | start element | finish element =>
    cases element with
    | «over» kind line => cases he
    | _ => rfl
  | _ => rfl

theorem Event.strayEnds_of_boundsList {e : Event} (he : e.boundsList = false)
    (kinds : List ListKind) : e.strayEnds kinds = [] := by
  cases e with
  | start element | finish element =>
    cases element with
    | «over» kind line => cases he
    | _ => rfl
  | _ => rfl

/-- An event inside a block: neither a list bound nor the end of an item. -/
def Event.isInner (e : Event) : Prop := e.boundsList = false ∧ e.endsItem = false

/-- Formatted text has neither lists nor items. -/
theorem Formatted.isInner {events : List Event} (h : Formatted events) :
    ∀ e ∈ events, e.isInner := by
  induction h with
  | nil => exact List.forall_mem_nil _
  | text content _ ih => exact List.forall_mem_cons.2 ⟨⟨rfl, rfl⟩, ih⟩
  | code helement _ _ ihinner ihrest =>
    obtain ⟨hlist, hitem⟩ := Element.isList_of_isInline helement
    rw [Block.enclosed_append]
    refine List.forall_mem_cons.2 ⟨⟨hlist, rfl⟩, ?_⟩
    exact List.forall_mem_append.2
      ⟨ihinner, List.forall_mem_cons.2 ⟨⟨hlist, hitem⟩, ihrest⟩⟩

/-- What a block holds has neither lists nor items. -/
theorem Element.Holds.isInner {element : Element} {inner : List Event}
    (h : element.Holds inner) : ∀ e ∈ inner, e.isInner := by
  cases element with
  | verbatim line | data target line =>
    obtain ⟨content, rfl⟩ := h
    exact List.forall_mem_singleton.2 ⟨rfl, rfl⟩
  | command name text line =>
    obtain rfl := h
    exact List.forall_mem_nil _
  | «over» kind line => exact h.elim
  | _ => exact Formatted.isInner h

/-- No list starts or ends in blocks. -/
theorem Blocks.boundsList {events : List Event} (h : Blocks events) :
    ∀ e ∈ events, e.boundsList = false := by
  induction h with
  | nil => exact List.forall_mem_nil _
  | block helement hinner _ ih =>
    have hlist := Element.isList_of_isBlock helement
    rw [Block.enclosed_append]
    refine List.forall_mem_cons.2 ⟨hlist, ?_⟩
    exact List.forall_mem_append.2
      ⟨fun e he => (hinner.isInner e he).1, List.forall_mem_cons.2 ⟨hlist, ih⟩⟩

/-! ## Items stand in lists -/

/-- Events in which no item ends. -/
def Itemless (events : List Event) : Prop := ∀ e ∈ events, e.endsItem = false

namespace Itemless

theorem nil : Itemless [] := List.forall_mem_nil _

/-- A block that is no item. -/
theorem enclosed {element : Element} {inner : List Event} (helement : element.isItem = false)
    (hinner : element.Holds inner) : Itemless (Block.enclosed element inner) := by
  refine List.forall_mem_cons.2 ⟨rfl, List.forall_mem_append.2 ⟨?_, ?_⟩⟩
  · exact fun e he => (hinner.isInner e he).2
  · exact List.forall_mem_singleton.2 helement

theorem paragraph (line : Int) (t : Text) : Itemless (Delivery.block (.para line) t).events :=
  enclosed rfl (formatted_inlineEvents _)

theorem data (target : Text) (line : Int) (t : Text) :
    Itemless (Delivery.raw (.data target line) t).events :=
  enclosed rfl ⟨t, rfl⟩

end Itemless

/-- Outside every list an item is not delivered as one. -/
theorem itemless_deliverItem {c : Context} (hlists : c.lists = []) (line : Int) (marker : Text) :
    Itemless (deliverItem c line marker).events := by
  unfold deliverItem
  rw [hlists]
  dsimp only
  split
  · exact .nil
  · exact .paragraph line marker

theorem itemless_endList (c : Context) (line : Int) : Itemless (endList c line).2.events := by
  unfold endList
  split
  · exact List.forall_mem_singleton.2 rfl
  · exact List.forall_mem_singleton.2 rfl

theorem itemless_deliverFor (line : Int) (text : Text) :
    Itemless (deliverFor line text).events := by
  unfold deliverFor
  split
  · exact .nil
  · split
    · exact .data _ line _
    · exact .paragraph line _
    · exact .nil

theorem events_beginRegion (c : Context) (line : Int) (text : Text) :
    (beginRegion c line text).2.events = [] := by
  unfold beginRegion
  split
  · rfl
  · rfl

theorem events_endRegion (c : Context) (line : Int) (text : Text) :
    (endRegion c line text).2.events = [] := by
  unfold endRegion
  dsimp only
  split
  · rfl
  · split
    · rfl
    · rfl

theorem itemless_takeCommand {c : Context} {name : Text}
    (hitem : name = ofString "item" → c.lists = []) (p : Paragraph) (next : Option Paragraph) :
    Itemless (takeCommand c name p next).2.events := by
  unfold takeCommand
  dsimp only
  split
  · exact .enclosed rfl (formatted_inlineEvents _)
  · split
    · exact List.forall_mem_singleton.2 rfl
    · split
      · rename_i hname
        exact itemless_deliverItem (hitem hname) _ _
      · split
        · exact itemless_endList c _
        · split
          · rw [events_beginRegion]
            exact .nil
          · split
            · rw [events_endRegion]
              exact .nil
            · split
              · exact itemless_deliverFor _ _
              · split
                · exact .nil
                · exact .enclosed rfl rfl

/-- Only an `=item` delivers an item, and only where a list is open. -/
theorem Dispatch.itemless {d : Dispatch}
    (hitem : d.paragraph.kind = .command (ofString "item") → d.context.lists = []) :
    Itemless d.taken.2.events := by
  unfold taken takeParagraph
  split
  · exact .nil
  · split
    · rename_i name hkind
      exact itemless_takeCommand (fun hname => hitem (hname ▸ hkind)) _ _
    · split
      · exact .data _ _ _
      · split
        · exact .enclosed rfl ⟨_, rfl⟩
        · exact .paragraph _ _

/-! ## What is sent -/

/-- An event that the reader of a source sends: the paragraph it comes from, if it comes
from one, and the lists that are open when it has been sent, innermost first. -/
structure Sent where
  event : Event
  origin : Option Dispatch
  lists : List OpenList

/-- The kinds of open lists. -/
def listKinds (lists : List OpenList) : List ListKind := lists.map (·.kind)

/-- What is sent for a paragraph.  A list that it starts is open by then, and a list that
it ends is not. -/
def Dispatch.sent (d : Dispatch) : List Sent :=
  d.taken.2.events.map fun e => ⟨e, some d, d.taken.1.lists⟩

/-- What is sent when the paragraphs have come to an end: the open lists end, innermost
first. -/
def sentAtEnd : List OpenList → List Sent
  | [] => []
  | l :: outer => ⟨.finish l.element, none, outer⟩ :: sentAtEnd outer

/-- What is sent between the start and the end of a source. -/
def bodySent (source : Text) : List Sent :=
  (dispatches .empty (Paragraph.split source)).flatMap Dispatch.sent
    ++ sentAtEnd (takeParagraphs .empty (Paragraph.split source)).1.lists

theorem map_event_sentAtEnd (lists : List OpenList) :
    (sentAtEnd lists).map Sent.event = lists.map fun l => .finish l.element := by
  induction lists with
  | nil => rfl
  | cons l outer ih => exact congrArg _ ih

theorem map_event_dispatches (c : Context) (ps : List Paragraph) :
    ((dispatches c ps).flatMap Dispatch.sent).map Sent.event = (takeParagraphs c ps).2.events := by
  induction ps generalizing c with
  | nil => rfl
  | cons p ps ih =>
    have hfirst : (Dispatch.sent ⟨c, p, ps.head?⟩).map Sent.event
        = (takeParagraph c p ps.head?).2.events := by
      rw [Dispatch.sent, List.map_map]
      exact List.map_id _
    rw [dispatches, List.flatMap_cons, List.map_append, hfirst, ih]
    rfl

/-- The events that are sent are those of the source. -/
theorem map_event_bodySent (source : Text) :
    (bodySent source).map Sent.event = bodyEvents source := by
  rw [bodySent, List.map_append, map_event_dispatches, map_event_sentAtEnd]
  rfl

/-! ## The events follow the open lists -/

/-- The paragraph behind an event, if it is a `=back` met when no list is open. -/
def Sent.stray? (s : Sent) : Option Dispatch := s.origin.filter (·.isStray)

theorem Sent.stray?_of_origin {s : Sent} {d : Dispatch} (horigin : s.origin = some d) :
    s.stray? = if d.isStray then some d else none := by
  rw [stray?, horigin]
  rfl

/-- What holds of an event that is sent when lists of the given kinds are open. -/
structure Sent.Fits (kinds : List ListKind) (s : Sent) : Prop where
  /-- The event tells which lists are open after it. -/
  lists : listKinds s.lists = s.event.openKinds kinds
  /-- A list that ends though none is open is a stray `=back`, and nothing else is one. -/
  stray : s.stray?.toList.map Dispatch.strayList = s.event.strayEnds kinds
  /-- An item is sent only when a list is open. -/
  item : s.event.endsItem = true → kinds ≠ []

/-- Events are sent in turn, from open lists of the given kinds on. -/
def Follows (kinds : List ListKind) : List Sent → Prop
  | [] => True
  | s :: rest => s.Fits kinds ∧ Follows (listKinds s.lists) rest

namespace Follows

variable {kinds : List ListKind} {sent rest : List Sent}

/-- Events that leave the open lists alone. -/
theorem append_of_fits {lists : List OpenList} (hsent : ∀ s ∈ sent, s.lists = lists)
    (hfits : ∀ s ∈ sent, s.Fits (listKinds lists)) (hrest : Follows (listKinds lists) rest) :
    Follows (listKinds lists) (sent ++ rest) := by
  induction sent with
  | nil => exact hrest
  | cons s sent ih =>
    refine ⟨hfits s List.mem_cons_self, ?_⟩
    rw [hsent s List.mem_cons_self]
    exact ih (fun s' hs' => hsent s' (List.mem_cons_of_mem _ hs'))
      fun s' hs' => hfits s' (List.mem_cons_of_mem _ hs')

/-- The lists that are open at the end are ended. -/
theorem sentAtEnd (lists : List OpenList) (hrest : Follows [] rest) :
    Follows (listKinds lists) (sentAtEnd lists ++ rest) := by
  induction lists with
  | nil => exact hrest
  | cons l outer ih => exact ⟨⟨rfl, rfl, nofun⟩, ih⟩

end Follows

/-- The events of a paragraph that is a stretch of blocks. -/
theorem Dispatch.fits_of_blocks {d : Dispatch} (hstray : d.isStray = false)
    (hlists : d.taken.1.lists = d.context.lists) (hblocks : Blocks d.taken.2.events) :
    ∀ s ∈ d.sent, s.Fits (listKinds d.context.lists) := by
  intro s hs
  obtain ⟨e, he, rfl⟩ := List.mem_map.1 hs
  have hbound := hblocks.boundsList e he
  refine ⟨?_, ?_, ?_⟩
  · rw [Event.openKinds_of_boundsList hbound, hlists]
  · rw [Event.strayEnds_of_boundsList hbound, Sent.stray?_of_origin rfl, hstray]
    rfl
  · intro hitem hnone
    have hopen : d.context.lists = [] := List.map_eq_nil_iff.1 hnone
    rw [d.itemless (fun _ => hopen) e he] at hitem
    cases hitem

/-- The one event of a paragraph that starts or ends a list. -/
theorem Dispatch.sent_of_bound {d : Dispatch} {e : Event} (hevents : d.taken.2.events = [e]) :
    d.sent = [⟨e, some d, d.taken.1.lists⟩] := by
  rw [sent, hevents]
  rfl

/-- The events of paragraphs follow the open lists, before whatever follows them. -/
theorem follows_dispatches (c : Context) (ps : List Paragraph) {rest : List Sent}
    (hrest : Follows (listKinds (takeParagraphs c ps).1.lists) rest) :
    Follows (listKinds c.lists) ((dispatches c ps).flatMap Dispatch.sent ++ rest) := by
  induction ps generalizing c with
  | nil => exact hrest
  | cons p ps ih =>
    let d : Dispatch := ⟨c, p, ps.head?⟩
    have hafter := ih d.taken.1 hrest
    have hcontext : c.lists = d.context.lists := rfl
    rw [dispatches, List.flatMap_cons, List.append_assoc, hcontext]
    show Follows _ (d.sent ++ _)
    cases d.effect with
    | blocks hstray hlists hblocks =>
      rw [hlists] at hafter
      refine .append_of_fits ?_ (d.fits_of_blocks hstray hlists hblocks) hafter
      intro s hs
      obtain ⟨e, -, rfl⟩ := List.mem_map.1 hs
      exact hlists
    | listStart l hstray hlists hstart =>
      rw [d.sent_of_bound hstart]
      refine ⟨⟨congrArg listKinds hlists, ?_, fun h => absurd h Bool.false_ne_true⟩, hafter⟩
      rw [Sent.stray?_of_origin rfl, hstray]
      rfl
    | listEnd l hstray hlists hend =>
      rw [d.sent_of_bound hend, hlists]
      refine ⟨⟨rfl, ?_, fun h => absurd h Bool.false_ne_true⟩, hafter⟩
      rw [Sent.stray?_of_origin rfl, hstray]
      rfl
    | strayEnd hstray hbefore hlists hend =>
      rw [d.sent_of_bound hend, hbefore]
      refine ⟨⟨congrArg listKinds hlists, ?_, fun h => absurd h Bool.false_ne_true⟩, hafter⟩
      rw [Sent.stray?_of_origin rfl, hstray]
      rfl

/-- The events of a source follow the open lists of its reader, and leave none open. -/
theorem follows_bodySent (source : Text) {rest : List Sent} (hrest : Follows [] rest) :
    Follows [] (bodySent source ++ rest) := by
  rw [bodySent, List.append_assoc]
  exact follows_dispatches .empty (Paragraph.split source) (.sentAtEnd _ hrest)

/-! ## Strays -/

/-- The stray `=back` commands among what is sent. -/
def strays (sent : List Sent) : List Dispatch := sent.filterMap Sent.stray?

theorem strays_append (sent more : List Sent) :
    strays (sent ++ more) = strays sent ++ strays more :=
  List.filterMap_append

theorem strays_sent (d : Dispatch) : strays d.sent = if d.isStray then [d] else [] := by
  by_cases hstray : d.isStray = true
  · cases d.effect with
    | strayEnd _ _ _ hend =>
      rw [d.sent_of_bound hend, if_pos hstray, strays, List.filterMap_cons,
        Sent.stray?_of_origin rfl, if_pos hstray]
      rfl
    | blocks hnone | listStart _ hnone | listEnd _ hnone =>
      rw [hnone] at hstray
      cases hstray
  · rw [if_neg hstray]
    refine List.filterMap_eq_nil_iff.2 ?_
    intro s hs
    obtain ⟨e, -, rfl⟩ := List.mem_map.1 hs
    rw [Sent.stray?_of_origin rfl, if_neg hstray]

theorem strays_sentAtEnd (lists : List OpenList) : strays (sentAtEnd lists) = [] := by
  induction lists with
  | nil => rfl
  | cons l outer ih => exact ih

/-- Every `=back` of a source that is met when no list is open is sent once. -/
theorem strays_bodySent (source : Text) : strays (bodySent source) = strayBacks source := by
  have hall : ∀ ds : List Dispatch, strays (ds.flatMap Dispatch.sent) = ds.filter (·.isStray) := by
    intro ds
    induction ds with
    | nil => rfl
    | cons d ds ih =>
      rw [List.flatMap_cons, strays_append, strays_sent, ih, List.filter_cons]
      split <;> rfl
  rw [bodySent, strays_append, hall, strays_sentAtEnd, List.append_nil, strayBacks]

end PodLoom.Pod
