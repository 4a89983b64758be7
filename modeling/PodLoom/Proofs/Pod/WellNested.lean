import PodLoom.Proofs.Pod.Blocks

set_option autoImplicit false

/-!
# Documents are well nested

A document delivers one start first, one end last, and well-nested events between
(`sourceEvents_wellNested`): blocks that hold what elements of their kind may hold, and
lists that start and end between blocks, each end matching the innermost open list.

The one exception is the end of a list where none is open.  The paragraphs of a document
are followed one by one, each with the context it is taken in, so that the exceptions are
told exactly: they are the `=back` commands met when no list is open.
-/

namespace PodLoom.Pod

open Text

/-! ## Well-nested events -/

/-- Whether an element is part of a line of text. -/
def Element.isInline : Element → Bool
  | .format .. | .link .. => true
  | _ => false

/-- Whether an element is a block: neither a list nor part of a line of text. -/
def Element.isBlock : Element → Bool
  | .over .. | .format .. | .link .. => false
  | _ => true

/-- Formatted text: text, and codes and links around formatted text. -/
inductive Formatted : List Event → Prop
  | nil : Formatted []
  | text {rest : List Event} (content : Text) (hrest : Formatted rest) :
      Formatted (.text content :: rest)
  | code {element : Element} {inner rest : List Event} (helement : element.isInline = true)
      (hinner : Formatted inner) (hrest : Formatted rest) :
      Formatted (Block.enclosed element inner ++ rest)

/-- What an element may hold.  A list is not held together by its start and its end: what
stands between them is blocks and lists. -/
def Element.Holds : Element → List Event → Prop
  | .head .., inner | .para .., inner | .item .., inner => Formatted inner
  | .format .., inner | .link .., inner => Formatted inner
  | .verbatim .., inner | .data .., inner => ∃ content, inner = [.text content]
  | .command .., inner => inner = []
  | .over .., _ => False

/-- Events of whole blocks, one after the other, with no list bound between them. -/
inductive Blocks : List Event → Prop
  | nil : Blocks []
  | block {element : Element} {inner rest : List Event} (helement : element.isBlock = true)
      (hinner : element.Holds inner) (hrest : Blocks rest) :
      Blocks (Block.enclosed element inner ++ rest)

/-- Events between the start and the end of a document.  `Nested opened events strays left`
says that they take the open lists from `opened` to `left`, innermost first, and that
`strays` are the lists among them that end without having started.  A list starts or ends
only where no block is open. -/
inductive Nested : List Element → List Event → List Element → List Element → Prop
  | nil (opened : List Element) : Nested opened [] [] opened
  | block {opened strays left : List Element} {element : Element} {inner rest : List Event}
      (helement : element.isBlock = true) (hinner : element.Holds inner)
      (hrest : Nested opened rest strays left) :
      Nested opened (Block.enclosed element inner ++ rest) strays left
  | listStart {opened strays left : List Element} {rest : List Event} (kind : ListKind)
      (line : Int) (hrest : Nested (.over kind line :: opened) rest strays left) :
      Nested opened (.start (.over kind line) :: rest) strays left
  | listEnd {opened strays left : List Element} {rest : List Event} (kind : ListKind)
      (line : Int) (hrest : Nested opened rest strays left) :
      Nested (.over kind line :: opened) (.finish (.over kind line) :: rest) strays left
  | strayEnd {strays left : List Element} {rest : List Event} (kind : ListKind) (line : Int)
      (hrest : Nested [] rest strays left) :
      Nested [] (.finish (.over kind line) :: rest) (.over kind line :: strays) left

/-- Whether an event is the start or the end of a document. -/
def Event.boundsDocument : Event → Bool
  | .docStart _ | .docEnd _ => true
  | _ => false

/-- A whole document: one start first, one end last, and well-nested events between that
leave no list open.  The lists that end without having started are `strays`. -/
def WellNested (events : List Event) (strays : List Element) : Prop :=
  ∃ info body errata, events = .docStart info :: (body ++ [.docEnd errata])
    ∧ (∀ e ∈ body, e.boundsDocument = false) ∧ Nested [] body strays []

/-! ## Blocks -/

theorem formatted_inlineEvents (nodes : List Inline) : Formatted (inlineEvents nodes) := by
  fun_induction inlineEvents nodes with
  | case1 => exact .nil
  | case2 content rest ih => exact .text content ih
  | case3 delimiter children line rest link element ihdisplay ihrest =>
    rw [← Block.enclosed_append]
    exact .code rfl ihdisplay ihrest
  | case4 letter delimiter children line rest hletter element ihchildren ihrest =>
    rw [← Block.enclosed_append]
    exact .code rfl ihchildren ihrest

/-- What starts in formatted text is part of it. -/
theorem Formatted.isInline_of_start {events : List Event} (h : Formatted events)
    {element : Element} (hstart : .start element ∈ events) : element.isInline = true := by
  induction h with
  | nil => cases hstart
  | text content _ ih =>
    rcases List.mem_cons.1 hstart with hnone | hrest
    · cases hnone
    · exact ih hrest
  | @code outer inner rest houter _ _ ihinner ihrest =>
    rw [Block.enclosed_append, List.mem_cons, List.mem_append, List.mem_cons] at hstart
    rcases hstart with hown | hinner | hfinish | hrest
    · obtain rfl := Event.start.inj hown
      exact houter
    · exact ihinner hinner
    · cases hfinish
    · exact ihrest hrest

/-- What starts in a block is part of its text. -/
theorem Element.Holds.isInline_of_start {element : Element} {inner : List Event}
    (h : element.Holds inner) {other : Element} (hstart : .start other ∈ inner) :
    other.isInline = true := by
  cases element with
  | verbatim line | data target line =>
    obtain ⟨content, rfl⟩ := h
    cases List.mem_singleton.1 hstart
  | command name text line =>
    obtain rfl := h
    cases hstart
  | «over» kind line => exact h.elim
  | _ => exact Formatted.isInline_of_start h hstart

namespace Blocks

variable {events more : List Event}

/-- Every block that starts is finished. -/
theorem finish_of_start (h : Blocks events) {element : Element}
    (helement : element.isInline = false) (hstart : .start element ∈ events) :
    .finish element ∈ events := by
  induction h with
  | nil => cases hstart
  | @block outer inner rest _ hinner _ ih =>
    rw [Block.enclosed_append, List.mem_cons, List.mem_append, List.mem_cons] at hstart ⊢
    rcases hstart with hown | hin | hfinish | hrest
    · exact .inr (.inr (.inl (congrArg Event.finish (Event.start.inj hown))))
    · exact absurd (hinner.isInline_of_start hin) (by simp [helement])
    · cases hfinish
    · exact .inr (.inr (.inr (ih hrest)))

theorem append (h : Blocks events) (h' : Blocks more) : Blocks (events ++ more) := by
  induction h with
  | nil => exact h'
  | block helement hinner _ ih =>
    rw [List.append_assoc]
    exact .block helement hinner ih

theorem enclosed {element : Element} {inner : List Event} (helement : element.isBlock = true)
    (hinner : element.Holds inner) : Blocks (Block.enclosed element inner) := by
  have h := Blocks.block helement hinner .nil
  rwa [List.append_nil] at h

/-- An element around text that is read for codes. -/
theorem formatted {element : Element} (helement : element.isBlock = true)
    (hholds : element.Holds = Formatted) (t : Text) :
    Blocks (Delivery.block element t).events := by
  apply enclosed helement
  rw [hholds]
  exact formatted_inlineEvents _

/-- An element around text that stays as it is. -/
theorem raw {element : Element} (helement : element.isBlock = true)
    (hholds : element.Holds = fun inner => ∃ content, inner = [.text content]) (t : Text) :
    Blocks (Delivery.raw element t).events := by
  apply enclosed helement
  rw [hholds]
  exact ⟨t, rfl⟩

end Blocks

namespace Nested

variable {opened strays left : List Element} {events rest : List Event}

/-- Blocks may come at any place between lists. -/
theorem blocks (h : Blocks events) (hrest : Nested opened rest strays left) :
    Nested opened (events ++ rest) strays left := by
  induction h with
  | nil => exact hrest
  | block helement hinner _ ih =>
    rw [List.append_assoc]
    exact .block helement hinner ih

/-- All open lists end, innermost first. -/
theorem lists (opened : List OpenList) :
    Nested (opened.map OpenList.element) (opened.map fun l => .finish l.element) [] [] := by
  induction opened with
  | nil => exact .nil []
  | cons l outer ih => exact .listEnd l.kind l.line ih

end Nested

/-! ## Paragraphs in their contexts -/

/-- A paragraph that is taken, with the context it stands in and the paragraph after it. -/
structure Dispatch where
  context : Context
  paragraph : Paragraph
  next : Option Paragraph

namespace Dispatch

/-- The context after a paragraph, and what the paragraph delivers. -/
def taken (d : Dispatch) : Context × Delivery := takeParagraph d.context d.paragraph d.next

/-- A `=back` that is met when no list is open.  In a region that is passed over no
command is met but those that bound regions. -/
def isStray (d : Dispatch) : Bool :=
  d.paragraph.kind == .command (ofString "back") && d.context.mode? != some .skip
    && d.context.lists.isEmpty

/-- The list that a stray `=back` ends. -/
def strayList (d : Dispatch) : Element := .over .block d.paragraph.line

/-- What taking a paragraph does to the open lists, with the events that go with it. -/
inductive Effect (d : Dispatch) : Prop
  | blocks (hstray : d.isStray = false) (hlists : d.taken.1.lists = d.context.lists)
      (hevents : Blocks d.taken.2.events)
  | listStart (l : OpenList) (hstray : d.isStray = false)
      (hlists : d.taken.1.lists = l :: d.context.lists)
      (hevents : d.taken.2.events = [.start l.element])
  | listEnd (l : OpenList) (hstray : d.isStray = false)
      (hlists : d.context.lists = l :: d.taken.1.lists)
      (hevents : d.taken.2.events = [.finish l.element])
  | strayEnd (hstray : d.isStray = true) (hbefore : d.context.lists = [])
      (hafter : d.taken.1.lists = []) (hevents : d.taken.2.events = [.finish d.strayList])

end Dispatch

theorem blocks_deliverFor (line : Int) (text : Text) : Blocks (deliverFor line text).events := by
  unfold deliverFor
  split
  · exact .nil
  · split
    · exact .raw rfl rfl _
    · exact .formatted rfl rfl _
    · exact .nil

theorem blocks_deliverItem (c : Context) (line : Int) (marker : Text) :
    Blocks (deliverItem c line marker).events := by
  unfold deliverItem
  split
  · refine Blocks.append .nil ?_
    split
    · exact .nil
    · exact .formatted rfl rfl _
  · refine Blocks.append ?_ ?_
    · split
      · exact .enclosed rfl Formatted.nil
      · exact .formatted rfl rfl _
    · split
      · exact .nil
      · exact .formatted rfl rfl _

theorem blocks_beginRegion (c : Context) (line : Int) (text : Text) :
    (beginRegion c line text).1.lists = c.lists ∧ Blocks (beginRegion c line text).2.events := by
  unfold beginRegion
  split
  · exact ⟨rfl, .nil⟩
  · exact ⟨rfl, .nil⟩

theorem blocks_endRegion (c : Context) (line : Int) (text : Text) :
    (endRegion c line text).1.lists = c.lists ∧ Blocks (endRegion c line text).2.events := by
  unfold endRegion
  dsimp only
  split
  · exact ⟨rfl, .nil⟩
  · refine ⟨rfl, ?_⟩
    split
    · exact .nil
    · exact .nil

/-- A command other than `=over` and `=back` leaves the lists as they are. -/
theorem blocks_takeCommand {name : Text} (hover : name ≠ ofString "over")
    (hback : name ≠ ofString "back") (c : Context) (p : Paragraph) (next : Option Paragraph) :
    (takeCommand c name p next).1.lists = c.lists
      ∧ Blocks (takeCommand c name p next).2.events := by
  unfold takeCommand
  dsimp only
  split
  · exact ⟨rfl, .formatted rfl rfl _⟩
  · rw [if_neg hover]
    split
    · exact ⟨rfl, blocks_deliverItem c p.line p.joined⟩
    · split
      · exact blocks_beginRegion c p.line p.text
      · split
        · exact blocks_endRegion c p.line p.text
        · split
          · exact ⟨rfl, blocks_deliverFor p.line p.text⟩
          · split
            · exact ⟨rfl, .nil⟩
            · exact ⟨rfl, .enclosed rfl rfl⟩

namespace Dispatch

/-- A paragraph that is no command is a block. -/
theorem blocks_text {d : Dispatch} (hkind : ∀ name, d.paragraph.kind ≠ .command name) :
    d.taken.1.lists = d.context.lists ∧ Blocks d.taken.2.events := by
  unfold taken takeParagraph
  split
  · exact ⟨rfl, .nil⟩
  · split
    · rename_i name hname
      exact absurd hname (hkind name)
    · split
      · exact ⟨rfl, .raw rfl rfl _⟩
      · split
        · exact ⟨rfl, .raw rfl rfl _⟩
        · exact ⟨rfl, .formatted rfl rfl _⟩

/-- A command that is not passed over is taken as such. -/
theorem taken_command {d : Dispatch} {name : Text} (hkind : d.paragraph.kind = .command name)
    (hmet : ¬ (d.context.mode? = some .skip ∧ d.paragraph.boundsRegion = false)) :
    d.taken = takeCommand d.context name d.paragraph d.next := by
  unfold taken takeParagraph
  rw [if_neg hmet]
  simp only [hkind]

theorem effect_back {d : Dispatch} (hkind : d.paragraph.kind = .command (ofString "back"))
    (hmet : ¬ (d.context.mode? = some .skip ∧ d.paragraph.boundsRegion = false)) :
    d.Effect := by
  have hbounds : d.paragraph.boundsRegion = false := by
    rw [Paragraph.boundsRegion, hkind]
    decide
  have hmode : d.context.mode? ≠ some .skip := fun h => hmet ⟨h, hbounds⟩
  have htaken : d.taken = endList d.context d.paragraph.line := taken_command hkind hmet
  unfold endList at htaken
  cases hlists : d.context.lists with
  | nil =>
    simp only [hlists] at htaken
    refine .strayEnd ?_ hlists (by rw [htaken, hlists]) (by rw [htaken]; rfl)
    simp [isStray, hkind, hmode, hlists]
  | cons l outer =>
    simp only [hlists] at htaken
    refine .listEnd l ?_ (by rw [htaken, hlists]) (by rw [htaken]; rfl)
    simp [isStray, hlists]

/-- What taking a paragraph does to the open lists. -/
theorem effect (d : Dispatch) : d.Effect := by
  by_cases hmet : d.context.mode? = some .skip ∧ d.paragraph.boundsRegion = false
  · have htaken : d.taken = (d.context, .empty) := if_pos hmet
    exact .blocks (by simp [isStray, hmet.1]) (by rw [htaken]) (by rw [htaken]; exact .nil)
  · by_cases hback : d.paragraph.kind = .command (ofString "back")
    · exact effect_back hback hmet
    · have hstray : d.isStray = false := by simp [isStray, hback]
      by_cases hcommand : ∃ name, d.paragraph.kind = .command name
      · obtain ⟨name, hkind⟩ := hcommand
        have htaken := taken_command hkind hmet
        by_cases hover : name = ofString "over"
        · subst hover
          exact .listStart ⟨listKind d.next, d.paragraph.line⟩ hstray
            (congrArg (fun taken => taken.1.lists) htaken)
            (congrArg (fun taken => taken.2.events) htaken)
        · have hname : name ≠ ofString "back" := fun h => hback (by rw [hkind, h])
          obtain ⟨hlists, hevents⟩ := blocks_takeCommand hover hname d.context d.paragraph
            d.next
          exact .blocks hstray (by rw [htaken, hlists]) (by rw [htaken]; exact hevents)
      · obtain ⟨hlists, hevents⟩ := d.blocks_text fun name hname => hcommand ⟨name, hname⟩
        exact .blocks hstray hlists hevents

end Dispatch

/-- The paragraphs of a document as they are taken, from a context on. -/
def dispatches (c : Context) : List Paragraph → List Dispatch
  | [] => []
  | p :: rest => ⟨c, p, rest.head?⟩ :: dispatches (takeParagraph c p rest.head?).1 rest

/-- The `=back` commands of a source that are met when no list is open. -/
def strayBacks (source : Text) : List Dispatch :=
  (dispatches .empty (Paragraph.split source)).filter (·.isStray)

/-- The events of paragraphs are well nested before whatever is well nested behind them. -/
theorem nested_takeParagraphs (c : Context) (ps : List Paragraph) {rest : List Event}
    {strays left : List Element}
    (hrest : Nested ((takeParagraphs c ps).1.lists.map OpenList.element) rest strays left) :
    Nested (c.lists.map OpenList.element) ((takeParagraphs c ps).2.events ++ rest)
      (((dispatches c ps).filter (·.isStray)).map Dispatch.strayList ++ strays) left := by
  induction ps generalizing c with
  | nil => exact hrest
  | cons p ps ih =>
    let d : Dispatch := ⟨c, p, ps.head?⟩
    have hafter := ih d.taken.1 hrest
    have hevents : (takeParagraphs c (p :: ps)).2.events ++ rest
        = d.taken.2.events ++ ((takeParagraphs d.taken.1 ps).2.events ++ rest) :=
      List.append_assoc ..
    have hfilter : (dispatches c (p :: ps)).filter (·.isStray)
        = (if d.isStray then [d] else []) ++ (dispatches d.taken.1 ps).filter (·.isStray) := by
      rw [dispatches, List.filter_cons]
      split <;> rfl
    rw [hevents, hfilter]
    have hcontext : d.context.lists = c.lists := rfl
    cases d.effect with
    | blocks hstray hlists hblocks =>
      rw [hlists, hcontext] at hafter
      rw [hstray]
      exact hafter.blocks hblocks
    | listStart l hstray hlists hstart =>
      rw [hlists, hcontext] at hafter
      rw [hstray, hstart]
      exact .listStart l.kind l.line hafter
    | listEnd l hstray hlists hend =>
      rw [← hcontext, hlists, hstray, hend]
      exact .listEnd l.kind l.line hafter
    | strayEnd hstray hbefore hlists hend =>
      rw [hlists] at hafter
      rw [← hcontext, hbefore, hstray, hend]
      exact .strayEnd .block d.paragraph.line hafter

/-- The events of a source between its start and its end are well nested. -/
theorem nested_bodyEvents (source : Text) :
    Nested [] (bodyEvents source) ((strayBacks source).map Dispatch.strayList) [] := by
  have hbody := nested_takeParagraphs .empty (Paragraph.split source)
    (Nested.lists (takeParagraphs .empty (Paragraph.split source)).1.lists)
  rw [List.append_nil] at hbody
  exact hbody

/-- The events of a source are a whole document, in which the only lists that end without
having started are the `=back` commands met when no list is open. -/
theorem sourceEvents_wellNested (file source : Text) :
    WellNested (sourceEvents file source) ((strayBacks source).map Dispatch.strayList) := by
  refine ⟨_, bodyEvents source, _, rfl, ?_, nested_bodyEvents source⟩
  intro e he
  have hregular := regular_bodyEvents source e he
  cases e with
  | docStart info => cases hregular
  | docEnd errata => cases hregular
  | _ => rfl

end PodLoom.Pod
