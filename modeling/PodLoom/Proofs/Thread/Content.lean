import PodLoom.Proofs.Pod.WellNested
import PodLoom.Proofs.Thread.Rendering

set_option autoImplicit false

/-!
# The content of an open element

A block is a start, formatted text and a finish, so an event that finishes a paragraph or
a heading is the last one of a block (`Block.exists_of_finish`).  What the writer has collected
for the element by then is the content of the text of that block (`run_opened`).

The content of formatted text is that of its nodes, one after the other: each code renders the
content of its children (`contentOf_code`), and a link that of the text it shows
(`contentOf_link`).
-/

namespace PodLoom

open Text CodeUnit
open PodLoom.Pod (Block Element Event Formatted Inline Link inlineEvents linkElement)

/-! ## Where an event stands -/

namespace Pod

theorem Element.isInline_of_isBlock {element : Element} (h : element.isBlock = true) :
    element.isInline = false := by
  cases element with
  | format code line => cases h
  | link kind target heading hasLabel line => cases h
  | _ => rfl

/-- Whether an event is text or bounds a code or a link. -/
def Event.isInline : Event → Bool
  | .text _ => true
  | .start element | .finish element => element.isInline
  | .docStart _ | .docEnd _ => false

theorem Formatted.isInline {events : List Event} (h : Formatted events) :
    ∀ e ∈ events, e.isInline = true := by
  induction h with
  | nil => simp
  | text content _ ih => exact List.forall_mem_cons.2 ⟨rfl, ih⟩
  | code helement _ _ ihinner ihrest =>
    rw [Block.enclosed_append]
    refine List.forall_mem_cons.2 ⟨helement, fun e he => ?_⟩
    rcases List.mem_append.1 he with he | he
    · exact ihinner e he
    · rcases List.mem_cons.1 he with rfl | he
      · exact helement
      · exact ihrest e he

namespace Block

/-- An event of some blocks is in one of them. -/
theorem exists_of_split {bs : List Block} {events more : List Event} {e : Event}
    (h : bs.flatMap Block.events = events ++ e :: more) :
    ∃ before b after front back, bs = before ++ b :: after
      ∧ events = before.flatMap Block.events ++ front ∧ b.events = front ++ e :: back
      ∧ more = back ++ after.flatMap Block.events := by
  induction bs generalizing events with
  | nil => simp at h
  | cons b rest ih =>
    rw [List.flatMap_cons] at h
    rcases List.append_eq_append_iff.1 h with ⟨first, rfl, hrest⟩ | ⟨first, hb, hmore⟩
    · obtain ⟨before, b', after, front, back, rfl, rfl, hb', hmore⟩ := ih hrest
      exact ⟨b :: before, b', after, front, back, rfl, by simp, hb', hmore⟩
    · cases first with
      | nil =>
        rw [List.append_nil] at hb
        have hrest : rest.flatMap Block.events = [] ++ e :: more := hmore.symm
        obtain ⟨before, b', after, front, back, rfl, hfront, hb', hmore⟩ := ih hrest
        refine ⟨b :: before, b', after, front, back, rfl, ?_, hb', hmore⟩
        rw [List.flatMap_cons, List.append_assoc, ← hfront, List.append_nil, hb]
      | cons e' back =>
        obtain ⟨rfl, rfl⟩ := List.cons.inj hmore
        exact ⟨[], b, rest, events, back, rfl, rfl, hb, rfl⟩

/-- A finish that an element does not hold is its own. -/
theorem enclosed_eq_append {element : Element} {inner front back : List Event} {e : Event}
    (hinner : e ∉ inner) (hstart : e ≠ .start element)
    (h : enclosed element inner = front ++ e :: back) :
    front = .start element :: inner ∧ e = .finish element ∧ back = [] := by
  cases front with
  | nil => exact absurd (List.cons.inj h).1.symm hstart
  | cons e' front =>
    rw [enclosed, List.cons_append] at h
    obtain ⟨rfl, hrest⟩ := List.cons.inj h
    rcases List.append_eq_append_iff.1 hrest with ⟨more, rfl, hmore⟩ | ⟨more, hmem, hmore⟩
    · cases more with
      | nil =>
        obtain ⟨rfl, rfl⟩ := List.cons.inj hmore
        exact ⟨by rw [List.append_nil], rfl, rfl⟩
      | cons e' more =>
        have hlength := congrArg List.length (List.cons.inj hmore).2
        simp at hlength
    · cases more with
      | nil =>
        obtain ⟨rfl, rfl⟩ := List.cons.inj hmore
        rw [List.append_nil] at hmem
        exact ⟨by rw [hmem], rfl, rfl⟩
      | cons e' more =>
        obtain ⟨rfl, -⟩ := List.cons.inj hmore
        exact absurd (by rw [hmem]; exact List.mem_append_right _ List.mem_cons_self) hinner

/-- The finish of a block is the last event of it. -/
theorem events_of_finish {b : Block} {element : Element} (hblock : element.isBlock = true)
    {front back : List Event} (h : b.events = front ++ .finish element :: back) :
    ∃ inner, front = .start element :: inner ∧ b.events = enclosed element inner ∧ back = [] := by
  have hinline : ∀ line t, Event.finish element ∉ inlineEvents (nodes line t) := by
    intro line t hmem
    have hinline := (formatted_inlineEvents (nodes line t)).isInline _ hmem
    rw [Event.isInline, Element.isInline_of_isBlock hblock] at hinline
    cases hinline
  have hown : ∀ {element' : Element} {inner : List Event}, Event.finish element ∉ inner →
      b.events = enclosed element' inner →
      ∃ inner, front = .start element :: inner ∧ b.events = enclosed element inner ∧ back = [] := by
    intro element' inner hinner hevents
    obtain ⟨rfl, hfinish, rfl⟩ := enclosed_eq_append hinner (by simp) (hevents.symm.trans h)
    obtain rfl := Event.finish.inj hfinish
    exact ⟨inner, rfl, hevents, rfl⟩
  cases b with
  | heading level line t => exact hown (hinline line t) rfl
  | paragraph line t => exact hown (hinline line t) rfl
  | item kind marker line label => exact hown (hinline line label) rfl
  | verbatim line t => exact hown (by simp) rfl
  | data target line t => exact hown (by simp) rfl
  | command name text line => exact hown (by simp) rfl
  | listStart kind line =>
    cases front with
    | nil => cases (List.cons.inj h).1
    | cons e front => simp [events] at h
  | listEnd kind line =>
    cases front with
    | nil =>
      obtain rfl := Event.finish.inj (List.cons.inj h).1
      cases hblock
    | cons e front => simp [events] at h

/-- The finish of a paragraph or of a heading ends a block of formatted text. -/
theorem exists_of_finish {bs : List Block} {events more : List Event} {element : Element}
    (hblock : element.isBlock = true)
    (h : bs.flatMap Block.events = events ++ .finish element :: more) :
    ∃ before b after inner, bs = before ++ b :: after
      ∧ events = before.flatMap Block.events ++ .start element :: inner
      ∧ b.events = enclosed element inner ∧ more = after.flatMap Block.events := by
  obtain ⟨before, b, after, front, back, hbs, hevents, hb, hmore⟩ := exists_of_split h
  obtain ⟨inner, rfl, hb, rfl⟩ := events_of_finish hblock hb
  exact ⟨before, b, after, inner, hbs, hevents, hb, hmore⟩

end Block

end Pod

/-! ## The content of nodes -/

namespace Thread.Draft

variable (r : Registry)

theorem contentOf_nil : contentOf [] r = .empty := by
  have h : Renders (fun _ => .empty) (inlineEvents []) := by
    rw [inlineEvents]
    exact .nil
  rw [contentOf_eq h]

theorem contentOf_text (t : Text) (rest : List Inline) :
    contentOf (.text t :: rest) r = .ofText t ++ contentOf rest r := by
  have h := (Renders.text t).append (renders_contentOf rest)
  rw [List.singleton_append, ← inlineEvents] at h
  rw [contentOf_eq h]

/-- A code renders the content of its children. -/
theorem contentOf_code {letter : CodeUnit} (hletter : letter ≠ 'L') (delimiter : Pod.Delimiter)
    (children : List Inline) (line : Int) (rest : List Inline) :
    contentOf (.code letter delimiter children line :: rest) r
      = (renderCode [letter] (contentOf children r)).1 ++ contentOf rest r := by
  have h := ((renders_contentOf children).format letter line).append (renders_contentOf rest)
  have hevents : inlineEvents (.code letter delimiter children line :: rest)
      = Block.enclosed (.format [letter] line) (inlineEvents children) ++ inlineEvents rest := by
    rw [inlineEvents, if_neg hletter, Block.enclosed_append]
  rw [← hevents] at h
  rw [contentOf_eq h]

/-- A link renders the content of the text it shows. -/
theorem contentOf_link (delimiter : Pod.Delimiter) (children : List Inline) (line : Int)
    (rest : List Inline) :
    let link := Link.parse (Inline.sources children)
    contentOf (.code 'L' delimiter children line :: rest) r
      = renderLink r link.kind link.target
          (link.heading.map fun s => Inline.plains (Inline.parse line s)) link.label.isSome
          (contentOf (Inline.parse line link.display) r) ++ contentOf rest r := by
  intro link
  have h := ((renders_contentOf (Inline.parse line link.display)).link link.kind link.target
    (link.heading.map fun s => Inline.plains (Inline.parse line s)) link.label.isSome line).append
    (renders_contentOf rest)
  have hevents : inlineEvents (.code 'L' delimiter children line :: rest)
      = Block.enclosed (linkElement link line) (inlineEvents (Inline.parse line link.display))
        ++ inlineEvents rest := by
    rw [inlineEvents, if_pos rfl, Block.enclosed_append]
  rw [linkElement] at hevents
  rw [← hevents] at h
  rw [contentOf_eq h]

/-- What is collected for an open element is the content of the formatted text in it. -/
theorem run_opened (p : Policy) (d : Draft) (element : Element)
    (hstart : d.startElement element = { d with frames := ⟨false, .empty⟩ :: d.frames })
    (nodes : List Inline) :
    ∃ warnings, d.run p (.start element :: inlineEvents nodes)
      = { d with frames := ⟨false, contentOf nodes d.sections⟩ :: d.frames, warnings } := by
  obtain ⟨warnings, h⟩ := renders_contentOf nodes p (d.startElement element) .empty d.frames
    (by rw [hstart])
  refine ⟨warnings, ?_⟩
  show (d.startElement element).run p (inlineEvents nodes) = _
  rw [h, hstart]
  rfl

end Thread.Draft

end PodLoom
