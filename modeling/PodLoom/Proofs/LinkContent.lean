import PodLoom.Proofs.HeadingLinks
import PodLoom.Proofs.Navigation

set_option autoImplicit false

/-!
# What a link adds to the element around it

The events of a link stand inside a block, so an element is open around them
(`exists_frame_of_inline_start`).  When they have been received, what is collected for that element
has grown by the rendered link, and nothing else is open that was not before (`adds_link`).
-/

namespace PodLoom

open Text CodeUnit
open PodLoom.Pod (Block Element Event Formatted Inline Link Paragraph bodyEvents
  formatted_inlineEvents inlineEvents linkElement)
open PodLoom.Thread (Draft Frame Options Registry Rendered depth? renderLink)

/-! ## Codes inside blocks -/

namespace Thread

theorem depth?_add_of_eq {e : Event} {n k : Nat} (h : depth? n e = some k) (m : Nat) :
    depth? (n + m) e = some (k + m) := by
  cases e with
  | start element =>
    cases hlist : element.isList with
    | true =>
      rw [depth?, hlist, if_pos rfl] at h ⊢
      rw [Option.some.inj h]
    | false =>
      rw [depth?, hlist, if_neg Bool.false_ne_true] at h ⊢
      rw [← Option.some.inj h, Nat.add_right_comm]
  | finish element =>
    cases hlist : element.isList with
    | true =>
      rw [depth?, hlist, if_pos rfl] at h ⊢
      rw [Option.some.inj h]
    | false =>
      rw [depth?, hlist, if_neg Bool.false_ne_true] at h ⊢
      split at h
      · cases h
      · rw [if_neg (by omega), ← Option.some.inj h]
        congr 1
        omega
  | text content => exact congrArg some (congrArg (· + m) (Option.some.inj h))
  | docStart info => exact congrArg some (congrArg (· + m) (Option.some.inj h))
  | docEnd errata => exact congrArg some (congrArg (· + m) (Option.some.inj h))

/-- Elements that are open all the while only add to the depth. -/
theorem depth?_add {events : List Event} {n k : Nat} (h : events.foldlM depth? n = some k)
    (m : Nat) : events.foldlM depth? (n + m) = some (k + m) := by
  induction events generalizing n with
  | nil => exact congrArg some (congrArg (· + m) (Option.some.inj h))
  | cons e rest ih =>
    rw [List.foldlM_cons] at h ⊢
    obtain ⟨n', hn', hrest⟩ := Option.bind_eq_some_iff.1 h
    rw [depth?_add_of_eq hn' m]
    exact ih hrest

end Thread

namespace Pod.Block

/-- A block is an element around formatted text, or it starts or ends a list. -/
theorem events_cases (b : Block) :
    (∃ element inner, element.isBlock = true ∧ Formatted inner ∧ b.events = enclosed element inner)
      ∨ ∃ kind line, b.events = [.start (.over kind line)]
        ∨ b.events = [.finish (.over kind line)] := by
  cases b with
  | heading level line t => exact .inl ⟨_, _, rfl, formatted_inlineEvents _, rfl⟩
  | paragraph line t => exact .inl ⟨_, _, rfl, formatted_inlineEvents _, rfl⟩
  | item kind marker line label => exact .inl ⟨_, _, rfl, formatted_inlineEvents _, rfl⟩
  | verbatim line t => exact .inl ⟨_, _, rfl, .text t .nil, rfl⟩
  | data target line t => exact .inl ⟨_, _, rfl, .text t .nil, rfl⟩
  | command name text line => exact .inl ⟨_, _, rfl, .nil, rfl⟩
  | listStart kind line => exact .inr ⟨kind, line, .inl rfl⟩
  | listEnd kind line => exact .inr ⟨kind, line, .inr rfl⟩

/-- A code that starts in a block starts behind the start of the block, and in its text. -/
theorem exists_of_inline_start {b : Block} {element : Element} (hinline : element.isInline = true)
    {front back : List Event} (h : b.events = front ++ .start element :: back) :
    ∃ outer opened more, outer.isList = false ∧ front = .start outer :: opened
      ∧ Formatted (opened ++ more) := by
  rcases b.events_cases with ⟨outer, inner, hblock, hinner, hevents⟩ | ⟨kind, line, hlist⟩
  · have hown := hevents.symm.trans h
    cases front with
    | nil =>
      -- The block itself is no code.
      obtain rfl := Event.start.inj (List.cons.inj hown).1
      rw [Element.isInline_of_isBlock hblock] at hinline
      cases hinline
    | cons e opened =>
      obtain ⟨rfl, hrest⟩ := List.cons.inj hown
      rcases List.append_eq_append_iff.1 hrest with ⟨more, rfl, hmore⟩ | ⟨more, rfl, -⟩
      · cases more with
        | nil => cases (List.cons.inj hmore).1
        | cons e more =>
          have hlength := congrArg List.length hmore
          simp at hlength
      · exact ⟨outer, opened, more, Element.isList_of_isBlock hblock, rfl, hinner⟩
  · have hsingle : ∃ e, b.events = [e] ∧ e ≠ .start element := by
      rcases hlist with hlist | hlist
      · refine ⟨_, hlist, fun heq => ?_⟩
        obtain rfl := Event.start.inj heq
        cases hinline
      · exact ⟨_, hlist, by simp⟩
    obtain ⟨e, he, hne⟩ := hsingle
    rw [he] at h
    cases front with
    | nil => exact absurd (List.cons.inj h).1 hne
    | cons e' front =>
      have hlength := congrArg List.length h
      simp at hlength

end Pod.Block

/-! ## Sources of one paragraph -/

namespace Pod

/-- What is delivered of a source whose only paragraph is an ordinary one. -/
theorem bodyEvents_paragraph {source : Text} {line : Nat} {ls : List Text}
    (hsplit : Paragraph.split source = [⟨.command "pod", 1, [[]]⟩, ⟨.ordinary, line, ls⟩]) :
    bodyEvents source = (Block.paragraph line (unlines ls)).events := by
  have hpod : ∀ next, takeParagraph .empty ⟨.command "pod", 1, [[]]⟩ next = (.empty, .empty) :=
    fun _ => rfl
  have htext : takeParagraph .empty ⟨.ordinary, line, ls⟩ none
      = (.empty, .block (.para line) (unlines ls)) := rfl
  rw [bodyEvents, hsplit]
  simp only [deliver, takeParagraphs, List.head?_cons, List.head?_nil, hpod, htext]
  show ([] ++ ((Block.paragraph line (unlines ls)).events ++ [])) ++ [] = _
  rw [List.append_nil, List.append_nil, List.nil_append]

end Pod

/-! ## Links -/

/-- Events of a source that follow some others add a content to the innermost open element, and
leave the elements around it as they are. -/
def Adds (file source : Text) (o : Options) (before events : List Event) (content : Rendered) :
    Prop :=
  ∃ page page' frame outer, (writerAfter file source o before).page = some page
    ∧ (writerAfter file source o (before ++ events)).page = some page'
    ∧ page.frames = frame :: outer
    ∧ page'.frames = { frame with content := frame.content ++ content } :: outer

section

variable {file source : Text} {o : Options} {sections : Registry}

/-- Where a code starts, the element that it stands in is open. -/
theorem exists_frame_of_inline_start (file : Text) {source : Text} (o : Options)
    (sections : Registry) {events more : List Event} {element : Element}
    (hinline : element.isInline = true)
    (hbody : bodyEvents source = events ++ .start element :: more) :
    ∃ frame outer, (resolvedDraft file source o sections events).frames = frame :: outer := by
  have hdepth := Thread.depth?_nested (Pod.nested_bodyEvents source) 0
  obtain ⟨bs, hbs, -⟩ := Pod.blocked_deliver (Paragraph.split source)
  obtain ⟨before, b, after, front, back, -, rfl, hb, -⟩ :=
    Block.exists_of_split (hbs.symm.trans hbody)
  obtain ⟨block, opened, rest, hlist, rfl, hformatted⟩ := Block.exists_of_inline_start hinline hb
  rw [hbody, List.append_assoc, List.foldlM_append] at hdepth
  obtain ⟨n, hn, -⟩ := Option.bind_eq_some_iff.1 hdepth
  have hinner := Thread.depth?_formatted hformatted 0
  rw [List.foldlM_append] at hinner
  obtain ⟨k, hk, -⟩ := Option.bind_eq_some_iff.1 hinner
  have hopened : (before.flatMap Block.events ++ .start block :: opened).foldlM depth? 0
      = some (k + (n + 1)) := by
    have hstart : depth? n (.start block) = some (n + 1) := by rw [depth?, hlist]; rfl
    have hmore := Thread.depth?_add hk (n + 1)
    rw [Nat.zero_add] at hmore
    rw [List.foldlM_append, hn, Option.bind_eq_bind, Option.bind_some, List.foldlM_cons, hstart,
      Option.bind_eq_bind, Option.bind_some, hmore]
  refine List.exists_cons_of_length_pos ?_
  rw [resolvedDraft, frames_draftAfter _ _ _ hopened]
  omega

theorem inlineEvents_link (delimiter : Pod.Delimiter) (children : List Inline) (line : Int) :
    let link := Link.parse (Inline.sources children)
    inlineEvents [.code 'L' delimiter children line]
      = Block.enclosed (linkElement link line) (inlineEvents (Inline.parse line link.display)) := by
  intro link
  rw [inlineEvents, if_pos rfl, inlineEvents]
  rfl

/-- A link adds itself to the element that it stands in. -/
theorem run_link (p : Thread.Policy) {d : Draft} {frame : Frame} {outer : List Frame}
    (hframes : d.frames = frame :: outer) (delimiter : Pod.Delimiter) (children : List Inline)
    (line : Int) :
    let link := Link.parse (Inline.sources children)
    let rendered := renderLink d.sections link.kind link.target
      (link.heading.map fun s => Inline.plains (Inline.parse line s)) link.label.isSome
      (Draft.contentOf (Inline.parse line link.display) d.sections)
    ∃ warnings, d.run p (inlineEvents [.code 'L' delimiter children line])
      = { d with
          frames := { frame with content := frame.content ++ rendered } :: outer
          warnings } := by
  intro link rendered
  have hshown := Draft.renders_contentOf (Inline.parse line link.display)
  obtain ⟨warnings, hrun⟩ := hshown.run_enclosed (linkElement link line) (fun _ => rfl)
    (fun _ _ => Element.noConfusion) p d
  refine ⟨warnings, ?_⟩
  rw [inlineEvents_link, hrun]
  show Draft.append rendered _ = _
  unfold Draft.append
  dsimp only
  rw [hframes]
  rfl

/-- The events of a link add what the link is rendered as, with the sections known by then. -/
theorem adds_link
    (hsections : Registry.create ((resolveAnchors file source o).1.getD []) = .ok sections)
    {before after : List Event} {delimiter : Pod.Delimiter} {children : List Inline} {line : Int}
    (hlink : Pod.sourceEvents file source
      = before ++ (inlineEvents [.code 'L' delimiter children line] ++ after))
    {link : Link} (hparse : Link.parse (Inline.sources children) = link) :
    Adds file source o before (inlineEvents [.code 'L' delimiter children line])
      (renderLink (writerAfter file source o before).sections link.kind link.target
        (link.heading.map fun s => Inline.plains (Inline.parse line s)) link.label.isSome
        (Draft.contentOf (Inline.parse line link.display)
          (writerAfter file source o before).sections)) := by
  subst hparse
  have henclosed := hlink
  rw [inlineEvents_link] at henclosed
  obtain ⟨events, more, rfl, hbody⟩ := exists_body_of_enclosed henclosed
  rw [← inlineEvents_link delimiter] at hbody
  have hstart := hbody
  rw [inlineEvents_link, Block.enclosed_append] at hstart
  obtain ⟨frame, outer, hframes⟩ := exists_frame_of_inline_start file o sections rfl hstart
  have hbehind : bodyEvents source
      = (events ++ inlineEvents [.code 'L' delimiter children line]) ++ more := by
    rw [hbody, List.append_assoc]
  obtain ⟨warnings, hrun⟩ := run_link (resolvedOptions file source o).policy hframes delimiter
    children line
  rw [Adds, List.cons_append, writerAfter_body hsections hbody, writerAfter_body hsections hbehind,
    resolvedDraft_append, hrun]
  exact ⟨_, _, frame, outer, rfl, rfl, hframes, rfl⟩

/-- The events of a source whose only paragraph is a link. -/
theorem sourceEvents_of_link (file : Text) {source : Text} {line : Nat} {ls : List Text}
    (hsplit : Paragraph.split source = [⟨.command "pod", 1, [[]]⟩, ⟨.ordinary, line, ls⟩])
    {delimiter : Pod.Delimiter} {children : List Inline}
    (hnodes : Block.nodes line (unlines ls) = [.code 'L' delimiter children line]) :
    Pod.sourceEvents file source
      = [.docStart (sourceInfo file source), .start (.para line)]
        ++ (inlineEvents [.code 'L' delimiter children line]
          ++ [.finish (.para line), .docEnd (sourceErrata source)]) := by
  rw [sourceEvents_eq, Pod.bodyEvents_paragraph hsplit, Block.events, hnodes, Block.enclosed]
  simp

end

/-- A link in single brackets, in a paragraph on the third line of its source. -/
def linkAlone (children : List Inline) : List Inline := [.code 'L' ⟨0, [], some []⟩ children 3]

end PodLoom
