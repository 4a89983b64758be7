import PodLoom.Pod.Document

set_option autoImplicit false

/-!
# The blocks of a document

What a document delivers between its start and its end is a sequence of blocks, and
lists that start and end between them (`blocked_deliver`).  A block holds formatted text
or raw text, and no block stands in another.

Formatted text is what `Inline.parse` reads, at any depth: the display text of a link
is read in its turn.  So all its codes have capital letters (`regular_bodyEvents`).
-/

namespace PodLoom.Pod

open Text CodeUnit

/-! ## Letters of codes -/

namespace Inline

mutual

/-- Whether the codes of a node, at any depth, are capital letters. -/
def upright : Inline → Bool
  | .text _ => true
  | .code letter _ children _ => letter.isUpper && allUpright children

/-- Whether the codes of a sequence of nodes, at any depth, are capital letters. -/
def allUpright : List Inline → Bool
  | [] => true
  | node :: rest => upright node && allUpright rest

end

theorem allUpright_append (s t : List Inline) :
    allUpright (s ++ t) = (allUpright s && allUpright t) := by
  induction s with
  | nil => simp [allUpright]
  | cons node rest ih => simp [allUpright, ih, Bool.and_assoc]

theorem allUpright_reverse (s : List Inline) : allUpright s.reverse = allUpright s := by
  induction s with
  | nil => rfl
  | cons node rest ih =>
    rw [List.reverse_cons, allUpright_append, ih, allUpright, allUpright, allUpright,
      Bool.and_true, Bool.and_comm]

end Inline

/-- Whether open codes and the nodes before them have capital letters. -/
def openUpright : List OpenCode → Bool
  | [] => true
  | c :: stack => c.letter.isUpper && Inline.allUpright c.before && openUpright stack

theorem allUpright_pushText (run : Text) (nodes : List Inline) :
    Inline.allUpright (pushText run nodes) = Inline.allUpright nodes := by
  unfold pushText
  split
  · rfl
  · simp [Inline.allUpright, Inline.upright]

theorem upright_node (c : OpenCode) (closing : Option Text) (nodes : List Inline) :
    (c.node closing nodes).upright = (c.letter.isUpper && Inline.allUpright nodes) := by
  rw [OpenCode.node, Inline.upright, Inline.allUpright_reverse]

theorem allUpright_endCodes {stack : List OpenCode} {nodes : List Inline}
    (hstack : openUpright stack = true) (hnodes : Inline.allUpright nodes = true) :
    Inline.allUpright (endCodes stack nodes) = true := by
  induction stack generalizing nodes with
  | nil => rw [endCodes, Inline.allUpright_reverse, hnodes]
  | cons c stack ih =>
    simp only [openUpright, Bool.and_eq_true] at hstack
    refine ih hstack.2 ?_
    rw [Inline.allUpright, upright_node, hstack.1.1, hstack.1.2, hnodes]
    rfl

theorem isUpper_of_opening {t : Text} {o : Opening} (h : opening? t = some o) :
    o.letter.isUpper = true := by
  unfold opening? at h
  split at h
  · split at h
    · rename_i hfront
      rw [Bool.and_eq_true] at hfront
      dsimp only at h
      split at h
      · cases h
        exact hfront.1
      · cases h
        exact hfront.1
    · cases h
  · cases h

theorem allUpright_readNodes {stack : List OpenCode} {nodes : List Inline} {run : Text}
    {line : Int} {t : Text} (hstack : openUpright stack = true)
    (hnodes : Inline.allUpright nodes = true) :
    Inline.allUpright (readNodes stack nodes run line t) = true := by
  fun_induction readNodes stack nodes run line t with
  | case1 stack nodes run line t h =>
    exact allUpright_endCodes hstack (by rw [allUpright_pushText, hnodes])
  | case2 stack nodes run line t c outer padding rest h ih =>
    obtain ⟨rfl, -⟩ := Front.Found.of_eq h
    simp only [openUpright, Bool.and_eq_true] at hstack
    refine ih hstack.2 ?_
    rw [Inline.allUpright, upright_node, hstack.1.1, hstack.1.2, allUpright_pushText, hnodes]
    rfl
  | case3 stack nodes run line t o h ih =>
    refine ih ?_ rfl
    rw [openUpright, isUpper_of_opening (Front.Found.of_eq h), allUpright_pushText, hnodes, hstack]
    rfl
  | case4 stack nodes run line t u rest h ih => exact ih hstack hnodes

/-- The codes of a paragraph are capital letters. -/
theorem allUpright_parse (line : Int) (t : Text) :
    Inline.allUpright (Inline.parse line t) = true :=
  allUpright_readNodes rfl rfl

/-! ## Regular events -/

/-- An event of a document between its start and its end, as a document delivers it: a
code is a capital letter, and a heading is of level one to four. -/
def Event.regular : Event → Bool
  | .docStart _ | .docEnd _ => false
  | .text _ => true
  | .start element | .finish element =>
      match element with
      | .head level _ => 1 ≤ level && level ≤ 4
      | .format code _ =>
          match code with
          | [letter] => letter.isUpper
          | _ => false
      | _ => true

theorem regular_inlineEvents {nodes : List Inline} (h : Inline.allUpright nodes = true) :
    ∀ e ∈ inlineEvents nodes, e.regular = true := by
  fun_induction inlineEvents nodes with
  | case1 => simp
  | case2 content rest ih =>
    simp only [Inline.allUpright, Inline.upright, Bool.true_and] at h
    simpa [Event.regular] using ih h
  | case3 delimiter children line rest link element ihdisplay ihrest =>
    simp only [Inline.allUpright, Bool.and_eq_true] at h
    have hdisplay := ihdisplay (allUpright_parse line link.display)
    have hrest := ihrest h.2
    intro e he
    simp only [List.mem_cons, List.mem_append] at he
    rcases he with rfl | he | rfl | he
    · rfl
    · exact hdisplay e he
    · rfl
    · exact hrest e he
  | case4 letter delimiter children line rest hletter element ihchildren ihrest =>
    simp only [Inline.allUpright, Inline.upright, Bool.and_eq_true] at h
    intro e he
    simp only [List.mem_cons, List.mem_append] at he
    rcases he with rfl | he | rfl | he
    · exact h.1.1
    · exact ihchildren h.1.2 e he
    · exact h.1.1
    · exact ihrest h.2 e he

/-! ## Blocks -/

/-- A block of a document, or the start or the end of a list. -/
inductive Block where
  /-- A heading of level one to four, around formatted text. -/
  | heading (level : Fin 4) (line : Int) (t : Text)
  /-- A paragraph of formatted text. -/
  | paragraph (line : Int) (t : Text)
  /-- A list item around its label; the label is empty except in a text item. -/
  | item (kind : ListKind) (marker : Text) (line : Int) (label : Text)
  /-- An indented block. -/
  | verbatim (line : Int) (t : Text)
  /-- Raw text for an accepted output format. -/
  | data (target : Text) (line : Int) (t : Text)
  /-- A command that has no meaning. -/
  | command (name text : Text) (line : Int)
  | listStart (kind : ListKind) (line : Int)
  | listEnd (kind : ListKind) (line : Int)
  deriving DecidableEq, Repr

namespace Block

/-- The nodes of the formatted text of a block. -/
def nodes (line : Int) (t : Text) : List Inline := Inline.parse line t.expandTabs

/-- An element around events. -/
def enclosed (element : Element) (inner : List Event) : List Event :=
  .start element :: (inner ++ [.finish element])

theorem enclosed_append (element : Element) (inner rest : List Event) :
    enclosed element inner ++ rest = .start element :: (inner ++ .finish element :: rest) := by
  rw [enclosed, List.cons_append, List.append_assoc, List.singleton_append]

/-- The events of a block. -/
def events : Block → List Event
  | .heading level line t => enclosed (.head (level + 1) line) (inlineEvents (nodes line t))
  | .paragraph line t => enclosed (.para line) (inlineEvents (nodes line t))
  | .item kind marker line label =>
      enclosed (.item kind marker line) (inlineEvents (nodes line label))
  | .verbatim line t => enclosed (.verbatim line) [.text t]
  | .data target line t => enclosed (.data target line) [.text t]
  | .command name text line => enclosed (.command name text line) []
  | .listStart kind line => [.start (.over kind line)]
  | .listEnd kind line => [.finish (.over kind line)]

theorem nodes_nil (line : Int) : nodes line [] = [] := by
  rw [nodes, show expandTabs [] = [] from rfl, Inline.parse, readNodes]
  rfl

theorem regular_enclosed {element : Element} {inner : List Event}
    (hstart : (Event.start element).regular = true) (hinner : ∀ e ∈ inner, e.regular = true) :
    ∀ e ∈ enclosed element inner, e.regular = true := by
  have hfinish : (Event.finish element).regular = true := hstart
  intro e he
  simp only [enclosed, List.mem_cons, List.mem_append, List.not_mem_nil, or_false] at he
  rcases he with rfl | he | rfl
  · exact hstart
  · exact hinner e he
  · exact hfinish

theorem regular_events (b : Block) : ∀ e ∈ b.events, e.regular = true := by
  have hnodes : ∀ (line : Int) (t : Text), ∀ e ∈ inlineEvents (nodes line t), e.regular = true :=
    fun line t => regular_inlineEvents (allUpright_parse line t.expandTabs)
  cases b with
  | heading level line t =>
    refine regular_enclosed ?_ (hnodes line t)
    have := level.isLt
    simp only [Event.regular, Bool.and_eq_true, decide_eq_true_eq]
    omega
  | paragraph line t => exact regular_enclosed rfl (hnodes line t)
  | item kind marker line label => exact regular_enclosed rfl (hnodes line label)
  | verbatim line t => exact regular_enclosed rfl (by simp [Event.regular])
  | data target line t => exact regular_enclosed rfl (by simp [Event.regular])
  | command name text line => exact regular_enclosed rfl (by simp)
  | listStart kind line => simp [events, Event.regular]
  | listEnd kind line => simp [events, Event.regular]

end Block

/-! ## The blocks of paragraphs -/

/-- A top-level heading is the text of a `=head1` paragraph among those given. -/
def Block.HeadedBy (ps : List Paragraph) (b : Block) : Prop :=
  ∀ (line : Int) (t : Text), b = .heading 0 line t →
    ∃ p ∈ ps, p.kind = .command (ofString "head1") ∧ line = p.line ∧ t = p.joined

/-- Events are those of blocks, whose top-level headings are `=head1` paragraphs. -/
def Blocked (ps : List Paragraph) (events : List Event) : Prop :=
  ∃ bs : List Block, events = bs.flatMap Block.events ∧ ∀ b ∈ bs, b.HeadedBy ps

namespace Blocked

variable {ps : List Paragraph} {events more : List Event}

theorem nil (ps : List Paragraph) : Blocked ps [] := ⟨[], rfl, by simp⟩

theorem append (h : Blocked ps events) (h' : Blocked ps more) : Blocked ps (events ++ more) := by
  obtain ⟨bs, rfl, hbs⟩ := h
  obtain ⟨cs, rfl, hcs⟩ := h'
  refine ⟨bs ++ cs, List.flatMap_append.symm, ?_⟩
  intro b hb
  rcases List.mem_append.1 hb with hb | hb
  · exact hbs b hb
  · exact hcs b hb

theorem of_block {b : Block} (hb : b.HeadedBy ps) : Blocked ps b.events :=
  ⟨[b], (List.flatMap_singleton Block.events b).symm, by simpa using hb⟩

/-- A block that is no heading. -/
theorem of_other {b : Block} (hb : ∀ level line t, b ≠ .heading level line t) :
    Blocked ps b.events :=
  of_block fun line t h => absurd h (hb 0 line t)

theorem mono {qs : List Paragraph} (hsub : ∀ p ∈ ps, p ∈ qs) (h : Blocked ps events) :
    Blocked qs events := by
  obtain ⟨bs, rfl, hbs⟩ := h
  refine ⟨bs, rfl, ?_⟩
  intro b hb line t ht
  obtain ⟨p, hp, hhead⟩ := hbs b hb line t ht
  exact ⟨p, hsub p hp, hhead⟩

end Blocked

theorem blocked_deliverFor (ps : List Paragraph) (line : Int) (text : Text) :
    Blocked ps (deliverFor line text).events := by
  unfold deliverFor
  split
  · exact .nil ps
  · rename_i target content _
    split
    · exact .of_other (b := .data target line content) (by simp)
    · exact .of_other (b := .paragraph line content) (by simp)
    · exact .nil ps

theorem blocked_deliverItem (ps : List Paragraph) (c : Context) (line : Int) (marker : Text) :
    Blocked ps (deliverItem c line marker).events := by
  unfold deliverItem
  split
  · refine (Blocked.nil ps).append ?_
    split
    · exact .nil ps
    · exact .of_other (b := .paragraph line marker) (by simp)
  · rename_i list _ _
    generalize Item.read list.kind marker = item
    refine Blocked.append ?_ ?_
    · have hlabel : Blocked ps (Block.item item.kind marker line item.label).events :=
        .of_other (by simp)
      split
      · rename_i hempty
        rw [List.isEmpty_iff.1 hempty, Block.events, Block.nodes_nil, inlineEvents] at hlabel
        exact hlabel
      · exact hlabel
    · split
      · exact .nil ps
      · exact .of_other (b := .paragraph line item.body) (by simp)

theorem blocked_endList (ps : List Paragraph) (c : Context) (line : Int) :
    Blocked ps (endList c line).2.events := by
  unfold endList
  split
  · exact .of_other (b := .listEnd .block line) (by simp)
  · rename_i list _ _
    exact .of_other (b := .listEnd list.kind list.line) (by simp)

theorem blocked_beginRegion (ps : List Paragraph) (c : Context) (line : Int) (text : Text) :
    Blocked ps (beginRegion c line text).2.events := by
  unfold beginRegion
  split
  · exact .nil ps
  · exact .nil ps

theorem blocked_endRegion (ps : List Paragraph) (c : Context) (line : Int) (text : Text) :
    Blocked ps (endRegion c line text).2.events := by
  unfold endRegion
  dsimp only
  split
  · exact .nil ps
  · split
    · exact .nil ps
    · exact .nil ps

/-- The level of a heading, with the only name that makes a top-level one. -/
theorem exists_headLevel {name : Text} {level : Nat} (h : headLevel? name = some level) :
    ∃ n : Fin 4, level = n + 1 ∧ (n = 0 → name = ofString "head1") := by
  unfold headLevel? at h
  split at h
  · cases h
    exact ⟨0, rfl, fun _ => ‹_›⟩
  · split at h
    · cases h
      exact ⟨1, rfl, by simp⟩
    · split at h
      · cases h
        exact ⟨2, rfl, by simp⟩
      · split at h
        · cases h
          exact ⟨3, rfl, by simp⟩
        · cases h

theorem blocked_takeCommand (c : Context) (name : Text) (p : Paragraph)
    (hp : p.kind = .command name) (next : Option Paragraph) :
    Blocked [p] (takeCommand c name p next).2.events := by
  unfold takeCommand
  dsimp only
  split
  · rename_i level hlevel
    obtain ⟨n, rfl, hname⟩ := exists_headLevel hlevel
    refine Blocked.of_block (b := .heading n p.line p.joined) ?_
    intro line t heq
    obtain ⟨rfl, rfl, rfl⟩ := Block.heading.inj heq
    exact ⟨p, List.mem_singleton_self p, by rw [hp, hname rfl], rfl, rfl⟩
  · split
    · exact .of_other (b := .listStart (listKind next) p.line) (by simp)
    · split
      · exact blocked_deliverItem [p] c p.line p.joined
      · split
        · exact blocked_endList [p] c p.line
        · split
          · exact blocked_beginRegion [p] c p.line p.text
          · split
            · exact blocked_endRegion [p] c p.line p.text
            · split
              · exact blocked_deliverFor [p] p.line p.text
              · split
                · exact .nil [p]
                · exact .of_other (b := .command name p.text.trim p.line) (by simp)

theorem blocked_takeParagraph (c : Context) (p : Paragraph) (next : Option Paragraph) :
    Blocked [p] (takeParagraph c p next).2.events := by
  unfold takeParagraph
  split
  · exact .nil [p]
  · split
    · rename_i name hname
      exact blocked_takeCommand c name p hname next
    · split
      · rename_i target _ _
        exact .of_other (b := .data target p.line p.text) (by simp)
      · split
        · exact .of_other (b := .verbatim p.line (stripLineEnds p.text.expandTabs)) (by simp)
        · exact .of_other (b := .paragraph p.line p.text) (by simp)

theorem blocked_takeParagraphs (c : Context) (ps : List Paragraph) :
    Blocked ps (takeParagraphs c ps).2.events := by
  induction ps generalizing c with
  | nil => exact .nil []
  | cons p rest ih =>
    have hfirst : Blocked (p :: rest) (takeParagraph c p rest.head?).2.events :=
      (blocked_takeParagraph c p rest.head?).mono (by simp)
    have hmore : Blocked (p :: rest)
        (takeParagraphs (takeParagraph c p rest.head?).1 rest).2.events :=
      (ih (takeParagraph c p rest.head?).1).mono fun q hq => List.mem_cons_of_mem p hq
    exact hfirst.append hmore

theorem blocked_endDocument (ps : List Paragraph) (c : Context) :
    Blocked ps (endDocument c).events := by
  show Blocked ps (c.lists.map fun l => Event.finish l.element)
  induction c.lists with
  | nil => exact .nil ps
  | cons l rest ih => exact (Blocked.of_other (b := .listEnd l.kind l.line) (by simp)).append ih

/-- What a document delivers is the events of blocks, whose top-level headings are its
`=head1` paragraphs. -/
theorem blocked_deliver (ps : List Paragraph) : Blocked ps (deliver ps).events :=
  (blocked_takeParagraphs .empty ps).append (blocked_endDocument ps _)

/-- The events of a document between its start and its end. -/
def bodyEvents (source : Text) : List Event := (deliver (Paragraph.split source)).events

theorem regular_bodyEvents (source : Text) : ∀ e ∈ bodyEvents source, e.regular = true := by
  obtain ⟨bs, hbs, -⟩ := blocked_deliver (Paragraph.split source)
  intro e he
  rw [bodyEvents, hbs] at he
  obtain ⟨b, -, he⟩ := List.mem_flatMap.1 he
  exact b.regular_events e he

/-! ## Sources without content -/

theorem takeParagraph_contentless {p : Paragraph} (hp : isContentless [p] = true)
    (next : Option Paragraph) : takeParagraph .empty p next = (.empty, .empty) := by
  obtain ⟨kind, line, lines⟩ := p
  cases kind with
  | command name =>
    have hname : isStructural name = true := by simpa [isContentless] using hp
    have hcommand : takeCommand .empty name ⟨.command name, line, lines⟩ next
        = (.empty, .empty) := by
      simp only [isStructural, Bool.or_eq_true, beq_iff_eq] at hname
      rcases hname with (rfl | rfl) | rfl <;> rfl
    simpa [takeParagraph, Context.mode?, Context.empty] using hcommand
  | verbatim => simp [isContentless] at hp
  | ordinary => simp [isContentless] at hp

/-- A source without content delivers nothing. -/
theorem deliver_contentless {ps : List Paragraph} (h : isContentless ps = true) :
    (deliver ps).events = [] := by
  have hall : takeParagraphs .empty ps = (.empty, .empty) := by
    induction ps with
    | nil => rfl
    | cons p rest ih =>
      simp only [isContentless, List.all_cons, Bool.and_eq_true] at h
      have hp := takeParagraph_contentless (p := p) (by simpa [isContentless] using h.1) rest.head?
      simp only [takeParagraphs, hp, ih h.2]
      rfl
  unfold deliver
  rw [hall]
  rfl

end PodLoom.Pod
