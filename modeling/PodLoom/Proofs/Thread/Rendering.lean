import PodLoom.Proofs.Thread.Sections

set_option autoImplicit false

/-!
# The content of formatted text

The events of formatted text add to the innermost open element what the text is
rendered as, and do nothing else but warn (`renders_contentOf`).  Only the links of a
text depend on the sections: text without links is rendered the same whatever sections
there are (`contentOf_of_linkFree`).

So a block is written as a whole, and a draft goes from block to block
(`run_block`).
-/

namespace PodLoom

open Text CodeUnit
open PodLoom.Pod (Block Element Event Inline inlineEvents)

namespace Pod.Inline

mutual

/-- Whether a node holds no link, at any depth. -/
def linkFree : Inline → Bool
  | .text _ => true
  | .code letter _ children _ => letter != ofChar 'L' && allLinkFree children

/-- Whether a sequence of nodes holds no link, at any depth. -/
def allLinkFree : List Inline → Bool
  | [] => true
  | node :: rest => linkFree node && allLinkFree rest

end

end Pod.Inline

namespace Thread

namespace Rendered

theorem empty_append (a : Rendered) : empty ++ a = a := rfl

theorem append_empty (a : Rendered) : a ++ empty = a := by
  show (⟨a.text ++ [], a.plain ++ []⟩ : Rendered) = a
  rw [List.append_nil, List.append_nil]

theorem append_assoc (a b c : Rendered) : a ++ b ++ c = a ++ (b ++ c) := by
  show (⟨a.text ++ b.text ++ c.text, a.plain ++ b.plain ++ c.plain⟩ : Rendered) = _
  rw [List.append_assoc, List.append_assoc]
  rfl

end Rendered

namespace Draft

/-! ## Formatted text -/

/-- Events that add a content to the innermost open element, given the sections, and do
nothing else but warn. -/
def Renders (content : Registry → Rendered) (events : List Event) : Prop :=
  ∀ (p : Policy) (d : Draft) (c : Rendered) (outer : List Frame),
    d.frames = ⟨false, c⟩ :: outer →
    ∃ warnings, d.run p events
      = { d with frames := ⟨false, c ++ content d.sections⟩ :: outer, warnings }

namespace Renders

theorem nil : Renders (fun _ => .empty) [] := by
  intro p d c outer hframes
  refine ⟨d.warnings, ?_⟩
  rw [Rendered.append_empty, ← hframes]
  rfl

theorem text (t : Text) : Renders (fun _ => .ofText t) [.text t] := by
  intro p d c outer hframes
  refine ⟨d.warnings, ?_⟩
  show d.receiveText t = _
  unfold receiveText
  rw [hframes]
  rfl

theorem append {a b : Registry → Rendered} {events more : List Event} (ha : Renders a events)
    (hb : Renders b more) : Renders (fun r => a r ++ b r) (events ++ more) := by
  intro p d c outer hframes
  obtain ⟨warnings, hfirst⟩ := ha p d c outer hframes
  obtain ⟨warnings', hrest⟩ := hb p (d.run p events) (c ++ a d.sections) outer
    (by rw [hfirst])
  refine ⟨warnings', ?_⟩
  rw [run_append, hrest, hfirst, Rendered.append_assoc]

/-- An element around formatted text finishes with its content. -/
theorem run_enclosed {content : Registry → Rendered} {inner : List Event}
    (h : Renders content inner) (element : Element)
    (hstart : ∀ d : Draft,
      d.startElement element = { d with frames := ⟨false, .empty⟩ :: d.frames })
    (hover : ∀ kind line, element ≠ .over kind line) (p : Policy) (d : Draft) :
    ∃ warnings, d.run p (Block.enclosed element inner)
      = { d with warnings }.finishBlock p element (content d.sections) := by
  have hopen := hstart d
  obtain ⟨warnings, hinner⟩ := h p (d.startElement element) .empty d.frames (by rw [hopen])
  rw [Rendered.empty_append, hopen] at hinner
  refine ⟨warnings, ?_⟩
  have hrun : d.run p (Block.enclosed element inner)
      = ((d.startElement element).run p inner).finishElement p element := by
    show (d.startElement element).run p (inner ++ [.finish element]) = _
    rw [run_append]
    rfl
  rw [hrun, hopen, hinner]
  cases element with
  | «over» kind line => exact absurd rfl (hover kind line)
  | _ => rfl

/-- A code or a link renders the content it encloses. -/
theorem enclosed {content : Registry → Rendered} {inner : List Event}
    (h : Renders content inner) {element : Element}
    (hstart : ∀ d : Draft,
      d.startElement element = { d with frames := ⟨false, .empty⟩ :: d.frames })
    (hover : ∀ kind line, element ≠ .over kind line) (render : Registry → Rendered → Rendered)
    (hfinish : ∀ (p : Policy) (d : Draft) (c : Rendered), ∃ warnings,
      d.finishBlock p element c = { d with warnings }.append (render d.sections c)) :
    Renders (fun r => render r (content r)) (Block.enclosed element inner) := by
  intro p d c outer hframes
  obtain ⟨warnings, hrun⟩ := h.run_enclosed element hstart hover p d
  obtain ⟨warnings', hclose⟩ := hfinish p { d with warnings } (content d.sections)
  refine ⟨warnings', ?_⟩
  rw [hrun, hclose]
  unfold Draft.append
  dsimp only
  rw [hframes]
  rfl

theorem format (letter : CodeUnit) (line : Int) {content : Registry → Rendered}
    {inner : List Event} (h : Renders content inner) :
    Renders (fun r => (renderCode [letter] (content r)).1)
      (Block.enclosed (.format [letter] line) inner) := by
  refine h.enclosed (fun _ => rfl) (by simp) (fun _ c => (renderCode [letter] c).1) ?_
  intro p d c
  show ∃ warnings, d.appendRendering line (renderCode [letter] c) = _
  unfold appendRendering
  split
  · rename_i message _
    exact ⟨d.warnings ++ [(line, message)], rfl⟩
  · exact ⟨d.warnings, rfl⟩

theorem link (kind : Pod.LinkKind) (target heading : Option Text) (hasLabel : Bool) (line : Int)
    {content : Registry → Rendered} {inner : List Event} (h : Renders content inner) :
    Renders (fun r => renderLink r kind target heading hasLabel (content r))
      (Block.enclosed (.link kind target heading hasLabel line) inner) :=
  h.enclosed (fun _ => rfl) (by simp) (fun r c => renderLink r kind target heading hasLabel c)
    fun _ d _ => ⟨d.warnings, rfl⟩

end Renders

/-- Formatted text makes a content, which depends on the sections only if it has links. -/
theorem exists_renders (nodes : List Inline) :
    ∃ content, Renders content (inlineEvents nodes)
      ∧ (Inline.allLinkFree nodes = true → ∀ r r', content r = content r') := by
  fun_induction inlineEvents nodes with
  | case1 => exact ⟨_, .nil, fun _ _ _ => rfl⟩
  | case2 t rest ih =>
    obtain ⟨content, hrest, hfree⟩ := ih
    refine ⟨_, (Renders.text t).append hrest, ?_⟩
    intro h r r'
    simp only [Inline.allLinkFree, Inline.linkFree, Bool.true_and] at h
    exact congrArg _ (hfree h r r')
  | case3 delimiter children line rest link element ihdisplay ihrest =>
    obtain ⟨inner, hinner, -⟩ := ihdisplay
    obtain ⟨content, hrest, -⟩ := ihrest
    have hcode := (hinner.link link.kind link.target
      (link.heading.map fun s => Inline.plains (Inline.parse line s)) link.label.isSome
      line).append hrest
    rw [Block.enclosed_append] at hcode
    refine ⟨_, hcode, ?_⟩
    intro h
    simp [Inline.allLinkFree, Inline.linkFree] at h
  | case4 letter delimiter children line rest hletter element ihchildren ihrest =>
    obtain ⟨inner, hinner, hchildren⟩ := ihchildren
    obtain ⟨content, hrest, hfree⟩ := ihrest
    have hcode := (hinner.format letter line).append hrest
    rw [Block.enclosed_append] at hcode
    refine ⟨_, hcode, ?_⟩
    intro h r r'
    simp only [Inline.allLinkFree, Inline.linkFree, Bool.and_eq_true] at h
    simp only [hchildren h.1.2 r r', hfree h.2 r r']

/-- The content of formatted text, given the sections. -/
def contentOf (nodes : List Inline) (r : Registry) : Rendered :=
  match (((blank r).startElement (.para 0)).run default (inlineEvents nodes)).frames with
  | [] => .empty
  | frame :: _ => frame.content

theorem contentOf_eq {nodes : List Inline} {content : Registry → Rendered}
    (h : Renders content (inlineEvents nodes)) : contentOf nodes = content := by
  funext r
  obtain ⟨warnings, hrun⟩ := h default ((blank r).startElement (.para 0)) .empty [] rfl
  unfold contentOf
  rw [hrun]
  exact Rendered.empty_append (content r)

theorem renders_contentOf (nodes : List Inline) :
    Renders (contentOf nodes) (inlineEvents nodes) := by
  obtain ⟨content, h, -⟩ := exists_renders nodes
  rw [contentOf_eq h]
  exact h

/-- Text without links has the same content whatever the sections are. -/
theorem contentOf_of_linkFree {nodes : List Inline} (hfree : Inline.allLinkFree nodes = true)
    (r r' : Registry) : contentOf nodes r = contentOf nodes r' := by
  obtain ⟨content, h, hsame⟩ := exists_renders nodes
  rw [contentOf_eq h]
  exact hsame hfree r r'

/-! ## Blocks -/

theorem sections_writeHeading (p : Policy) (level : Nat) (content : Rendered) (d : Draft) :
    (d.writeHeading p level content).sections
      = if level = 1 ∧ p.tracks = true ∧ d.introducesName p level content.plain.squeeze = false then
          (d.sections.register content.plain.squeeze content.text.trim).2
        else d.sections := by
  obtain ⟨scopes, pieces, hclose⟩ := onScope_with Scope.close { d with inName := false }
  unfold writeHeading
  cases hname : d.introducesName p level content.plain.squeeze with
  | true => simp
  | false =>
    by_cases hlevel : level = 1 ∧ p.tracks = true
    · rw [if_neg (by simp), if_pos hlevel, if_pos ⟨hlevel.1, hlevel.2, rfl⟩, hclose]
      rfl
    · rw [if_neg (by simp), if_neg hlevel, if_neg (fun h => hlevel ⟨h.1, h.2.1⟩), hclose]
      rfl

theorem sections_finishBlock (p : Policy) (element : Element)
    (hhead : ∀ level line, element ≠ .head level line) (content : Rendered) (d : Draft) :
    (d.finishBlock p element content).sections = d.sections := by
  rcases grown_finishBlock_of_ne_head p hhead content d with ⟨-, h, -⟩ | ⟨-, -, h, -⟩
  · exact h
  · exact h

/-- What a block does to the sections: a top-level heading is written with the content of
its text, and any other block leaves them as they are. -/
theorem run_block (p : Policy) (d : Draft) (b : Block) :
    (∃ line t warnings, b = .heading 0 line t
        ∧ d.run p b.events
          = { d with warnings }.writeHeading p 1 (contentOf (Block.nodes line t) d.sections))
      ∨ (∀ line t, b ≠ .heading 0 line t) ∧ (d.run p b.events).sections = d.sections := by
  have hother : ∀ {element : Element} {nodes : List Event} {content : Registry → Rendered},
      Renders content nodes →
      (∀ d : Draft, d.startElement element = { d with frames := ⟨false, .empty⟩ :: d.frames }) →
      (∀ kind line, element ≠ .over kind line) → (∀ level line, element ≠ .head level line) →
      (d.run p (Block.enclosed element nodes)).sections = d.sections := by
    intro element nodes content h hstart hover hhead
    obtain ⟨warnings, hrun⟩ := h.run_enclosed element hstart hover p d
    rw [hrun, sections_finishBlock p element hhead]
  cases b with
  | heading level line t =>
    obtain ⟨warnings, hrun⟩ := (renders_contentOf (Block.nodes line t)).run_enclosed
      (.head (level + 1) line) (fun _ => rfl) (by simp) p d
    by_cases hlevel : level = 0
    · subst hlevel
      exact .inl ⟨line, t, warnings, rfl, hrun⟩
    · right
      refine ⟨by simp [hlevel], ?_⟩
      have hne : (level : Nat) + 1 ≠ 1 := fun h => hlevel (Fin.ext (Nat.succ.inj h))
      refine (congrArg Draft.sections hrun).trans ?_
      show (writeHeading p (level + 1) _ { d with warnings }).sections = d.sections
      rw [sections_writeHeading, if_neg (fun h => hne h.1)]
  | paragraph line t =>
    exact .inr ⟨by simp, hother (renders_contentOf _) (fun _ => rfl) (by simp) (by simp)⟩
  | item kind marker line label =>
    exact .inr ⟨by simp, hother (renders_contentOf _) (fun _ => rfl) (by simp) (by simp)⟩
  | verbatim line t =>
    exact .inr ⟨by simp, hother (.text t) (fun _ => rfl) (by simp) (by simp)⟩
  | data target line t =>
    exact .inr ⟨by simp, sections_finishBlock p (.data target line) (by simp) _ _⟩
  | command name text line =>
    exact .inr ⟨by simp, hother .nil (fun _ => rfl) (by simp) (by simp)⟩
  | listStart kind line => exact .inr ⟨by simp, (extends_enter kind d).2.1⟩
  | listEnd kind line => exact .inr ⟨by simp, (extends_finish_over p kind line d).2.1⟩

end Draft

end Thread

end PodLoom
