import PodLoom.Proofs.Thread.Placement
import PodLoom.Proofs.Thread.Tidy

set_option autoImplicit false

/-!
# Drafts without the page header

The page header is the one piece of a page whose brackets may fail to match: without a given
title, it is made of words that are torn out of their paragraph.  Everything else of a draft is
what it would be on a page with a given title, except that a heading which introduces the
header is not written.  So a draft without its header is tidy (`tidy_bare_run`), whether the
title is given or not.

The brackets that a draft leaves open are then those of its open items and those that the page
header leaves open (`Desk.unclosed_sink`).
-/

namespace PodLoom.Thread

open Text CodeUnit
open PodLoom.Pod (Element Event ListKind)

/-! ## Counting open brackets -/

/-- The number of brackets that a text opens, less the number of those it closes. -/
def unclosed (t : Text) : Int := t.count openBracket - t.count closeBracket

theorem unclosed_append (s t : Text) : unclosed (s ++ t) = unclosed s + unclosed t := by
  simp only [unclosed, List.count_append]
  omega

theorem unclosed_of_depthAfter {t : Text} {depth : Nat} (h : depthAfter 0 t = some depth) :
    unclosed t = depth := by
  have hcount := count_of_depthAfter h
  rw [unclosed]
  omega

theorem Balanced.unclosed {t : Text} (h : Balanced t) : unclosed t = 0 := unclosed_of_depthAfter h

/-- White space is no bracket. -/
theorem unclosed_ink (t : Text) : unclosed t.ink = unclosed t := by
  have hcount : ∀ u : CodeUnit, u.isBlank = false → t.ink.count u = t.count u := fun u hu =>
    List.count_filter (by simp [hu])
  rw [unclosed, unclosed, hcount _ (by decide), hcount _ (by decide)]

theorem unclosed_bracketed (t : Text) : unclosed (bracketed t) = unclosed t := by
  have hopen : unclosed [openBracket] = 1 := by decide
  have hclose : unclosed [closeBracket] = -1 := by decide
  rw [bracketed, ← List.singleton_append, unclosed_append, unclosed_append, hopen, hclose]
  omega

theorem unclosed_command {name : String} (hname : Balanced (ofString name)) (args : List Text) :
    unclosed (command name args) = unclosed args.flatten := by
  have hslash : unclosed [backslash] = 0 := by decide
  have hargs : unclosed (args.flatMap bracketed) = unclosed args.flatten := by
    induction args with
    | nil => rfl
    | cons arg rest ih =>
      rw [List.flatMap_cons, List.flatten_cons, unclosed_append, unclosed_append,
        unclosed_bracketed, ih]
  rw [command, ← List.singleton_append, unclosed_append, unclosed_append, hslash, hname.unclosed,
    hargs]
  omega

theorem unclosed_block (t : Text) : unclosed (Writer.block t) = unclosed t := by
  have hend : unclosed (ofString "\n\n") = 0 := by decide
  rw [Writer.block, unclosed_append, hend, Int.add_zero]

/-! ## Drafts without the page header -/

namespace Draft

/-- A draft without the page header, and without what the writer knows of it. -/
def bare (d : Draft) : Draft :=
  { d with inName := false, headerDone := false, pieces := d.pieces.filter (!·.isHeader) }

theorem filter_headless {pieces : List Piece} (h : ∀ q ∈ pieces, q.isHeader = false) :
    pieces.filter (!·.isHeader) = pieces :=
  List.filter_eq_self.2 fun q hq => by simp [h q hq]

theorem bare_write {q : Piece} (h : q.isHeader = false) (d : Draft) :
    (d.write [q]).bare = d.bare.write [q] := by
  have hone := filter_headless (List.forall_mem_singleton.2 h)
  rw [bare, write, List.filter_append, hone]
  rfl

theorem bare_onScope {f : Scope → Scope × List Piece}
    (hf : ∀ s, ∀ q ∈ (f s).2, q.isPlain = true) (d : Draft) :
    (d.onScope f).bare = d.bare.onScope f := by
  rcases d with ⟨frames, _ | ⟨s, outer⟩, inName, headerDone, sections, warnings, pieces⟩
  · rfl
  · have hplain := filter_headless fun q hq => Piece.isHeader_of_isPlain (hf s q hq)
    show ({ frames, scopes := (f s).1 :: outer, inName := false, headerDone := false, sections,
            warnings, pieces := (pieces ++ (f s).2).filter (!·.isHeader) } : Draft) = _
    rw [List.filter_append, hplain]
    rfl

theorem bare_place (body : Text) (d : Draft) : (d.place body).bare = d.bare.place body := by
  rcases d with ⟨frames, _ | ⟨s, outer⟩, inName, headerDone, sections, warnings, pieces⟩
  · exact bare_write rfl _
  · exact bare_onScope (place_isPlain body) _

theorem bare_enter (kind : ListKind) (d : Draft) : (d.enter kind).bare = d.bare.enter kind := by
  have hsettled := bare_onScope settle_isPlain d
  rw [enter, enter, ← hsettled]
  rfl

theorem bare_exit (d : Draft) : d.exit.bare = d.bare.exit := by
  have hclosed := bare_onScope close_isPlain d
  rw [exit, exit, ← hclosed]
  rfl

/-! ## Blocks -/

theorem bare_writeHeader (title : Text) (description : Option Text) (d : Draft) :
    (d.writeHeader title description).bare = d.bare := by
  have hnone : [Piece.header title description].filter (!·.isHeader) = [] := rfl
  rw [bare, writeHeader, write, List.filter_append, hnone, List.append_nil]
  rfl

theorem bare_writeSection (level : Nat) (text plain : Text) (d : Draft) :
    (d.writeSection level text plain).bare = d.bare.writeSection level text plain :=
  congrArg (fun d' : Draft => { d' with sections := (d.sections.register plain text).2 })
    (bare_write (q := .heading level (some (d.sections.register plain text).1) text) rfl d)

/-- A heading that introduces the page header is not written, and any other is written as on a
page with a given title. -/
theorem bare_writeHeading (p : Policy) (level : Nat) (content : Rendered) (d : Draft) :
    (d.writeHeading p level content).bare = d.bare
      ∨ (d.writeHeading p level content).bare
        = d.bare.writeHeading { p with titled := true } level content := by
  have hleft : ({ d with inName := false }.onScope Scope.close).bare = d.bare.onScope Scope.close :=
    bare_onScope close_isPlain { d with inName := false }
  have hname : ¬d.bare.introducesName { p with titled := true } level content.plain.squeeze := by
    simp [introducesName]
  by_cases hintroduces : d.introducesName p level content.plain.squeeze = true
  · rw [writeHeading, if_pos hintroduces]
    exact .inl rfl
  · rw [writeHeading, if_neg hintroduces, writeHeading, if_neg hname]
    refine .inr ?_
    split
    · rw [bare_writeSection, hleft]
      rfl
    · rw [bare_write rfl, hleft]
      rfl

theorem bare_writeBody (t : Text) (d : Draft) : (d.writeBody t).bare = d.bare.writeBody t := by
  unfold writeBody
  split
  · rfl
  · exact bare_place t d

/-- A paragraph is the page header, or a paragraph like any other. -/
theorem bare_writeParagraph (content : Rendered) (d : Draft) :
    (d.writeParagraph content).bare = d.bare
      ∨ (d.writeParagraph content).bare = d.bare.writeParagraph content := by
  have hbody : ¬content.text.isBlank →
      d.bare.writeParagraph content = d.bare.writeBody (fill content.text) := by
    intro hblank
    rw [writeParagraph, if_neg hblank]
    rfl
  by_cases hblank : content.text.isBlank = true
  · rw [writeParagraph, if_pos hblank]
    exact .inl rfl
  · rw [hbody hblank, writeParagraph, if_neg hblank]
    split
    · exact .inl (bare_writeHeader _ _ d)
    · exact .inr (bare_writeBody _ d)

theorem bare_writeData (content : Rendered) (d : Draft) :
    (d.writeData content).bare = d.bare.writeData content := by
  unfold writeData
  split
  · rfl
  · exact bare_write rfl d

theorem bare_appendRendering (line : Int) (rendering : Rendering) (d : Draft) :
    (d.appendRendering line rendering).bare = d.bare.appendRendering line rendering := by
  unfold appendRendering
  split <;> rfl

theorem bare_finishBlock (p : Policy) (element : Element) (content : Rendered) (d : Draft) :
    (d.finishBlock p element content).bare = d.bare
      ∨ (d.finishBlock p element content).bare
        = d.bare.finishBlock { p with titled := true } element content := by
  cases element with
  | head level line => exact bare_writeHeading p level content d
  | para line => exact bare_writeParagraph content d
  | format code line => exact .inr (bare_appendRendering line _ d)
  | verbatim line => exact .inr (bare_writeBody _ d)
  | data target line => exact .inr (bare_writeData content d)
  | item kind marker line => exact .inr (bare_onScope (f := Scope.next _) (fun s => settle_isPlain s) d)
  | link kind target heading hasLabel line => exact .inr rfl
  | command name text line => exact .inr rfl
  | «over» kind line => exact .inr rfl

/-! ## Events -/

variable {k : Desk} {p : Policy} {d : Draft}

theorem tidy_bare_startElement (h : d.bare.Tidy k) {element : Element}
    (hdata : ∀ target line, element ≠ .data target line) : (d.startElement element).bare.Tidy k := by
  have hstarted := h.startElement hdata
  cases element with
  | «over» kind line =>
    have henter := bare_enter kind d
    exact henter ▸ hstarted
  | _ => exact hstarted

theorem tidy_bare_finishElement (h : d.bare.Tidy k) {element : Element}
    (hregular : (Event.finish element).regular = true) :
    (d.finishElement p element).bare.Tidy k := by
  rcases finishElement_cases p element d with
    ⟨kind, line, rfl, heq | heq⟩ | heq | ⟨frame, frames, hframes, -, heq⟩
  · rw [heq]
    exact ⟨h.frames, h.laid, h.sections, h.outside⟩
  · rw [heq, bare_exit]
    exact h.exit
  · rw [heq]
    exact h
  · rw [heq]
    have hclean : ∀ f ∈ frame :: frames, f.isRaw = false ∧ Clean f.content.text :=
      hframes ▸ h.frames
    have hrest : ({ d with frames } : Draft).bare.Tidy k :=
      ⟨fun f hf => hclean f (List.mem_cons_of_mem frame hf), h.laid, h.sections, h.outside⟩
    rcases bare_finishBlock p element frame.content { d with frames } with hsame | hfinish
    · rw [hsame]
      exact hrest
    · rw [hfinish]
      exact hrest.finishBlock rfl hregular (hclean frame List.mem_cons_self).2

/-- An event keeps a draft tidy but for its header, unless it starts raw thread. -/
theorem tidy_bare_step (h : d.bare.Tidy k) {e : Event} (hregular : e.regular = true)
    (hdata : ∀ target line, e ≠ .start (.data target line)) : (d.step p e).bare.Tidy k := by
  cases e with
  | docStart info => exact h
  | docEnd errata => exact h
  | text t => exact h.receiveText t
  | start element =>
    exact tidy_bare_startElement h fun target line heq => hdata target line (heq ▸ rfl)
  | finish element => exact tidy_bare_finishElement h hregular

theorem tidy_bare_run (h : d.bare.Tidy k) {events : List Event}
    (hregular : ∀ e ∈ events, e.regular = true)
    (hdata : ∀ target line, Event.start (.data target line) ∉ events) :
    (d.run p events).bare.Tidy k := by
  induction events generalizing d with
  | nil => exact h
  | cons e rest ih =>
    have hstep := tidy_bare_step (p := p) h (hregular e List.mem_cons_self) fun target line heq =>
      hdata target line (heq ▸ List.mem_cons_self)
    exact ih hstep (fun e' he' => hregular e' (List.mem_cons_of_mem e he'))
      fun target line hmem => hdata target line (List.mem_cons_of_mem e hmem)

theorem bare_start (p : Policy) (title : Text) (contentless : Bool) (sections : Registry) :
    (Draft.start p title contentless sections).bare = .blank sections := by
  unfold start
  split <;> rfl

theorem tidy_blank {sections : Registry} (h : sections.Tidy) : (blank sections).Tidy k :=
  ⟨fun _ hf => (List.not_mem_nil hf).elim, .nil, h, rfl⟩

end Draft

/-! ## The brackets of a page -/

namespace Desk

variable (k : Desk)

theorem spliced_nil (steps : List Sink.Step) : Sink.spliced [] steps = Sink.chunks steps := by
  induction steps with
  | nil => rfl
  | cons step rest ih =>
    cases step with
    | output chunk => rw [Sink.spliced, Sink.chunks, ih]
    | reserve => rw [Sink.spliced, Sink.chunks, List.nil_append]

/-- The sink of a page has the brackets of its pieces. -/
theorem unclosed_sink (pieces : List Piece) :
    unclosed ((k.sink pieces).around []) = unclosed (k.text pieces) := by
  have hink := (k.respaced_sink [] pieces).ink_eq
  rw [spliced_nil, chunks_steps, Sink.finished, ink_append, ink_replicate_newline,
    List.append_nil] at hink
  rw [← unclosed_ink, hink, unclosed_ink]

theorem unclosed_text (pieces : List Piece) :
    unclosed (k.text pieces) = unclosed (k.text (pieces.filter (!·.isHeader)))
      + unclosed (k.text (pieces.filter (·.isHeader))) := by
  induction pieces with
  | nil => rfl
  | cons q rest ih =>
    cases hq : q.isHeader with
    | true =>
      simp only [List.filter_cons, hq, Bool.not_true, Bool.false_eq_true, if_false, if_true,
        k.text_cons, unclosed_append, ih]
      omega
    | false =>
      simp only [List.filter_cons, hq, Bool.not_false, Bool.false_eq_true, if_false, if_true,
        k.text_cons, unclosed_append, ih]
      omega

/-- The brackets that a page leaves open are those of its open items, and those that its header
leaves open. -/
theorem unclosed_of_tidy {d : Draft} (h : d.bare.Tidy k) :
    unclosed (k.text d.pieces)
      = d.scopes.countP (·.isOpen) + unclosed (k.text (d.pieces.filter (·.isHeader))) := by
  have hlaid : unclosed (k.text d.bare.pieces) = openItems d.scopes :=
    unclosed_of_depthAfter h.laid.depth
  rw [unclosed_text, ← openItems_eq_countP, ← hlaid]
  rfl

/-- The header of a page leaves open what its title and its description do, and has the title
twice. -/
theorem unclosed_header (title : Text) (description : Option Text) :
    unclosed (k.text [.header title description])
      = 2 * unclosed title + unclosed (description.getD []) := by
  have hid : unclosed (idBlocks (k.id.getD [])).flatten = 0 := by
    unfold idBlocks
    split
    · rfl
    · rw [List.flatten_singleton, unclosed_block, unclosed_command (by decide),
        List.flatten_singleton, (Balanced.escape _).unclosed]
  have hsubhead : unclosed (subheads description).flatten = unclosed (description.getD []) := by
    cases description with
    | none => rfl
    | some text =>
      have hleft : unclosed (ofString "(") = 0 := by decide
      have hright : unclosed (ofString ")") = 0 := by decide
      show unclosed [Writer.block _].flatten = _
      rw [List.flatten_singleton, unclosed_block, unclosed_command (by decide),
        List.flatten_singleton, unclosed_append, unclosed_append, hleft, hright]
      simp
  rw [text_singleton, chunks, headerBlocks, List.flatten_append, List.flatten_cons,
    List.flatten_cons, unclosed_append, unclosed_append, unclosed_append, hid, hsubhead,
    unclosed_block, unclosed_block, unclosed_command (by decide), unclosed_command (by decide)]
  simp only [List.flatten_cons, List.flatten_nil, List.append_nil, unclosed_append,
    (Balanced.escape _).unclosed]
  omega

end Desk

end PodLoom.Thread
