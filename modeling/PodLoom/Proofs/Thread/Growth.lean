import PodLoom.Proofs.Thread.Draft

set_option autoImplicit false

/-!
# How a draft grows

An event adds pieces to a draft and takes none away.  What it adds is of one of three
kinds (`step_grown`):

* plain pieces, which are neither the page header nor a heading with an anchor;
* the page header alone, which `headerDone` takes note of;
* plain pieces and behind them a top-level heading with an anchor, which is a section
  from then on.

Everything that is said about the header and the sections of a page comes from here.
-/

namespace PodLoom.Thread

open Text CodeUnit
open PodLoom.Pod (Element Event)

/-- Whether a piece is neither the page header nor a heading with an anchor. -/
def Piece.isPlain : Piece → Bool
  | .header .. => false
  | .heading _ anchor _ => anchor.isNone
  | _ => true

namespace Draft

/-- A draft continues another one with plain pieces. -/
def Extends (d d' : Draft) : Prop :=
  d'.headerDone = d.headerDone ∧ d'.sections = d.sections
    ∧ ∃ more : List Piece, d'.pieces = d.pieces ++ more ∧ ∀ q ∈ more, q.isPlain = true

/-- A draft continues another one with nothing but the page header. -/
def Headed (d d' : Draft) : Prop :=
  d.headerDone = false ∧ d'.headerDone = true ∧ d'.sections = d.sections
    ∧ ∃ title description, d'.pieces = d.pieces ++ [.header title description]

/-- A draft continues another one with a section. -/
def Sectioned (d d' : Draft) : Prop :=
  d'.headerDone = d.headerDone
    ∧ ∃ text label, d'.sections = (d.sections.register text label).2
      ∧ ∃ more : List Piece, (∀ q ∈ more, q.isPlain = true)
        ∧ d'.pieces = d.pieces ++ more
          ++ [.heading 1 (some (d.sections.register text label).1) label]

namespace Extends

variable {d d' d'' : Draft}

theorem of_same (hdone : d'.headerDone = d.headerDone) (hsections : d'.sections = d.sections)
    (hpieces : d'.pieces = d.pieces) : Extends d d' :=
  ⟨hdone, hsections, [], by rw [hpieces, List.append_nil], by simp⟩

theorem refl (d : Draft) : Extends d d := of_same rfl rfl rfl

theorem trans (h : Extends d d') (h' : Extends d' d'') : Extends d d'' := by
  obtain ⟨hdone, hsections, more, hpieces, hmore⟩ := h
  obtain ⟨hdone', hsections', more', hpieces', hmore'⟩ := h'
  refine ⟨hdone'.trans hdone, hsections'.trans hsections, more ++ more',
    by rw [hpieces', hpieces, List.append_assoc], ?_⟩
  intro q hq
  rcases List.mem_append.1 hq with hq | hq
  · exact hmore q hq
  · exact hmore' q hq

theorem write (d : Draft) {pieces : List Piece} (h : ∀ q ∈ pieces, q.isPlain = true) :
    Extends d (d.write pieces) := ⟨rfl, rfl, pieces, rfl, h⟩

theorem onScope (d : Draft) {f : Scope → Scope × List Piece}
    (hf : ∀ s, ∀ q ∈ (f s).2, q.isPlain = true) : Extends d (d.onScope f) := by
  rcases d with ⟨frames, _ | ⟨s, outer⟩, inName, headerDone, sections, warnings, pieces⟩
  · exact refl _
  · exact ⟨rfl, rfl, (f s).2, rfl, hf s⟩

end Extends

/-! ## The pieces of lists are plain -/

theorem place_isPlain (body : Text) (s : Scope) : ∀ q ∈ (s.place body).2, q.isPlain = true :=
  Scope.each_place (p := fun q => q.isPlain = true) rfl rfl rfl rfl

theorem settle_isPlain (s : Scope) : ∀ q ∈ s.settle.2, q.isPlain = true :=
  Scope.each_settle (p := fun q => q.isPlain = true) rfl rfl

theorem close_isPlain (s : Scope) : ∀ q ∈ s.close.2, q.isPlain = true :=
  Scope.each_close (p := fun q => q.isPlain = true) rfl rfl

theorem extends_place (body : Text) (d : Draft) : Extends d (d.place body) := by
  unfold place
  split
  · exact .write d (by simp [Piece.isPlain])
  · exact .onScope d (place_isPlain body)

theorem extends_enter (kind : Pod.ListKind) (d : Draft) : Extends d (d.enter kind) :=
  (Extends.onScope d settle_isPlain).trans (.of_same rfl rfl rfl)

theorem extends_exit (d : Draft) : Extends d d.exit :=
  (Extends.onScope d close_isPlain).trans (.of_same rfl rfl rfl)

theorem extends_exitEach (scopes : List Scope) (d : Draft) : Extends d (d.exitEach scopes) := by
  induction scopes generalizing d with
  | nil => exact .refl d
  | cons s rest ih => exact (extends_exit d).trans (ih d.exit)

/-! ## Blocks -/

theorem sectioned_writeSection {d d' : Draft} (h : Extends d d') (label text : Text) :
    Sectioned d (d'.writeSection 1 label text) := by
  obtain ⟨hdone, hsections, more, hpieces, hmore⟩ := h
  refine ⟨hdone, text, label, ?_, more, hmore, ?_⟩
  · rw [← hsections]
    rfl
  · rw [← hsections, ← hpieces]
    rfl

theorem grown_writeHeading (p : Policy) (level : Nat) (content : Rendered) (d : Draft) :
    Extends d (d.writeHeading p level content)
      ∨ p.tracks = true ∧ Sectioned d (d.writeHeading p level content) := by
  have hleave : Extends d ({ d with inName := false }.onScope Scope.close) :=
    (Extends.of_same rfl rfl rfl).trans (.onScope { d with inName := false } close_isPlain)
  unfold writeHeading
  split
  · exact .inl (.of_same rfl rfl rfl)
  · split
    · rename_i hlevel
      obtain ⟨rfl, htracks⟩ := hlevel
      exact .inr ⟨htracks, sectioned_writeSection hleave _ _⟩
    · exact .inl (hleave.trans (.write _ (by simp [Piece.isPlain])))

theorem extends_writeBody (t : Text) (d : Draft) : Extends d (d.writeBody t) := by
  unfold writeBody
  split
  · exact .refl d
  · exact extends_place t d

theorem extends_writeData (content : Rendered) (d : Draft) : Extends d (d.writeData content) := by
  unfold writeData
  split
  · exact .refl d
  · exact .write d (by simp [Piece.isPlain])

theorem grown_writeParagraph (content : Rendered) (d : Draft) :
    Extends d (d.writeParagraph content) ∨ Headed d (d.writeParagraph content) := by
  unfold writeParagraph
  split
  · exact .inl (.refl d)
  · split
    · rename_i title description hname
      -- Only a paragraph under `NAME`, before the header, is read as one.
      have hdone : d.headerDone = false := by
        split at hname
        · rename_i hunder
          simpa using (Bool.and_eq_true_iff.1 hunder).2
        · cases hname
      exact .inr ⟨hdone, rfl, rfl, title, some description, rfl⟩
    · exact .inl (extends_writeBody _ d)

theorem extends_appendRendering (line : Int) (rendering : Rendering) (d : Draft) :
    Extends d (d.appendRendering line rendering) := by
  unfold appendRendering
  split
  · exact .of_same rfl rfl rfl
  · exact .of_same rfl rfl rfl

/-- What one draft adds to another, at most one page header or one section. -/
def Grown (p : Policy) (d d' : Draft) : Prop :=
  Extends d d' ∨ Headed d d' ∨ p.tracks = true ∧ Sectioned d d'

/-- Only a heading becomes a section. -/
theorem grown_finishBlock_of_ne_head (p : Policy) {element : Element}
    (hhead : ∀ level line, element ≠ .head level line) (content : Rendered) (d : Draft) :
    Extends d (d.finishBlock p element content) ∨ Headed d (d.finishBlock p element content) := by
  cases element with
  | «over» kind line => exact .inl (.refl d)
  | format code line => exact .inl (extends_appendRendering line (renderCode code content) d)
  | link kind target heading hasLabel line => exact .inl (.of_same rfl rfl rfl)
  | head level line => exact absurd rfl (hhead level line)
  | para line => exact grown_writeParagraph content d
  | verbatim line => exact .inl (extends_writeBody _ d)
  | data target line => exact .inl (extends_writeData content d)
  | item kind marker line => exact .inl (.onScope d fun s => settle_isPlain s)
  | command name text line => exact .inl (.of_same rfl rfl rfl)

theorem grown_finishBlock (p : Policy) (element : Element) (content : Rendered) (d : Draft) :
    Grown p d (d.finishBlock p element content) := by
  by_cases hhead : ∃ level line, element = .head level line
  · obtain ⟨level, line, rfl⟩ := hhead
    exact (grown_writeHeading p level content d).imp_right .inr
  · have hother : ∀ level line, element ≠ .head level line :=
      fun level line h => hhead ⟨level, line, h⟩
    exact (grown_finishBlock_of_ne_head p hother content d).imp_right .inl

theorem extends_finish_over (p : Policy) (kind : Pod.ListKind) (line : Int) (d : Draft) :
    Extends d (d.finishElement p (.over kind line)) := by
  show Extends d (if d.scopes.isEmpty then d.warn line "Unmatched =back" else d.exit)
  split
  · exact .of_same rfl rfl rfl
  · exact extends_exit d

/-- What an event adds to a draft. -/
theorem step_grown (p : Policy) (d : Draft) (e : Event) : Grown p d (d.step p e) := by
  cases e with
  | docStart info => exact .inl (.refl d)
  | docEnd errata => exact .inl (.refl d)
  | text t => exact .inl (.of_same rfl rfl rfl)
  | start element =>
    refine .inl ?_
    cases element with
    | «over» kind line => exact extends_enter kind d
    | _ => exact .of_same rfl rfl rfl
  | finish element =>
    show Grown p d (d.finishElement p element)
    rcases finishElement_cases p element d with
      ⟨kind, line, rfl, h | h⟩ | h | ⟨frame, frames, -, -, h⟩
    · exact .inl (by rw [h]; exact .of_same rfl rfl rfl)
    · exact .inl (by rw [h]; exact extends_exit d)
    · exact .inl (by rw [h]; exact .refl d)
    · rw [h]
      exact grown_finishBlock p element frame.content { d with frames }

theorem extends_complete (contentless : Bool) (d : Draft) : Extends d (d.complete contentless) := by
  unfold complete
  split
  · exact .refl d
  · exact (extends_exitEach d.scopes d).trans (.write _ (by simp [Piece.isPlain]))

/-! ## Pieces stay -/

/-- Events take no piece back. -/
theorem exists_pieces_run (p : Policy) (d : Draft) (events : List Event) :
    ∃ more, (d.run p events).pieces = d.pieces ++ more := by
  induction events generalizing d with
  | nil => exact ⟨[], (List.append_nil _).symm⟩
  | cons e rest ih =>
    obtain ⟨more, hrest⟩ := ih (d.step p e)
    obtain ⟨first, hstep⟩ : ∃ first, (d.step p e).pieces = d.pieces ++ first := by
      rcases step_grown p d e with ⟨-, -, first, h, -⟩ | ⟨-, -, -, title, description, h⟩
        | ⟨-, -, text, label, -, first, -, h⟩
      · exact ⟨first, h⟩
      · exact ⟨_, h⟩
      · exact ⟨_, h.trans (List.append_assoc ..)⟩
    exact ⟨first ++ more, hrest.trans (by rw [hstep, List.append_assoc])⟩

theorem exists_pieces_complete (p : Policy) (d : Draft) (events : List Event)
    (contentless : Bool) :
    ∃ more, ((d.run p events).complete contentless).pieces = d.pieces ++ more := by
  obtain ⟨more, hrun⟩ := d.exists_pieces_run p events
  obtain ⟨-, -, last, hcomplete, -⟩ := extends_complete contentless (d.run p events)
  exact ⟨more ++ last, by rw [hcomplete, hrun, List.append_assoc]⟩

end Draft

end PodLoom.Thread
