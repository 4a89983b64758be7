import PodLoom.Proofs.Thread.Desk
import PodLoom.Proofs.Thread.Growth

set_option autoImplicit false

/-!
# Where the page header stands

The page header is written once at most, by itself, and `headerDone` says whether it
was.  So the pieces of a page with a header are those before it, the header, and those
after it, and the event that writes the header is the one at which `headerDone` changes
(`run_headless`).
-/

namespace PodLoom.Thread

open Text CodeUnit
open PodLoom.Pod (Event)

/-- Whether a piece is the page header. -/
def Piece.isHeader : Piece → Bool
  | .header .. => true
  | _ => false

theorem Piece.isHeader_of_isPlain {q : Piece} (h : q.isPlain = true) : q.isHeader = false := by
  cases q <;> simp_all [isPlain, isHeader]

namespace Draft

/-- One draft continues another without a page header. -/
def Headless (d d' : Draft) : Prop :=
  d'.headerDone = d.headerDone
    ∧ ∃ more : List Piece, d'.pieces = d.pieces ++ more ∧ ∀ q ∈ more, q.isHeader = false

namespace Headless

variable {d d' d'' : Draft}

theorem refl (d : Draft) : Headless d d := ⟨rfl, [], (List.append_nil _).symm, by simp⟩

theorem trans (h : Headless d d') (h' : Headless d' d'') : Headless d d'' := by
  obtain ⟨hdone, more, hpieces, hmore⟩ := h
  obtain ⟨hdone', more', hpieces', hmore'⟩ := h'
  refine ⟨hdone'.trans hdone, more ++ more', by rw [hpieces', hpieces, List.append_assoc], ?_⟩
  intro q hq
  rcases List.mem_append.1 hq with hq | hq
  · exact hmore q hq
  · exact hmore' q hq

theorem of_extends (h : Extends d d') : Headless d d' := by
  obtain ⟨hdone, -, more, hpieces, hmore⟩ := h
  exact ⟨hdone, more, hpieces, fun q hq => Piece.isHeader_of_isPlain (hmore q hq)⟩

theorem of_sectioned (h : Sectioned d d') : Headless d d' := by
  obtain ⟨hdone, text, label, -, more, hmore, hpieces⟩ := h
  refine ⟨hdone, _, by rw [hpieces, List.append_assoc], ?_⟩
  intro q hq
  rcases List.mem_append.1 hq with hq | hq
  · exact Piece.isHeader_of_isPlain (hmore q hq)
  · obtain rfl := List.mem_singleton.1 hq
    rfl

end Headless

/-- An event adds pieces that are no page header, or just the page header. -/
theorem step_headless (p : Policy) (d : Draft) (e : Event) :
    Headless d (d.step p e) ∨ Headed d (d.step p e) := by
  rcases step_grown p d e with h | h | ⟨-, h⟩
  · exact .inl (.of_extends h)
  · exact .inr h
  · exact .inl (.of_sectioned h)

/-- Behind the page header there is no other. -/
theorem headless_run_of_headerDone (p : Policy) {d : Draft} (h : d.headerDone = true)
    (events : List Event) : Headless d (d.run p events) := by
  induction events generalizing d with
  | nil => exact .refl d
  | cons e rest ih =>
    rcases step_headless p d e with hstep | ⟨hdone, -⟩
    · exact hstep.trans (ih (hstep.1.trans h))
    · rw [h] at hdone
      cases hdone

/-- Up to the page header there is none: either events write none at all, or there is
one event among them that writes it. -/
theorem run_headless (p : Policy) (d : Draft) (events : List Event) :
    Headless d (d.run p events)
      ∨ ∃ before e after, events = before ++ e :: after ∧ Headless d (d.run p before)
        ∧ Headed (d.run p before) (d.run p (before ++ [e]))
        ∧ Headless (d.run p (before ++ [e])) (d.run p events) := by
  induction events generalizing d with
  | nil => exact .inl (.refl d)
  | cons e rest ih =>
    rcases step_headless p d e with hstep | hstep
    · rcases ih (d.step p e) with hrest | ⟨before, e', after, rfl, hbefore, hheader, hafter⟩
      · exact .inl (hstep.trans hrest)
      · exact .inr ⟨e :: before, e', after, rfl, hstep.trans hbefore, hheader, hafter⟩
    · exact .inr ⟨[], e, rest, rfl, .refl d, hstep, headless_run_of_headerDone p hstep.2.1 rest⟩

/-! ## There is one page header at most -/

/-- A draft has a page header if it says so, and never a second. -/
def HeaderKept (d : Draft) : Prop := d.pieces.countP (·.isHeader) = d.headerDone.toNat

namespace HeaderKept

variable {d d' : Draft}

theorem headless (h : d.HeaderKept) (hd : Headless d d') : d'.HeaderKept := by
  obtain ⟨hdone, more, hpieces, hmore⟩ := hd
  have hnone : more.countP (·.isHeader) = 0 :=
    List.countP_eq_zero.2 fun q hq => by simp [hmore q hq]
  rw [HeaderKept, hpieces, List.countP_append, hnone, hdone]
  exact h

theorem headed (h : d.HeaderKept) (hd : Headed d d') : d'.HeaderKept := by
  obtain ⟨hnone, hdone, -, title, description, hpieces⟩ := hd
  rw [HeaderKept, hnone] at h
  rw [HeaderKept, hpieces, List.countP_append, h, hdone]
  rfl

theorem run (h : d.HeaderKept) (p : Policy) (events : List Event) : (d.run p events).HeaderKept := by
  induction events generalizing d with
  | nil => exact h
  | cons e rest ih =>
    rcases step_headless p d e with hstep | hstep
    · exact ih (h.headless hstep)
    · exact ih (h.headed hstep)

theorem start (p : Policy) (title : Text) (contentless : Bool) (sections : Registry) :
    (Draft.start p title contentless sections).HeaderKept := by
  unfold Draft.start
  split <;> rfl

theorem complete (h : d.HeaderKept) (contentless : Bool) : (d.complete contentless).HeaderKept :=
  h.headless (.of_extends (extends_complete contentless d))

end HeaderKept

end Draft

/-! ## The text around the page header -/

namespace Desk

variable (k : Desk)

theorem chunks_map_output (chunks : List Text) :
    Sink.chunks (chunks.map .output) = chunks.flatten := by
  induction chunks with
  | nil => rfl
  | cons chunk rest ih => rw [List.map_cons, Sink.chunks, ih, List.flatten_cons]

theorem spliced_outputs (navigation : Text) (chunks : List Text) (steps : List Sink.Step) :
    Sink.spliced navigation (chunks.map .output ++ steps)
      = chunks.flatten ++ Sink.spliced navigation steps := by
  induction chunks with
  | nil => rfl
  | cons chunk rest ih =>
    rw [List.map_cons, List.cons_append, Sink.spliced, ih, List.flatten_cons, List.append_assoc]

theorem text_cons (p : Piece) (rest : List Piece) :
    k.text (p :: rest) = (k.chunks p).flatten ++ k.text rest := by
  rw [text, List.flatMap_cons, List.flatten_append]
  rfl

theorem chunks_steps (pieces : List Piece) :
    Sink.chunks (pieces.flatMap k.steps) = k.text pieces := by
  induction pieces with
  | nil => rfl
  | cons p rest ih =>
    have hreservation : Sink.chunks (k.reservation p) = [] := by
      unfold reservation
      split
      · split <;> rfl
      · rfl
    rw [List.flatMap_cons, Sink.chunks_append, ih, steps, Sink.chunks_append, chunks_map_output,
      hreservation, List.append_nil, text_cons]

/-- Pieces before which the place of the navigation is not reserved. -/
theorem spliced_steps {pieces : List Piece}
    (h : k.options.wantsNavigation = false ∨ ∀ p ∈ pieces, p.isHeader = false)
    (navigation : Text) (steps : List Sink.Step) :
    Sink.spliced navigation (pieces.flatMap k.steps ++ steps)
      = k.text pieces ++ Sink.spliced navigation steps := by
  induction pieces with
  | nil => rfl
  | cons p rest ih =>
    have hreservation : k.reservation p = [] := by
      unfold reservation
      split
      · rcases h with h | h
        · rw [h]
          rfl
        · cases h _ List.mem_cons_self
      · rfl
    have hrest := ih (h.imp_right fun h q hq => h q (List.mem_cons_of_mem p hq))
    rw [List.flatMap_cons, List.append_assoc, Desk.steps, hreservation, List.append_nil,
      spliced_outputs, hrest, text_cons, List.append_assoc]

/-- The navigation stands right behind the page header. -/
theorem spliced_header (hnavigation : k.options.wantsNavigation = true) {before : List Piece}
    (h : ∀ p ∈ before, p.isHeader = false) (title : Text) (description : Option Text)
    (after : List Piece) (navigation : Text) :
    Sink.spliced navigation ((before ++ .header title description :: after).flatMap k.steps)
      = k.text (before ++ [.header title description]) ++ (navigation ++ k.text after) := by
  have hheader : k.steps (.header title description)
      = (k.chunks (.header title description)).map .output ++ [.reserve] := by
    rw [steps, reservation, hnavigation]
    rfl
  have hnil : k.text [] = [] := rfl
  rw [List.flatMap_append, k.spliced_steps (.inr h), List.flatMap_cons, hheader,
    List.append_assoc, spliced_outputs, List.singleton_append, Sink.spliced, chunks_steps,
    text_append, text_cons, hnil, List.append_nil, List.append_assoc]

/-- The words of a page are those of its pieces, with the navigation in its place. -/
theorem respaced_finished (d : Draft) :
    Respaced (k.finished d) (Sink.spliced (k.navigation d.sections) (d.pieces.flatMap k.steps)) :=
  Sink.respaced_foldl (s := .on .fresh) (Sink.settled_of_deferred rfl) rfl _ _

/-- The sink of a page without navigation, or before its header, holds nothing. -/
theorem held_sink {pieces : List Piece}
    (h : k.options.wantsNavigation = false ∨ ∀ p ∈ pieces, p.isHeader = false) :
    (k.sink pieces).held = none := by
  have hreserve : Sink.Step.reserve ∉ pieces.flatMap k.steps := by
    intro hmem
    obtain ⟨p, hp, hstep⟩ := List.mem_flatMap.1 hmem
    rcases List.mem_append.1 hstep with hstep | hstep
    · simp at hstep
    · unfold reservation at hstep
      split at hstep
      · rcases h with h | h
        · rw [h] at hstep
          cases hstep
        · cases h _ hp
      · cases hstep
  have hheld := Sink.held_foldl hreserve (.on .fresh)
  exact Option.not_isSome_iff_eq_none.1 (by simpa [sink, Sink.on] using hheld)

/-- Pages without a header are the same if their chunks are. -/
theorem finished_of_no_header {k k' : Desk} {d : Draft} (hchunks : ∀ p, k'.chunks p = k.chunks p)
    (h : ∀ p ∈ d.pieces, p.isHeader = false) : k'.finished d = k.finished d := by
  have hsteps : d.pieces.flatMap k'.steps = d.pieces.flatMap k.steps := by
    rw [List.flatMap, List.flatMap]
    refine congrArg List.flatten (List.map_congr_left ?_)
    intro p hp
    have hp := h p hp
    rw [steps, steps, hchunks]
    cases p with
    | header title description => cases hp
    | _ => rfl
  have hsink : k'.sink d.pieces = k.sink d.pieces := by rw [sink, sink, hsteps]
  rw [finished, finished, hsink, Sink.finished, Sink.finished,
    Sink.around_of_held (k.held_sink (.inr h)), Sink.around_of_held (k.held_sink (.inr h))]

/-- Such a sink has passed on all but the deferred blank lines. -/
theorem ink_written (d : Draft)
    (h : k.options.wantsNavigation = false ∨ ∀ p ∈ d.pieces, p.isHeader = false) :
    (k.writer d).target.text.ink = (k.text d.pieces).ink := by
  have hfinished := (k.respaced_finished d).ink_eq
  have hspliced := k.spliced_steps h (k.navigation d.sections) []
  rw [List.append_nil] at hspliced
  rw [hspliced, finished, Sink.finished, Sink.around_of_held (k.held_sink h), ink_append,
    ink_append, ink_replicate_newline, List.append_nil] at hfinished
  rw [show (k.writer d).target = (k.sink d.pieces).target from rfl, hfinished]
  simp [Sink.spliced]

end Desk

end PodLoom.Thread
