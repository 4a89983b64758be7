import PodLoom.Proofs.Conservation
import PodLoom.Proofs.Thread.Depth
import PodLoom.Proofs.Thread.Forest

set_option autoImplicit false

/-!
# Lists render their forest

Whatever calls are made of lists, the text that reaches the target is that of one forest,
which reads back as the calls that had a list to act on (`calls_render`): each tag and each
body is there once, in order, in the brackets that the shape of the forest says.

The opening of an item is written late, so the text lags behind the outline of the calls.
But it never lags by more than the item that the innermost list has pending: once that is
written, the text is that of the outline and the lists stand as its levels do (`Traces`).
-/

namespace PodLoom.Thread

open Text CodeUnit
open PodLoom.Pod (ListKind)

/-! ## Calls -/

namespace Call

/-- Make a call. -/
def perform : Call → Attempt Nesting Unit
  | enter kind => Nesting.enter kind
  | startItem tag => Nesting.startItem tag
  | item body => Nesting.item body
  | closeItem => Nesting.closeItem
  | exit => do
      let _ ← Nesting.exit

/-- The tag or body of a call, if it has one, is balanced. -/
def IsBalanced : Call → Prop
  | startItem t | item t => Balanced t
  | enter _ | closeItem | exit => True

instance : DecidablePred IsBalanced
  | startItem t | item t => inferInstanceAs (Decidable (Balanced t))
  | enter _ | closeItem | exit => instDecidableTrue

theorem streams_perform (call : Call) : Streams call.perform := by
  cases call with
  | enter kind => exact Nesting.streams_enter kind
  | startItem tag => exact Nesting.streams_startItem tag
  | item body => exact Nesting.streams_item body
  | closeItem => exact Nesting.streams_closeItem
  | exit => exact Nesting.streams_exit.bind fun _ => .pure ()

end Call

/-- What a call does to a draft. -/
def Draft.hear (d : Draft) : Call → Draft
  | .enter kind => d.enter kind
  | .startItem tag => d.onScope (Scope.next tag)
  | .item body => d.place body
  | .closeItem => d.onScope Scope.close
  | .exit => d.exit

theorem Desk.perform_lists (k : Desk) (d : Draft) (call : Call) :
    call.perform (k.lists d) = (.ok (), k.lists (d.hear call)) := by
  cases call with
  | enter kind => exact k.enter_lists d kind
  | startItem tag => exact k.next_lists d tag
  | item body => exact k.place_lists d body
  | closeItem => exact k.close_lists d
  | exit =>
    show (Nesting.exit >>= fun _ => pure ()) _ = _
    rw [Attempt.bind_run_ok (k.exit_lists d)]
    rfl

theorem Desk.performAll_lists (k : Desk) (d : Draft) (calls : List Call) :
    Attempt.forEach Call.perform calls (k.lists d) = (.ok (), k.lists (calls.foldl Draft.hear d)) := by
  induction calls generalizing d with
  | nil => rfl
  | cons call rest ih =>
    rw [Attempt.forEach, Attempt.bind_run_ok (k.perform_lists d call)]
    exact ih _

/-! ## Balanced lists -/

/-- A piece of a list, with nothing but balanced text in it. -/
inductive Piece.Even : Piece → Prop
  | closing : Even .closing
  | opening {tag body : Text} (htag : Balanced tag) (hbody : Balanced body) :
      Even (.opening tag body)
  | passage {body : Text} (hbody : Balanced body) : Even (.passage body)

/-- The manner of lists with nothing but balanced text in them. -/
def evenManner : Manner where
  tag := Balanced
  body := Balanced
  piece := Piece.Even
  balanced_tag := id
  balanced_body := id
  no_tag := .nil
  block_tag := by decide
  no_body := .nil
  closing := .closing
  opening := .opening
  passage := .passage

theorem Piece.Even.isHeader {q : Piece} (h : q.Even) : q.isHeader = false := by
  cases h <;> rfl

section

variable {k : Desk} {d : Draft}

theorem laid_hear (h : Laid k evenManner d.scopes d.pieces) {call : Call}
    (hcall : call.IsBalanced) :
    Laid k evenManner (d.hear call).scopes (d.hear call).pieces := by
  cases call with
  | enter kind => exact h.enter kind
  | startItem tag => exact h.onScope fun _ htag => .next htag hcall
  | item body => exact h.place hcall
  | closeItem => exact h.onScope fun _ htag => .close htag
  | exit => exact h.exit

theorem laid_hearAll {calls : List Call} (hcalls : ∀ call ∈ calls, call.IsBalanced)
    (h : Laid k evenManner d.scopes d.pieces) :
    Laid k evenManner (calls.foldl Draft.hear d).scopes (calls.foldl Draft.hear d).pieces := by
  induction calls generalizing d with
  | nil => exact h
  | cons call rest ih =>
    exact ih (fun c hc => hcalls c (List.mem_cons_of_mem call hc))
      (laid_hear h (hcalls call List.mem_cons_self))

/-- A text that can be read from outside all brackets does not start with the end of one. -/
theorem head?_of_depthAfter {t : Text} {depth : Nat} (h : depthAfter 0 t = some depth) :
    t.head? ≠ some closeBracket := by
  intro hhead
  obtain ⟨rest, rfl⟩ := List.head?_eq_some_iff.1 hhead
  cases h

/-- Only the closing of an item starts with a closing bracket. -/
theorem Piece.Even.chunk {q : Piece} (h : q.Even) {chunk : Text}
    (hchunk : .output chunk ∈ k.steps q) (hhead : chunk.head? = some closeBracket) :
    chunk = [closeBracket, newline] := by
  cases h with
  | closing => simpa [Desk.steps, Desk.chunks, Desk.reservation] using hchunk
  | opening htag hbody =>
    obtain rfl : chunk = _ := by simpa [Desk.steps, Desk.chunks, Desk.reservation] using hchunk
    have hdepth := Scope.depth_opening (k := k) htag hbody
    rw [text_singleton, Desk.chunks, List.flatten_singleton] at hdepth
    exact absurd hhead (head?_of_depthAfter hdepth)
  | passage hbody =>
    obtain rfl : chunk = _ := by simpa [Desk.steps, Desk.chunks, Desk.reservation] using hchunk
    exact absurd hhead (head?_of_depthAfter hbody)

/-- The text of a sink behind pieces of lists is theirs but for where line feeds stand. -/
theorem relined_finished {pieces : List Piece} (h : ∀ q ∈ pieces, q.Even) (navigation : Text) :
    Relined (Sink.finished navigation (k.sink pieces)) (k.text pieces) := by
  have happends : ∀ chunk, .output chunk ∈ pieces.flatMap k.steps →
      Sink.Appends Relined navigation chunk := by
    intro chunk hchunk
    obtain ⟨q, hq, hchunk⟩ := List.mem_flatMap.1 hchunk
    exact Sink.appends_relined ((h q hq).chunk hchunk) navigation
  have hspliced := k.spliced_steps (.inr fun q hq => (h q hq).isHeader) navigation []
  rw [List.append_nil, Sink.spliced, List.append_nil] at hspliced
  have hfinished := Sink.foldl_spliced ⟨.refl, .symm, .trans⟩ happends
    (s := .on .fresh) (Sink.settled_of_deferred rfl) rfl
  rw [hspliced] at hfinished
  exact hfinished

/-! ## The text of the pieces of a list -/

namespace Scope

variable {s : Scope}

theorem pending_place (body : Text) (s : Scope) : (s.place body).1.pending = false := by
  unfold place
  split
  · rfl
  · rename_i hpending
    split
    · exact Bool.eq_false_iff.2 hpending
    · exact Bool.eq_false_iff.2 hpending

theorem settle_of_not_pending (h : s.pending = false) : s.settle = (s, []) := by
  rw [settle, h]
  rfl

/-- A block opens the pending item, and in a block list a bracket of its own. -/
theorem isOpen_place (body : Text) (s : Scope) :
    (s.place body).1.isOpen = (s.settle.1.isOpen || s.settle.1.kind == .block) := by
  rcases s with ⟨kind, tag, _ | _, isOpen⟩
  · cases kind <;> cases isOpen <;> rfl
  · rfl

theorem text_closers (s : Scope) :
    k.text s.closers = if s.isOpen then rendering.closing else [] := by
  unfold closers
  split <;> rfl

theorem text_opening (tag body : Text) :
    k.text [.opening tag body] = tag ++ [newline, openBracket] ++ body := by
  rw [text_singleton, Desk.chunks, List.flatten_singleton]
  simp

/-- A block comes behind the pending item of its list, and in a block list it may open a
bracket. -/
theorem text_place (body : Text) (s : Scope) :
    k.text (s.place body).2 = k.text s.settle.2
      ++ (if s.settle.1.kind = .block ∧ s.settle.1.isOpen = false then rendering.opening none
        else []) ++ body := by
  cases hpending : s.pending with
  | true =>
    rw [settle, hpending, if_pos rfl, place, place, hpending, if_pos rfl, if_pos rfl, k.text_append,
      k.text_append, text_opening, text_opening]
    simp
  | false =>
    rw [settle_of_not_pending hpending, place, hpending]
    simp only [Bool.false_eq_true, if_false]
    split
    · exact text_opening blockTag body
    · rw [text_singleton, Desk.chunks, List.flatten_singleton]
      rfl

end Scope

/-! ## Drafts that trace an outline -/

/-- A list without a pending item stands as a level of an outline does. -/
structure Scope.Stands (s : Scope) (l : Level) : Prop where
  kind : s.kind = l.kind
  settled : s.pending = false
  isOpen : s.isOpen = l.current.isSome

/-- Once the pending item of its innermost list is written, a draft has the text of an
outline, and its lists stand as the levels do. -/
structure Traces (k : Desk) (o : Outline) (d : Draft) : Prop where
  scopes : List.Forall₂ Scope.Stands (d.onScope Scope.settle).scopes o.levels
  text : k.text (d.onScope Scope.settle).pieces = rendering.outline o

namespace Traces

variable {o : Outline} {page : List Node} {l : Level} {outer : List Level}

theorem blank (sections : Registry) : Traces k ⟨[], []⟩ (.blank sections) := ⟨.nil, rfl⟩

/-- Outside lists nothing is pending. -/
theorem of_page {d : Draft} (h : Traces k ⟨page, []⟩ d) :
    d.scopes = [] ∧ k.text d.pieces = rendering.nodes page := by
  rcases d with ⟨frames, _ | ⟨s, scopes⟩, inName, headerDone, sections, warnings, pieces⟩
  · have htext := h.text
    rw [Reading.outline, Reading.levels, List.append_nil] at htext
    exact ⟨rfl, htext⟩
  · cases h.scopes

/-- What is done to the innermost list is done to the innermost level. -/
theorem change {d : Draft} (h : Traces k ⟨page, l :: outer⟩ d) {f : Scope → Scope × List Piece}
    {g : Level → Level} (more : Text)
    (hstands : ∀ s : Scope, s.settle.1.Stands l → (f s).1.settle.1.Stands (g l))
    (htext : ∀ s : Scope, s.settle.1.Stands l →
      k.text ((f s).2 ++ (f s).1.settle.2) = k.text s.settle.2 ++ more)
    (hlevel : rendering.level (g l) = rendering.level l ++ more) :
    Traces k ⟨page, g l :: outer⟩ (d.onScope f) := by
  rcases d with ⟨frames, _ | ⟨s, scopes⟩, inName, headerDone, sections, warnings, pieces⟩
  · cases h.scopes
  · obtain ⟨hs, hscopes⟩ := List.forall₂_cons.1 h.scopes
    refine ⟨.cons (hstands s hs) hscopes, ?_⟩
    have hbefore : k.text (pieces ++ s.settle.2) = rendering.outline ⟨page, l :: outer⟩ := h.text
    show k.text ((pieces ++ (f s).2) ++ (f s).1.settle.2) = _
    rw [List.append_assoc, k.text_append, htext s hs, ← List.append_assoc, ← k.text_append, hbefore,
      Reading.outline_cons, Reading.outline_cons, hlevel, List.append_assoc]

/-- The closing of a list's bracket. -/
theorem closers_eq {s : Scope} (h : s.Stands l) : k.text s.closers = rendering.closers l := by
  rw [Scope.text_closers, Reading.closers, h.isOpen]

theorem startItem {d : Draft} (h : Traces k ⟨page, l :: outer⟩ d) (tag : Text) :
    Traces k ⟨page, l.startItem tag :: outer⟩ (d.onScope (Scope.next tag)) := by
  refine h.change (rendering.closers l ++ rendering.opening (some tag))
    (fun s hs => ⟨hs.kind, rfl, rfl⟩) (fun s hs => ?_) ?_
  · show k.text (s.settle.2 ++ (s.settle.1.closers ++ [.opening tag []])) = _
    rw [k.text_append, k.text_append, closers_eq hs, Scope.text_opening, List.append_nil]
    rfl
  · rw [Reading.level_startItem, List.append_assoc]

theorem closeItem {d : Draft} (h : Traces k ⟨page, l :: outer⟩ d) :
    Traces k ⟨page, l.closeItem :: outer⟩ (d.onScope Scope.close) := by
  have hsettled : ∀ s : Scope, s.settle.1.Stands l → s.close.1.settle = (s.close.1, []) :=
    fun s hs => Scope.settle_of_not_pending hs.settled
  refine h.change (rendering.closers l) (fun s hs => ?_) (fun s hs => ?_) ?_
  · rw [hsettled s hs]
    exact ⟨hs.kind, hs.settled, rfl⟩
  · rw [hsettled s hs, List.append_nil, Scope.close, k.text_append, closers_eq hs]
  · rw [Reading.level_closeItem]
    exact List.append_nil _

theorem item {d : Draft} (h : Traces k ⟨page, l :: outer⟩ d) (body : Text) :
    Traces k ⟨page, l.place body :: outer⟩ (d.onScope (Scope.place body)) := by
  have hsettled : ∀ s : Scope, (s.place body).1.settle = ((s.place body).1, []) :=
    fun s => Scope.settle_of_not_pending (s.pending_place body)
  refine h.change
    ((if l.kind = .block ∧ l.current.isNone then rendering.opening none else []) ++ body)
    (fun s hs => ?_) (fun s hs => ?_) ?_
  · rw [hsettled s]
    refine ⟨?_, s.pending_place body, ?_⟩
    · rw [Scope.kind_place, Level.kind_place, ← hs.kind, Scope.kind_settle]
    · rw [Scope.isOpen_place, Level.isSome_place, hs.isOpen, hs.kind]
  · rw [hsettled s, List.append_nil, Scope.text_place, hs.kind, hs.isOpen, List.append_assoc]
    simp only [Option.isSome_eq_false_iff]
  · rw [Reading.level_place, List.append_assoc]
    rfl

theorem enter {d : Draft} (h : Traces k o d) (kind : ListKind) :
    Traces k { o with levels := .ofKind kind :: o.levels } (d.enter kind) := by
  refine ⟨.cons ⟨rfl, rfl, rfl⟩ h.scopes, ?_⟩
  have htext : k.text (d.onScope Scope.settle).pieces = rendering.outline o := h.text
  show k.text ((d.onScope Scope.settle).pieces ++ []) = _
  rw [List.append_nil, htext, Reading.outline_cons]
  exact (List.append_nil _).symm

/-- A list stands for a level whatever the level holds. -/
theorem stands_add {scopes : List Scope} {o : Outline} (h : List.Forall₂ Scope.Stands scopes o.levels)
    (n : Node) : List.Forall₂ Scope.Stands scopes (o.add n).levels := by
  rcases o with ⟨page, _ | ⟨⟨kind, content, current⟩, outer⟩⟩
  · exact h
  · cases h with
    | cons hs hscopes =>
      refine .cons ⟨?_, hs.settled, ?_⟩ hscopes
      · cases current <;> exact hs.kind
      · cases current <;> exact hs.isOpen

/-- Where no item is pending, the text is that of the outline as it is. -/
theorem of_settled {d : Draft} (hscopes : List.Forall₂ Scope.Stands d.scopes o.levels)
    (htext : k.text d.pieces = rendering.outline o) : Traces k o d := by
  have hsettled : d.onScope Scope.settle = d := by
    rcases d with ⟨frames, _ | ⟨s, scopes⟩, inName, headerDone, sections, warnings, pieces⟩
    · rfl
    · obtain ⟨l, outer, hs, -, -⟩ := List.forall₂_cons_left_iff.1 hscopes
      show Draft.mk frames (s.settle.1 :: scopes) inName headerDone sections warnings
        (pieces ++ s.settle.2) = _
      rw [Scope.settle_of_not_pending hs.settled, List.append_nil]
  exact ⟨by rwa [hsettled], by rwa [hsettled]⟩

theorem exit {d : Draft} (h : Traces k o d) : Traces k o.exit d.exit := by
  rcases o with ⟨page, _ | ⟨l, outer⟩⟩
  · rcases d with ⟨frames, _ | ⟨s, scopes⟩, inName, headerDone, sections, warnings, pieces⟩
    · exact h
    · cases h.scopes
  · rcases d with ⟨frames, _ | ⟨s, scopes⟩, inName, headerDone, sections, warnings, pieces⟩
    · cases h.scopes
    · obtain ⟨hs, hscopes⟩ := List.forall₂_cons.1 h.scopes
      have hbefore : k.text (pieces ++ s.settle.2) = rendering.outline ⟨page, l :: outer⟩ := h.text
      refine of_settled (stands_add (o := ⟨page, outer⟩) hscopes l.node) ?_
      show k.text (pieces ++ (s.settle.2 ++ s.settle.1.closers)) = _
      rw [← List.append_assoc, k.text_append, hbefore, closers_eq hs, Reading.outline_exit]
      exact (List.append_nil _).symm

theorem step {d : Draft} (h : Traces k o d) (call : Call) :
    Traces k (o.step call) (d.hear call) := by
  rcases o with ⟨page, _ | ⟨l, outer⟩⟩
  · rcases d with ⟨frames, _ | ⟨s, scopes⟩, inName, headerDone, sections, warnings, pieces⟩
    · cases call with
      | enter kind => exact h.enter kind
      | startItem tag => exact h
      | item text =>
        refine ⟨.nil, ?_⟩
        show k.text (pieces ++ [.passage text]) = rendering.outline ⟨page ++ [.body text], []⟩
        rw [k.text_append, h.of_page.2, text_singleton, Desk.chunks, List.flatten_singleton,
          Reading.outline, Reading.nodes_concat]
        exact (List.append_nil _).symm
      | closeItem => exact h
      | exit => exact h.exit
    · cases h.scopes
  · cases call with
    | enter kind => exact h.enter kind
    | startItem tag => exact h.startItem tag
    | item text =>
      rcases d with ⟨frames, _ | ⟨s, scopes⟩, inName, headerDone, sections, warnings, pieces⟩
      · cases h.scopes
      · exact h.item text
    | closeItem => exact h.closeItem
    | exit => exact h.exit

theorem run {d : Draft} (h : Traces k o d) (calls : List Call) :
    Traces k (calls.foldl Outline.step o) (calls.foldl Draft.hear d) := by
  induction calls generalizing o d with
  | nil => exact h
  | cons call rest ih => exact ih (h.step call)

theorem exitEach {d : Draft} (h : Traces k o d) {scopes : List Scope} {levels : List Level}
    (hlength : scopes.length = levels.length) :
    Traces k (o.exitEach levels) (d.exitEach scopes) := by
  induction scopes generalizing o d levels with
  | nil =>
    obtain rfl := List.length_eq_zero_iff.1 hlength.symm
    exact h
  | cons s rest ih =>
    obtain ⟨l, outer, rfl⟩ := List.exists_cons_of_length_eq_add_one hlength.symm
    exact ih h.exit (Nat.succ.inj hlength)

/-- A draft whose lists are all ended has the text of the forest. -/
theorem forest {d : Draft} (h : Traces k o d) :
    (d.exitEach d.scopes).scopes = []
      ∧ k.text (d.exitEach d.scopes).pieces = rendering.nodes o.forest := by
  have hlength : d.scopes.length = o.levels.length := by
    rw [← h.scopes.length_eq]
    rcases d with ⟨frames, _ | ⟨s, scopes⟩, inName, headerDone, sections, warnings, pieces⟩ <;> rfl
  have hended := h.exitEach hlength
  have hclosed := (Outline.calling_exitEach o.levels rfl).1
  rw [← show (⟨o.forest, []⟩ : Outline) = o.exitEach o.levels by rw [← hclosed]; rfl] at hended
  exact hended.of_page

end Traces

end

/-! ## Running the calls -/

/-- End all lists and finish the sink. -/
def Nesting.finish (navigation : Text) : Attempt Nesting Unit := do
  exitAll
  onSink (Sink.finish navigation)

theorem Nesting.streams_finish (navigation : Text) : Streams (finish navigation) :=
  streams_exitAll.seq (streams_onSink (Sink.streams_finish navigation))

theorem Desk.finish_lists (k : Desk) (d : Draft) (navigation : Text) :
    ∃ n, Nesting.finish navigation (k.lists d) = (.ok (), n)
      ∧ n.sink.target.text = Sink.finished navigation (k.sink (d.exitEach d.scopes).pieces) := by
  obtain ⟨s, hfinish, htext⟩ :=
    Sink.finish_run (k.willing_sink (d.exitEach d.scopes).pieces) navigation
  have hexit : Nesting.exitAll (k.lists d) = (.ok (), k.lists (d.exitEach d.scopes)) := by
    rw [Nesting.exitAll, Attempt.bind_run_ok (Attempt.state_run _)]
    exact k.exitEach_lists d.scopes d
  refine ⟨{ k.lists (d.exitEach d.scopes) with sink := s }, ?_, htext⟩
  have hget : (k.lists (d.exitEach d.scopes)).sink = k.sink (d.exitEach d.scopes).pieces := rfl
  rw [Nesting.finish, Attempt.bind_run_ok hexit]
  simp only [Nesting.onSink, Attempt.within, hget, hfinish]

/-- What the target has of lists leaves one bracket open for each open item. -/
theorem depth_written {k : Desk} {d : Draft} (h : Laid k evenManner d.scopes d.pieces) :
    depthAfter 0 (k.lists d).sink.target.text = some (d.scopes.countP (·.isOpen)) := by
  have hink := k.ink_written d (.inr fun q hq => (h.each q hq).isHeader)
  rw [← depthAfter_ink, ← openItems_eq_countP, ← h.depth, ← depthAfter_ink 0 (k.text d.pieces),
    ← hink]
  rfl

/-- Calls of lists with balanced tags and bodies, made on a target that refuses nothing.
Before the lists are ended there is one bracket open for each open item.  In the end the
target has the text of a forest, but for where line feeds stand, and all brackets match.  The
forest reads back as the calls that had a list to act on, and it is well shaped. -/
theorem calls_render (taken : List Text) (calls : List Call) (navigation : Text)
    (hbalanced : ∀ call ∈ calls, call.IsBalanced) :
    ∃ n sofar, Attempt.forEach Call.perform calls (.on (.on ⟨taken, none⟩)) = (.ok (), n)
      ∧ n.sink.target.text = taken.flatten ++ sofar
      ∧ depthAfter 0 sofar = some (n.scopes.countP (·.isOpen))
      ∧ ∃ n' written forest, Nesting.finish navigation n = (.ok (), n')
        ∧ n'.sink.target.text = taken.flatten ++ written
        ∧ Relined written (rendering.nodes forest)
        ∧ Balanced written
        ∧ calling.nodes forest = heard 0 calls
        ∧ ∀ t ∈ forest, t.isLoose = true ∧ t.Proper := by
  let k : Desk := default
  let d : Draft := calls.foldl Draft.hear (.blank .empty)
  let o : Outline := calls.foldl Outline.step ⟨[], []⟩
  have hlaid : Laid k evenManner d.scopes d.pieces := laid_hearAll hbalanced .nil
  have htraces : Traces k o d := (Traces.blank .empty).run calls
  obtain ⟨hclosed, htext⟩ := htraces.forest
  have hended := hlaid.exitEach d.scopes
  -- The calls have the same course on a fresh target, where they follow the draft.
  obtain ⟨r, n, pieces, hcalls⟩ := Target.course_willing
    (.forEach fun call _ => Call.streams_perform call) (Nesting.on (.on .fresh))
  obtain ⟨r', n', more, hfinish⟩ := Target.course_willing (Nesting.streams_finish navigation) n
  obtain ⟨rfl, hlists⟩ := Prod.mk.inj
    ((k.performAll_lists (.blank .empty) calls).symm.trans (hcalls []))
  obtain ⟨m, hm, hwritten⟩ := k.finish_lists d navigation
  rw [hlists] at hm
  obtain ⟨rfl, rfl⟩ := Prod.mk.inj (hm.symm.trans (hfinish pieces))
  have htaken : ∀ sofar more : List Text,
      Target.text ⟨sofar ++ more, none⟩ = sofar.flatten ++ more.flatten :=
    fun _ _ => List.flatten_append
  have hrelined := relined_finished (k := k) hended.each navigation
  rw [← hwritten] at hrelined
  refine ⟨_, pieces.flatten, hcalls taken, htaken taken pieces, ?_, _, (pieces ++ more).flatten,
    o.forest, hfinish (taken ++ pieces), ?_, ?_, ?_, ?_, ?_⟩
  · have hscopes : d.scopes = n.scopes := congrArg Nesting.scopes hlists
    have hdepth := depth_written hlaid
    rw [hlists, hscopes] at hdepth
    exact hdepth
  · rw [List.append_assoc]
    exact htaken taken (pieces ++ more)
  · rw [← htext]
    exact hrelined
  · have hdepth := hended.depth
    rw [hclosed, ← depthAfter_ink, ← hrelined.ink_eq, depthAfter_ink] at hdepth
    exact hdepth
  · exact Outline.calling_run calls ⟨[], []⟩
  · have hstart : Outline.Shaped ⟨[], []⟩ := ⟨by simp, by simp⟩
    exact (hstart.run calls).forest

/-- An item with a block list in it, and an item whose body never comes. -/
def nestedCalls : List Call :=
  [.enter .text, .startItem "\\bold[a]", .enter .block, .item "b\n", .exit, .startItem "c"]

/-- Both items get their brackets, and both lists are ended. -/
theorem calls_render_nested :
    (∀ call ∈ nestedCalls, call.IsBalanced)
      ∧ ∃ n n' forest, Attempt.forEach Call.perform nestedCalls (.on (.on .fresh)) = (.ok (), n)
        ∧ Nesting.finish [] n = (.ok (), n')
        ∧ Relined n'.sink.target.text (rendering.nodes forest)
        ∧ Balanced n'.sink.target.text
        ∧ calling.nodes forest = nestedCalls ++ [.exit]
        ∧ ∀ t ∈ forest, t.isLoose = true ∧ t.Proper := by
  have hbalanced : ∀ call ∈ nestedCalls, call.IsBalanced := by decide
  obtain ⟨n, -, hcalls, -, -, n', written, forest, hfinish, htext, hrelined, hwritten, hcalling,
    hshape⟩ := calls_render [] nestedCalls [] hbalanced
  obtain rfl : n'.sink.target.text = written := htext
  exact ⟨hbalanced, n, n', forest, hcalls, hfinish, hrelined, hwritten, hcalling, hshape⟩

end PodLoom.Thread
