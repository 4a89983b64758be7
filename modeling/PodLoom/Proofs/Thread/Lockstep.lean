import PodLoom.Proofs.Pod.Sending
import PodLoom.Proofs.Thread.Streaming

set_option autoImplicit false

/-!
# The open lists and elements of a draft

A draft pushes a scope for each list that starts and pops one for each that ends, and a
frame for each other element; everything else it does is quiet about both (`Quiet`).  So
its open lists are what its events say (`step_kept`), and it reports an unmatched `=back`
exactly where an event ends a list and none is open.

The frames are those of the elements that have started and not finished, because no
element finishes before it has started (`depth?_nested`).
-/

namespace PodLoom.Thread

open Text
open PodLoom.Pod (Block Element Event Follows Formatted ListKind Nested Sent listKinds strays)

/-! ## Open elements -/

/-- The number of elements other than lists that are open after an event, if it was `n`
before; none if an element finishes that has not started. -/
def depth? (n : Nat) : Event → Option Nat
  | .start element => some (if element.isList then n else n + 1)
  | .finish element => if element.isList then some n else if n = 0 then none else some (n - 1)
  | _ => some n

/-- An item does not finish before it has started. -/
theorem depth?_zero_of_endsItem {e : Event} (he : e.endsItem = true) : depth? 0 e = none := by
  cases e with
  | finish element =>
    cases element with
    | item kind marker line => rfl
    | _ => cases he
  | _ => cases he

theorem depth?_enclosed {element : Element} (hlist : element.isList = false) {inner : List Event}
    {n : Nat} (hinner : inner.foldlM depth? (n + 1) = some (n + 1)) :
    (Block.enclosed element inner).foldlM depth? n = some n := by
  rw [Block.enclosed, List.foldlM_cons]
  have hstart : depth? n (.start element) = some (n + 1) := by rw [depth?, hlist]; rfl
  have hfinish : depth? (n + 1) (.finish element) = some n := by rw [depth?, hlist]; rfl
  rw [hstart, Option.bind_eq_bind, Option.bind_some, List.foldlM_append, hinner,
    Option.bind_eq_bind, Option.bind_some, List.foldlM_cons, hfinish]
  rfl

theorem depth?_append {events more : List Event} {n : Nat}
    (h : events.foldlM depth? n = some n) (hmore : more.foldlM depth? n = some n) :
    (events ++ more).foldlM depth? n = some n := by
  rw [List.foldlM_append, h, Option.bind_eq_bind, Option.bind_some, hmore]

theorem depth?_formatted {events : List Event} (h : Formatted events) (n : Nat) :
    events.foldlM depth? n = some n := by
  induction h generalizing n with
  | nil => rfl
  | text content _ ih => exact ih n
  | code helement _ _ ihinner ihrest =>
    have hlist := (Element.isList_of_isInline helement).1
    exact depth?_append (depth?_enclosed hlist (ihinner (n + 1))) (ihrest n)

theorem depth?_holds {element : Element} {inner : List Event} (h : element.Holds inner) (n : Nat) :
    inner.foldlM depth? n = some n := by
  cases element with
  | verbatim line | data target line =>
    obtain ⟨content, rfl⟩ := h
    rfl
  | command name text line =>
    obtain rfl := h
    rfl
  | «over» kind line => exact h.elim
  | _ => exact depth?_formatted h n

/-- Well-nested events leave no element open, and finish none that has not started. -/
theorem depth?_nested {opened strays left : List Element} {events : List Event}
    (h : Nested opened events strays left) (n : Nat) : events.foldlM depth? n = some n := by
  induction h with
  | nil => rfl
  | block helement hinner _ ih =>
    have hlist := Element.isList_of_isBlock helement
    exact depth?_append (depth?_enclosed hlist (depth?_holds hinner (n + 1))) ih
  | listStart _ _ _ ih => exact ih
  | listEnd _ _ _ ih => exact ih
  | strayEnd _ _ _ ih => exact ih

/-! ## Reports -/

/-- What is reported of a `=back` that has no list to end. -/
def unmatchedBack : Text := "Unmatched =back"

namespace Draft

/-- The kinds of the open lists, innermost first. -/
def kinds (d : Draft) : List ListKind := d.scopes.map Scope.kind

/-- The lines on which a `=back` was reported to have no list to end. -/
def unmatched (d : Draft) : List Int :=
  (d.warnings.filter (·.2 == unmatchedBack)).map (·.1)

/-! ## What leaves lists, elements and reports alone -/

/-- One draft comes from another without a list or an element that starts or ends, and
without a `=back` that is reported. -/
structure Quiet (d d' : Draft) : Prop where
  kinds : d'.kinds = d.kinds
  frames : d'.frames.length = d.frames.length
  unmatched : d'.unmatched = d.unmatched

namespace Quiet

variable {d d' d'' : Draft}

theorem refl (d : Draft) : Quiet d d := ⟨rfl, rfl, rfl⟩

theorem trans (h : Quiet d d') (h' : Quiet d' d'') : Quiet d d'' :=
  ⟨h'.kinds.trans h.kinds, h'.frames.trans h.frames, h'.unmatched.trans h.unmatched⟩

theorem onScope (d : Draft) {f : Scope → Scope × List Piece} (hf : ∀ s, (f s).1.kind = s.kind) :
    Quiet d (d.onScope f) := by
  rcases d with ⟨frames, _ | ⟨s, outer⟩, inName, headerDone, sections, warnings, pieces⟩
  · exact refl _
  · exact ⟨congrArg (fun kind => kind :: outer.map Scope.kind) (hf s), rfl, rfl⟩

theorem write (d : Draft) (pieces : List Piece) : Quiet d (d.write pieces) := ⟨rfl, rfl, rfl⟩

theorem append (d : Draft) (rendered : Rendered) : Quiet d (d.append rendered) :=
  ⟨rfl, List.length_modifyHead, rfl⟩

theorem warn (d : Draft) (line : Int) {message : Text} (hmessage : message ≠ unmatchedBack) :
    Quiet d (d.warn line message) := by
  refine ⟨rfl, rfl, ?_⟩
  rw [Draft.unmatched, Draft.warn, List.filter_append, List.map_append]
  have hother : [(line, message)].filter (·.2 == unmatchedBack) = [] :=
    List.filter_eq_nil_iff.2 (List.forall_mem_singleton.2 (by simpa using hmessage))
  rw [hother]
  exact List.append_nil _

end Quiet

theorem quiet_writeBody (t : Text) (d : Draft) : Quiet d (d.writeBody t) := by
  unfold writeBody place
  split
  · exact .refl d
  · split
    · exact .write d _
    · exact .onScope d (Scope.kind_place t)

theorem quiet_writeData (content : Rendered) (d : Draft) : Quiet d (d.writeData content) := by
  unfold writeData
  split
  · exact .refl d
  · exact .write d _

theorem quiet_writeParagraph (content : Rendered) (d : Draft) :
    Quiet d (d.writeParagraph content) := by
  unfold writeParagraph
  split
  · exact .refl d
  · split
    · exact ⟨rfl, rfl, rfl⟩
    · exact quiet_writeBody _ d

theorem quiet_writeHeading (p : Policy) (level : Nat) (content : Rendered) (d : Draft) :
    Quiet d (d.writeHeading p level content) := by
  have hname : Quiet d { d with inName := false } := ⟨rfl, rfl, rfl⟩
  have hleave := hname.trans (.onScope { d with inName := false } Scope.kind_close)
  unfold writeHeading
  split
  · exact ⟨rfl, rfl, rfl⟩
  · split
    · exact hleave.trans ⟨rfl, rfl, rfl⟩
    · exact hleave.trans (.write _ _)

/-- What is said of something unknown is not what is said of a `=back`. -/
theorem unknown_ne_unmatchedBack {front : Text} (hfront : front.take 3 = ofString "Unk")
    (t : Text) : front ++ t ≠ unmatchedBack := by
  intro h
  have hlength : 3 ≤ front.length := by
    have htaken := congrArg List.length hfront
    rw [List.length_take] at htaken
    exact le_of_eq_of_le htaken.symm (Nat.min_le_right ..)
  have htake := congrArg (List.take 3) h
  rw [List.take_append_of_le_length hlength, hfront] at htake
  exact absurd htake (by decide)

theorem renderCode_ne_unmatchedBack {code : Text} {content : Rendered} {message : Text}
    (h : (renderCode code content).2 = some message) : message ≠ unmatchedBack := by
  unfold renderCode at h
  repeat' (split at h)
  all_goals try cases h
  · unfold renderEscape at h
    dsimp only at h
    split at h
    · cases h
    · cases h
      exact unknown_ne_unmatchedBack (by decide) _
  · exact unknown_ne_unmatchedBack (by decide) _

theorem quiet_appendRendering (line : Int) {rendering : Rendering}
    (h : ∀ message, rendering.2 = some message → message ≠ unmatchedBack) (d : Draft) :
    Quiet d (d.appendRendering line rendering) := by
  unfold appendRendering
  split
  · rename_i message hmessage
    exact (Quiet.warn d line (h message hmessage)).trans (.append _ _)
  · exact .append d _

/-- All that an element does when it finishes, its frame apart, is quiet. -/
theorem quiet_finishBlock (p : Policy) (element : Element) (content : Rendered) (d : Draft) :
    Quiet d (d.finishBlock p element content) := by
  cases element with
  | format code line => exact quiet_appendRendering line (fun _ => renderCode_ne_unmatchedBack) d
  | link kind target heading hasLabel line => exact .append d _
  | head level line => exact quiet_writeHeading p level content d
  | para line => exact quiet_writeParagraph content d
  | verbatim line => exact quiet_writeBody _ d
  | data target line => exact quiet_writeData content d
  | item kind marker line => exact .onScope d (Scope.kind_next _)
  | command name text line =>
    refine .warn d line ?_
    rw [List.append_assoc]
    exact unknown_ne_unmatchedBack (by decide) _
  | «over» kind line => exact .refl d

/-! ## What an event does -/

/-- What an event does to the open lists, to the open elements and to the reports of a
`=back` that has no list to end. -/
structure Kept (e : Event) (d d' : Draft) : Prop where
  kinds : d'.kinds = e.openKinds d.kinds
  unmatched : d'.unmatched = d.unmatched ++ (e.strayEnds d.kinds).map Element.line
  frames : ∀ n, depth? d.frames.length e = some n → d'.frames.length = n

/-- An event that neither starts nor ends anything. -/
theorem Kept.of_quiet {e : Event} {d d' : Draft} (h : Quiet d d') (hlist : e.boundsList = false)
    (hframes : ∀ n, depth? d.frames.length e = some n → d.frames.length = n) : Kept e d d' := by
  refine ⟨?_, ?_, ?_⟩
  · rw [h.kinds, e.openKinds_of_boundsList hlist]
  · rw [h.unmatched, e.strayEnds_of_boundsList hlist]
    exact (List.append_nil _).symm
  · intro n hn
    rw [h.frames, hframes n hn]

theorem kept_startElement (element : Element) (d : Draft) :
    Kept (.start element) d (d.startElement element) := by
  have hquiet := Quiet.onScope d Scope.kind_settle
  have hframe : ∀ frame : Frame, element.isList = false →
      Kept (.start element) d { d with frames := frame :: d.frames } := by
    intro frame hlist
    refine ⟨?_, ?_, ?_⟩
    · rw [Event.openKinds_of_boundsList (e := .start element) hlist]
      rfl
    · rw [Event.strayEnds_of_boundsList (e := .start element) hlist]
      exact (List.append_nil _).symm
    · intro n hn
      rw [depth?, hlist] at hn
      exact Option.some.inj hn
  cases element with
  | «over» kind line =>
    refine ⟨congrArg (kind :: ·) hquiet.kinds, ?_, ?_⟩
    · exact hquiet.unmatched.trans (List.append_nil _).symm
    · intro n hn
      exact hquiet.frames.trans (Option.some.inj hn)
  | _ => exact hframe _ rfl

/-- A list ends: the innermost one, or there is none and that is reported. -/
theorem kept_finishList (p : Policy) (kind : ListKind) (line : Int) (d : Draft) :
    Kept (.finish (.over kind line)) d (d.finishElement p (.over kind line)) := by
  rcases hscopes : d.scopes with _ | ⟨s, outer⟩
  · have hfinish : d.finishElement p (.over kind line) = d.warn line unmatchedBack := by
      rw [finishElement, hscopes]
      rfl
    have hkinds : d.kinds = [] := congrArg (List.map Scope.kind) hscopes
    rw [hfinish]
    refine ⟨?_, ?_, fun n => Option.some.inj⟩
    · exact hkinds.trans (congrArg List.tail hkinds).symm
    · rw [hkinds, unmatched, warn, List.filter_append, List.map_append]
      rfl
  · have hfinish : d.finishElement p (.over kind line) = d.exit := by
      rw [finishElement, hscopes]
      rfl
    have hkinds : d.kinds = s.kind :: outer.map Scope.kind :=
      congrArg (List.map Scope.kind) hscopes
    have hquiet := Quiet.onScope d Scope.kind_close
    rw [hfinish]
    refine ⟨?_, ?_, ?_⟩
    · exact List.map_tail.trans (congrArg List.tail hquiet.kinds)
    · rw [hkinds]
      exact hquiet.unmatched.trans (List.append_nil _).symm
    · intro n hn
      exact hquiet.frames.trans (Option.some.inj hn)

/-- An element other than a list finishes. -/
theorem kept_finishBlock (p : Policy) {element : Element} (hlist : element.isList = false)
    (d : Draft) : Kept (.finish element) d (match d.frames with
      | [] => d
      | frame :: frames => { d with frames }.finishBlock p element frame.content) := by
  cases hframes : d.frames with
  | nil =>
    refine .of_quiet (.refl d) hlist ?_
    intro n hn
    rw [depth?, hlist, hframes] at hn
    cases hn
  | cons frame frames =>
    have hquiet := quiet_finishBlock p element frame.content { d with frames }
    refine ⟨?_, ?_, ?_⟩
    · exact hquiet.kinds.trans (Event.openKinds_of_boundsList (e := .finish element) hlist _).symm
    · rw [Event.strayEnds_of_boundsList (e := .finish element) hlist]
      exact hquiet.unmatched.trans (List.append_nil _).symm
    · intro n hn
      rw [depth?, hlist, hframes] at hn
      exact hquiet.frames.trans (Option.some.inj hn)

theorem kept_finishElement (p : Policy) (element : Element) (d : Draft) :
    Kept (.finish element) d (d.finishElement p element) := by
  cases element with
  | «over» kind line => exact kept_finishList p kind line d
  | _ => exact kept_finishBlock p rfl d

/-- What an event between the start and the end of a document does. -/
theorem step_kept (p : Policy) (d : Draft) (e : Event) : Kept e d (d.step p e) := by
  cases e with
  | start element => exact kept_startElement element d
  | finish element => exact kept_finishElement p element d
  | text t => exact .of_quiet ⟨rfl, List.length_modifyHead, rfl⟩ rfl fun n => Option.some.inj
  | docStart info => exact .of_quiet (.refl d) rfl fun n => Option.some.inj
  | docEnd errata => exact .of_quiet (.refl d) rfl fun n => Option.some.inj

/-- The item of the innermost list is pending when an item has finished; it is passed over
if no list is open. -/
theorem pending_step (p : Policy) {d : Draft} {e : Event} (he : e.endsItem = true)
    (hframes : d.frames ≠ []) (hkinds : d.kinds ≠ []) :
    ∃ scope outer, (d.step p e).scopes = scope :: outer ∧ scope.pending = true := by
  obtain ⟨frame, frames, hframes⟩ := List.exists_cons_of_ne_nil hframes
  obtain ⟨s, outer, hscopes⟩ : ∃ s outer, d.scopes = s :: outer :=
    List.exists_cons_of_ne_nil fun h => hkinds (congrArg (List.map Scope.kind) h)
  cases e with
  | finish element =>
    cases element with
    | item kind marker line =>
      refine ⟨(s.next (Writer.itemTag kind frame.content.text.trim)).1, outer, ?_, rfl⟩
      have hfinish : d.finishElement p (.item kind marker line)
          = { d with frames }.onScope (Scope.next (Writer.itemTag kind frame.content.text.trim)) := by
        rw [finishElement, hframes]
        · rfl
        · exact fun _ _ => Element.noConfusion
      rw [step, hfinish, onScope, hscopes]
    | _ => cases he
  | _ => cases he

/-! ## What a run does -/

/-- Behind events that follow the open lists, a draft has the open lists of their sender,
and it has reported each stray `=back` once. -/
theorem run_follows (p : Policy) {d : Draft} {before after : List Sent}
    (h : Follows d.kinds (before ++ after)) :
    Follows (d.run p (before.map Sent.event)).kinds after
      ∧ (d.run p (before.map Sent.event)).unmatched
        = d.unmatched ++ (strays before).map fun stray => (stray.paragraph.line : Int) := by
  induction before generalizing d with
  | nil => exact ⟨h, (List.append_nil _).symm⟩
  | cons s before ih =>
    obtain ⟨hfits, hrest⟩ := h
    have hkept := step_kept p d s.event
    have hkinds : (d.step p s.event).kinds = listKinds s.lists :=
      hkept.kinds.trans hfits.lists.symm
    rw [← hkinds] at hrest
    obtain ⟨hfollows, hunmatched⟩ := ih hrest
    refine ⟨hfollows, hunmatched.trans ?_⟩
    have hstray : (s.event.strayEnds d.kinds).map Element.line
        = s.stray?.toList.map fun stray => (stray.paragraph.line : Int) := by
      rw [← hfits.stray, List.map_map]
      rfl
    have hsplit : strays (s :: before) = s.stray?.toList ++ strays before := by
      rw [strays, List.filterMap_cons]
      cases s.stray? <;> rfl
    rw [hkept.unmatched, hstray, hsplit, List.map_append, List.append_assoc]

/-- The number of open elements other than lists is what the events say. -/
theorem frames_run (p : Policy) {d : Draft} {events : List Event} {n : Nat}
    (h : events.foldlM depth? d.frames.length = some n) : (d.run p events).frames.length = n := by
  induction events generalizing d with
  | nil => exact Option.some.inj h
  | cons e rest ih =>
    rw [List.foldlM_cons] at h
    obtain ⟨m, hfirst, hrest⟩ := Option.bind_eq_some_iff.1 h
    rw [← (step_kept p d e).frames m hfirst] at hrest
    exact ih hrest

end Draft

/-! ## The end of a document -/

namespace Writer

/-- No list is open. -/
def Unlisted (w : Writer) : Prop := w.nesting.scopes = []

theorem unlisted_onSink {α : Type} (m : Attempt Sink α) :
    Keeps Unlisted (onNesting (Nesting.onSink m)) := fun _ h => h

theorem unlisted_exitAll : Keeps Unlisted (onNesting Nesting.exitAll) := by
  intro w h
  show (Nesting.exitEach w.nesting.scopes w.nesting).2.scopes = []
  rw [show w.nesting.scopes = [] from h]
  exact h

theorem unlisted_currentPage : Keeps Unlisted currentPage := by
  refine .inspect fun _ _ => ?_
  split
  · exact .pure _
  · exact .fail _

theorem unlisted_leavePage (file : Text) (errata : List Pod.Erratum) :
    Keeps Unlisted (leavePage file errata) := by
  refine .bind (fun _ h => h) fun _ => .inspect fun _ _ => .bind (fun _ h => h) fun _ => ?_
  split
  · exact .pure ()
  · exact .fail _

/-- A document that ends when no list is open leaves none open. -/
theorem unlisted_endDocument (errata : List Pod.Erratum) : Keeps Unlisted (endDocument errata) := by
  refine unlisted_currentPage.bind fun page => ?_
  refine .bind (fun _ h => h) fun _ => ?_
  dsimp only
  split
  · refine unlisted_exitAll.bind fun _ => (unlisted_onSink _).bind fun _ => ?_
    exact .inspect fun _ _ => (unlisted_onSink _).bind fun _ => unlisted_leavePage page.file errata
  · exact unlisted_leavePage page.file errata

end Writer

end PodLoom.Thread
