import PodLoom.Proofs.Text.Utf8
import PodLoom.Proofs.Thread.Streaming

set_option autoImplicit false

/-!
# Where output is cut

A target takes its text in pieces.  Each piece ends with a whole character, so no cut goes
through a surrogate pair, wherever the halves of the pair come from (`intact_receiveAll`).
That is because every chunk ends with a line feed or an opening bracket, and a sink cuts a
chunk behind a line feed only.
-/

namespace PodLoom.Thread

open Text CodeUnit
open PodLoom.Pod (DocumentInfo Element Erratum Event ListKind)

/-! ## Chunks -/

theorem whole_replicate_newline (n : Nat) : Whole (List.replicate n newline) := by
  cases n with
  | zero => exact .nil
  | succ n =>
    rw [List.replicate_succ']
    exact .concat _ rfl

theorem whole_block (t : Text) : Whole (Writer.block t) := .of_append t (by decide) (by decide)

theorem whole_fill (t : Text) : Whole (fill t) := by
  unfold fill fillTo
  dsimp only
  split
  · exact .nil
  · exact .of_append _ (whole_replicate_newline 2) (by decide)

theorem whole_contents (r : Registry) : Whole r.contents := by
  unfold Registry.contents
  split
  · exact .nil
  · exact .concat _ rfl

theorem whole_navbar (r : Registry) : Whole r.navbar := by
  unfold Registry.navbar Registry.navbarWithin
  split
  · exact .nil
  · exact .of_append _ (by decide) (by decide)

theorem whole_navigation (w : Writer) : Whole w.navigation := by
  unfold Writer.navigation
  refine .append ?_ ?_
  · split
    · exact whole_navbar _
    · exact .nil
  · split
    · exact whole_contents _
    · exact .nil

/-! ## The sink -/

/-- A target that has taken nothing but whole characters in each piece. -/
def Target.Intact (t : Target) : Prop := ∀ piece ∈ t.taken, Whole piece

theorem Target.intact_take {piece : Text} (h : Whole piece) : Keeps Intact (take piece) := by
  have htaken : ∀ t : Target, t.Intact → ∀ p ∈ t.taken ++ [piece], Whole p := by
    intro t ht p hp
    rcases List.mem_append.1 hp with hp | hp
    · exact ht p hp
    · exact List.mem_singleton.1 hp ▸ h
  refine .inspect fun t ht => ?_
  split
  · exact .bind (fun _ h => h) fun _ => .fail _
  · exact fun t ht => htaken t ht
  · exact fun t ht => htaken t ht

namespace Sink

/-- All that a sink has passed on or holds ends with whole characters. -/
structure Intact (s : Sink) : Prop where
  target : s.target.Intact
  held : ∀ pieces ∈ s.held, ∀ piece ∈ pieces, Whole piece

theorem whole_splitBlankLines {chunk : Text} (h : Whole chunk) :
    Whole (splitBlankLines chunk).1 := by
  have hchunk := splitBlankLines_eq chunk
  by_cases hnone : (splitBlankLines chunk).2 = 0
  · rw [hnone, List.replicate_zero, List.append_nil] at hchunk
    rwa [← hchunk]
  · obtain ⟨x, hx⟩ := splitBlankLines_ends hnone
    rw [hx]
    exact .concat x rfl

theorem afterClosingLine?_suffix {chunk rest : Text} (h : afterClosingLine? chunk = some rest) :
    rest <:+ chunk := by
  cases chunk with
  | nil => cases h
  | cons u chunk =>
    obtain ⟨-, hrest⟩ := Option.ite_none_right_eq_some.1 h
    rw [← Option.some.inj hrest]
    -- What is left of the white space is its end.
    have hgap : ((chunk.takeWhile CodeUnit.isBlank).reverse.takeWhile (· != newline)).reverse
        <:+ chunk.takeWhile CodeUnit.isBlank := by
      rw [← List.reverse_prefix, List.reverse_reverse]
      exact List.takeWhile_prefix _
    obtain ⟨front, hfront⟩ := hgap
    refine ⟨u :: front, ?_⟩
    rw [List.cons_append, ← List.append_assoc, hfront, List.takeWhile_append_dropWhile]

theorem intact_write {piece : Text} (h : Whole piece) : Keeps Intact (write piece) := by
  unfold write
  split
  · exact .pure ()
  · refine .inspect fun s hs => ?_
    split
    · rename_i pieces hheld
      refine fun s' hs' => ⟨hs'.target, ?_⟩
      intro more hmore p hp
      obtain rfl : pieces ++ [piece] = more := Option.some.inj hmore
      rcases List.mem_append.1 hp with hp | hp
      · exact hs.held pieces hheld p hp
      · exact List.mem_singleton.1 hp ▸ h
    · exact (Target.intact_take h).within (fun _ hs => hs.target) fun _ _ ht hs => ⟨ht, hs.held⟩

theorem intact_flush : Keeps Intact flush :=
  .inspect fun s _ => (intact_write (whole_replicate_newline s.deferred)).seq
    fun _ hs => ⟨hs.target, hs.held⟩

theorem intact_output {chunk : Text} (h : Whole chunk) : Keeps Intact (output chunk) := by
  have hbody : ∀ {chunk : Text}, Whole chunk → Keeps Intact (do
      Attempt.change fun s : Sink => { s with deferred := (splitBlankLines chunk).2 }
      write (splitBlankLines chunk).1) := fun h =>
    .seq (fun _ hs => ⟨hs.target, hs.held⟩) (intact_write (whole_splitBlankLines h))
  refine .inspect fun _ _ => ?_
  simp only [pure_bind]
  split
  · exact hbody h
  · split
    · rename_i rest hrest
      exact (intact_write (by decide)).seq
        (intact_flush.seq (hbody (h.of_suffix (afterClosingLine?_suffix hrest))))
    · exact intact_flush.seq (hbody h)

theorem intact_reserve : Keeps Intact reserve := by
  refine .inspect fun s hs => ?_
  split
  · exact .pure ()
  · refine intact_flush.seq fun _ hs => ⟨hs.target, ?_⟩
    intro pieces hpieces
    obtain rfl : [] = pieces := Option.some.inj hpieces
    simp

theorem intact_finish {navigation : Text} (h : Whole navigation) :
    Keeps Intact (finish navigation) := by
  refine .inspect fun s hs => .seq (fun _ hs => ⟨hs.target, by simp⟩) ?_
  dsimp only
  split
  · rename_i pieces hheld
    exact (intact_write h).seq
      (.seq (.forEach fun piece hpiece => intact_write (hs.held pieces hheld piece hpiece))
        intact_flush)
  · exact intact_flush

end Sink

/-! ## Lists -/

namespace Nesting

/-- The sink under the lists has cut through no character. -/
def Intact (n : Nesting) : Prop := n.sink.Intact

theorem intact_onSink {α : Type} {m : Attempt Sink α} (hm : Keeps Sink.Intact m) :
    Keeps Intact (onSink m) := hm.within (fun _ h => h) fun _ _ h _ => h

theorem intact_output {chunk : Text} (h : Whole chunk) : Keeps Intact (output chunk) :=
  intact_onSink (Sink.intact_output h)

theorem intact_changeScope (f : Scope → Scope) : Keeps Intact (changeScope f) := fun _ h => h

theorem intact_closeOpen (scope : Scope) : Keeps Intact (closeOpen scope) := by
  unfold closeOpen
  split
  · exact (intact_output (by decide)).seq (intact_changeScope _)
  · exact .pure ()

theorem intact_openItem (tag : Text) {body : Text} (h : Whole body) :
    Keeps Intact (openItem tag body) := by
  have hchunk : Whole (tag ++ newline :: openBracket :: body) := by
    rw [List.append_cons, List.append_cons]
    exact (Whole.concat _ rfl).append h
  exact (intact_output hchunk).seq (intact_changeScope _)

theorem intact_item {body : Text} (h : Whole body) : Keeps Intact (item body) := by
  refine .inspect fun n _ => ?_
  split
  · exact intact_output h
  · split
    · exact (intact_closeOpen _).seq ((intact_openItem _ h).seq (intact_changeScope _))
    · split
      · exact intact_openItem blockTag h
      · exact intact_output h

theorem intact_openPending (scope : Scope) : Keeps Intact (openPending scope) := by
  unfold openPending
  split
  · exact intact_item .nil
  · exact .pure ()

theorem intact_enter (kind : ListKind) : Keeps Intact (enter kind) := by
  refine .inspect fun n _ => ?_
  dsimp only
  split
  · exact (intact_openPending _).seq fun _ h => h
  · exact fun _ h => h

theorem intact_startItem (tag : Text) : Keeps Intact (startItem tag) := by
  refine .inspect fun n _ => ?_
  split
  · exact .pure ()
  · exact (intact_openPending _).seq (intact_changeScope _)

theorem intact_closeItem : Keeps Intact closeItem := by
  refine .inspect fun n _ => ?_
  split
  · exact .pure ()
  · refine (intact_openPending _).seq (.inspect fun n _ => ?_)
    split
    · exact .pure ()
    · exact intact_closeOpen _

theorem intact_exit : Keeps Intact exit := by
  refine .inspect fun n _ => ?_
  split
  · exact intact_closeItem.seq (.seq (fun _ h => h) (.pure true))
  · exact .pure false

theorem intact_exitEach (scopes : List Scope) : Keeps Intact (exitEach scopes) := by
  induction scopes with
  | nil => exact .pure ()
  | cons s rest ih => exact intact_exit.bind fun _ => ih

theorem intact_exitAll : Keeps Intact exitAll := .inspect fun n _ => intact_exitEach n.scopes

end Nesting

/-! ## The writer -/

namespace Writer

/-- The writer has cut through no character. -/
def Intact (w : Writer) : Prop := w.nesting.Intact

theorem intact_onNesting {α : Type} {m : Attempt Nesting α} (hm : Keeps Nesting.Intact m) :
    Keeps Intact (onNesting m) := hm.within (fun _ h => h) fun _ _ h _ => h

theorem intact_output {chunk : Text} (h : Whole chunk) : Keeps Intact (output chunk) :=
  intact_onNesting (Nesting.intact_output h)

/-! What does not reach the lists leaves the sink alone. -/

theorem intact_currentPage : Keeps Intact currentPage := by
  refine .inspect fun _ _ => ?_
  split
  · exact .pure _
  · exact .fail _

theorem intact_changePage (f : Page → Page) : Keeps Intact (changePage f) := fun _ h => h

theorem intact_warn (page : Page) (line : Int) (message : Text) :
    Keeps Intact (warn page line message) := fun _ h => h

theorem intact_say (message : Text) (data : Json) : Keeps Intact (say message data) := fun _ h => h

theorem intact_writeHeader (page : Page) (title : Text) (description : Option Text) :
    Keeps Intact (writeHeader page title description) := by
  refine .inspect fun _ _ => .optional (intact_output (whole_block _)) ?_
  refine .seq (intact_output (whole_block _)) (.seq (intact_output (whole_block _)) ?_)
  have hreserve := intact_onNesting (Nesting.intact_onSink Sink.intact_reserve)
  dsimp only
  split
  · exact (intact_output (whole_block _)).seq (.optional hreserve (intact_changePage _))
  · exact .optional hreserve (intact_changePage _)

theorem intact_writeHeading (page : Page) (level : Nat) (content : Rendered) :
    Keeps Intact (writeHeading page level content) := by
  refine .inspect fun _ _ => ?_
  split
  · exact intact_changePage _
  · refine .seq (intact_changePage _) (.seq (intact_onNesting Nesting.intact_closeItem) ?_)
    refine .inspect fun _ _ => ?_
    simp only [pure_bind]
    split
    · exact .seq (fun _ h => h) (intact_output (whole_block _))
    · exact intact_output (whole_block _)

theorem intact_writeParagraph (page : Page) (content : Rendered) :
    Keeps Intact (writeParagraph page content) := by
  unfold writeParagraph
  split
  · exact .pure ()
  · split
    · exact intact_writeHeader page _ _
    · dsimp only
      split
      · exact .pure ()
      · exact intact_onNesting (Nesting.intact_item (whole_fill _))

theorem intact_writeVerbatim (content : Rendered) : Keeps Intact (writeVerbatim content) := by
  unfold writeVerbatim
  dsimp only
  split
  · exact .pure ()
  · exact intact_onNesting (Nesting.intact_item (whole_block _))

theorem intact_writeData (content : Rendered) : Keeps Intact (writeData content) := by
  unfold writeData
  dsimp only
  split
  · exact .pure ()
  · exact intact_output (whole_block _)

theorem intact_appendContent (rendered : Rendered) : Keeps Intact (appendContent rendered) :=
  intact_changePage _

theorem intact_appendRendering (page : Page) (line : Int) (rendering : Rendering) :
    Keeps Intact (appendRendering page line rendering) := by
  unfold appendRendering
  dsimp only
  split
  · exact (intact_warn page line _).seq (intact_appendContent _)
  · exact intact_appendContent _

theorem intact_finishBlock (page : Page) (element : Element) (content : Rendered) :
    Keeps Intact (finishBlock page element content) := by
  cases element with
  | format code line => exact intact_appendRendering page line _
  | link kind target heading hasLabel line => exact .inspect fun _ _ => intact_appendContent _
  | head level line => exact intact_writeHeading page level content
  | para line => exact intact_writeParagraph page content
  | verbatim line => exact intact_writeVerbatim content
  | data target line => exact intact_writeData content
  | item kind marker line => exact intact_onNesting (Nesting.intact_startItem _)
  | command name text line => exact intact_warn page line _
  | «over» kind line => exact .pure ()

/-! ## Events -/

theorem intact_startElement (element : Element) : Keeps Intact (startElement element) := by
  refine intact_currentPage.bind fun _ => ?_
  cases element with
  | «over» kind line => exact intact_onNesting (Nesting.intact_enter kind)
  | _ => exact intact_changePage _

theorem intact_receiveText (t : Text) : Keeps Intact (receiveText t) :=
  intact_currentPage.bind fun _ => intact_changePage _

theorem intact_finishElement (element : Element) : Keeps Intact (finishElement element) := by
  refine intact_currentPage.bind fun page => ?_
  cases element with
  | «over» kind line =>
    refine (intact_onNesting Nesting.intact_exit).bind fun ended => ?_
    split
    · exact .pure ()
    · exact intact_warn page line _
  | _ =>
    dsimp only
    split
    · exact .pure ()
    · exact (intact_changePage _).seq (intact_finishBlock page _ _)

/-- A new sink on a target that was cut in the right places. -/
theorem intact_started {w w' : Writer} (h : w.Intact) (hw : w'.nesting = .on (.on w.target)) :
    w'.Intact := by
  show w'.nesting.sink.Intact
  rw [hw]
  exact ⟨h.target, by simp [Nesting.on, Sink.on]⟩

theorem intact_startDocument (info : DocumentInfo) : Keeps Intact (startDocument info) := by
  refine .seq (fun _ h => h) (.inspect fun w _ => ?_)
  split
  · exact .fail _
  · refine .seq (fun w hw => intact_started hw rfl) (.seq (intact_say _ _) ?_)
    dsimp only
    split
    · exact intact_writeHeader _ _ _
    · exact .pure ()

theorem intact_leavePage (file : Text) (errata : List Erratum) :
    Keeps Intact (leavePage file errata) := by
  refine .seq (fun _ h => h) (.inspect fun _ _ => (intact_say _ _).seq ?_)
  split
  · exact .pure ()
  · exact .fail _

theorem intact_endDocument (errata : List Erratum) : Keeps Intact (endDocument errata) := by
  refine intact_currentPage.bind fun page => .seq (fun _ h => h) ?_
  dsimp only
  split
  · refine .seq (intact_onNesting Nesting.intact_exitAll) (.seq (intact_output (by decide)) ?_)
    refine .inspect fun w _ => .seq ?_ (intact_leavePage page.file errata)
    exact intact_onNesting (Nesting.intact_onSink (Sink.intact_finish (whole_navigation w)))
  · exact intact_leavePage page.file errata

theorem intact_receive (e : Event) : Keeps Intact (receive e) := by
  cases e with
  | docStart info => exact intact_startDocument info
  | start element => exact intact_startElement element
  | text t => exact intact_receiveText t
  | finish element => exact intact_finishElement element
  | docEnd errata => exact intact_endDocument errata

/-- Whatever a writer receives, it cuts its output between characters. -/
theorem intact_receiveAll (events : List Event) : Keeps Intact (receiveAll events) :=
  .forEach fun e _ => intact_receive e

end Writer

end PodLoom.Thread
