import PodLoom.Proofs.Attempt
import PodLoom.Proofs.Thread.Names

set_option autoImplicit false

/-!
# Two ways to plain text

The text of a paragraph without its formatting is found in two ways.  The reader drops the codes
of a tree in one recursion (`Inline.plains`).  The writer never sees the tree: it gets a start and
a finish for each code, keeps a frame for each open one, and renders what a frame has collected
when its code finishes; a frame without thread is dropped together with its plain text.

As long as every code is one that the writer knows, what it collects in the frame around the
events is the plain text of the tree (`Writer.receiveAll_plain`).  What carries the induction is
`Shows`: besides the plain text, a frame never has plain text without thread to show it, so
nothing is lost when an empty frame is dropped.
-/

namespace PodLoom

open Text CodeUnit
open PodLoom.Pod (Block Element Event Inline inlineEvents)

/-! ## The letters of codes -/

namespace Pod.Inline

mutual

/-- The letters of the codes of a node, at any depth. -/
def letters : Inline → List CodeUnit
  | .text _ => []
  | .code letter _ children _ => letter :: allLetters children

/-- The letters of the codes of a sequence of nodes, at any depth. -/
def allLetters : List Inline → List CodeUnit
  | [] => []
  | node :: rest => letters node ++ allLetters rest

end

mutual

/-- A node whose codes are all known to the writer has no link and shows no unknown code. -/
theorem known_of_letters {node : Inline}
    (h : ∀ letter ∈ letters node, letter ∈ ofString "BCIFSXZE") :
    linkFree node = true ∧ known node = true := by
  cases node with
  | text t => exact ⟨rfl, rfl⟩
  | code letter delimiter children line =>
    rw [letters, List.forall_mem_cons] at h
    obtain ⟨hfree, hknown⟩ := allKnown_of_letters h.2
    -- Checked on the list: there are too many units to go through.
    have hletters : (ofString "BCIFSXZE").all (fun letter => letter != ofChar 'L'
        && ((ofString "XZ").contains letter || (ofString "BCFISE").contains letter)) = true := by
      decide
    obtain ⟨hlink, hletter⟩ := Bool.and_eq_true_iff.1 (List.all_eq_true.1 hletters letter h.1)
    refine ⟨Bool.and_eq_true_iff.2 ⟨hlink, hfree⟩, ?_⟩
    rwa [known, hknown, Bool.and_true]

theorem allKnown_of_letters {nodes : List Inline}
    (h : ∀ letter ∈ allLetters nodes, letter ∈ ofString "BCIFSXZE") :
    allLinkFree nodes = true ∧ allKnown nodes = true := by
  cases nodes with
  | nil => exact ⟨rfl, rfl⟩
  | cons node rest =>
    rw [allLetters, List.forall_mem_append] at h
    obtain ⟨hfree, hknown⟩ := known_of_letters h.1
    obtain ⟨hfrees, hknowns⟩ := allKnown_of_letters h.2
    exact ⟨Bool.and_eq_true_iff.2 ⟨hfree, hfrees⟩, Bool.and_eq_true_iff.2 ⟨hknown, hknowns⟩⟩

end

end Pod.Inline

/-! ## What a writer collects -/

namespace Thread

theorem Shows.ofRaw (t : Text) : Shows true (.ofRaw t) t := ⟨fun _ => rfl, nofun, id⟩

namespace Writer

/-- A writer that has the given open elements on its page, and the given diagnostics. -/
def holding (w : Writer) (page : Page) (frames : List Frame) (diagnostics : List Diagnostic) :
    Writer :=
  { w with page := some { page with frames }, diagnostics }

theorem eq_holding {w : Writer} {page : Page} (hpage : w.page = some page) :
    w = w.holding page page.frames w.diagnostics := by
  cases w
  cases hpage
  rfl

theorem receiveAll_append {events more : List Event} {w w' : Writer}
    (h : receiveAll events w = (.ok (), w')) :
    receiveAll (events ++ more) w = receiveAll more w' :=
  (congrFun (Attempt.forEach_append receive events more) w).trans (Attempt.bind_run_ok h)

/-- A code that finishes leaves its rendering in the frame around it. -/
theorem finish_format (w : Writer) (page : Page) (letter : CodeUnit) (line : Int)
    (content : Rendered) (frame : Frame) (outer : List Frame) (diagnostics : List Diagnostic) :
    ∃ diagnostics', receiveAll [.finish (.format [letter] line)]
        (w.holding page (⟨false, content⟩ :: frame :: outer) diagnostics)
      = (.ok (), w.holding page
          ({ frame with content := frame.content ++ (renderCode [letter] content).1 } :: outer)
          diagnostics') := by
  show ∃ diagnostics', (appendRendering _ line (renderCode [letter] content) >>= fun _ =>
    pure ()) (w.holding page (frame :: outer) diagnostics) = _
  obtain ⟨rendered, warning⟩ := renderCode [letter] content
  cases warning with
  | none => exact ⟨diagnostics, rfl⟩
  | some message =>
    exact ⟨diagnostics ++ [⟨.warning, page.file, line, message⟩], rfl⟩

/-- Events that add a content to the innermost open element of a page, whatever it is, and do
nothing else but warn; the content shows `plain` as far as its codes are known. -/
def Collects (known : Bool) (plain : Text) (events : List Event) : Prop :=
  ∀ (w : Writer) (page : Page) (frame : Frame) (outer : List Frame)
    (diagnostics : List Diagnostic), ∃ content diagnostics', Shows known content plain
      ∧ receiveAll events (w.holding page (frame :: outer) diagnostics)
        = (.ok (), w.holding page ({ frame with content := frame.content ++ content } :: outer)
            diagnostics')

namespace Collects

variable {known known' : Bool} {plain plain' : Text} {events more : List Event}

theorem nil : Collects true [] [] := by
  intro w page frame outer diagnostics
  refine ⟨.empty, diagnostics, .empty, ?_⟩
  rw [Rendered.append_empty]
  rfl

theorem text (t : Text) : Collects true t [.text t] := by
  intro w page frame outer diagnostics
  refine ⟨if frame.isRaw then .ofRaw t else .ofText t, diagnostics, ?_, rfl⟩
  split
  · exact .ofRaw t
  · exact .ofText t

theorem append (h : Collects known plain events) (h' : Collects known' plain' more) :
    Collects (known && known') (plain ++ plain') (events ++ more) := by
  intro w page frame outer diagnostics
  obtain ⟨content, diagnostics₁, hshows, hrun⟩ := h w page frame outer diagnostics
  obtain ⟨content', diagnostics₂, hshows', hrun'⟩ :=
    h' w page { frame with content := frame.content ++ content } outer diagnostics₁
  refine ⟨content ++ content', diagnostics₂, hshows.append hshows', ?_⟩
  rw [Rendered.append_assoc] at hrun'
  exact (receiveAll_append hrun).trans hrun'

/-- A code opens a frame of its own, and its rendering joins the frame around it. -/
theorem format {letter : CodeUnit} (hletter : letter ≠ ofChar 'L') {children : List Inline}
    (h : Collects (Inline.allKnown children) (Inline.plains children) events)
    (delimiter : Pod.Delimiter) (line : Int) :
    Collects (Inline.known (.code letter delimiter children line))
      (Inline.plain (.code letter delimiter children line))
      (Block.enclosed (.format [letter] line) events) := by
  intro w page frame outer diagnostics
  obtain ⟨content, diagnostics₁, hshows, hrun⟩ :=
    h w page ⟨false, .empty⟩ (frame :: outer) diagnostics
  rw [Rendered.empty_append] at hrun
  obtain ⟨diagnostics₂, hfinish⟩ :=
    finish_format w page letter line content frame outer diagnostics₁
  refine ⟨(renderCode [letter] content).1, diagnostics₂,
    shows_renderCode hletter hshows delimiter line, ?_⟩
  have hstart : receiveAll [.start (.format [letter] line)]
      (w.holding page (frame :: outer) diagnostics)
      = (.ok (), w.holding page (⟨false, .empty⟩ :: frame :: outer) diagnostics) := rfl
  exact (receiveAll_append hstart).trans ((receiveAll_append hrun).trans hfinish)

end Collects

/-- The frame around formatted text without links collects what the codes show. -/
theorem collects_inlineEvents {nodes : List Inline} (h : Inline.allLinkFree nodes = true) :
    Collects (Inline.allKnown nodes) (Inline.plains nodes) (inlineEvents nodes) := by
  fun_induction inlineEvents nodes with
  | case1 => exact .nil
  | case2 t rest ih =>
    simp only [Inline.allLinkFree, Inline.linkFree, Bool.true_and] at h
    exact (Collects.text t).append (ih h)
  | case3 delimiter children line rest link element ihdisplay ihrest =>
    simp [Inline.allLinkFree, Inline.linkFree] at h
  | case4 letter delimiter children line rest hletter element ihchildren ihrest =>
    simp only [Inline.allLinkFree, Inline.linkFree, Bool.and_eq_true] at h
    have hcode := ((ihchildren h.1.2).format hletter delimiter line).append (ihrest h.2)
    rwa [Block.enclosed_append] at hcode

/-- The writer collects the plain text of a tree in the frame around it, as long as the codes of
the tree are among those that it knows, other than links. -/
theorem receiveAll_plain {w : Writer} {page : Page} {frame : Frame} {outer : List Frame}
    (hpage : w.page = some page) (hframes : page.frames = frame :: outer) {nodes : List Inline}
    (hletters : ∀ letter ∈ Inline.allLetters nodes, letter ∈ ofString "BCIFSXZE") :
    ∃ text diagnostics, receiveAll (inlineEvents nodes) w
      = (.ok (), { w with
          page := some { page with
            frames := { frame with
              content := ⟨text, frame.content.plain ++ Inline.plains nodes⟩ } :: outer }
          diagnostics }) := by
  obtain ⟨hfree, hknown⟩ := Inline.allKnown_of_letters hletters
  obtain ⟨content, diagnostics, hshows, hrun⟩ :=
    collects_inlineEvents hfree w page frame outer w.diagnostics
  rw [← hframes, ← eq_holding hpage] at hrun
  refine ⟨frame.content.text ++ content.text, diagnostics, ?_⟩
  rw [hrun, ← hshows.same hknown]
  rfl

/-- `B<E<shy>>I<a E<0x2014>X<b>>E<< c` after text, the last code not closed. -/
def mixedCodes : List Inline :=
  let closed : Pod.Delimiter := ⟨0, [], some []⟩
  [.code 'B' closed [.code 'E' closed [.text "shy"] 1] 1,
    .code 'I' closed
      [.text "a ", .code 'E' closed [.text "0x2014"] 1, .code 'X' closed [.text "b"] 1] 1,
    .code 'E' ⟨1, " ", none⟩ [.text "c"] 1]

/-- A bold code that shows nothing is dropped with its frame, and an unknown escape stands for
itself. -/
theorem receiveAll_plain_mixedCodes :
    let page : Page := { (default : Page) with frames := [⟨false, .ofText "see "⟩] }
    let w : Writer := { (default : Writer) with page := some page }
    w.page = some page ∧ page.frames = [⟨false, .ofText "see "⟩]
      ∧ (∀ letter ∈ Inline.allLetters mixedCodes, letter ∈ ofString "BCIFSXZE")
      ∧ ∃ text diagnostics, receiveAll (inlineEvents mixedCodes) w
        = (.ok (), w.holding page [⟨false, ⟨text, "see a —E<c>"⟩⟩] diagnostics) := by
  intro page w
  have hall : (Inline.allLetters mixedCodes).all ((ofString "BCIFSXZE").contains ·) = true := by
    decide
  have hletters : ∀ letter ∈ Inline.allLetters mixedCodes, letter ∈ ofString "BCIFSXZE" :=
    fun letter hmem => List.contains_iff_mem.1 (List.all_eq_true.1 hall letter hmem)
  have hplain : ofString "see " ++ Inline.plains mixedCodes = "see a —E<c>" := by decide +kernel
  obtain ⟨text, diagnostics, hrun⟩ := receiveAll_plain (w := w) rfl rfl hletters
  refine ⟨rfl, rfl, hletters, text, diagnostics, ?_⟩
  rw [← hplain]
  exact hrun

end Writer

end Thread

end PodLoom
