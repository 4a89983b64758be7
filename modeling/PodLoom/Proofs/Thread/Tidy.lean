import PodLoom.Proofs.Conversion
import PodLoom.Proofs.Thread.Clean
import PodLoom.Proofs.Thread.Depth

set_option autoImplicit false

/-!
# Tidy drafts

A draft is tidy if its pieces are complete but for the brackets of the open list items,
one for each (`Laid`), and if what is still to be written is complete too: the contents
collected for open elements, the labels and anchors of the sections, the macros of the
lists.  Events keep a draft tidy as long as none of them starts raw thread and the title
is given (`tidy_step`); without a title, the words of the `NAME` paragraph are torn
apart.

At the end all lists are closed, and so are all brackets (`lawful_finished`).
-/

namespace PodLoom.Thread

open Text CodeUnit
open PodLoom.Pod (Element Event ListKind)

/-! ## Pieces and lists -/

/-- A piece that leaves nothing unfinished but brackets. -/
def Piece.Separate (k : Desk) (q : Piece) : Prop := Sealed (k.chunks q).flatten

section

variable {k : Desk}

/-- The macro of an item stands on a line of its own. -/
theorem separate_opening {tag body : Text} (htag : Lawful tag) (hbody : Clean body) :
    (Piece.opening tag body).Separate k := by
  have hchunk : (k.chunks (.opening tag body)).flatten
      = (tag ++ [newline]) ++ ([openBracket] ++ body) := by
    show (tag ++ newline :: openBracket :: body) ++ [] = _
    rw [List.append_nil, List.append_assoc]
    rfl
  rw [Piece.Separate, hchunk]
  exact (Clean.concat_newline htag).separate.append
    ((Sealed.of_no_backslash (by decide)).append hbody.separate)

/-- The manner of the lists of a tidy draft. -/
def tidyManner (k : Desk) : Manner where
  tag := Lawful
  body := Clean
  piece := Piece.Separate k
  balanced_tag := Lawful.balanced
  balanced_body := Clean.balanced
  no_tag := ⟨by decide, by decide⟩
  block_tag := ⟨by decide, by decide⟩
  no_body := .nil
  closing := .of_no_backslash (t := [closeBracket, newline]) (by decide)
  opening := separate_opening
  passage h := by
    rw [Piece.Separate, Desk.chunks, List.flatten_singleton]
    exact h.separate

/-! ## Blocks -/

theorem lawful_itemTag (kind : ListKind) {label : Text} (h : Lawful label) :
    Lawful (Writer.itemTag kind label) := by
  cases kind with
  | bullet => exact (⟨by decide, by decide⟩ : Lawful "\\bullet")
  | number => exact (⟨by decide, by decide⟩ : Lawful "\\number")
  | block => exact (⟨by decide, by decide⟩ : Lawful blockTag)
  | text => exact (Clean.of_unary (by decide) h).lawful

theorem clean_verbatimBlock {content : Text} (h : Lawful content) :
    Clean (Draft.verbatimBlock content) := by
  unfold Draft.verbatimBlock
  split
  · exact .nil
  · have hline : Clean (newline :: bracketed content.trimEnd) :=
      (Clean.of_plain (t := [newline]) (by decide)).append (.bracketed h.trimEnd)
    have hname : Clean.isMacro (ofString "pre") = true := by decide
    exact .block (Clean.named hname (by decide) hline).lawful

theorem clean_heading {level : Nat} (hlevel : 1 ≤ level ∧ level ≤ 4) {anchor : Option Text}
    (hanchor : ∀ a, anchor = some a → Clean a) {label : Text} (h : Lawful label) :
    Clean (k.chunks (.heading level anchor label)).flatten := by
  have hname : Clean.isMacro (ofChar 'h' :: ofNat (level + 1)) = true := by
    obtain rfl | rfl | rfl | rfl : level = 1 ∨ level = 2 ∨ level = 3 ∨ level = 4 := by omega
    all_goals decide
  have hmark : ∃ u rest, Desk.anchorMark anchor ++ bracketed label = u :: rest
      ∧ isDelimiter u = true ∧ Clean (u :: rest) := by
    cases anchor with
    | none => exact ⟨openBracket, _, rfl, by decide, .bracketed h⟩
    | some a =>
      have hfront : Clean (ofString "(#" ++ a ++ ofString ")") :=
        ((Clean.of_plain (by decide)).append (hanchor a rfl)).append (.of_plain (by decide))
      exact ⟨ofChar '(', _, rfl, by decide, hfront.append (.bracketed h)⟩
  obtain ⟨u, rest, hrest, hdelimiter, hclean⟩ := hmark
  have hchunk : (k.chunks (.heading level anchor label)).flatten
      = Writer.block (backslash :: ((ofChar 'h' :: ofNat (level + 1)) ++ u :: rest)) := by
    rw [← hrest]
    show Writer.block (ofString "\\h" ++ ofNat (level + 1) ++ Desk.anchorMark anchor
      ++ bracketed label) ++ [] = _
    rw [List.append_nil, List.append_assoc, List.append_assoc]
    rfl
  rw [hchunk]
  exact .block (Clean.named hname hdelimiter hclean).lawful

/-! ## Drafts -/

/-- A draft of which well-formed thread can be made. -/
structure Draft.Tidy (k : Desk) (d : Draft) : Prop where
  frames : ∀ f ∈ d.frames, f.isRaw = false ∧ Clean f.content.text
  laid : Laid k (tidyManner k) d.scopes d.pieces
  sections : d.sections.Tidy
  outside : d.inName = false

namespace Draft.Tidy

variable {d : Draft}

/-- The lists of a tidy draft change. -/
theorem onLists (h : d.Tidy k) {d' : Draft} (hd : ∃ scopes pieces, d' = { d with scopes, pieces })
    (hlaid : Laid k (tidyManner k) d'.scopes d'.pieces) : d'.Tidy k := by
  obtain ⟨scopes, pieces, rfl⟩ := hd
  exact ⟨h.frames, hlaid, h.sections, h.outside⟩

theorem onScope (h : d.Tidy k) {f : Scope → Scope × List Piece}
    (hf : ∀ s : Scope, Lawful s.tag → Fits k (tidyManner k) s (f s).1 (f s).2) :
    (d.onScope f).Tidy k := h.onLists (d.onScope_with f) (h.laid.onScope hf)

theorem write (h : d.Tidy k) {q : Piece} (hq : Clean (k.chunks q).flatten) :
    (d.write [q]).Tidy k :=
  ⟨h.frames, h.laid.write hq.separate hq.balanced, h.sections, h.outside⟩

theorem write_passage (h : d.Tidy k) {t : Text} (ht : Clean t) : (d.write [.passage t]).Tidy k :=
  h.write (by simpa [Desk.chunks] using ht)

theorem place (h : d.Tidy k) {body : Text} (hbody : Clean body) : (d.place body).Tidy k :=
  h.onLists (d.place_with body) (h.laid.place hbody)

theorem enter (h : d.Tidy k) (kind : ListKind) : (d.enter kind).Tidy k :=
  h.onLists (d.enter_with kind) (h.laid.enter kind)

theorem exit (h : d.Tidy k) : d.exit.Tidy k := h.onLists d.exit_with h.laid.exit

theorem exitEach (h : d.Tidy k) (ended : List Scope) : (d.exitEach ended).Tidy k :=
  h.onLists (d.exitEach_with ended) (h.laid.exitEach ended)

theorem writeSection (h : d.Tidy k) {level : Nat} (hlevel : 1 ≤ level ∧ level ≤ 4) {label : Text}
    (hlabel : Lawful label) (text : Text) : (d.writeSection level label text).Tidy k := by
  have hanchor := Registry.tidy_register_anchor h.sections text hlabel
  have hwritten := h.write (k := k) (clean_heading hlevel
    (fun a (ha : some (d.sections.register text label).1 = some a) => Option.some.inj ha ▸ hanchor)
    hlabel)
  exact ⟨hwritten.frames, hwritten.laid, Registry.tidy_register h.sections text hlabel,
    hwritten.outside⟩

theorem writeHeading (h : d.Tidy k) {p : Policy} (htitled : p.titled = true) {level : Nat}
    (hlevel : 1 ≤ level ∧ level ≤ 4) {content : Rendered} (hcontent : Clean content.text) :
    (d.writeHeading p level content).Tidy k := by
  have houtside : ({ d with inName := false } : Draft).Tidy k :=
    ⟨h.frames, h.laid, h.sections, rfl⟩
  have hleft : ({ d with inName := false }.onScope Scope.close).Tidy k :=
    houtside.onScope fun _ htag => .close htag
  have hlabel := hcontent.lawful.trim
  have hname : d.introducesName p level content.plain.squeeze = false := by
    rw [introducesName, htitled]
    simp
  unfold Draft.writeHeading
  rw [if_neg (by simp [hname])]
  split
  · exact hleft.writeSection hlevel hlabel _
  · exact hleft.write (clean_heading hlevel (by simp) hlabel)

theorem writeBody (h : d.Tidy k) {t : Text} (ht : Clean t) : (d.writeBody t).Tidy k := by
  unfold Draft.writeBody
  split
  · exact h
  · exact h.place ht

theorem writeParagraph (h : d.Tidy k) {content : Rendered} (hcontent : Clean content.text) :
    (d.writeParagraph content).Tidy k := by
  unfold Draft.writeParagraph
  split
  · exact h
  · rw [h.outside]
    exact h.writeBody (.fill hcontent.lawful)

theorem writeData (h : d.Tidy k) {content : Rendered} (hcontent : Clean content.text) :
    (d.writeData content).Tidy k := by
  unfold Draft.writeData
  split
  · exact h
  · exact h.write_passage (.block hcontent.lawful.trimEnd)

/-! ## Events -/

theorem append (h : d.Tidy k) {rendered : Rendered} (hrendered : Clean rendered.text) :
    (d.append rendered).Tidy k := by
  refine ⟨?_, h.laid, h.sections, h.outside⟩
  rcases d with ⟨_ | ⟨f, outer⟩, scopes, inName, headerDone, sections, warnings, pieces⟩
  · exact h.frames
  · intro g hg
    rcases List.mem_cons.1 hg with rfl | hg
    · obtain ⟨hraw, hcontent⟩ := h.frames f List.mem_cons_self
      exact ⟨hraw, hcontent.append hrendered⟩
    · exact h.frames g (List.mem_cons_of_mem f hg)

theorem appendRendering (h : d.Tidy k) (line : Int) {rendering : Rendering}
    (hrendering : Clean rendering.1.text) : (d.appendRendering line rendering).Tidy k := by
  unfold Draft.appendRendering
  split
  · rename_i message _
    have hwarned : (d.warn line message).Tidy k := ⟨h.frames, h.laid, h.sections, h.outside⟩
    exact hwarned.append hrendering
  · exact h.append hrendering

theorem receiveText (h : d.Tidy k) (t : Text) : (d.receiveText t).Tidy k := by
  refine ⟨?_, h.laid, h.sections, h.outside⟩
  rcases d with ⟨_ | ⟨f, outer⟩, scopes, inName, headerDone, sections, warnings, pieces⟩
  · exact h.frames
  · intro g hg
    rcases List.mem_cons.1 hg with rfl | hg
    · obtain ⟨hraw, hcontent⟩ := h.frames f List.mem_cons_self
      refine ⟨hraw, ?_⟩
      dsimp only
      rw [hraw]
      exact hcontent.append (.escape t)
    · exact h.frames g (List.mem_cons_of_mem f hg)

theorem startElement (h : d.Tidy k) {element : Element}
    (hdata : ∀ target line, element ≠ .data target line) : (d.startElement element).Tidy k := by
  have hframe : ({ d with frames := ⟨false, .empty⟩ :: d.frames } : Draft).Tidy k := by
    refine ⟨?_, h.laid, h.sections, h.outside⟩
    intro f hf
    rcases List.mem_cons.1 hf with rfl | hf
    · exact ⟨rfl, .nil⟩
    · exact h.frames f hf
  cases element with
  | «over» kind line => exact h.enter kind
  | data target line => exact absurd rfl (hdata target line)
  | _ => exact hframe

theorem finishBlock (h : d.Tidy k) {p : Policy} (htitled : p.titled = true) {element : Element}
    (hregular : (Event.finish element).regular = true) {content : Rendered}
    (hcontent : Clean content.text) : (d.finishBlock p element content).Tidy k := by
  cases element with
  | «over» kind line => exact h
  | format code line =>
    match code, hregular with
    | [letter], hletter => exact h.appendRendering line (clean_renderCode hletter hcontent)
  | link kind target heading hasLabel line =>
    exact h.append (clean_renderLink h.sections kind target heading hasLabel hcontent)
  | head level line =>
    have hlevel : 1 ≤ level ∧ level ≤ 4 := by
      simpa [Event.regular] using hregular
    exact h.writeHeading htitled hlevel hcontent
  | para line => exact h.writeParagraph hcontent
  | verbatim line => exact h.writeBody (clean_verbatimBlock hcontent.lawful)
  | data target line => exact h.writeData hcontent
  | item kind marker line =>
    exact h.onScope fun _ htag => .next htag (lawful_itemTag kind hcontent.lawful.trim)
  | command name text line => exact ⟨h.frames, h.laid, h.sections, h.outside⟩

theorem finishElement (h : d.Tidy k) {p : Policy} (htitled : p.titled = true) {element : Element}
    (hregular : (Event.finish element).regular = true) : (d.finishElement p element).Tidy k := by
  rcases finishElement_cases p element d with
    ⟨kind, line, rfl, heq | heq⟩ | heq | ⟨frame, frames, hframes, -, heq⟩
  · rw [heq]
    exact ⟨h.frames, h.laid, h.sections, h.outside⟩
  · rw [heq]
    exact h.exit
  · rw [heq]
    exact h
  · rw [heq]
    have hclean : ∀ f ∈ frame :: frames, f.isRaw = false ∧ Clean f.content.text :=
      hframes ▸ h.frames
    have hrest : ({ d with frames } : Draft).Tidy k :=
      ⟨fun f hf => hclean f (List.mem_cons_of_mem frame hf), h.laid, h.sections, h.outside⟩
    exact hrest.finishBlock htitled hregular (hclean frame List.mem_cons_self).2

end Draft.Tidy

/-- An event keeps a draft tidy unless it starts raw thread. -/
theorem tidy_step {p : Policy} (htitled : p.titled = true) {d : Draft} (h : d.Tidy k) {e : Event}
    (hregular : e.regular = true) (hdata : ∀ target line, e ≠ .start (.data target line)) :
    (d.step p e).Tidy k := by
  cases e with
  | docStart info => exact h
  | docEnd errata => exact h
  | text t => exact h.receiveText t
  | start element => exact h.startElement fun target line heq => hdata target line (heq ▸ rfl)
  | finish element => exact h.finishElement htitled hregular

theorem tidy_run {p : Policy} (htitled : p.titled = true) {d : Draft} (h : d.Tidy k)
    {events : List Event} (hregular : ∀ e ∈ events, e.regular = true)
    (hdata : ∀ target line, Event.start (.data target line) ∉ events) :
    (d.run p events).Tidy k := by
  induction events generalizing d with
  | nil => exact h
  | cons e rest ih =>
    have hstep := tidy_step htitled h (hregular e List.mem_cons_self) fun target line heq =>
      hdata target line (heq ▸ List.mem_cons_self)
    exact ih hstep (fun e' he' => hregular e' (List.mem_cons_of_mem e he'))
      fun target line hmem => hdata target line (List.mem_cons_of_mem e hmem)

/-! ## The start and the end of a page -/

theorem clean_headerBlocks (id style : Text) {title : Text} (htitle : Lawful title) :
    Clean (Desk.headerBlocks id style title none).flatten := by
  have hid : ∀ t ∈ Desk.idBlocks id, Clean t := by
    unfold Desk.idBlocks
    split
    · simp
    · intro t ht
      obtain rfl := List.mem_singleton.1 ht
      exact .block (Clean.of_unary (by decide) (Clean.escape id).lawful).lawful
  have hheading : Clean (Writer.block (command "heading" [title, escape style])) :=
    .block (Clean.of_binary (by decide) htitle (Clean.escape style).lawful).lawful
  have htop : Clean (Writer.block (command "h1" [title])) :=
    .block (Clean.of_unary (by decide) htitle).lawful
  apply Clean.flatten
  intro t ht
  rcases List.mem_append.1 ht with ht | ht
  · exact hid t ht
  · rcases List.mem_cons.1 ht with rfl | ht
    · exact hheading
    · obtain rfl := List.mem_singleton.1 ht
      exact htop

theorem tidy_start (p : Policy) (title : Text) (contentless : Bool) {sections : Registry}
    (h : sections.Tidy) : (Draft.start p title contentless sections).Tidy k := by
  have hblank : (Draft.blank sections).Tidy k :=
    ⟨fun _ hf => (List.not_mem_nil hf).elim,
      ⟨fun _ hs => (List.not_mem_nil hs).elim, fun _ hq => (List.not_mem_nil hq).elim, rfl⟩, h, rfl⟩
  unfold Draft.start
  split
  · have hheader : Clean (k.chunks (.header (escape title) none)).flatten :=
      clean_headerBlocks _ _ (Clean.escape title).lawful
    have hwritten := hblank.write hheader
    exact ⟨hwritten.frames, hwritten.laid, hwritten.sections, rfl⟩
  · exact hblank

/-- The end of a page closes all its lists. -/
theorem tidy_complete {d : Draft} (h : d.Tidy k) :
    (d.complete false).Tidy k ∧ (d.complete false).scopes = [] := by
  have hsignature : Clean "\\signature\n" :=
    .concat_newline (t := "\\signature") ⟨by decide, by decide⟩
  refine ⟨(h.exitEach d.scopes).write_passage hsignature, ?_⟩
  exact (d.scopes_exitEach d.scopes).trans List.drop_length

/-! ## The text of a page -/

theorem separate_text {pieces : List Piece} (h : ∀ q ∈ pieces, q.Separate k) :
    Sealed (k.text pieces) := by
  induction pieces with
  | nil => exact .nil
  | cons q rest ih =>
    rw [k.text_cons]
    exact (h q List.mem_cons_self).append (ih fun q' hq' => h q' (List.mem_cons_of_mem q hq'))

/-- The navigation in its place leaves the other text separate. -/
theorem separate_spliced {navigation : Text} (hnavigation : Sealed navigation)
    {pieces : List Piece} (h : ∀ q ∈ pieces, q.Separate k) :
    Sealed (Sink.spliced navigation (pieces.flatMap k.steps)) := by
  induction pieces with
  | nil => exact .nil
  | cons q rest ih =>
    have hq := h q List.mem_cons_self
    have hrest : ∀ q' ∈ rest, q'.Separate k := fun q' hq' => h q' (List.mem_cons_of_mem q hq')
    have hreservation : k.reservation q = [] ∨ k.reservation q = [.reserve] := by
      unfold Desk.reservation
      split
      · split
        · exact .inr rfl
        · exact .inl rfl
      · exact .inl rfl
    rw [List.flatMap_cons, Desk.steps, List.append_assoc, Desk.spliced_outputs]
    rcases hreservation with hnone | hreserve
    · rw [hnone, List.nil_append]
      exact hq.append (ih hrest)
    · rw [hreserve, List.singleton_append, Sink.spliced, k.chunks_steps]
      exact hq.append (hnavigation.append (separate_text hrest))

/-- The navigation opens and closes as many brackets. -/
theorem depthAfter_spliced {navigation : Text} (hnavigation : Balanced navigation)
    (steps : List Sink.Step) (d : Nat) :
    depthAfter d (Sink.spliced navigation steps) = depthAfter d (Sink.chunks steps) := by
  induction steps generalizing d with
  | nil => rfl
  | cons step rest ih =>
    cases step with
    | output chunk =>
      rw [Sink.spliced, Sink.chunks, depthAfter_append, depthAfter_append]
      exact congrArg _ (funext ih)
    | reserve =>
      rw [Sink.spliced, Sink.chunks, depthAfter_append, hnavigation.depth, Option.bind_some]

theorem clean_navigation {sections : Registry} (h : sections.Tidy) :
    Clean (k.navigation sections) := by
  unfold Desk.navigation
  refine Clean.append ?_ ?_
  · split
    · exact sections.clean_navbar h
    · exact .nil
  · split
    · exact sections.clean_contents h
    · exact .nil

/-- The text of a tidy draft whose lists are closed is complete. -/
theorem lawful_finished {d : Draft} (h : d.Tidy k) (hclosed : d.scopes = []) :
    Lawful (k.finished d) := by
  have hnavigation : Clean (k.navigation d.sections) := clean_navigation h.sections
  have hbalanced : Balanced (Sink.spliced (k.navigation d.sections) (d.pieces.flatMap k.steps)) := by
    rw [Balanced, depthAfter_spliced hnavigation.balanced, k.chunks_steps, h.laid.depth, hclosed]
    rfl
  exact .of_words_eq (k.respaced_finished d).words_eq
    ⟨hbalanced, (separate_spliced hnavigation.separate h.laid.each).onlyMacros⟩

end

end PodLoom.Thread
