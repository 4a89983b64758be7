import PodLoom.Proofs.FileConversion
import PodLoom.Proofs.Outcome
import PodLoom.Proofs.Pod.Partition
import PodLoom.Proofs.Pod.WellNested
import PodLoom.Proofs.Text.Trimming
import PodLoom.Proofs.Thread.Fill
import PodLoom.Proofs.Thread.InOrder
import PodLoom.Proofs.Thread.Markup

set_option autoImplicit false

/-!
# Verbatim paragraphs

A verbatim paragraph has a line that is not blank, so it always yields a block: `\pre` and, in
square brackets, its text with tabs expanded, the gaps at the ends of its lines left out and the
white space behind it trimmed (`Paragraph.preBlock`).  Whatever stands around it, in lists or
out of them, the block is written at once when the paragraph is taken
(`Draft.brings_takeParagraphs`), and what is written so stands in one piece on the page.
-/

namespace PodLoom

open Text CodeUnit
open PodLoom.Pod (Context Delivery Dispatch Paragraph bodyEvents dispatches isContentless
  takeParagraph takeParagraphs)
open PodLoom.Thread (Desk Draft Options Policy Registry Sink Writer bracketed escape)

/-! ## Text that is not blank -/

namespace Text

theorem mem_expandTabsFrom {width : Nat} {u : CodeUnit} (hu : u.isBlank = false) {t : Text}
    (h : u ∈ t) (column : Nat) : u ∈ expandTabsFrom width column t := by
  induction t generalizing column with
  | nil => cases h
  | cons v t ih =>
    unfold expandTabsFrom
    rcases List.mem_cons.1 h with rfl | h
    · have htab : u ≠ tab := by
        rintro rfl
        cases hu
      rw [if_neg htab]
      split
      · exact List.mem_cons_self
      · exact List.mem_cons_self
    · split
      · exact List.mem_append_right _ (ih h _)
      · split
        · exact List.mem_cons_of_mem _ (ih h _)
        · exact List.mem_cons_of_mem _ (ih h _)

theorem mem_ink {u : CodeUnit} (hu : u.isBlank = false) {t : Text} : u ∈ t.ink ↔ u ∈ t := by
  simp [ink, hu]

/-- A unit that is not white space is kept when tabs are expanded and gaps left out. -/
theorem mem_trimmed {u : CodeUnit} (hu : u.isBlank = false) {t : Text} (h : u ∈ t) :
    u ∈ (withoutLineGaps t.expandTabs).trimEnd := by
  have hink : ((stripLineEnds t.expandTabs).trimEnd).ink = t.expandTabs.ink :=
    ink_eq_of_words_eq ((words_trimEnd _).trans (Thread.respaced_stripLineEnds _).words_eq)
  rw [← stripLineEnds_eq, ← mem_ink hu, hink, mem_ink hu]
  exact mem_expandTabsFrom hu h 0

/-- The first line is the start of a text. -/
theorem isPrefix_unlines (line : Text) (more : List Text) : line <+: unlines (line :: more) := by
  cases more with
  | nil => simp [unlines, join]
  | cons next more => simp [unlines, join, List.intercalate]

end Text

/-! ## Verbatim paragraphs of a source -/

namespace Pod

/-- What is kept of the text of a verbatim paragraph. -/
def Paragraph.verbatimText (p : Paragraph) : Text := (withoutLineGaps p.text.expandTabs).trimEnd

/-- The block that the text of a verbatim paragraph stands in. -/
def Paragraph.preBlock (p : Paragraph) : Text :=
  ofString "\\pre" ++ newline :: bracketed (escape p.verbatimText)

/-- A verbatim paragraph that is neither passed over nor raw text. -/
def Dispatch.isVerbatim (d : Dispatch) : Bool :=
  d.paragraph.kind == .verbatim && d.context.mode? != some .skip && d.context.mode? != some .data

/-- The blocks of the verbatim paragraphs among dispatches. -/
def preBlocks (ds : List Dispatch) : List Text :=
  (ds.filter (·.isVerbatim)).map (·.paragraph.preBlock)

theorem preBlocks_cons (d : Dispatch) (ds : List Dispatch) :
    preBlocks (d :: ds)
      = (if d.isVerbatim then [d.paragraph.preBlock] else []) ++ preBlocks ds := by
  cases h : d.isVerbatim <;> simp [preBlocks, h]

/-- A paragraph starts with a line that is not blank. -/
theorem Cut.exists_first {gap : Bool} {pod : List NumberedLine} {ps : List Paragraph}
    (h : Cut gap pod ps) {p : Paragraph} (hp : p ∈ ps) :
    ∃ first more, p = Paragraph.ofLines first more ∧ first.2.isBlank = false := by
  induction h with
  | nil gap => cases hp
  | blank _ _ ih => exact ih hp
  | @paragraph gap first more pod ps hfirst _ _ _ ih =>
    rcases List.mem_cons.1 hp with rfl | hp
    · exact ⟨first, more, rfl, hfirst⟩
    · exact ih hp

theorem verbatimText_ne_nil {source : Text} {p : Paragraph} (hp : p ∈ Paragraph.split source)
    (hkind : p.kind = .verbatim) : p.verbatimText ≠ [] := by
  obtain ⟨first, more, rfl, hfirst⟩ := (isPartition_split source).cut.exists_first hp
  obtain ⟨u, hu, hblank⟩ : ∃ u ∈ first.2, u.isBlank = false := by
    simpa [Text.isBlank] using hfirst
  have hline : (openingOf first.2).2 = first.2 := by
    rw [openingOf, (verbatim_opening hkind).1]
  have hmem : u ∈ (Paragraph.ofLines first more).text := by
    refine (isPrefix_unlines _ _).subset ?_
    rwa [hline]
  exact List.ne_nil_of_mem (mem_trimmed hblank hmem)

theorem Dispatch.taken_verbatim {d : Dispatch} (h : d.isVerbatim = true) :
    d.taken = (d.context, .raw (.verbatim d.paragraph.line)
      (stripLineEnds d.paragraph.text.expandTabs)) := by
  obtain ⟨⟨lists, regions⟩, ⟨kind, line, lines⟩, next⟩ := d
  simp only [isVerbatim, Bool.and_eq_true, beq_iff_eq, bne_iff_ne] at h
  obtain ⟨⟨rfl, hskip⟩, hdata⟩ := h
  unfold taken takeParagraph
  rw [if_neg fun hmet => hskip hmet.1]
  cases regions with
  | nil => rfl
  | cons region outer =>
    obtain ⟨target, mode, start⟩ := region
    cases mode with
    | data => exact absurd rfl hdata
    | pod => rfl
    | skip => rfl

end Pod

/-! ## Verbatim paragraphs in a draft -/

namespace Thread.Draft

variable {p : Policy} {d : Draft}

theorem run_verbatim (p : Policy) (d : Draft) (line : Int) (t : Text) :
    d.run p (Delivery.raw (.verbatim line) t).events = d.writeBody (verbatimBlock (escape t)) :=
  rfl

/-- A verbatim paragraph writes its block. -/
theorem brings_verbatim (k : Desk) (hd : d.Tagged) {q : Dispatch} (h : q.isVerbatim = true)
    (htext : q.paragraph.verbatimText ≠ []) :
    Brings k [q.paragraph.preBlock] d (d.run p q.taken.2.events) := by
  let front : Text := ofString "\\pre" ++ newline :: openBracket :: escape q.paragraph.verbatimText
  have hblock : q.paragraph.preBlock = front ++ [closeBracket] := by
    simp [Paragraph.preBlock, bracketed, front]
  have hbody : verbatimBlock (escape (stripLineEnds q.paragraph.text.expandTabs))
      = Writer.block q.paragraph.preBlock := by
    rw [verbatimBlock, trimEnd_escape, stripLineEnds_eq]
    exact if_neg fun hempty => htext ((escape_eq_nil_iff _).1 (List.isEmpty_iff.1 hempty))
  have hne : Writer.block q.paragraph.preBlock ≠ [] := by simp [Writer.block, hblock]
  rw [Dispatch.taken_verbatim h, run_verbatim, hbody, writeBody, if_neg (by simpa using hne),
    hblock]
  have hhead : (front ++ [closeBracket]).head? = some backslash := rfl
  exact .place k hd (by decide) (by rw [hhead]; decide)

/-- The verbatim paragraphs among paragraphs write their blocks, in order. -/
theorem brings_takeParagraphs (k : Desk) (c : Context) {ps : List Paragraph}
    (htext : ∀ q ∈ ps, q.kind = .verbatim → q.verbatimText ≠ []) (hd : d.Tagged) :
    Brings k (Pod.preBlocks (dispatches c ps)) d (d.run p (takeParagraphs c ps).2.events) := by
  induction ps generalizing c d with
  | nil => exact .of_pieces ⟨[], (List.append_nil _).symm⟩
  | cons q ps ih =>
    obtain ⟨hq, htext⟩ := List.forall_mem_cons.1 htext
    let first : Dispatch := ⟨c, q, ps.head?⟩
    have hrest := ih first.taken.1 htext ((Tagged.invariant p).run hd first.taken.2.events)
    have hevents : (takeParagraphs c (q :: ps)).2.events
        = first.taken.2.events ++ (takeParagraphs first.taken.1 ps).2.events := rfl
    have hblocks : Pod.preBlocks (dispatches c (q :: ps))
        = (if first.isVerbatim then [q.preBlock] else [])
          ++ Pod.preBlocks (dispatches first.taken.1 ps) := Pod.preBlocks_cons first _
    rw [hevents, run_append, hblocks]
    refine .trans ?_ hrest
    split
    · rename_i hverbatim
      have hkind : q.kind = .verbatim := by
        simp only [Dispatch.isVerbatim, Bool.and_eq_true, beq_iff_eq] at hverbatim
        exact hverbatim.1.1
      exact brings_verbatim (q := first) k hd hverbatim (hq hkind)
    · exact .of_pieces (d.exists_pieces_run p _)

end Thread.Draft

/-! ## Verbatim paragraphs on a page -/

/-- The verbatim paragraphs of a source that are taken as such. -/
def sourceBlocks (source : Text) : List Text :=
  Pod.preBlocks (dispatches .empty (Paragraph.split source))

/-- The draft of a page brings the blocks of all verbatim paragraphs of its source. -/
theorem brings_pageDraft (k : Desk) (o : Options) (sections : Registry) (source : Text) :
    Draft.Brings k (sourceBlocks source) (.blank sections) (pageDraft o sections source) := by
  let p := o.policy
  let body := takeParagraphs .empty (Paragraph.split source)
  let start := Draft.start p (o.title.getD []) (isContentless (Paragraph.split source)) sections
  have hstart : Draft.Brings k [] (.blank sections) start := .of_pieces ⟨start.pieces, rfl⟩
  have htagged : start.Tagged := (Draft.Tagged.invariant p).start nofun _ _
  have hbody : Draft.Brings k (sourceBlocks source) start (start.run p body.2.events) :=
    Draft.brings_takeParagraphs k .empty (fun q => Pod.verbatimText_ne_nil) htagged
  have hpage : pageDraft o sections source
      = ((start.run p body.2.events).run p (Pod.endDocument body.1).events).complete
        (isContentless (Paragraph.split source)) :=
    congrArg (Draft.complete _) (start.run_append p body.2.events (Pod.endDocument body.1).events)
  have hend : Draft.Brings k [] (start.run p body.2.events) (pageDraft o sections source) := by
    rw [hpage]
    exact .of_pieces (Draft.exists_pieces_complete p _ _ _)
  have hall := (hstart.trans hbody).trans hend
  rwa [List.nil_append, List.append_nil] at hall

/-- What a page brings stands on it, each block in one piece and one behind the other. -/
theorem holdsInOrder_finished {k : Desk} {blocks : List Text} {sections : Registry} {d : Draft}
    (h : Draft.Brings k blocks (.blank sections) d) : HoldsInOrder blocks (k.finished d) := by
  obtain ⟨pieces, hpieces, hwrites⟩ := h
  obtain ⟨behind, hfinished, hbehind⟩ :=
    Sink.holdsInOrder_foldl hwrites (k.navigation d.sections) (.on .fresh)
  rw [Desk.finished, hpieces]
  exact hfinished ▸ hbehind.append_left _

/-- A conversion fails before it reads its source only because a supplied anchor is none. -/
theorem convert_refused {file source : Text} {o : Options} {e : Failure}
    (hcreate : Registry.create ((resolveAnchors file source o).1.getD []) = .error e) :
    ∃ heading anchor, (heading, anchor) ∈ o.anchors.getD [] ∧ Thread.isAnchor anchor = false
      ∧ (convert file source o).failure = some (.invalidAnchor anchor heading)
      ∧ (convert file source o).output = [] := by
  obtain ⟨anchor, heading, hmem, hanchor, rfl⟩ := exists_of_create_error hcreate
  have hsupplied : (resolveAnchors file source o).1 = o.anchors := by
    cases hanchors : o.anchors with
    | some anchors => simp [resolveAnchors, hanchors]
    | none =>
      obtain ⟨sections, hok⟩ := exists_create_resolved file source (o := o) (by simp [hanchors])
      cases hcreate.symm.trans hok
  have hreceived := receiveSource_unstarted
    (w := Writer.on .fresh (resolvedOptions file source o)) hcreate file source
  rw [hsupplied] at hmem
  refine ⟨heading, anchor, hmem, hanchor, ?_, ?_⟩
  · rw [failure_convert, convertInto_eq, hreceived]
    rfl
  · have hinto : (convert file source o).output
        = (convertInto .fresh file source (resolvedOptions file source o)).output := rfl
    rw [hinto, convertInto_eq, hreceived]
    rfl

/-- The verbatim paragraphs of a source are on its page, whatever the options: each in one piece,
the text in its block as it is in the source but for tabs, gaps and markup, and all in their
order.  The one thing that can prevent it is a supplied anchor that is none, for which the
conversion fails before it writes anything. -/
theorem verbatim_in_order (file source : Text) (o : Options) :
    (∃ heading anchor, (heading, anchor) ∈ o.anchors.getD [] ∧ Thread.isAnchor anchor = false
        ∧ (convert file source o).failure = some (.invalidAnchor anchor heading)
        ∧ (convert file source o).output = [])
      ∨ HoldsInOrder (sourceBlocks source) (convert file source o).output := by
  cases hcreate : Registry.create ((resolveAnchors file source o).1.getD []) with
  | error e => exact .inl (convert_refused hcreate)
  | ok sections =>
    refine .inr ?_
    rw [(convert_run hcreate).1]
    exact holdsInOrder_finished (brings_pageDraft _ _ sections source)

/-- In a list, with a tab, a gap at the end of a line, brackets, and a blank line inside. -/
example : sourceBlocks "=over\n\n=item *\n\n\ta[0]  \n\n  b\n\n=back\n"
    = [ofString "\\pre\n[        a\\entity[91]0\\entity[93]\n\n  b]"] := by
  decide +kernel

end PodLoom
