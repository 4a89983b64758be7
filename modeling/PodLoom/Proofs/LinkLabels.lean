import PodLoom.Proofs.LinkContent

set_option autoImplicit false

/-!
# The text that a link to a section shows

A link to a section shows its text without quotes: the reader puts them around the name of a
section that stands for a text, and the writer takes them away again.  It takes one away from
either end of the rendered text, whoever put it there, and without looking at the other end.

So a text of its own is shown as it should be, without the quotes around it and with all others,
exactly if it is rendered with a quote at both ends or at neither, and not as a single quote
(`link_label_kept_iff`).
-/

namespace PodLoom

open Text CodeUnit
open PodLoom.Pod (Block Event Inline Link Paragraph inlineEvents isQuoted unquote)
open PodLoom.Thread (Draft Options Registry Rendered anchorLink stripQuotes)

/-! ## Quotes at the ends of a text -/

namespace Thread

/-- The writer looks at each end of a text on its own. -/
theorem stripQuotes_ends (u v : CodeUnit) (s : Text) :
    stripQuotes (u :: (s ++ [v]))
      = (if u = quote then [] else [u]) ++ (s ++ if v = quote then [] else [v]) := by
  have hend : ∀ front : Text, dropQuoteAtEnd (front ++ [v])
      = front ++ if v = quote then [] else [v] := by
    intro front
    unfold dropQuoteAtEnd
    simp only [List.getLast?_concat, List.dropLast_concat, Option.some_inj]
    split
    · rw [List.append_nil]
    · rfl
  unfold stripQuotes dropQuoteAtStart
  simp only [List.head?_cons, List.tail_cons, Option.some_inj]
  split
  · rw [hend, List.nil_append]
  · rw [← List.cons_append, hend]
    rfl

/-- Writer and reader take the same quotes away exactly if quotes stand at both ends or at neither,
each end with its own. -/
theorem stripQuotes_eq_unquote_iff (t : Text) :
    stripQuotes t = unquote t
      ↔ (t.head? = some quote ↔ t.getLast? = some quote) ∧ t ≠ [quote] := by
  cases t with
  | nil => exact iff_of_true rfl ⟨by simp, by simp⟩
  | cons u rest =>
    rcases List.eq_nil_or_concat rest with rfl | ⟨s, v, rfl⟩
    · by_cases hu : u = quote
      · subst hu
        exact iff_of_false (by decide) fun h => h.2 rfl
      · refine iff_of_true ?_ ⟨Iff.rfl, by simpa using hu⟩
        simp [stripQuotes, dropQuoteAtStart, dropQuoteAtEnd, unquote, isQuoted, hu]
    · rw [List.concat_eq_append]
      have hlast : (u :: (s ++ [v])).getLast? = some v := by
        rw [← List.cons_append, List.getLast?_concat]
      have hlong : u :: (s ++ [v]) ≠ [quote] := by simp
      rw [stripQuotes_ends, Pod.unquote_ends, hlast, List.head?_cons, Option.some_inj, Option.some_inj,
        and_iff_left hlong]
      -- A quote at one end only makes a difference of one unit.
      by_cases hu : u = quote <;> by_cases hv : v = quote <;> simp [hu, hv]

/-- The text that a link shows can be read off it. -/
theorem anchorLink_text_inj {anchor text text' : Text} :
    anchorLink anchor text = anchorLink anchor text' ↔ text = text' := by
  constructor
  · intro h
    rw [anchorLink_eq, anchorLink_eq] at h
    have hbehind := List.append_cancel_left (List.append_cancel_left h)
    exact List.append_cancel_right (List.append_cancel_left hbehind)
  · rintro rfl
    rfl

end Thread

/-! ## Links with a text of their own -/

theorem Pod.display_of_label {content label : Text} (h : (Link.parse content).label = some label) :
    (Link.parse content).display = label := by
  unfold Link.parse at h ⊢
  dsimp only at h ⊢
  split at h
  · rename_i hurl
    rw [if_pos hurl, show (Pod.splitLabel content).1 = some label from h]
    rfl
  · rename_i hurl
    rw [if_neg hurl, show (Pod.splitLabel content).1 = some label from h]
    rfl

section

variable {file source : Text} {o : Options} {sections : Registry}

/-- The anchors of the sections that are known where a link stands are not empty. -/
theorem anchor_ne_nil_of_lookup
    (hsections : Registry.create ((resolveAnchors file source o).1.getD []) = .ok sections)
    {events more : List Event} (hbody : Pod.bodyEvents source = events ++ more) {name anchor : Text}
    (hlookup : (writerAfter file source o
      (.docStart (sourceInfo file source) :: events)).sections.lookup name = some anchor) :
    anchor ≠ [] := by
  rw [writerAfter_body hsections hbody] at hlookup
  obtain ⟨headings, hregistered⟩ := exists_registerAll_draftAfter
    (resolvedOptions file source o).policy (o.title.getD []) sections source events
  have hanchors := (Registry.allAnchors_create hsections).registerAll
    Thread.isAnchor_numberedAnchor headings
  rw [← hregistered] at hanchors
  exact Registry.ne_nil_of_isAnchor (hanchors.of_lookup hlookup)

/-- A link with a text of its own to a known section adds a link around that text, without a quote
at its start and without one at its end. -/
theorem adds_link_label
    (hsections : Registry.create ((resolveAnchors file source o).1.getD []) = .ok sections)
    {before after : List Event} {delimiter : Pod.Delimiter} {children : List Inline} {line : Int}
    (hlink : Pod.sourceEvents file source
      = before ++ (inlineEvents [.code 'L' delimiter children line] ++ after))
    {label name anchor : Text} (hlabel : (Link.parse (Inline.sources children)).label = some label)
    (hname : (Link.parse (Inline.sources children)).sectionName? line = some name)
    (hsome : name ≠ [])
    (hlookup : (writerAfter file source o before).sections.lookup name = some anchor)
    {shown : Rendered} (hshown : Draft.contentOf (Inline.parse line label)
      (writerAfter file source o before).sections = shown) :
    Adds file source o before (inlineEvents [.code 'L' delimiter children line])
      ⟨anchorLink anchor (stripQuotes shown.text), stripQuotes shown.plain⟩ := by
  have hanchor : anchor ≠ [] := by
    have henclosed := hlink
    rw [inlineEvents_link] at henclosed
    obtain ⟨events, more, rfl, hbody⟩ := exists_body_of_enclosed henclosed
    exact anchor_ne_nil_of_lookup hsections hbody hlookup
  have hadds := adds_link hsections hlink rfl
  rwa [Thread.renderLink_of_sectionName? hname hsome hlookup hanchor,
    Pod.display_of_label hlabel, hshown] at hadds

/-- The sections that are known in the only paragraph of a source are the supplied ones. -/
theorem sections_in_paragraph
    (hsections : Registry.create ((resolveAnchors file source o).1.getD []) = .ok sections)
    {line : Nat} {ls : List Text}
    (hsplit : Paragraph.split source = [⟨.command "pod", 1, [[]]⟩, ⟨.ordinary, line, ls⟩]) :
    (writerAfter file source o
      [.docStart (sourceInfo file source), .start (.para line)]).sections = sections := by
  have hbody : Pod.bodyEvents source = [.start (.para line)]
      ++ (inlineEvents (Block.nodes line (unlines ls)) ++ [.finish (.para line)]) :=
    Pod.bodyEvents_paragraph hsplit
  rw [writerAfter_body hsections hbody]
  exact Draft.sections_start _ _ _ _

end

/-- A link with a text of its own that names a known section is rendered as a link to its anchor
around that text as it is rendered, without a quote at its start and without one at its end.  That
is the text without the quotes around it and with all others, exactly if it is rendered with a
quote at both ends or at neither, and not as a single quote. -/
theorem link_label_kept_iff (file source : Text) (o : Options) {sections : Registry}
    (hsections : Registry.create ((resolveAnchors file source o).1.getD []) = .ok sections)
    {before after : List Event} {delimiter : Pod.Delimiter} {children : List Inline} {line : Int}
    (hlink : Pod.sourceEvents file source
      = before ++ (inlineEvents [.code 'L' delimiter children line] ++ after))
    {label name anchor : Text} (hlabel : (Link.parse (Inline.sources children)).label = some label)
    (hname : (Link.parse (Inline.sources children)).sectionName? line = some name)
    (hsome : name ≠ [])
    (hlookup : (writerAfter file source o before).sections.lookup name = some anchor) :
    let known := (writerAfter file source o before).sections
    let shown := Draft.contentOf (Inline.parse line label) known
    Adds file source o before (inlineEvents [.code 'L' delimiter children line])
        ⟨anchorLink anchor (stripQuotes shown.text), stripQuotes shown.plain⟩
      ∧ (anchorLink anchor (stripQuotes shown.text) = anchorLink anchor (unquote shown.text)
        ↔ (shown.text.head? = some quote ↔ shown.text.getLast? = some quote)
          ∧ shown.text ≠ [quote]) := by
  intro known shown
  exact ⟨adds_link_label hsections hlink hlabel hname hsome hlookup rfl,
    Thread.anchorLink_text_inj.trans (Thread.stripQuotes_eq_unquote_iff shown.text)⟩

/-- A section of another page, a page that knows it, and what is known there. -/
def knownSection : Text × Text := ("FOO", "foo")

def continuedPage : Options := { Options.plain with anchors := some [knownSection] }

def continuedSections : Registry := { Registry.empty with supplied := [knownSection] }

theorem create_continued (source : Text) :
    Registry.create ((resolveAnchors defaultFileName source continuedPage).1.getD [])
      = .ok continuedSections := by
  have hanchors : (resolveAnchors defaultFileName source continuedPage).1
      = some [knownSection] := rfl
  rw [hanchors]
  decide +kernel

theorem lookup_continued {source : Text} {ls : List Text}
    (hsplit : Paragraph.split source = [⟨.command "pod", 1, [[]]⟩, ⟨.ordinary, 3, ls⟩]) :
    (writerAfter defaultFileName source continuedPage
      [.docStart (sourceInfo defaultFileName source), .start (.para 3)]).sections.lookup
        knownSection.1 = some knownSection.2 := by
  have hknown := sections_in_paragraph (create_continued source) hsplit
  rw [Nat.cast_ofNat] at hknown
  rw [hknown]
  decide +kernel

/-- A text in quotes, a link with that text, and a source whose only paragraph it is. -/
def quotedLabel : Text := "\"bar\""

def quotedLabelNodes : List Inline := [.text "\"bar\"|/FOO"]

def quotedLabelSource : Text := "=pod\n\nL<\"bar\"|/FOO>\n"

theorem split_quotedLabelSource : Paragraph.split quotedLabelSource
    = [⟨.command "pod", 1, [[]]⟩, ⟨.ordinary, 3, ["L<\"bar\"|/FOO>"]⟩] := by
  decide +kernel

theorem sourceEvents_quotedLabel :
    Pod.sourceEvents defaultFileName quotedLabelSource
      = [.docStart (sourceInfo defaultFileName quotedLabelSource), .start (.para 3)]
        ++ (inlineEvents (linkAlone quotedLabelNodes)
          ++ [.finish (.para 3), .docEnd (sourceErrata quotedLabelSource)]) :=
  sourceEvents_of_link defaultFileName split_quotedLabelSource (by cbv)

/-- The link shows the text without the quotes. -/
theorem link_label_kept_quoted :
    (Link.parse (Inline.sources quotedLabelNodes)).label = some quotedLabel
      ∧ (Link.parse (Inline.sources quotedLabelNodes)).sectionName? 3 = some knownSection.1
      ∧ Adds defaultFileName quotedLabelSource continuedPage
        [.docStart (sourceInfo defaultFileName quotedLabelSource), .start (.para 3)]
        (inlineEvents (linkAlone quotedLabelNodes)) ⟨anchorLink "foo" "bar", "bar"⟩ := by
  have hlabel : (Link.parse (Inline.sources quotedLabelNodes)).label = some quotedLabel := by
    decide +kernel
  have hname : (Link.parse (Inline.sources quotedLabelNodes)).sectionName? 3
      = some knownSection.1 := by
    decide +kernel
  obtain ⟨hadds, hkept⟩ := link_label_kept_iff defaultFileName quotedLabelSource continuedPage
    (create_continued quotedLabelSource) sourceEvents_quotedLabel hlabel hname (by decide)
    (lookup_continued split_quotedLabelSource)
  have hnodes : Inline.parse 3 quotedLabel = [.text quotedLabel] := by cbv
  rw [hnodes, Draft.contentOf_text, Draft.contentOf_nil, Rendered.append_empty] at hadds hkept
  have hends := hkept.2 ⟨by decide +kernel, by decide +kernel⟩
  have hquotes : unquote (Rendered.ofText quotedLabel).text = "bar" := by decide +kernel
  have hplain : stripQuotes (Rendered.ofText quotedLabel).plain = "bar" := by decide +kernel
  rw [hends, hquotes, hplain] at hadds
  exact ⟨hlabel, hname, hadds⟩

/-- A text that only starts with a quote, a link with that text, and a source whose only paragraph
it is. -/
def openLabel : Text := "\"bar"

def openLabelNodes : List Inline := [.text "\"bar|/FOO"]

def openLabelSource : Text := "=pod\n\nL<\"bar|/FOO>\n"

theorem split_openLabelSource : Paragraph.split openLabelSource
    = [⟨.command "pod", 1, [[]]⟩, ⟨.ordinary, 3, ["L<\"bar|/FOO>"]⟩] := by
  decide +kernel

theorem sourceEvents_openLabel :
    Pod.sourceEvents defaultFileName openLabelSource
      = [.docStart (sourceInfo defaultFileName openLabelSource), .start (.para 3)]
        ++ (inlineEvents (linkAlone openLabelNodes)
          ++ [.finish (.para 3), .docEnd (sourceErrata openLabelSource)]) :=
  sourceEvents_of_link defaultFileName split_openLabelSource (by cbv)

/-- The link leaves the quote out, though none stands at the other end. -/
theorem link_label_loses_quote :
    Pod.sourceEvents defaultFileName openLabelSource
        = [.docStart (sourceInfo defaultFileName openLabelSource), .start (.para 3)]
          ++ (inlineEvents (linkAlone openLabelNodes)
            ++ [.finish (.para 3), .docEnd (sourceErrata openLabelSource)])
      ∧ (Link.parse (Inline.sources openLabelNodes)).label = some openLabel
      ∧ (Link.parse (Inline.sources openLabelNodes)).sectionName? 3 = some knownSection.1
      ∧ (∀ r, Draft.contentOf (Inline.parse 3 openLabel) r = .ofText openLabel)
      ∧ unquote (Rendered.ofText openLabel).text = openLabel
      ∧ Adds defaultFileName openLabelSource continuedPage
        [.docStart (sourceInfo defaultFileName openLabelSource), .start (.para 3)]
        (inlineEvents (linkAlone openLabelNodes)) ⟨anchorLink "foo" "bar", "bar"⟩
      ∧ anchorLink "foo" "bar" ≠ anchorLink "foo" openLabel := by
  have hlabel : (Link.parse (Inline.sources openLabelNodes)).label = some openLabel := by
    decide +kernel
  have hname : (Link.parse (Inline.sources openLabelNodes)).sectionName? 3
      = some knownSection.1 := by
    decide +kernel
  have hnodes : Inline.parse 3 openLabel = [.text openLabel] := by cbv
  have hshown : ∀ r, Draft.contentOf (Inline.parse 3 openLabel) r = .ofText openLabel := by
    intro r
    rw [hnodes, Draft.contentOf_text, Draft.contentOf_nil, Rendered.append_empty]
  have hadds := adds_link_label (create_continued openLabelSource) sourceEvents_openLabel hlabel
    hname (by decide) (lookup_continued split_openLabelSource) (hshown _)
  have htext : stripQuotes (Rendered.ofText openLabel).text = "bar" := by decide +kernel
  have hplain : stripQuotes (Rendered.ofText openLabel).plain = "bar" := by decide +kernel
  rw [htext, hplain] at hadds
  exact ⟨sourceEvents_openLabel, hlabel, hname, hshown, by decide +kernel, hadds,
    by decide +kernel⟩

end PodLoom
