import PodLoom.Proofs.Contents
import PodLoom.Proofs.Text.Splitting
import PodLoom.Proofs.Thread.Content
import PodLoom.Proofs.WellFormed

set_option autoImplicit false

/-!
# The page header under `NAME`

Without a given title the page header is made of the words of the paragraph under `NAME`, as
they are rendered: the word before the first lone hyphen and the words behind it.  The words
are those of thread, and a macro may begin in one of them and end in another.  So each of the
two is complete thread, with nothing open before it, exactly if neither the title nor the hyphen
stands inside the argument of a macro (`name_header_apart_iff`).
-/

namespace PodLoom

open Text CodeUnit
open PodLoom.Pod (Block Element Event Inline Link Paragraph bodyEvents)
open PodLoom.Thread (Draft Frame Options Registry Rendered Writer)

namespace Thread

/-! ## Contents with matching brackets -/

namespace Balanced

theorem command {name : String} (hname : Balanced (ofString name)) {args : List Text}
    (h : ∀ t ∈ args, Balanced t) : Balanced (command name args) := by
  have hargs : Balanced (args.flatMap Thread.bracketed) := by
    rw [List.flatMap]
    refine flatten fun s hs => ?_
    obtain ⟨t, ht, rfl⟩ := List.mem_map.1 hs
    exact (h t ht).bracketed
  have hslash : Balanced [backslash] := by decide
  exact hslash.append (hname.append hargs)

theorem unary {name : String} (hname : Balanced (ofString name)) {arg : Text} (h : Balanced arg) :
    Balanced (Thread.command name [arg]) :=
  command hname fun _ ht => List.mem_singleton.1 ht ▸ h

theorem binary {name : String} (hname : Balanced (ofString name)) {arg arg' : Text}
    (h : Balanced arg) (h' : Balanced arg') : Balanced (Thread.command name [arg, arg']) := by
  refine command hname fun t ht => ?_
  rcases List.mem_cons.1 ht with rfl | ht
  · exact h
  · exact List.mem_singleton.1 ht ▸ h'

theorem dropQuoteAtStart {t : Text} (h : Balanced t) : Balanced (dropQuoteAtStart t) := by
  unfold Thread.dropQuoteAtStart
  split
  · rename_i hquote
    obtain ⟨rest, rfl⟩ := List.head?_eq_some_iff.1 hquote
    exact h
  · exact h

theorem dropQuoteAtEnd {t : Text} (h : Balanced t) : Balanced (dropQuoteAtEnd t) := by
  unfold Thread.dropQuoteAtEnd
  split
  · rename_i hquote
    have hconcat := List.dropLast_append_getLast? quote hquote
    rw [← hconcat, Balanced, depthAfter_append] at h
    obtain ⟨d, ht, hlast⟩ := Option.bind_eq_some_iff.1 h
    obtain rfl : d = 0 := Option.some.inj hlast
    exact ht
  · exact h

theorem stripQuotes {t : Text} (h : Balanced t) : Balanced (stripQuotes t) :=
  h.dropQuoteAtStart.dropQuoteAtEnd

end Balanced

theorem balanced_wrapped {name : String} (hname : Balanced (ofString name)) {content : Rendered}
    (h : Balanced content.text) : Balanced (content.wrapped name).text := by
  unfold Rendered.wrapped
  split
  · exact .nil
  · exact .unary hname h

theorem balanced_renderCode {letter : CodeUnit} (hletter : letter.isUpper = true)
    {content : Rendered} (h : Balanced content.text) :
    Balanced (renderCode [letter] content).1.text := by
  unfold renderCode
  split_ifs
  · exact balanced_wrapped (by decide) h
  · exact balanced_wrapped (by decide) h
  · exact balanced_wrapped (by decide) h
  · exact balanced_wrapped (by decide) h
  · exact h
  · exact .nil
  · exact (clean_renderEscape content).balanced
  · have hmarkup := isMarkup_eq_false.1
      (isMarkup_of_class (by decide) (by decide) (by decide) hletter)
    have hfront : Balanced [letter, less] :=
      (Balanced.of_no_brackets fun u hu => List.mem_singleton.1 hu ▸ hmarkup.2).append
        (show Balanced [less] by decide)
    exact hfront.append (h.append (show Balanced [greater] by decide))

theorem balanced_numberedAnchor (n : Nat) : Balanced (numberedAnchor n) :=
  (clean_numberedAnchor n).balanced

theorem Registry.balanced_create {anchors : List (Text × Text)}
    (h : ∀ pair ∈ anchors, Balanced pair.2) {r : Registry}
    (hr : Registry.create anchors = .ok r) : r.AllAnchors Balanced := by
  rw [Registry.eq_of_create hr]
  exact ⟨fun pair hpair => h pair (Keyed.mem_of_mem_inOrder hpair),
    fun _ hs => (List.not_mem_nil hs).elim⟩

theorem balanced_renderLink {r : Registry} (hr : r.AllAnchors Balanced) (kind : Pod.LinkKind)
    (target heading : Option Text) (hasLabel : Bool) {content : Rendered}
    (h : Balanced content.text) :
    Balanced (renderLink r kind target heading hasLabel content).text := by
  have hurl : Balanced (command "link" [escape (target.getD []), content.text]) :=
    .binary (by decide) (.escape _) h
  unfold renderLink
  dsimp only
  split
  · split
    · exact (show Balanced [less] by decide).append
        (hurl.append (show Balanced [greater] by decide))
    · exact hurl
  · split
    · split
      · rename_i anchor hfound
        have hanchor := hr.of_lookup (Option.filter_eq_some_iff.1 hfound).1
        exact .binary (by decide) ((show Balanced [ofChar '#'] by decide).append hanchor)
          h.stripQuotes
      · exact h
    · exact h

/-- All brackets match in the content of formatted text. -/
theorem balanced_contentOf {r : Registry} (hr : r.AllAnchors Balanced) (nodes : List Inline)
    (h : Inline.allUpright nodes = true) : Balanced (Draft.contentOf nodes r).text := by
  induction nodes using Pod.inlineEvents.induct with
  | case1 =>
    rw [Draft.contentOf_nil]
    exact .nil
  | case2 t rest ih =>
    simp only [Inline.allUpright, Inline.upright, Bool.true_and] at h
    rw [Draft.contentOf_text]
    exact (Balanced.escape t).append (ih h)
  | case3 delimiter children line rest link ihdisplay ihrest =>
    simp only [Inline.allUpright, Bool.and_eq_true] at h
    rw [Draft.contentOf_link]
    exact (balanced_renderLink hr _ _ _ _ (ihdisplay (Pod.allUpright_parse line _))).append
      (ihrest h.2)
  | case4 letter delimiter children line rest hletter ihchildren ihrest =>
    simp only [Inline.allUpright, Inline.upright, Bool.and_eq_true] at h
    rw [Draft.contentOf_code r hletter]
    exact (balanced_renderCode h.1.1 (ihchildren h.1.2)).append (ihrest h.2)

/-! ## Words of thread -/

/-- A text that starts and ends outside any argument: all brackets match before it, and in
it. -/
structure StandsApart (before t : Text) : Prop where
  ahead : Balanced before
  own : Balanced t

theorem balanced_flatten_words {t : Text} : Balanced t.words.flatten ↔ Balanced t := by
  rw [Balanced, flatten_words, depthAfter_ink]
  exact Iff.rfl

theorem depthAfter_join (d : Nat) (ws : List Text) :
    depthAfter d (join [space] ws) = depthAfter d ws.flatten := by
  induction ws generalizing d with
  | nil => rfl
  | cons w rest ih =>
    cases rest with
    | nil => simp [join]
    | cons w' rest =>
      rw [join_cons_cons, List.flatten_cons, depthAfter_append, depthAfter_append]
      refine congrArg _ (funext fun e => ?_)
      rw [← ih, depthAfter_append]
      rfl

theorem balanced_join_iff {ws : List Text} :
    Balanced (join [space] ws) ↔ Balanced ws.flatten := by
  rw [Balanced, depthAfter_join]
  exact Iff.rfl

theorem Balanced.right_iff {s t : Text} (hs : Balanced s) : Balanced (s ++ t) ↔ Balanced t := by
  rw [Balanced, depthAfter_append, hs, Option.bind_some]
  exact Iff.rfl

/-- Behind all of a text that is balanced no bracket is open, so none is before the last part of
it that is balanced. -/
theorem Balanced.left_iff {s t : Text} (ht : Balanced t) : Balanced (s ++ t) ↔ Balanced s := by
  rw [Balanced, depthAfter_append, Option.bind_eq_some_iff]
  constructor
  · rintro ⟨d, hs, hrest⟩
    rw [ht.depth d] at hrest
    obtain rfl := Option.some.inj hrest
    exact hs
  · intro hs
    exact ⟨0, hs, ht⟩

/-- The words on either side of a hyphen stand apart exactly if all the words match and
neither the first of them nor the hyphen is inside an argument. -/
theorem standsApart_iff (lead : List Text) (title : Text) (description : List Text) :
    (StandsApart (join [space] lead) title
        ∧ StandsApart (join [space] (lead ++ [title, ofString "-"])) (join [space] description))
      ↔ Balanced (lead ++ title :: ofString "-" :: description).flatten
        ∧ Balanced (join [space] lead) ∧ Balanced (join [space] (lead ++ [title])) := by
  have hhyphen : Balanced (ofString "-") := by decide
  have hthrough : Balanced (join [space] (lead ++ [title, ofString "-"]))
      ↔ Balanced (join [space] (lead ++ [title])) := by
    have hsplit : (lead ++ [title, ofString "-"]).flatten
        = (lead ++ [title]).flatten ++ ofString "-" := by simp
    rw [balanced_join_iff, hsplit, hhyphen.left_iff, balanced_join_iff]
  have hall : (lead ++ title :: ofString "-" :: description).flatten
      = (lead ++ [title, ofString "-"]).flatten ++ description.flatten := by simp
  have hfirst : (lead ++ [title]).flatten = lead.flatten ++ title := by simp
  constructor
  · rintro ⟨⟨hlead, htitle⟩, hahead, hdescription⟩
    refine ⟨?_, hlead, hthrough.1 hahead⟩
    rw [hall]
    exact (balanced_join_iff.1 hahead).append (balanced_join_iff.1 hdescription)
  · rintro ⟨hwhole, hlead, hbehind⟩
    have hahead := hthrough.2 hbehind
    refine ⟨⟨hlead, ?_⟩, hahead, ?_⟩
    · rw [balanced_join_iff, hfirst] at hbehind
      exact (balanced_join_iff.1 hlead).right_iff.1 hbehind
    · rw [hall] at hwhole
      exact balanced_join_iff.2 ((balanced_join_iff.1 hahead).right_iff.1 hwhole)

/-- The title is the word before the first lone hyphen between two words, and the description
the words behind it. -/
theorem exists_of_nameLine? {ws : List Text} {title description : Text}
    (h : Writer.nameLine? ws = some (title, description)) :
    ∃ lead rest, ws = lead ++ title :: ofString "-" :: rest ∧ rest ≠ []
      ∧ description = join [space] rest := by
  induction ws using Writer.nameLine?.induct with
  | case1 title' first rest =>
    rw [Writer.nameLine?, if_pos rfl] at h
    obtain ⟨rfl, rfl⟩ := Prod.mk.inj (Option.some.inj h)
    exact ⟨[], first :: rest, rfl, List.cons_ne_nil first rest, rfl⟩
  | case2 title' hyphen first rest hhyphen ih =>
    rw [Writer.nameLine?, if_neg hhyphen] at h
    obtain ⟨lead, rest', hws, hrest⟩ := ih h
    exact ⟨title' :: lead, rest', by rw [hws]; rfl, hrest⟩
  | case3 ws hshort =>
    unfold Writer.nameLine? at h
    split at h
    · exact absurd rfl (hshort _ _ _ _)
    · cases h

/-- Three words with a hyphen between the others can be cut in one way only. -/
theorem eq_of_three_words {first last title : Text} {lead description : List Text}
    (hlast : last ≠ ofString "-")
    (h : [first, ofString "-", last] = lead ++ title :: ofString "-" :: description) :
    lead = [] ∧ title = first ∧ description = [last] := by
  rcases lead with _ | ⟨word, _ | ⟨word', lead⟩⟩
  · simpa [eq_comm] using h
  · simp only [List.cons_append, List.nil_append, List.cons.injEq] at h
    exact absurd h.2.2.1 hlast
  · have hlength := congrArg List.length h
    simp only [List.length_cons, List.length_append, List.length_nil] at hlength
    omega

/-! ## The event that writes the header -/

namespace Draft

theorem headerDone_finishBlock (p : Policy) {element : Element}
    (hpara : ∀ line, element ≠ .para line) (content : Rendered) (d : Draft) :
    (d.finishBlock p element content).headerDone = d.headerDone := by
  cases element with
  | «over» kind line => rfl
  | format code line => exact (extends_appendRendering line (renderCode code content) d).1
  | link kind target heading hasLabel line => rfl
  | head level line =>
    rcases grown_writeHeading p level content d with h | ⟨-, h⟩
    · exact h.1
    · exact h.1
  | para line => exact absurd rfl (hpara line)
  | verbatim line => exact (extends_writeBody _ d).1
  | data target line => exact (extends_writeData content d).1
  | item kind marker line => exact (Extends.onScope d (f := Scope.next _) fun s => settle_isPlain s).1
  | command name text line => rfl

/-- The paragraph that the header is made of is under `NAME`, and has words to make it of. -/
theorem headed_writeParagraph {d : Draft} {content : Rendered} (hmissing : d.headerDone = false)
    (hdone : (d.writeParagraph content).headerDone = true) :
    ∃ title description, d.inName = true
      ∧ Writer.nameLine? content.text.words = some (title, description)
      ∧ d.writeParagraph content = d.writeHeader title (some description) := by
  unfold writeParagraph at hdone ⊢
  split at hdone
  · rw [hmissing] at hdone
    cases hdone
  · rename_i hblank
    rw [if_neg hblank]
    split at hdone
    · rename_i title description hname
      split at hname
      · rename_i hunder
        exact ⟨title, description, (Bool.and_eq_true_iff.1 hunder).1, hname, rfl⟩
      · cases hname
    · rw [(extends_writeBody _ d).1, hmissing] at hdone
      cases hdone

/-- Only a paragraph writes the header behind the start of a document. -/
theorem headed_step {p : Policy} {d : Draft} {e : Event} (hmissing : d.headerDone = false)
    (hdone : (d.step p e).headerDone = true) :
    ∃ line frame frames title description, e = .finish (.para line) ∧ d.frames = frame :: frames
      ∧ d.inName = true ∧ Writer.nameLine? frame.content.text.words = some (title, description)
      ∧ d.step p e = { d with frames }.writeHeader title (some description) := by
  have hsame : (d.step p e).headerDone ≠ d.headerDone := by
    rw [hmissing, hdone]
    simp
  cases e with
  | docStart info => exact absurd rfl hsame
  | docEnd errata => exact absurd rfl hsame
  | text t => exact absurd rfl hsame
  | start element =>
    refine absurd ?_ hsame
    cases element with
    | «over» kind line => exact (extends_enter kind d).1
    | _ => rfl
  | finish element =>
    rcases finishElement_cases p element d with
      ⟨kind, line, rfl, h | h⟩ | h | ⟨frame, frames, hframes, -, h⟩
    · exact absurd (congrArg headerDone h) hsame
    · exact absurd ((congrArg headerDone h).trans (extends_exit d).1) hsame
    · exact absurd (congrArg headerDone h) hsame
    · by_cases hpara : ∃ line, element = .para line
      · obtain ⟨line, rfl⟩ := hpara
        have hparagraph : ({ d with frames }.writeParagraph frame.content).headerDone = true :=
          (congrArg headerDone h).symm.trans hdone
        obtain ⟨title, description, hname, hline, hwritten⟩ :=
          headed_writeParagraph (d := { d with frames }) hmissing hparagraph
        exact ⟨line, frame, frames, title, description, rfl, hframes, hname, hline,
          h.trans hwritten⟩
      · refine absurd ((congrArg headerDone h).trans ?_) hsame
        exact headerDone_finishBlock p (fun line heq => hpara ⟨line, heq⟩) frame.content
          { d with frames }

end Draft

end Thread

/-! ## The header of a conversion -/

open Thread (StandsApart)

/-- What the page header is made of when an event writes it: the words of a paragraph under
`NAME`, which are those of the content collected for it. -/
structure HeaderTaken (file source : Text) (o : Options) (before : List Event) (e : Event)
    (content : Rendered) (lead : List Text) (title : Text) (description : List Text) : Prop where
  words : content.text.words = lead ++ title :: ofString "-" :: description
  some : description ≠ []
  paragraph : ∃ line, e = .finish (.para line)
  written : ∃ page frames,
    (writerAfter file source o before).page = Option.some page
      ∧ page.frames = ⟨false, content⟩ :: frames ∧ page.inName = true
      ∧ writerAfter file source o (before ++ [e])
        = (Writer.writeHeader { page with frames } title (Option.some (join [space] description))
            { writerAfter file source o before with
              page := Option.some { page with frames } }).2

/-- The words are those of the frame that is open. -/
theorem HeaderTaken.words_of_frames {file source : Text} {o : Options} {before : List Event}
    {e : Event} {content : Rendered} {lead : List Text} {title : Text} {description : List Text}
    (h : HeaderTaken file source o before e content lead title description) {page : Thread.Page}
    (hpage : (writerAfter file source o before).page = Option.some page) {frame : Frame}
    {frames : List Frame} (hframes : page.frames = frame :: frames) :
    frame.content.text.words = lead ++ title :: ofString "-" :: description := by
  obtain ⟨page', frames', hpage', hframes', -, -⟩ := h.written
  obtain rfl := Option.some.inj (hpage.symm.trans hpage')
  obtain ⟨rfl, -⟩ := List.cons.inj (hframes.symm.trans hframes')
  exact h.words

/-- A page without a given title starts without a header. -/
theorem headerWritten_start {file source : Text} {o : Options} (htitle : o.hasTitle = false)
    {sections : Registry}
    (hsections : Registry.create ((resolveAnchors file source o).1.getD []) = .ok sections) :
    headerWritten (writerAfter file source o [.docStart (sourceInfo file source)]) = false := by
  rw [headerWritten_body hsections (List.nil_append (bodyEvents source)).symm,
    resolvedDraft_nil_of_untitled (by simp [htitle])]
  rfl

/-- The event that writes the header, among those between the start and the end of the source. -/
theorem exists_events_of_header {file source : Text} {o : Options} (htitle : o.hasTitle = false)
    {sections : Registry}
    (hsections : Registry.create ((resolveAnchors file source o).1.getD []) = .ok sections)
    {before after : List Event} {e : Event}
    (hsplit : Pod.sourceEvents file source = before ++ e :: after)
    (hdone : headerWritten (writerAfter file source o (before ++ [e])) = true) :
    ∃ events more, before = .docStart (sourceInfo file source) :: events
      ∧ bodyEvents source = events ++ e :: more := by
  have hthrough : Pod.sourceEvents file source = (before ++ [e]) ++ after := by rw [hsplit]; simp
  rcases sourceEvents_split hthrough with hnil | rfl | ⟨events, more, hstart, hbody⟩
  · simp at hnil
  · rw [List.append_nil] at hthrough
    rw [← hthrough, headerWritten, (writerAfter_sourceEvents hsections).1] at hdone
    cases hdone
  · cases before with
    | nil =>
      obtain ⟨rfl, -⟩ := List.cons.inj hstart
      have hmissing := headerWritten_start htitle hsections
      exact absurd (hmissing.symm.trans hdone) Bool.false_ne_true
    | cons first before =>
      rw [List.cons_append] at hstart
      obtain ⟨rfl, rfl⟩ := List.cons.inj hstart
      exact ⟨before, more, rfl, by rw [hbody, List.append_assoc, List.singleton_append]⟩

/-- What is collected for a paragraph when it finishes is the content of its text. -/
theorem exists_content_of_para (file : Text) {source : Text} (o : Options) (sections : Registry)
    {events more : List Event} {line : Int}
    (hbody : bodyEvents source = events ++ .finish (.para line) :: more) :
    ∃ t headings frames, (resolvedDraft file source o sections events).frames
      = ⟨false, Draft.contentOf (Block.nodes line t) (sections.registerAll headings)⟩ :: frames := by
  obtain ⟨bs, hbs, -⟩ := Pod.blocked_deliver (Paragraph.split source)
  obtain ⟨before, b, after, inner, -, rfl, hb, -⟩ :=
    Block.exists_of_finish (by rfl) (hbs.symm.trans hbody)
  obtain ⟨t, rfl⟩ : ∃ t, inner = Pod.inlineEvents (Block.nodes line t) := by
    cases b with
    | paragraph line' t =>
      have hstart := (List.cons.inj hb).1
      obtain ⟨rfl⟩ := Element.para.inj (Event.start.inj hstart)
      exact ⟨t, (List.append_cancel_right (List.cons.inj hb).2).symm⟩
    | listStart kind line' => cases (List.cons.inj hb).1
    | listEnd kind line' => cases (List.cons.inj hb).1
    | _ => cases Event.start.inj (List.cons.inj hb).1
  rw [resolvedDraft_append]
  obtain ⟨headings, hsections⟩ := exists_registerAll_draftAfter
    (resolvedOptions file source o).policy (o.title.getD []) sections source
    (before.flatMap Block.events)
  obtain ⟨warnings, hrun⟩ := Draft.run_opened (resolvedOptions file source o).policy
    (resolvedDraft file source o sections (before.flatMap Block.events))
    (.para line) rfl (Block.nodes line t)
  refine ⟨t, headings,
    (resolvedDraft file source o sections (before.flatMap Block.events)).frames, ?_⟩
  rw [hrun, ← hsections]
  rfl

/-- If all brackets match in the supplied anchors, they do in all anchors of a conversion. -/
theorem balanced_resolved {file source : Text} {o : Options} {sections : Registry}
    (hsections : Registry.create ((resolveAnchors file source o).1.getD []) = .ok sections)
    (hanchors : ∀ pair ∈ o.anchors.getD [], Thread.Balanced pair.2) :
    sections.AllAnchors Thread.Balanced := by
  cases hsupplied : o.anchors with
  | some anchors =>
    rw [hsupplied] at hanchors
    refine Registry.balanced_create (fun pair hpair => hanchors pair ?_) hsections
    simpa [resolveAnchors, hsupplied] using hpair
  | none =>
    obtain ⟨sections', hcreate, htidy⟩ := exists_tidy_create file source hsupplied
    obtain rfl := Except.ok.inj (hsections.symm.trans hcreate)
    exact ⟨fun pair hpair => (htidy.supplied pair hpair).balanced,
      fun s hs => (htidy.anchors s hs).balanced⟩

/-- An event behind the start of a source that writes the page header is the end of a paragraph
with words to make it of.  All brackets of the paragraph match if they do in the supplied
anchors. -/
theorem exists_headerTaken_of_body {file source : Text} {o : Options} {sections : Registry}
    (hsections : Registry.create ((resolveAnchors file source o).1.getD []) = .ok sections)
    {events more : List Event} {e : Event} (hbody : bodyEvents source = events ++ e :: more)
    (hmissing : (resolvedDraft file source o sections events).headerDone = false)
    (hdone : (resolvedDraft file source o sections (events ++ [e])).headerDone = true) :
    ∃ content lead title description,
      HeaderTaken file source o (.docStart (sourceInfo file source) :: events) e content lead title
        description
      ∧ (resolvedDraft file source o sections (events ++ [e])).pieces
        = (resolvedDraft file source o sections events).pieces
          ++ [.header title (some (join [space] description))]
      ∧ ((∀ pair ∈ o.anchors.getD [], Thread.Balanced pair.2) → Thread.Balanced content.text) := by
  have hbody' : bodyEvents source = (events ++ [e]) ++ more := by
    rw [hbody, List.append_assoc, List.singleton_append]
  let k := conversionDesk file source o
  let d := resolvedDraft file source o sections events
  have hw : writerAfter file source o (.docStart (sourceInfo file source) :: events)
      = k.writer d := writerAfter_body hsections hbody
  have hstep : resolvedDraft file source o sections (events ++ [e])
      = d.step (resolvedOptions file source o).policy e := by
    rw [resolvedDraft_append]
    rfl
  rw [hstep] at hdone ⊢
  obtain ⟨line, frame, frames, title, description, rfl, hframes, hname, hline, hwritten⟩ :=
    Draft.headed_step (d := d) hmissing hdone
  obtain ⟨t, headings, outer, hcontent⟩ := exists_content_of_para file o sections hbody
  obtain ⟨rfl, rfl⟩ := List.cons.inj (hframes.symm.trans hcontent)
  obtain ⟨lead, rest, hwords, hrest, rfl⟩ := Thread.exists_of_nameLine? hline
  refine ⟨_, lead, title, rest,
    ⟨hwords, hrest, ⟨line, rfl⟩, k.page d, frames, ?_, hframes, hname, ?_⟩, ?_, fun hanchors => ?_⟩
  · rw [hw]
    rfl
  · have hheader := k.writeHeader_run { d with frames } title (some (join [space] rest))
    rw [List.cons_append, writerAfter_body hsections hbody', hstep, hwritten, hw]
    exact (congrArg Prod.snd hheader).symm
  · rw [hwritten]
    rfl
  · exact Thread.balanced_contentOf
      ((balanced_resolved hsections hanchors).registerAll Thread.balanced_numberedAnchor headings) _
      (Pod.allUpright_parse line t.expandTabs)

/-- Without a given title, an event that writes the page header is the end of a paragraph with
words to make it of.  All brackets of the paragraph match if they do in the supplied anchors. -/
theorem exists_headerTaken {file source : Text} {o : Options} (htitle : o.hasTitle = false)
    {before after : List Event} {e : Event}
    (hsplit : Pod.sourceEvents file source = before ++ e :: after)
    (hmissing : headerWritten (writerAfter file source o before) = false)
    (hdone : headerWritten (writerAfter file source o (before ++ [e])) = true) :
    ∃ content lead title description,
      HeaderTaken file source o before e content lead title description
      ∧ ((∀ pair ∈ o.anchors.getD [], Thread.Balanced pair.2) → Thread.Balanced content.text) := by
  have hthrough : Pod.sourceEvents file source = (before ++ [e]) ++ after := by
    rw [hsplit, List.append_assoc, List.singleton_append]
  have hheader : ¬ HeaderMissing file source o := fun hnone =>
    Bool.false_ne_true ((hnone _ _ hthrough).symm.trans hdone)
  obtain ⟨sections, hsections⟩ := exists_create_of_header hheader
  obtain ⟨events, more, rfl, hbody⟩ := exists_events_of_header htitle hsections hsplit hdone
  have hbody' : bodyEvents source = (events ++ [e]) ++ more := by
    rw [hbody, List.append_assoc, List.singleton_append]
  rw [headerWritten_body hsections hbody] at hmissing
  rw [List.cons_append, headerWritten_body hsections hbody'] at hdone
  obtain ⟨content, lead, title, description, htaken, -, hbalanced⟩ :=
    exists_headerTaken_of_body hsections hbody hmissing hdone
  exact ⟨content, lead, title, description, htaken, hbalanced⟩

/-- Without a given title, the page header is made of words of a paragraph around a lone hyphen.
The title and the description are thread that starts and ends outside any argument, exactly if
all brackets of the paragraph match and neither its title nor its hyphen is inside an argument.
All of them match if they do in the supplied anchors. -/
theorem name_header_apart_iff (file source : Text) (o : Options) (htitle : o.hasTitle = false)
    {before after : List Event} {e : Event}
    (hsplit : Pod.sourceEvents file source = before ++ e :: after)
    (hmissing : headerWritten (writerAfter file source o before) = false)
    (hdone : headerWritten (writerAfter file source o (before ++ [e])) = true) :
    ∃ content lead title description,
      HeaderTaken file source o before e content lead title description
      ∧ ((StandsApart (join [space] lead) title
          ∧ StandsApart (join [space] (lead ++ [title, ofString "-"])) (join [space] description))
        ↔ Thread.Balanced content.text ∧ Thread.Balanced (join [space] lead)
          ∧ Thread.Balanced (join [space] (lead ++ [title])))
      ∧ ((∀ pair ∈ o.anchors.getD [], Thread.Balanced pair.2) → Thread.Balanced content.text) := by
  obtain ⟨content, lead, title, description, htaken, hbalanced⟩ :=
    exists_headerTaken htitle hsplit hmissing hdone
  refine ⟨content, lead, title, description, htaken, ?_, hbalanced⟩
  rw [Thread.standsApart_iff, ← htaken.words, Thread.balanced_flatten_words]

/-- A paragraph under `NAME` with a code around its title. -/
def boldName : Text := "=head1 NAME\n\nB<foo> - bar\n"

/-- The events of that source before the end of the paragraph. -/
def beforeBoldName : List Event :=
  [.start (.head 1 1), .text "NAME", .finish (.head 1 1), .start (.para 3),
    .start (.format "B" 3), .text "foo", .finish (.format "B" 3), .text " - bar"]

theorem split_boldName : Paragraph.split boldName
    = [⟨.command "head1", 1, ["NAME"]⟩, ⟨.ordinary, 3, ["B<foo> - bar"]⟩] := by
  decide +kernel

theorem bodyEvents_boldName :
    bodyEvents boldName = beforeBoldName ++ .finish (.para 3) :: [] := by
  rw [bodyEvents, split_boldName]
  cbv

/-- A source without options that ends with a paragraph, before and behind the end of it. -/
theorem writerAfter_plain {source : Text} {events : List Event} {e : Event}
    (hbody : bodyEvents source = events ++ [e]) :
    (writerAfter defaultFileName source Options.plain
        (.docStart (sourceInfo defaultFileName source) :: events)).page
      = some ((conversionDesk defaultFileName source Options.plain).page
          (resolvedDraft defaultFileName source Options.plain .empty events))
    ∧ headerWritten (writerAfter defaultFileName source Options.plain
        (.docStart (sourceInfo defaultFileName source) :: events ++ [e]))
      = (resolvedDraft defaultFileName source Options.plain .empty (events ++ [e])).headerDone := by
  have hsections := create_plain source
  constructor
  · rw [writerAfter_body hsections hbody]
    rfl
  · have hbody' : bodyEvents source = (events ++ [e]) ++ [] := by rw [hbody, List.append_nil]
    exact headerWritten_body hsections hbody'

theorem resolvedDraft_boldName : (resolvedDraft defaultFileName boldName Options.plain .empty
      beforeBoldName).headerDone = false
    ∧ (resolvedDraft defaultFileName boldName Options.plain .empty beforeBoldName).frames
      = [⟨false, "\\bold[foo] - bar", "foo - bar"⟩]
    ∧ (resolvedDraft defaultFileName boldName Options.plain .empty
      (beforeBoldName ++ [.finish (.para 3)])).headerDone = true := by
  rw [resolvedDraft, resolvedDraft, draftAfter, draftAfter, split_boldName]
  decide +kernel

/-- A title in a code of its own stands apart. -/
theorem name_header_apart_bold :
    let before := .docStart (sourceInfo defaultFileName boldName) :: beforeBoldName
    let e := Event.finish (.para 3)
    Options.plain.hasTitle = false
      ∧ Pod.sourceEvents defaultFileName boldName
        = before ++ e :: [.docEnd (sourceErrata boldName)]
      ∧ headerWritten (writerAfter defaultFileName boldName Options.plain before) = false
      ∧ headerWritten (writerAfter defaultFileName boldName Options.plain (before ++ [e])) = true
      ∧ ∃ content, HeaderTaken defaultFileName boldName Options.plain before e content []
          "\\bold[foo]" ["bar"]
        ∧ StandsApart [] "\\bold[foo]" ∧ StandsApart "\\bold[foo] -" "bar" := by
  intro before e
  have hsplit : Pod.sourceEvents defaultFileName boldName
      = before ++ e :: [.docEnd (sourceErrata boldName)] := by
    rw [sourceEvents_eq, bodyEvents_boldName]
    rfl
  obtain ⟨hmissing, hframes, hdone⟩ := resolvedDraft_boldName
  obtain ⟨hpage, hwritten⟩ := writerAfter_plain bodyEvents_boldName
  have hmissing' : headerWritten (writerAfter defaultFileName boldName Options.plain before)
      = false := by
    rw [headerWritten, hpage]
    exact hmissing
  have hdone' := hwritten.trans hdone
  refine ⟨rfl, hsplit, hmissing', hdone', ?_⟩
  obtain ⟨content, lead, title, description, htaken, hapart, hbalanced⟩ :=
    name_header_apart_iff defaultFileName boldName Options.plain rfl hsplit hmissing' hdone'
  have hwords := htaken.words_of_frames hpage hframes
  have hthree : Text.words "\\bold[foo] - bar"
      = [ofString "\\bold[foo]", ofString "-", ofString "bar"] := by decide
  obtain ⟨rfl, rfl, rfl⟩ := Thread.eq_of_three_words (by decide) (hthree.symm.trans hwords)
  have hboth := hapart.2 ⟨hbalanced (by simp [Options.plain]), by decide, by decide⟩
  exact ⟨content, htaken, hboth⟩

/-- A paragraph under `NAME` with a code around its title and its description. -/
def boldLine : Text := "=head1 NAME\n\nB<foo - bar>\n"

/-- The events of that source before the end of the paragraph. -/
def beforeBoldLine : List Event :=
  [.start (.head 1 1), .text "NAME", .finish (.head 1 1), .start (.para 3),
    .start (.format "B" 3), .text "foo - bar", .finish (.format "B" 3)]

theorem split_boldLine : Paragraph.split boldLine
    = [⟨.command "head1", 1, ["NAME"]⟩, ⟨.ordinary, 3, ["B<foo - bar>"]⟩] := by
  decide +kernel

theorem bodyEvents_boldLine :
    bodyEvents boldLine = beforeBoldLine ++ .finish (.para 3) :: [] := by
  rw [bodyEvents, split_boldLine]
  cbv

theorem resolvedDraft_boldLine : (resolvedDraft defaultFileName boldLine Options.plain .empty
      beforeBoldLine).headerDone = false
    ∧ (resolvedDraft defaultFileName boldLine Options.plain .empty beforeBoldLine).frames
      = [⟨false, "\\bold[foo - bar]", "foo - bar"⟩]
    ∧ (resolvedDraft defaultFileName boldLine Options.plain .empty
      (beforeBoldLine ++ [.finish (.para 3)])).headerDone = true := by
  rw [resolvedDraft, resolvedDraft, draftAfter, draftAfter, split_boldLine]
  decide +kernel

/-- A code around both tears them apart: the title opens an argument that the description
closes. -/
theorem name_header_torn :
    let before := .docStart (sourceInfo defaultFileName boldLine) :: beforeBoldLine
    let e := Event.finish (.para 3)
    Options.plain.hasTitle = false
      ∧ Pod.sourceEvents defaultFileName boldLine
        = before ++ e :: [.docEnd (sourceErrata boldLine)]
      ∧ headerWritten (writerAfter defaultFileName boldLine Options.plain before) = false
      ∧ headerWritten (writerAfter defaultFileName boldLine Options.plain (before ++ [e])) = true
      ∧ ∃ content, HeaderTaken defaultFileName boldLine Options.plain before e content []
          "\\bold[foo" ["bar]"]
        ∧ ¬ Thread.Balanced "\\bold[foo" ∧ ¬ Thread.Balanced "bar]" := by
  intro before e
  have hsplit : Pod.sourceEvents defaultFileName boldLine
      = before ++ e :: [.docEnd (sourceErrata boldLine)] := by
    rw [sourceEvents_eq, bodyEvents_boldLine]
    rfl
  obtain ⟨hmissing, hframes, hdone⟩ := resolvedDraft_boldLine
  obtain ⟨hpage, hwritten⟩ := writerAfter_plain bodyEvents_boldLine
  have hmissing' : headerWritten (writerAfter defaultFileName boldLine Options.plain before)
      = false := by
    rw [headerWritten, hpage]
    exact hmissing
  obtain ⟨content, lead, title, description, htaken, -⟩ :=
    exists_headerTaken rfl hsplit hmissing' (hwritten.trans hdone)
  have hwords := htaken.words_of_frames hpage hframes
  have hthree : Text.words "\\bold[foo - bar]"
      = [ofString "\\bold[foo", ofString "-", ofString "bar]"] := by decide
  obtain ⟨rfl, rfl, rfl⟩ := Thread.eq_of_three_words (by decide) (hthree.symm.trans hwords)
  exact ⟨rfl, hsplit, hmissing', hwritten.trans hdone, content, htaken, by decide, by decide⟩

end PodLoom
