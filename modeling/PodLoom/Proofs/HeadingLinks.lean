import PodLoom.Proofs.ListsInStep
import PodLoom.Proofs.Pod.LinkForms
import PodLoom.Proofs.SectionLinks
import PodLoom.Proofs.Thread.Lookups
import PodLoom.Proofs.Thread.Names

set_option autoImplicit false

/-!
# Links to headings

A link whose content is a slash and the text of a heading names the section of that heading, if
the two ways to reduce the text to a name agree.  Whether they do depends on the text alone
(`linkedText_eq_iff`); whether the name is known where the link stands depends on the headings
that come before, and on the scan for those that come behind.  Nothing else decides whether the
link leads to the heading (`heading_link_resolves_iff`).
-/

namespace PodLoom

open Text CodeUnit
open PodLoom.Pod (Block Element Event Inline Link Paragraph bodyEvents inlineEvents isQuoted isUrl
  linkElement splitTarget splitTopLevel? unquote)
open PodLoom.Thread (Draft Frame Options Policy Registry Rendered Section anchorLink command escape
  escapeUnit bracketed renderLink stripQuotes)

/-! ## The section that a link names -/

namespace Pod

theorem Paragraph.trim_joined (p : Paragraph) : p.joined.trim = p.joined := by
  refine trim_join fun w hw => ?_
  obtain ⟨hline, hne⟩ := List.mem_filter.1 hw
  obtain ⟨line, -, rfl⟩ := List.mem_map.1 hline
  exact ⟨by simpa using hne, trim_trim line⟩

/-- The section of the same document that a link names. -/
def Link.sectionName? (link : Link) (line : Int) : Option Text :=
  if link.kind = .pod ∧ link.target.getD [] = [] then
    link.heading.map fun s => Inline.plains (Inline.parse line s)
  else none

theorem isQuoted_squeeze {t : Text} (htrim : t.trim = t) (h : isQuoted t = false) :
    isQuoted t.squeeze = false := by
  have hregapped := regapped_squeeze htrim
  cases hquoted : isQuoted t.squeeze with
  | false => rfl
  | true =>
    simp only [isQuoted, Bool.and_eq_true, decide_eq_true_eq, beq_iff_eq] at hquoted
    obtain ⟨⟨hlength, hhead⟩, hlast⟩ := hquoted
    obtain ⟨rest, hsqueeze⟩ : ∃ rest, t.squeeze = quote :: rest := by
      cases hs : t.squeeze with
      | nil => rw [hs] at hhead; cases hhead
      | cons u rest =>
        rw [hs] at hhead
        obtain rfl := Option.some.inj hhead
        exact ⟨rest, rfl⟩
    rw [hsqueeze] at hregapped hlength hlast
    obtain ⟨s, rfl, hrest⟩ := hregapped.symm.inv_cons (by decide)
    have hsome : s ≠ [] := fun hnil => by
      rw [hrest.eq_nil_iff.2 hnil] at hlength
      simp at hlength
    rw [hregapped.symm.getLast?_eq] at hlast
    have hpositive := List.length_pos_iff.2 hsome
    simp only [isQuoted, List.length_cons, List.head?_cons, hlast, beq_self_eq_true, Bool.and_true,
      decide_eq_false_iff_not] at h
    omega

/-- A link whose content is a slash and a text names the section of that text. -/
theorem sectionName?_eq {content t : Text} (htrim : t.trim = t) (hsome : t ≠ [])
    (hquoted : isQuoted t = false) (hbar : splitTopLevel? '|' 0 content = none)
    (hcontent : content.squeeze = squeeze (slash :: t)) (line : Int) :
    (Link.parse content).sectionName? line = some (linkedText line t) := by
  obtain ⟨u, rest, rfl⟩ := List.exists_cons_of_ne_nil hsome
  have hu : u.isBlank = false := by
    have hhead := not_isBlank_head_trim (u :: rest)
    rw [htrim] at hhead
    exact hhead u rfl
  have hsqueeze : content.squeeze = slash :: squeeze (u :: rest) := by
    rw [hcontent, squeeze_unit (by decide) hu]
  have hlabel : Pod.splitLabel content = (none, slash :: squeeze (u :: rest)) := by
    rw [splitLabel, hbar, hsqueeze]
  have hurl : isUrl (slash :: squeeze (u :: rest))  = false :=
    isUrl_of_not_isWord (by decide) _
  have htarget : splitTarget (slash :: squeeze (u :: rest))
      = (none, some (squeeze (u :: rest))) := by
    rw [splitTarget, splitTopLevel?_self (by decide) (by decide)]
    have hslash : isQuoted (slash :: squeeze (u :: rest)) = false := by
      simp [isQuoted, show slash ≠ quote by decide]
    rw [hslash, if_neg Bool.false_ne_true]
    dsimp only
    rw [trim_squeeze, unquote, isQuoted_squeeze htrim hquoted]
    rfl
  unfold Link.parse
  rw [hlabel]
  dsimp only
  rw [hurl, htarget]
  rfl

/-- Only a link to a URL is of that kind. -/
theorem isUrl_of_parse {content : Text} (h : (Link.parse content).kind = .url) :
    ∃ t, (Link.parse content).target = some t ∧ isUrl t = true := by
  unfold Link.parse at h ⊢
  dsimp only at h ⊢
  by_cases hurl : isUrl (splitLabel content).2 = true
  · rw [if_pos hurl]
    exact ⟨_, rfl, hurl⟩
  · rw [if_neg hurl] at h
    dsimp only at h
    split at h <;> cases h

end Pod

namespace Thread

theorem escape_cons_word {u : CodeUnit} (hu : u.isWord = true) (t : Text) :
    escape (u :: t) = u :: escape t := by
  have hunit : escapeUnit u = [u] := by
    have hne : ∀ v : CodeUnit, v.isWord = false → u ≠ v := fun v hv heq => by
      rw [heq, hv] at hu
      cases hu
    rw [escapeUnit, if_neg (hne _ (by decide)), if_neg (hne _ (by decide)),
      if_neg (hne _ (by decide))]
  rw [escape, List.flatMap_cons, hunit]
  rfl

/-- A link to a URL is none to an anchor. -/
theorem urlLink_ne_anchorLink {u : CodeUnit} (hu : u.isWord = true) (t shown anchor text : Text) :
    command "link" [escape (u :: t), shown] ≠ anchorLink anchor text := by
  intro h
  unfold anchorLink command at h
  have harguments := List.append_cancel_left (List.cons.inj h).2
  rw [escape_cons_word hu] at harguments
  simp only [List.flatMap_cons, bracketed, List.cons_append] at harguments
  obtain rfl := (List.cons.inj (List.cons.inj harguments).2).1
  cases hu

/-- A link that is rendered with an anchor has it from the registry, as the anchor of the section
that it names. -/
theorem sectionName?_of_renderLink {r : Registry} {content : Text} {line : Int} {shown : Rendered}
    {anchor : Text}
    (h : (renderLink r (Link.parse content).kind (Link.parse content).target
        ((Link.parse content).heading.map fun s => Inline.plains (Inline.parse line s))
        (Link.parse content).label.isSome shown).text
      = anchorLink anchor (stripQuotes shown.text)) :
    ∃ name, (Link.parse content).sectionName? line = some name ∧ name ≠ []
      ∧ r.lookup name = some anchor := by
  have hother : shown.text ≠ anchorLink anchor (stripQuotes shown.text) := ne_anchorLink _ _
  cases hkind : (Link.parse content).kind with
  | url =>
    obtain ⟨t, htarget, hurl⟩ := Pod.isUrl_of_parse hkind
    rw [hkind, htarget] at h
    cases t with
    | nil => cases hurl
    | cons u t =>
      have hu : u.isWord = true := by
        by_contra hword
        rw [Pod.isUrl_of_not_isWord (Bool.eq_false_iff.2 hword)] at hurl
        cases hurl
      unfold renderLink at h
      dsimp only at h
      rw [if_pos ⟨rfl, List.cons_ne_nil u t⟩] at h
      split at h
      · cases (List.cons.inj h).1
      · exact absurd h (urlLink_ne_anchorLink hu t _ _ _)
  | man =>
    rw [hkind] at h
    exact absurd h hother
  | pod =>
    rw [hkind] at h
    have hlookup := lookup_of_renderLink h
    unfold renderLink at h
    dsimp only at h
    rw [if_neg (by simp)] at h
    split at h
    · rename_i hnamed
      obtain ⟨-, htarget, hname⟩ := hnamed
      refine ⟨_, ?_, hname, hlookup⟩
      rw [Link.sectionName?, if_pos ⟨hkind, htarget⟩]
      cases hheading : (Link.parse content).heading with
      | none =>
        rw [hheading] at hname
        exact absurd rfl hname
      | some s => rfl
    · exact absurd h hother

/-- A link that names a section with an anchor is rendered with it. -/
theorem renderLink_of_sectionName? {r : Registry} {link : Link} {line : Int} {name anchor : Text}
    (hname : link.sectionName? line = some name) (hsome : name ≠ [])
    (hlookup : r.lookup name = some anchor) (hanchor : anchor ≠ []) (shown : Rendered) :
    renderLink r link.kind link.target
        (link.heading.map fun s => Inline.plains (Inline.parse line s)) link.label.isSome shown
      = ⟨anchorLink anchor (stripQuotes shown.text), stripQuotes shown.plain⟩ := by
  unfold Link.sectionName? at hname
  split at hname
  · rename_i hown
    rw [hown.1, hname]
    exact Registry.renderLink_of_lookup hown.2 hsome hlookup hanchor _ shown
  · cases hname

/-- The text of a top-level heading without links joins those of the sections, unless it is
`NAME` and introduces the page header. -/
theorem Draft.texts_run_heading {p : Policy} (htracks : p.tracks = true) {line : Int} {t : Text}
    (hfree : Inline.allLinkFree (Block.nodes line t) = true) (d : Draft) :
    (d.run p (Block.heading 0 line t).events).sections.texts
        = d.sections.texts ++ [headingText line t]
      ∨ p.titled = false ∧ headingText line t = ofString "NAME"
        ∧ (d.run p (Block.heading 0 line t).events).sections.texts = d.sections.texts := by
  rcases d.run_block p (.heading 0 line t) with ⟨line', t', warnings, hb, hrun⟩ | ⟨hother, -⟩
  · obtain ⟨-, rfl, rfl⟩ := Block.heading.inj hb
    rw [hrun, headingText, contentOf_of_linkFree hfree .empty d.sections]
    exact texts_writeHeading htracks _ { d with warnings }
  · exact absurd rfl (hother line t)

theorem Draft.texts_subset_run (p : Policy) (d : Draft) (events : List Event) :
    d.sections.texts ⊆ (d.run p events).sections.texts := by
  obtain ⟨headings, h⟩ := exists_registerAll_run p d events
  rw [h, Registry.texts_registerAll]
  exact List.subset_append_left _ _

end Thread

/-! ## Headings and links of a source -/

/-- An element that starts and finishes between the start and the end of a source. -/
theorem exists_body_of_enclosed {file source : Text} {ahead behind inner : List Event}
    {element : Element}
    (h : Pod.sourceEvents file source = ahead ++ (Block.enclosed element inner ++ behind)) :
    ∃ events more, ahead = .docStart (sourceInfo file source) :: events
      ∧ bodyEvents source = events ++ (Block.enclosed element inner ++ more) := by
  rw [Block.enclosed_append] at h
  obtain ⟨events, -, rfl, -⟩ := exists_body_of_split (fun _ => Event.noConfusion)
    (fun _ => Event.noConfusion) h
  have hfinish : Pod.sourceEvents file source
      = (.docStart (sourceInfo file source) :: (events ++ .start element :: inner))
        ++ .finish element :: behind := by
    rw [h]
    simp
  obtain ⟨events', more, hfront, hbody⟩ := exists_body_of_split (fun _ => Event.noConfusion)
    (fun _ => Event.noConfusion) hfinish
  obtain rfl := (List.cons.inj hfront).2
  refine ⟨events, more, rfl, ?_⟩
  rw [hbody, Block.enclosed_append]
  simp

/-- A heading becomes a section: there is one more behind it. -/
def BecomesSection (file source : Text) (o : Options) (ahead : List Event) (b : Block) : Prop :=
  (writerAfter file source o ahead).sections.size
    < (writerAfter file source o (ahead ++ b.events)).sections.size

/-- A name is known behind some events: a section has it, or the scan has found it. -/
def KnownName (file source : Text) (o : Options) (before : List Event) (name : Text) : Prop :=
  name ∈ (writerAfter file source o before).sections.texts
    ∨ name ∈ Keyed.keys (scanAnchors file source o).1

/-- A link that finishes behind some events is rendered as a link to an anchor. -/
def RendersLink (file source : Text) (o : Options) (before : List Event) (link : Link) (line : Int)
    (anchor : Text) : Prop :=
  ∃ page frame frames, (writerAfter file source o before).page = some page
    ∧ page.frames = frame :: frames
    ∧ (renderLink (writerAfter file source o before).sections link.kind link.target
        (link.heading.map fun s => Inline.plains (Inline.parse line s)) link.label.isSome
        frame.content).text = anchorLink anchor (stripQuotes frame.content.text)

section

variable {file source : Text} {o : Options}

theorem scannedDraft_append (source : Text) (o : Options) (events more : List Event) :
    scannedDraft source o (events ++ more)
      = (scannedDraft source o events).run ⟨o.hasTitle, true⟩ more := by
  rw [scannedDraft, draftAfter, Draft.run_append]
  rfl

theorem mem_keys_scanAnchors {name : Text} :
    name ∈ Keyed.keys (scanAnchors file source o).1
      ↔ name ≠ Registry.unmappable ∧ name ∈ scanTexts source o := by
  rw [scanAnchors_numbered, Registry.keys_numberedPairs, Registry.mem_keys_firstMet]

/-- A name has an anchor at a place exactly if it is known there. -/
theorem exists_lookup_scannedDraft_iff (hnavigation : o.wantsNavigation = true)
    (hanchors : o.anchors = none) {events more : List Event} {name : Text}
    (hbody : bodyEvents source = events ++ more) :
    (∃ anchor, (scannedDraft source o events).sections.lookup name = some anchor)
      ↔ KnownName file source o (.docStart (sourceInfo file source) :: events) name := by
  rw [Registry.exists_lookup_iff, KnownName, writerAfter_scanned hnavigation hanchors hbody,
    mem_keys_scanAnchors, supplied_scannedDraft, scannedRegistry, Registry.mem_keys_supplied]
  rfl

/-- Where an element finishes that is no list, it is open. -/
theorem exists_frame_scannedDraft {events more : List Event} {element : Element}
    (hlist : element.isList = false)
    (hbody : bodyEvents source = events ++ .finish element :: more) :
    ∃ frame frames, (scannedDraft source o events).frames = frame :: frames := by
  have hdepth := Thread.depth?_nested (Pod.nested_bodyEvents source) 0
  rw [hbody, List.foldlM_append] at hdepth
  obtain ⟨n, hn, hfinish⟩ := Option.bind_eq_some_iff.1 hdepth
  have hopen : n ≠ 0 := by
    rintro rfl
    rw [List.foldlM_cons, Thread.depth?, hlist] at hfinish
    cases hfinish
  have hlength : (scannedDraft source o events).frames.length = n :=
    frames_draftAfter _ _ _ hn
  exact List.exists_cons_of_length_pos (by omega)

theorem anchors_scannedDraft (source : Text) (o : Options) (events : List Event) :
    (scannedDraft source o events).sections.AllAnchors (· ≠ []) := by
  obtain ⟨headings, hsections⟩ := exists_registerAll_scannedDraft source o events
  rw [hsections]
  exact (Registry.allAnchors_suppliedWith (fun _ => List.cons_ne_nil _ _) _).registerAll
    (fun _ => List.cons_ne_nil _ _) headings

/-- A link is rendered with an anchor exactly if it names a section that has the anchor where
the link stands. -/
theorem rendersLink_iff (hnavigation : o.wantsNavigation = true) (hanchors : o.anchors = none)
    {events more : List Event} {content : Text} {line : Int}
    (hbody : bodyEvents source
      = events ++ .finish (linkElement (Link.parse content) line) :: more) {anchor : Text} :
    RendersLink file source o (.docStart (sourceInfo file source) :: events) (Link.parse content)
        line anchor
      ↔ ∃ name, (Link.parse content).sectionName? line = some name ∧ name ≠ []
        ∧ (scannedDraft source o events).sections.lookup name = some anchor := by
  rw [RendersLink, writerAfter_scanned hnavigation hanchors hbody]
  constructor
  · rintro ⟨page, frame, frames, -, -, hrendered⟩
    exact Thread.sectionName?_of_renderLink hrendered
  · rintro ⟨name, hname, hsome, hlookup⟩
    obtain ⟨frame, frames, hframes⟩ := exists_frame_scannedDraft (o := o) rfl hbody
    have hanchor := (anchors_scannedDraft source o events).of_lookup hlookup
    exact ⟨_, frame, frames, rfl, hframes,
      congrArg Rendered.text
        (Thread.renderLink_of_sectionName? hname hsome hlookup hanchor frame.content)⟩

/-- Whether a block becomes a section is seen on the sections of the draft. -/
theorem becomesSection_iff (hnavigation : o.wantsNavigation = true) (hanchors : o.anchors = none)
    {b : Block} {events more : List Event} (hbody : bodyEvents source = events ++ (b.events ++ more)) :
    BecomesSection file source o (.docStart (sourceInfo file source) :: events) b
      ↔ (scannedDraft source o events).sections.size
        < (scannedDraft source o (events ++ b.events)).sections.size := by
  have hbehind : bodyEvents source = (events ++ b.events) ++ more := by
    rw [hbody, List.append_assoc]
  rw [BecomesSection, List.cons_append, writerAfter_scanned hnavigation hanchors hbody,
    writerAfter_scanned hnavigation hanchors hbehind]
  rfl

/-- Behind a heading that becomes a section, the text of the heading is that of a section. -/
theorem mem_texts_of_becomesSection (hnavigation : o.wantsNavigation = true)
    (hanchors : o.anchors = none) {line : Int} {t : Text}
    (hfree : Inline.allLinkFree (Block.nodes line t) = true) {events more : List Event}
    (hbody : bodyEvents source = events ++ ((Block.heading 0 line t).events ++ more))
    (hsection : BecomesSection file source o (.docStart (sourceInfo file source) :: events)
      (.heading 0 line t)) :
    headingText line t
      ∈ (scannedDraft source o (events ++ (Block.heading 0 line t).events)).sections.texts := by
  rw [becomesSection_iff hnavigation hanchors hbody, scannedDraft_append] at hsection
  rw [scannedDraft_append]
  rcases Draft.texts_run_heading (p := ⟨o.hasTitle, true⟩) rfl hfree (scannedDraft source o events)
    with htexts | ⟨-, -, htexts⟩
  · rw [htexts]
    exact List.mem_append_right _ (List.mem_singleton_self _)
  · have hlength := congrArg List.length htexts
    rw [Registry.texts, Registry.texts, List.length_map, List.length_map] at hlength
    exact absurd hlength (Nat.ne_of_gt hsection)

/-- The scan finds a heading, unless it is `NAME` and the title is not given. -/
theorem mem_scanTexts_of_heading {line : Int} {t : Text}
    (hfree : Inline.allLinkFree (Block.nodes line t) = true) {events more : List Event}
    (hbody : bodyEvents source = events ++ ((Block.heading 0 line t).events ++ more))
    (hname : headingText line t = ofString "NAME" → o.hasTitle = true) :
    headingText line t ∈ scanTexts source o := by
  rw [scanTexts, scanDraft, sections_draftOf, draftAfter, hbody, Draft.run_append, Draft.run_append]
  refine Draft.texts_subset_run _ _ more ?_
  rcases Draft.texts_run_heading (p := ⟨o.hasTitle, true⟩) rfl hfree
    ((Draft.start ⟨o.hasTitle, true⟩ (o.title.getD [])
      (Pod.isContentless (Paragraph.split source)) .empty).run ⟨o.hasTitle, true⟩ events)
    with htexts | ⟨huntitled, htext, -⟩
  · rw [htexts]
    exact List.mem_append_right _ (List.mem_singleton_self _)
  · rw [hname htext] at huntitled
    cases huntitled

end

/-- A link leads to a heading exactly if it names the section of the heading by the text that the
heading is registered under, and this name is known where the link stands.

* A link whose content is a slash and the text of the heading names it so exactly if all codes of
  the heading that show are known, and the text without the codes is squeezed.
* The name is known if the heading comes before the link, and wherever the link stands unless
  the anchors that the scan finds cannot hold it or the scan may pass it over as `NAME`. -/
theorem heading_link_resolves_iff (file source : Text) (o : Options)
    (hnavigation : o.wantsNavigation = true) (hanchors : o.anchors = none) (p : Paragraph)
    {ahead behind : List Event}
    (hheading : Pod.sourceEvents file source
      = ahead ++ ((Block.heading 0 p.line p.joined).events ++ behind))
    (hsection : BecomesSection file source o ahead (.heading 0 p.line p.joined))
    (hfree : Inline.allLinkFree (Block.nodes p.line p.joined) = true)
    (hvisible : headingText p.line p.joined ≠ []) {before after : List Event} {content : Text}
    {line : Int}
    (hlink : Pod.sourceEvents file source
      = before ++ .finish (linkElement (Link.parse content) line) :: after) :
    ∃ s, (convertedSections file source o).sections.find?
          (·.text == headingText p.line p.joined) = some s
      ∧ (RendersLink file source o before (Link.parse content) line s.anchor
        ↔ (Link.parse content).sectionName? line = some (headingText p.line p.joined)
          ∧ KnownName file source o before (headingText p.line p.joined))
      ∧ (content.squeeze = squeeze (slash :: p.joined) → splitTopLevel? '|' 0 content = none →
        isQuoted p.joined = false →
        ((Link.parse content).sectionName? line = some (headingText p.line p.joined)
          ↔ Inline.allKnown (Block.nodes p.line p.joined) = true
            ∧ (linkedText line p.joined).squeeze = linkedText line p.joined))
      ∧ (ahead ++ (Block.heading 0 p.line p.joined).events <+: before →
        KnownName file source o before (headingText p.line p.joined))
      ∧ (headingText p.line p.joined ≠ Registry.unmappable →
        (headingText p.line p.joined = ofString "NAME" → o.hasTitle = true) →
        KnownName file source o before (headingText p.line p.joined)) := by
  obtain ⟨first, rest, rfl, hbodyHeading⟩ := exists_body_of_enclosed hheading
  obtain ⟨events, more, rfl, hbodyLink⟩ := exists_body_of_split (fun _ => Event.noConfusion)
    (fun _ => Event.noConfusion) hlink
  have hregistered := mem_texts_of_becomesSection hnavigation hanchors hfree hbodyHeading hsection
  have hbehind : bodyEvents source
      = (first ++ (Block.heading 0 p.line p.joined).events) ++ rest := by
    rw [List.append_assoc]
    exact hbodyHeading
  obtain ⟨headings, hfinal⟩ := exists_registerAll_scannedPage (o := o) hbodyLink
  obtain ⟨more', hmore⟩ := exists_registerAll_scannedPage (o := o) hbehind
  have hmem : headingText p.line p.joined ∈ (scannedPage source o).sections.texts := by
    rw [hmore, Registry.texts_registerAll]
    exact List.mem_append_left _ hregistered
  obtain ⟨s, hfirst⟩ := Registry.exists_first_of_mem_texts hmem
  have hknown : (∃ anchor, (scannedDraft source o events).sections.lookup
        (headingText p.line p.joined) = some anchor)
      ↔ KnownName file source o (.docStart (sourceInfo file source) :: events)
        (headingText p.line p.joined) :=
    exists_lookup_scannedDraft_iff hnavigation hanchors hbodyLink
  refine ⟨s, ?_, ?_, ?_, ?_, ?_⟩
  · rw [convertedSections_eq file source o hnavigation hanchors]
    exact hfirst
  · rw [hfinal] at hfirst
    have hfaithful := faithful_scannedDraft source o events
    rw [rendersLink_iff hnavigation hanchors hbodyLink, ← hknown]
    constructor
    · rintro ⟨name, hname, -, hlookup⟩
      obtain ⟨rfl, hexists⟩ := (hfaithful.lookup_eq_anchor_iff hfirst).1 hlookup
      exact ⟨hname, hexists⟩
    · rintro ⟨hname, hexists⟩
      exact ⟨_, hname, hvisible, (hfaithful.lookup_eq_anchor_iff hfirst).2 ⟨rfl, hexists⟩⟩
  · intro hcontent hbar hquoted
    have htrim := Pod.Paragraph.trim_joined p
    have hsome : p.joined ≠ [] := fun hnil =>
      hvisible (by rw [hnil, headingText_nil])
    rw [Pod.sectionName?_eq htrim hsome hquoted hbar hcontent, Option.some_inj]
    exact linkedText_eq_iff htrim hfree line
  · rintro ⟨between, hbefore⟩
    rw [List.cons_append, List.cons_append] at hbefore
    obtain rfl := (List.cons.inj hbefore).2.symm
    refine hknown.1 (Registry.exists_lookup_iff.2 (.inl ?_))
    rw [scannedDraft_append]
    exact Draft.texts_subset_run _ _ between hregistered
  · intro hmappable hname
    exact .inr (mem_keys_scanAnchors.2
      ⟨hmappable, mem_scanTexts_of_heading hfree hbodyHeading hname⟩)

/-- The events of a source that starts with a block, through some events behind the block. -/
def throughBlock (source : Text) (b : Block) (behind : List Event) : List Event :=
  .docStart (sourceInfo defaultFileName source) :: (b.events ++ behind)

/-- A source with a heading that has codes, and a link to it that is set with other gaps. -/
def codedHeading : Text := "=head1 B<FOO>  E<lt>BAR\n\nL</B<FOO>\nE<lt>BAR>\n"

/-- The paragraph of that heading. -/
def codedParagraph : Paragraph := ⟨.command "head1", 1, ["B<FOO>  E<lt>BAR"]⟩

/-- The content of that link. -/
def codedContent : Text := "/B<FOO>\nE<lt>BAR"

theorem split_codedHeading : Paragraph.split codedHeading
    = [codedParagraph, ⟨.ordinary, 3, ["L</B<FOO>", "E<lt>BAR>"]⟩] := by
  decide +kernel

/-- The events of that source between the heading and the end of the link. -/
def beforeCodedLink : List Event :=
  [.start (.para 3), .start (linkElement (Link.parse codedContent) 3), .text "\"",
    .start (.format "B" 3), .text "FOO", .finish (.format "B" 3), .text " ",
    .start (.format "E" 3), .text "lt", .finish (.format "E" 3), .text "BAR\""]

theorem inlineEvents_codedParagraph :
    inlineEvents (Block.nodes codedParagraph.line codedParagraph.joined)
      = [.start (.format "B" 1), .text "FOO", .finish (.format "B" 1), .text "  ",
        .start (.format "E" 1), .text "lt", .finish (.format "E" 1), .text "BAR"] := by
  cbv

theorem bodyEvents_codedHeading : bodyEvents codedHeading
    = (Block.heading 0 codedParagraph.line codedParagraph.joined).events
      ++ (beforeCodedLink ++ .finish (linkElement (Link.parse codedContent) 3)
        :: [.finish (.para 3)]) := by
  rw [Block.events, inlineEvents_codedParagraph, bodyEvents, split_codedHeading]
  cbv

theorem scanTexts_codedHeading : scanTexts codedHeading contentsPage = ["FOO <BAR"] := by
  rw [scanTexts, scanDraft, sections_draftOf, draftAfter, bodyEvents_codedHeading,
    Block.events, inlineEvents_codedParagraph, split_codedHeading]
  decide +kernel

theorem becomesSection_codedHeading :
    BecomesSection defaultFileName codedHeading contentsPage
      [.docStart (sourceInfo defaultFileName codedHeading)]
      (.heading 0 codedParagraph.line codedParagraph.joined) := by
  have hbody : bodyEvents codedHeading = [] ++ _ := bodyEvents_codedHeading
  rw [becomesSection_iff rfl rfl hbody, List.nil_append,
    Block.events, inlineEvents_codedParagraph, scannedDraft, scannedDraft, scannedRegistry,
    scanTexts_codedHeading, draftAfter, draftAfter, split_codedHeading]
  decide +kernel

theorem headingText_codedParagraph :
    headingText codedParagraph.line codedParagraph.joined = "FOO <BAR" := by
  rw [headingText, Draft.contentOf, inlineEvents_codedParagraph]
  decide +kernel

/-- The link leads to the heading, though it is set with other gaps. -/
theorem heading_link_resolves_coded :
    contentsPage.wantsNavigation = true ∧ contentsPage.anchors = none
      ∧ BecomesSection defaultFileName codedHeading contentsPage
        [.docStart (sourceInfo defaultFileName codedHeading)]
        (.heading 0 codedParagraph.line codedParagraph.joined)
      ∧ Inline.allLinkFree (Block.nodes codedParagraph.line codedParagraph.joined) = true
      ∧ headingText codedParagraph.line codedParagraph.joined = "FOO <BAR"
      ∧ codedContent.squeeze = squeeze (slash :: codedParagraph.joined)
      ∧ ∃ s : Section, (convertedSections defaultFileName codedHeading contentsPage).sections.find?
            (·.text == headingText codedParagraph.line codedParagraph.joined) = some s
        ∧ RendersLink defaultFileName codedHeading contentsPage
          (throughBlock codedHeading
            (.heading 0 codedParagraph.line codedParagraph.joined) beforeCodedLink)
          (Link.parse codedContent) 3 s.anchor := by
  have hfree :
      Inline.allLinkFree (Block.nodes codedParagraph.line codedParagraph.joined) = true := by
    decide +kernel
  have hcontent : codedContent.squeeze = squeeze (slash :: codedParagraph.joined) := by
    decide +kernel
  have hvisible : headingText codedParagraph.line codedParagraph.joined ≠ [] := by
    rw [headingText_codedParagraph]
    decide
  have hheading : Pod.sourceEvents defaultFileName codedHeading
      = [.docStart (sourceInfo defaultFileName codedHeading)]
        ++ ((Block.heading 0 codedParagraph.line codedParagraph.joined).events
          ++ (beforeCodedLink ++ .finish (linkElement (Link.parse codedContent) 3)
            :: [.finish (.para 3), .docEnd (sourceErrata codedHeading)])) := by
    rw [sourceEvents_eq, bodyEvents_codedHeading]
    simp
  have hlink : Pod.sourceEvents defaultFileName codedHeading
      = throughBlock codedHeading
          (.heading 0 codedParagraph.line codedParagraph.joined) beforeCodedLink
        ++ .finish (linkElement (Link.parse codedContent) 3)
          :: [.finish (.para 3), .docEnd (sourceErrata codedHeading)] := by
    rw [hheading, throughBlock]
    simp
  obtain ⟨s, hfirst, hrenders, hnames, hbefore, -⟩ := heading_link_resolves_iff defaultFileName
    codedHeading contentsPage rfl rfl codedParagraph hheading becomesSection_codedHeading hfree
    hvisible hlink
  have hknown := hbefore ⟨beforeCodedLink, rfl⟩
  have hname := (hnames hcontent (by decide +kernel) (by decide +kernel)).2
    ⟨by decide +kernel, by decide +kernel⟩
  exact ⟨rfl, rfl, becomesSection_codedHeading, hfree, headingText_codedParagraph, hcontent, s,
    hfirst, hrenders.2 ⟨hname, hknown⟩⟩

/-- A source with an index entry in a heading, and a link to the heading.  The entry does not
show, but it leaves a gap on either side: the writer closes them up, and the reader does not. -/
def indexedHeading : Text := "=head1 FOO X<bar> BAZ\n\nL</FOO X<bar> BAZ>\n"

/-- The paragraph of that heading. -/
def indexedParagraph : Paragraph := ⟨.command "head1", 1, ["FOO X<bar> BAZ"]⟩

/-- The content of that link. -/
def indexedContent : Text := "/FOO X<bar> BAZ"

theorem split_indexedHeading : Paragraph.split indexedHeading
    = [indexedParagraph, ⟨.ordinary, 3, ["L</FOO X<bar> BAZ>"]⟩] := by
  decide +kernel

theorem inlineEvents_indexedParagraph :
    inlineEvents (Block.nodes indexedParagraph.line indexedParagraph.joined)
      = [.text "FOO ", .start (.format "X" 1), .text "bar", .finish (.format "X" 1),
        .text " BAZ"] := by
  cbv

/-- The events of that source between the heading and the end of the link. -/
def beforeIndexedLink : List Event :=
  [.start (.para 3), .start (linkElement (Link.parse indexedContent) 3), .text "\"FOO ",
    .start (.format "X" 3), .text "bar", .finish (.format "X" 3), .text " BAZ\""]

theorem bodyEvents_indexedHeading : bodyEvents indexedHeading
    = (Block.heading 0 indexedParagraph.line indexedParagraph.joined).events
      ++ (beforeIndexedLink ++ .finish (linkElement (Link.parse indexedContent) 3)
        :: [.finish (.para 3)]) := by
  rw [Block.events, inlineEvents_indexedParagraph, bodyEvents, split_indexedHeading]
  cbv

theorem scanTexts_indexedHeading : scanTexts indexedHeading contentsPage = ["FOO BAZ"] := by
  rw [scanTexts, scanDraft, sections_draftOf, draftAfter, bodyEvents_indexedHeading,
    Block.events, inlineEvents_indexedParagraph, split_indexedHeading]
  decide +kernel

theorem becomesSection_indexedHeading :
    BecomesSection defaultFileName indexedHeading contentsPage
      [.docStart (sourceInfo defaultFileName indexedHeading)]
      (.heading 0 indexedParagraph.line indexedParagraph.joined) := by
  have hbody : bodyEvents indexedHeading = [] ++ _ := bodyEvents_indexedHeading
  rw [becomesSection_iff rfl rfl hbody, List.nil_append,
    Block.events, inlineEvents_indexedParagraph, scannedDraft, scannedDraft, scannedRegistry,
    scanTexts_indexedHeading, draftAfter, draftAfter, split_indexedHeading]
  decide +kernel

theorem headingText_indexedParagraph :
    headingText indexedParagraph.line indexedParagraph.joined = "FOO BAZ" := by
  rw [headingText, Draft.contentOf, inlineEvents_indexedParagraph]
  decide +kernel

/-- All codes of the heading are known, and still the link to it leads nowhere. -/
theorem heading_link_unresolved :
    contentsPage.wantsNavigation = true ∧ contentsPage.anchors = none
      ∧ Pod.sourceEvents defaultFileName indexedHeading
        = [.docStart (sourceInfo defaultFileName indexedHeading)]
          ++ ((Block.heading 0 indexedParagraph.line indexedParagraph.joined).events
            ++ (beforeIndexedLink ++ .finish (linkElement (Link.parse indexedContent) 3)
              :: [.finish (.para 3), .docEnd (sourceErrata indexedHeading)]))
      ∧ BecomesSection defaultFileName indexedHeading contentsPage
        [.docStart (sourceInfo defaultFileName indexedHeading)]
        (.heading 0 indexedParagraph.line indexedParagraph.joined)
      ∧ Inline.allLinkFree (Block.nodes indexedParagraph.line indexedParagraph.joined) = true
      ∧ Inline.allErrata (Block.nodes indexedParagraph.line indexedParagraph.joined) = []
      ∧ headingText indexedParagraph.line indexedParagraph.joined = "FOO BAZ"
      ∧ indexedContent = slash :: indexedParagraph.joined
      ∧ splitTopLevel? '|' 0 indexedContent = none
      ∧ isQuoted indexedParagraph.joined = false
      ∧ ∀ anchor, ¬ RendersLink defaultFileName indexedHeading contentsPage
        (throughBlock indexedHeading
          (.heading 0 indexedParagraph.line indexedParagraph.joined) beforeIndexedLink)
        (Link.parse indexedContent) 3 anchor := by
  have hbody : bodyEvents indexedHeading
      = ((Block.heading 0 indexedParagraph.line indexedParagraph.joined).events
          ++ beforeIndexedLink)
        ++ .finish (linkElement (Link.parse indexedContent) 3) :: [.finish (.para 3)] := by
    rw [bodyEvents_indexedHeading, List.append_assoc]
  refine ⟨rfl, rfl, ?_, becomesSection_indexedHeading, by decide +kernel, by decide +kernel,
    headingText_indexedParagraph, by decide +kernel, by decide +kernel, by decide +kernel, ?_⟩
  · rw [sourceEvents_eq, bodyEvents_indexedHeading]
    simp
  · intro anchor hrenders
    obtain ⟨name, hname, -, hlookup⟩ := (rendersLink_iff rfl rfl hbody).1 hrenders
    have hname' : (Link.parse indexedContent).sectionName? 3 = some "FOO  BAZ" := by
      decide +kernel
    obtain rfl := Option.some.inj (hname.symm.trans hname')
    have hnone : (scannedDraft indexedHeading contentsPage
        ((Block.heading 0 indexedParagraph.line indexedParagraph.joined).events
          ++ beforeIndexedLink)).sections.lookup "FOO  BAZ" = none := by
      rw [Block.events, inlineEvents_indexedParagraph, scannedDraft, scannedRegistry,
        scanTexts_indexedHeading, draftAfter, split_indexedHeading]
      decide +kernel
    rw [hnone] at hlookup
    cases hlookup

end PodLoom
