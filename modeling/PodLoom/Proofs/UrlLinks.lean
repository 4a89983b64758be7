import PodLoom.Proofs.LinkContent

set_option autoImplicit false

/-!
# Links to URLs

A link to a URL without a text of its own leads to the URL as it is written and shows it as
formatted text.  So it names the same URL twice exactly if nothing in the URL is a formatting code
(`url_link_same_iff`).

A code takes brackets to write, and only an escape can show as many as it took.  A URL that shows
all its brackets, without formatting and as thread, holds known escapes and nothing else; and an
escape is shorter than what it is written as, so a URL with escapes is not what it shows.
-/

namespace PodLoom

open Text CodeUnit
open PodLoom.Pod (Block Event Inline Link Paragraph escapeNames escapeText? inlineEvents)
open PodLoom.Thread (Draft Options Registry Rendered)

/-! ## Escapes in a text -/

namespace Pod

theorem length_ofCodePoint_le (n : Nat) : (ofCodePoint n).length ≤ 2 := by
  unfold ofCodePoint
  split
  · exact Nat.le_succ 1
  · exact Nat.le_refl 2

/-- An escape stands for one character. -/
theorem length_escapeText?_le {name value : Text} (h : escapeText? name = some value) :
    value.length ≤ 2 := by
  unfold escapeText? at h
  split at h
  · obtain rfl := Option.some.inj h
    exact length_ofCodePoint_le _
  · have hnames : ∀ row ∈ escapeNames, row.2.length ≤ 2 := by decide +kernel
    obtain ⟨row, hrow, rfl⟩ := Option.map_eq_some_iff.1 h
    exact hnames row (List.mem_of_find?_eq_some hrow)

namespace Inline

mutual

/-- Whether all codes of a node, at any depth, are escapes. -/
def escaping : Inline → Bool
  | .text _ => true
  | .code letter _ children _ => letter == ofChar 'E' && allEscaping children

/-- Whether all codes of a sequence of nodes, at any depth, are escapes. -/
def allEscaping : List Inline → Bool
  | [] => true
  | node :: rest => escaping node && allEscaping rest

end

mutual

theorem known_of_escaping {node : Inline} (h : escaping node = true) :
    known node = true ∧ linkFree node = true := by
  cases node with
  | text t => exact ⟨rfl, rfl⟩
  | code letter delimiter children line =>
    simp only [escaping, Bool.and_eq_true, beq_iff_eq] at h
    obtain ⟨rfl, hchildren⟩ := h
    obtain ⟨hknown, hfree⟩ := allKnown_of_allEscaping hchildren
    exact ⟨by rw [known, hknown]; rfl, by rw [linkFree, hfree]; rfl⟩

/-- The writer knows all escapes for what they are, and they are no links. -/
theorem allKnown_of_allEscaping {nodes : List Inline} (h : allEscaping nodes = true) :
    allKnown nodes = true ∧ allLinkFree nodes = true := by
  cases nodes with
  | nil => exact ⟨rfl, rfl⟩
  | cons node rest =>
    simp only [allEscaping, Bool.and_eq_true] at h
    obtain ⟨hknown, hfree⟩ := known_of_escaping h.1
    obtain ⟨hallKnown, hallFree⟩ := allKnown_of_allEscaping h.2
    exact ⟨by rw [allKnown, hknown, hallKnown]; rfl, by rw [allLinkFree, hfree, hallFree]; rfl⟩

end

/-- An escape shows at most one bracket more than its name has. -/
theorem count_less_escape (name : Text) :
    ((escapeText? name.trim).getD (ofString "E<" ++ name.trim ++ ofString ">")).count less
      ≤ name.count less + 1 := by
  cases hvalue : escapeText? name.trim with
  | some value =>
    rw [Option.getD_some]
    have := count_less_escapeText? hvalue
    omega
  | none =>
    have hfront : (ofString "E<").count less = 1 := by decide
    have hback : (ofString ">").count less = 0 := by decide
    rw [Option.getD_none, List.count_append, List.count_append, count_trim (by decide), hfront,
      hback]
    omega

mutual

/-- A node has no more brackets without its codes, and fewer if one of them is no escape. -/
theorem count_less_plain (node : Inline) :
    node.plain.count less ≤ node.source.count less
      ∧ (escaping node = false → node.plain.count less < node.source.count less) := by
  cases node with
  | text t => exact ⟨Nat.le_refl _, nofun⟩
  | code letter delimiter children line =>
    obtain ⟨hle, hlt⟩ := count_less_plains children
    have hsource := brackets_children_lt letter delimiter children line
    rw [brackets] at hsource
    rw [plain]
    split
    · exact ⟨Nat.zero_le _, fun _ => Nat.lt_of_le_of_lt (Nat.zero_le _) hsource⟩
    · split
      · rename_i hletter
        have hescape := count_less_escape (plains children)
        refine ⟨by dsimp only; omega, fun hother => ?_⟩
        rw [escaping, hletter, beq_self_eq_true, Bool.true_and] at hother
        have := hlt hother
        dsimp only
        omega
      · exact ⟨by omega, fun _ => by omega⟩

/-- Text has no more brackets without its codes, and fewer if one of them is no escape. -/
theorem count_less_plains (nodes : List Inline) :
    (plains nodes).count less ≤ (sources nodes).count less
      ∧ (allEscaping nodes = false → (plains nodes).count less < (sources nodes).count less) := by
  cases nodes with
  | nil => exact ⟨Nat.le_refl _, nofun⟩
  | cons node rest =>
    obtain ⟨hle, hlt⟩ := count_less_plain node
    obtain ⟨hle', hlt'⟩ := count_less_plains rest
    rw [plains, sources, List.count_append, List.count_append]
    refine ⟨by omega, fun hother => ?_⟩
    rw [allEscaping, Bool.and_eq_false_iff] at hother
    rcases hother with hnode | hrest
    · have := hlt hnode
      omega
    · have := hlt' hrest
      omega

end

/-- Whether a node is text, or an escape that is known. -/
def isResolved : Inline → Bool
  | .text _ => true
  | .code letter _ children _ =>
      letter == ofChar 'E' && (escapeText? (plains children).trim).isSome

theorem plains_eq_nil {nodes : List Inline} (h : sources nodes = []) : plains nodes = [] := by
  induction nodes with
  | nil => rfl
  | cons node rest ih =>
    obtain ⟨hnode, hrest⟩ := List.append_eq_nil_iff.1 h
    cases node with
    | text t => rw [plains, ih hrest, List.append_nil]; exact hnode
    | code letter delimiter children line => cases hnode

/-- A known escape is longer than what it stands for. -/
theorem length_plain_lt {letter : CodeUnit} {delimiter : Pod.Delimiter} {children : List Inline}
    {line : Int} (h : isResolved (.code letter delimiter children line) = true) :
    (plain (.code letter delimiter children line)).length
      < (source (.code letter delimiter children line)).length := by
  simp only [isResolved, Bool.and_eq_true, beq_iff_eq] at h
  obtain ⟨rfl, hsome⟩ := h
  obtain ⟨value, hvalue⟩ := Option.isSome_iff_exists.1 hsome
  have hname : sources children ≠ [] := by
    intro hnil
    have hnone : escapeText? (trim []) = none := by decide +kernel
    rw [plains_eq_nil hnil, hnone] at hvalue
    cases hvalue
  have hlength := length_escapeText?_le hvalue
  have hpositive := List.length_pos_iff.2 hname
  have hplain : plain (.code 'E' delimiter children line) = value := by
    rw [plain, if_neg (by decide), if_pos rfl]
    dsimp only
    rw [hvalue, Option.getD_some]
  rw [hplain, source, List.length_cons, List.length_append, List.length_append,
    Delimiter.front, Delimiter.count, List.length_append, List.length_replicate]
  omega

/-- Text whose escapes are known is shorter without them. -/
theorem length_plains_le {nodes : List Inline} (h : ∀ node ∈ nodes, isResolved node = true) :
    (plains nodes).length ≤ (sources nodes).length
      ∧ ((plains nodes).length = (sources nodes).length → ∀ node ∈ nodes, node.isText = true) := by
  induction nodes with
  | nil => exact ⟨Nat.le_refl _, fun _ _ hnode => (List.not_mem_nil hnode).elim⟩
  | cons node rest ih =>
    obtain ⟨hnode, hrest⟩ := List.forall_mem_cons.1 h
    obtain ⟨hle, htexts⟩ := ih hrest
    rw [plains, sources, List.length_append, List.length_append]
    cases node with
    | text t =>
      have htext : (plain (.text t)).length = (source (.text t)).length := rfl
      refine ⟨by omega, fun heq => List.forall_mem_cons.2 ⟨rfl, htexts (by omega)⟩⟩
    | code letter delimiter children line =>
      have hlt := length_plain_lt hnode
      exact ⟨by omega, fun heq => by omega⟩

/-- Text without codes is its source. -/
theorem plains_eq_sources {nodes : List Inline} (h : ∀ node ∈ nodes, node.isText = true) :
    plains nodes = sources nodes := by
  induction nodes with
  | nil => rfl
  | cons node rest ih =>
    obtain ⟨hnode, hrest⟩ := List.forall_mem_cons.1 h
    cases node with
    | text t => rw [plains, sources, ih hrest]; rfl
    | code letter delimiter children line => cases hnode

end Inline

end Pod

/-! ## Escapes as thread -/

namespace Thread

/-- An escape shows at most one bracket more than its name has, and none if it is unknown. -/
theorem count_less_renderEscape (content : Rendered) :
    (renderEscape content).1.text.count less ≤ content.plain.count less + 1
      ∧ (escapeText? content.plain.trim = none →
        (renderEscape content).1.text.count less = content.plain.count less) := by
  have hless : less ∉ escapeUnits := by decide
  unfold renderEscape
  dsimp only
  cases hvalue : escapeText? content.plain.trim with
  | some value =>
    have hcount : (escape value).count less ≤ 1 :=
      Nat.le_trans (Nat.le_of_eq (count_escape hless value)) (Pod.count_less_escapeText? hvalue)
    exact ⟨Nat.le_trans hcount (Nat.le_add_left 1 _), nofun⟩
  | none =>
    have hentity : command "entity" [escape content.plain.trim]
        = ofString "\\entity[" ++ (escape content.plain.trim ++ [closeBracket]) := by
      simp only [command, bracketed, List.flatMap_singleton]
      rfl
    have hfront : (ofString "\\entity[").count less = 0 := by decide
    have hback : ([closeBracket] : Text).count less = 0 := by decide
    have hcount : (command "entity" [escape content.plain.trim]).count less
        = content.plain.count less := by
      rw [hentity, List.count_append, List.count_append, count_escape hless,
        count_trim (by decide), hfront, hback]
      omega
    exact ⟨Nat.le_trans (Nat.le_of_eq hcount) (Nat.le_add_right _ 1), fun _ => hcount⟩

namespace Draft

/-- Text with no codes but escapes shows no more brackets than it is written with, and fewer if
an escape is unknown. -/
theorem count_less_contentOf (r : Registry) {nodes : List Inline}
    (h : Inline.allEscaping nodes = true) :
    (contentOf nodes r).text.count less ≤ (Inline.sources nodes).count less
      ∧ ((contentOf nodes r).text.count less = (Inline.sources nodes).count less →
        ∀ node ∈ nodes, node.isResolved = true) := by
  have htext : ∀ a b : Rendered, (a ++ b).text = a.text ++ b.text := fun _ _ => rfl
  induction nodes with
  | nil =>
    rw [contentOf_nil]
    exact ⟨Nat.le_refl _, fun _ _ hnode => (List.not_mem_nil hnode).elim⟩
  | cons node rest ih =>
    simp only [Inline.allEscaping, Bool.and_eq_true] at h
    obtain ⟨hle, hresolved⟩ := ih h.2
    rw [Inline.sources, List.count_append]
    cases node with
    | text t =>
      have hcount : (Rendered.ofText t).text.count less = (Inline.source (.text t)).count less :=
        count_escape (by decide) t
      rw [contentOf_text, htext, List.count_append, hcount]
      exact ⟨by omega, fun heq => List.forall_mem_cons.2 ⟨rfl, hresolved (by omega)⟩⟩
    | code letter delimiter children line =>
      simp only [Inline.escaping, Bool.and_eq_true, beq_iff_eq] at h
      obtain ⟨⟨rfl, hchildren⟩, -⟩ := h
      obtain ⟨hknown, hfree⟩ := Inline.allKnown_of_allEscaping hchildren
      have hplain := (shows_contentOf r hfree).same hknown
      obtain ⟨hcode, hunknown⟩ := count_less_renderEscape (contentOf children r)
      have hnames := (Inline.count_less_plains children).1
      have hsource := Inline.brackets_children_lt 'E' delimiter children line
      rw [Inline.brackets] at hsource
      rw [hplain] at hcode hunknown
      have hrender : (renderCode [ofChar 'E'] (contentOf children r)).1
          = (renderEscape (contentOf children r)).1 := rfl
      rw [contentOf_code r (by decide), htext, List.count_append, hrender]
      refine ⟨by omega, fun heq => List.forall_mem_cons.2 ⟨?_, hresolved (by omega)⟩⟩
      cases hvalue : escapeText? (Inline.plains children).trim with
      | some value => rw [Inline.isResolved, hvalue]; rfl
      | none =>
        have := hunknown hvalue
        omega

theorem text_contentOf_eq_escape (r : Registry) {nodes : List Inline}
    (h : ∀ node ∈ nodes, node.isText = true) :
    (contentOf nodes r).text = escape (Inline.sources nodes) := by
  induction nodes with
  | nil =>
    rw [contentOf_nil]
    rfl
  | cons node rest ih =>
    obtain ⟨hnode, hrest⟩ := List.forall_mem_cons.1 h
    cases node with
    | text t =>
      rw [contentOf_text, Inline.sources, escape_append, ← ih hrest]
      rfl
    | code letter delimiter children line => cases hnode

/-- Text is rendered as its source, and is the same without its codes, exactly if it has no
codes. -/
theorem renders_plainly_iff (r : Registry) (nodes : List Inline) :
    Inline.plains nodes = Inline.sources nodes
        ∧ (contentOf nodes r).text = escape (Inline.sources nodes)
      ↔ ∀ node ∈ nodes, node.isText = true := by
  constructor
  · rintro ⟨hplain, htext⟩
    have hescaping : Inline.allEscaping nodes = true := by
      by_contra hother
      have hlt := (Inline.count_less_plains nodes).2 (Bool.eq_false_iff.2 hother)
      rw [hplain] at hlt
      exact Nat.lt_irrefl _ hlt
    have hresolved := (count_less_contentOf r hescaping).2
      (by rw [htext, count_escape (by decide)])
    exact (Inline.length_plains_le hresolved).2 (congrArg List.length hplain)
  · intro h
    exact ⟨Inline.plains_eq_sources h, text_contentOf_eq_escape r h⟩

end Draft

/-! ## Links to URLs -/

/-- A link to a URL, in angle brackets. -/
def urlLink (url text : Text) : Text := less :: (command "link" [url, text] ++ [greater])

theorem urlLink_inj {url url' text text' : Text} (hurl : Balanced url) (hurl' : Balanced url')
    (h : urlLink url text = urlLink url' text') : url = url' ∧ text = text' := by
  have harguments : bracketed url ++ (bracketed text ++ [greater])
      = bracketed url' ++ (bracketed text' ++ [greater]) := by
    simpa [urlLink, command] using h
  obtain ⟨heq, htext⟩ := bracketed_append_inj hurl hurl' harguments
  exact ⟨heq, List.append_cancel_right (List.cons.inj (List.append_cancel_right htext)).2⟩

theorem renderLink_url (r : Registry) {target : Text} (htarget : target ≠ [])
    (heading : Option Text) (shown : Rendered) :
    renderLink r .url (some target) heading false shown
      = ⟨urlLink (escape target) shown.text, shown.plain⟩ := by
  unfold renderLink
  dsimp only
  rw [if_pos ⟨rfl, htarget⟩, if_pos (.inl rfl)]
  rfl

end Thread

/-- A link to a URL without a text of its own shows the URL. -/
theorem Pod.parse_url {content : Text} (hkind : (Link.parse content).kind = .url)
    (hlabel : (Link.parse content).label = none) :
    ∃ target, target ≠ [] ∧ Link.parse content = ⟨.url, none, some target, none, target⟩ := by
  obtain ⟨target, htarget, hurl⟩ := isUrl_of_parse hkind
  have hsome : target ≠ [] := by
    rintro rfl
    cases hurl
  refine ⟨target, hsome, ?_⟩
  unfold Link.parse at hkind hlabel htarget ⊢
  dsimp only at hkind hlabel htarget ⊢
  split at htarget
  · rename_i hpattern
    rw [if_pos hpattern] at hlabel ⊢
    obtain rfl := Option.some.inj htarget
    have hnone : (Pod.splitLabel content).1 = none := hlabel
    rw [hnone]
    rfl
  · rename_i hpattern
    rw [if_neg hpattern] at hkind
    dsimp only at hkind
    split at hkind <;> cases hkind

/-- A link to a URL without a text of its own adds a link in angle brackets. -/
theorem adds_url {file source : Text} {o : Options} {sections : Registry}
    (hsections : Registry.create ((resolveAnchors file source o).1.getD []) = .ok sections)
    {before after : List Event} {delimiter : Pod.Delimiter} {children : List Inline} {line : Int}
    (hlink : Pod.sourceEvents file source
      = before ++ (inlineEvents [.code 'L' delimiter children line] ++ after))
    {target : Text} (htarget : target ≠ [])
    (hparse : Link.parse (Inline.sources children) = ⟨.url, none, some target, none, target⟩)
    {shown : Rendered} (hshown : Draft.contentOf (Inline.parse line target)
      (writerAfter file source o before).sections = shown) :
    Adds file source o before (inlineEvents [.code 'L' delimiter children line])
      ⟨Thread.urlLink (Thread.escape target) shown.text, shown.plain⟩ := by
  have hadds := adds_link hsections hlink hparse
  dsimp only at hadds
  rwa [hshown, Option.isSome_none, Thread.renderLink_url _ htarget] at hadds

/-- A link to a URL without a text of its own is rendered in angle brackets, as a link to the URL
as it is written around the URL as it is rendered.  The two are the same, the URL with its codes
resolved, exactly if it has no codes. -/
theorem url_link_same_iff (file source : Text) (o : Options) {sections : Registry}
    (hsections : Registry.create ((resolveAnchors file source o).1.getD []) = .ok sections)
    {before after : List Event} {delimiter : Pod.Delimiter} {children : List Inline} {line : Int}
    (hlink : Pod.sourceEvents file source
      = before ++ (inlineEvents [.code 'L' delimiter children line] ++ after))
    (hkind : (Link.parse (Inline.sources children)).kind = .url)
    (hlabel : (Link.parse (Inline.sources children)).label = none) :
    ∃ target, (Link.parse (Inline.sources children)).target = some target ∧
      let nodes := Inline.parse line target
      let shown := Draft.contentOf nodes (writerAfter file source o before).sections
      let url := Thread.escape (Inline.plains nodes)
      Adds file source o before (inlineEvents [.code 'L' delimiter children line])
          ⟨Thread.urlLink (Thread.escape target) shown.text, shown.plain⟩
        ∧ (Thread.urlLink (Thread.escape target) shown.text = Thread.urlLink url url
          ↔ ∀ node ∈ nodes, node.isText = true) := by
  obtain ⟨target, hsome, hparse⟩ := Pod.parse_url hkind hlabel
  refine ⟨target, by rw [hparse], ?_⟩
  intro nodes shown url
  refine ⟨adds_url hsections hlink hsome hparse rfl, ?_⟩
  have hsources : Inline.sources nodes = target := Pod.sources_parse line target
  rw [← Draft.renders_plainly_iff (writerAfter file source o before).sections nodes, hsources]
  constructor
  · intro h
    obtain ⟨hurl, htext⟩ := Thread.urlLink_inj (.escape target) (.escape _) h
    have hplain := (Thread.escape_injective hurl).symm
    exact ⟨hplain, htext.trans (congrArg Thread.escape hplain)⟩
  · rintro ⟨hplain, htext⟩
    have hurl : url = Thread.escape target := congrArg Thread.escape hplain
    rw [hurl]
    exact congrArg _ htext

/-- A URL without codes, and a source whose only paragraph is a link to it. -/
def plainUrl : Text := "http://example.com/"

def plainUrlSource : Text := "=pod\n\nL<http://example.com/>\n"

theorem sourceEvents_plainUrl :
    Pod.sourceEvents defaultFileName plainUrlSource
      = [.docStart (sourceInfo defaultFileName plainUrlSource), .start (.para 3)]
        ++ (inlineEvents (linkAlone [.text plainUrl])
          ++ [.finish (.para 3), .docEnd (sourceErrata plainUrlSource)]) := by
  have hsplit : Paragraph.split plainUrlSource
      = [⟨.command "pod", 1, [[]]⟩, ⟨.ordinary, 3, ["L<http://example.com/>"]⟩] := by
    decide +kernel
  exact sourceEvents_of_link defaultFileName hsplit (by cbv)

/-- The link shows the URL that it leads to. -/
theorem url_link_same_plain :
    (Link.parse (Inline.sources [.text plainUrl])).kind = .url
      ∧ (Link.parse (Inline.sources [.text plainUrl])).label = none
      ∧ Adds defaultFileName plainUrlSource Options.plain
        [.docStart (sourceInfo defaultFileName plainUrlSource), .start (.para 3)]
        (inlineEvents (linkAlone [.text plainUrl]))
        ⟨Thread.urlLink plainUrl plainUrl, plainUrl⟩ := by
  have hkind : (Link.parse (Inline.sources [.text plainUrl])).kind = .url := by decide +kernel
  have hlabel : (Link.parse (Inline.sources [.text plainUrl])).label = none := by decide +kernel
  obtain ⟨target, htarget, hadds, hsame⟩ := url_link_same_iff defaultFileName plainUrlSource
    Options.plain (create_plain plainUrlSource) sourceEvents_plainUrl hkind hlabel
  have hurl : (Link.parse (Inline.sources [.text plainUrl])).target = some plainUrl := by
    decide +kernel
  obtain rfl := Option.some.inj (htarget.symm.trans hurl)
  have hnodes : Inline.parse 3 plainUrl = [.text plainUrl] := by cbv
  rw [hnodes] at hadds hsame
  rw [hsame.2 (List.forall_mem_singleton.2 rfl), Draft.contentOf_text, Draft.contentOf_nil,
    Thread.Rendered.append_empty] at hadds
  have hplain : Thread.escape (Inline.plains [.text plainUrl]) = plainUrl := by decide +kernel
  rw [hplain] at hadds
  exact ⟨hkind, hlabel, hadds⟩

/-- A URL with an escape, the nodes of its text, and a source whose only paragraph is a link to
it. -/
def escapedUrl : Text := "http://a/E<lt>b"

def escapedUrlNodes : List Inline :=
  [.text "http://a/", .code 'E' ⟨0, [], some []⟩ [.text "lt"] 3, .text "b"]

def escapedUrlSource : Text := "=pod\n\nL<http://a/E<lt>b>\n"

theorem sourceEvents_escapedUrl :
    Pod.sourceEvents defaultFileName escapedUrlSource
      = [.docStart (sourceInfo defaultFileName escapedUrlSource), .start (.para 3)]
        ++ (inlineEvents (linkAlone escapedUrlNodes)
          ++ [.finish (.para 3), .docEnd (sourceErrata escapedUrlSource)]) := by
  have hsplit : Paragraph.split escapedUrlSource
      = [⟨.command "pod", 1, [[]]⟩, ⟨.ordinary, 3, ["L<http://a/E<lt>b>"]⟩] := by
    decide +kernel
  exact sourceEvents_of_link defaultFileName hsplit (by cbv)

/-- The link leads to the URL with the escape in it, and shows the one without. -/
theorem url_link_differs :
    (Link.parse (Inline.sources escapedUrlNodes)).kind = .url
      ∧ (Link.parse (Inline.sources escapedUrlNodes)).label = none
      ∧ (Link.parse (Inline.sources escapedUrlNodes)).target = some escapedUrl
      ∧ Inline.plains (Inline.parse 3 escapedUrl) = "http://a/<b"
      ∧ Pod.sourceEvents defaultFileName escapedUrlSource
        = [.docStart (sourceInfo defaultFileName escapedUrlSource), .start (.para 3)]
          ++ (inlineEvents (linkAlone escapedUrlNodes)
            ++ [.finish (.para 3), .docEnd (sourceErrata escapedUrlSource)])
      ∧ Adds defaultFileName escapedUrlSource Options.plain
        [.docStart (sourceInfo defaultFileName escapedUrlSource), .start (.para 3)]
        (inlineEvents (linkAlone escapedUrlNodes))
        ⟨Thread.urlLink "http://a/E<lt>b" "http://a/<b", "http://a/<b"⟩
      ∧ Thread.urlLink "http://a/E<lt>b" "http://a/<b"
        ≠ Thread.urlLink "http://a/<b" "http://a/<b" := by
  have hparse : Link.parse (Inline.sources escapedUrlNodes)
      = ⟨.url, none, some escapedUrl, none, escapedUrl⟩ := by decide +kernel
  have hnodes : Inline.parse 3 escapedUrl = escapedUrlNodes := by cbv
  have hshown : ∀ r, Draft.contentOf (Inline.parse 3 escapedUrl) r
      = ⟨"http://a/<b", "http://a/<b"⟩ := by
    intro r
    rw [hnodes, escapedUrlNodes, Draft.contentOf_text, Draft.contentOf_code r (by decide),
      Draft.contentOf_text, Draft.contentOf_text, Draft.contentOf_nil]
    decide +kernel
  have hadds := adds_url (create_plain escapedUrlSource) sourceEvents_escapedUrl
    (by decide +kernel) hparse (hshown _)
  have hescape : Thread.escape escapedUrl = "http://a/E<lt>b" := by decide +kernel
  rw [hescape] at hadds
  refine ⟨by rw [hparse], by rw [hparse], by rw [hparse], ?_, sourceEvents_escapedUrl, hadds,
    by decide +kernel⟩
  rw [hnodes]
  decide +kernel

end PodLoom
