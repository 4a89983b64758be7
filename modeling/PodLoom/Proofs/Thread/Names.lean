import PodLoom.Proofs.Pod.Spacing
import PodLoom.Proofs.Thread.Content
import PodLoom.Proofs.Thread.Markup

set_option autoImplicit false

/-!
# Names of headings

A heading and a link to it reduce the same text to a name along two paths.  The writer takes
what the heading shows without formatting, and then squeezes it (`headingText`); the reader of
the link squeezes the text, and then drops the codes (`linkedText`).

The writer shows a code that it does not know as it stands, where the reader drops the code and
keeps its content; and squeezing last closes up the gaps that a dropped code leaves.  So the two
names are the same exactly if all codes that show are known and no gap is left to close up
(`linkedText_eq_iff`).
-/

namespace PodLoom

open Text CodeUnit
open PodLoom.Pod (AllAlike Block Inline escapeNames escapeText? inlineEvents namedEscape?
  numericEscape? parse_regapped)
open PodLoom.Thread (Draft Registry Rendered renderCode renderEscape)

/-! ## Codes that are known -/

namespace Pod.Inline

mutual

/-- Whether the writer knows all codes of a node that show; nothing shows of what stands in an
index entry or in a zero-width code. -/
def known : Inline → Bool
  | .text _ => true
  | .code letter _ children _ =>
      (ofString "XZ").contains letter
        || (ofString "BCFISE").contains letter && allKnown children

/-- Whether the writer knows all codes of a sequence of nodes that show. -/
def allKnown : List Inline → Bool
  | [] => true
  | node :: rest => known node && allKnown rest

end

end Pod.Inline

/-! ## Counting brackets -/

namespace Text

/-- Trimming keeps every unit that is not white space. -/
theorem count_trim {u : CodeUnit} (hu : u.isBlank = false) (t : Text) :
    t.trim.count u = t.count u := by
  rw [← count_squeeze hu, squeeze_trim, count_squeeze hu]

theorem count_less_ofCodePoint {n : Nat} (h : n ≤ Pod.maxCodePoint) :
    (ofCodePoint n).count less ≤ 1 := by
  unfold ofCodePoint
  split
  · exact List.count_le_length
  · rename_i hn
    have hhigh : (0xD800 + (n - 0x10000) / 0x400).toUInt16 ≠ less := by
      intro heq
      have hnat := congrArg UInt16.toNat heq
      rw [Nat.toUInt16, UInt16.toNat_ofNat'] at hnat
      have hless : less.toNat = 60 := rfl
      have hmax : Pod.maxCodePoint = 0x10FFFF := rfl
      omega
    rw [List.count_cons_of_ne hhigh]
    exact List.count_le_length

end Text

namespace Pod

/-- An escape stands for one bracket at the most. -/
theorem count_less_escapeText? {name value : Text} (h : escapeText? name = some value) :
    value.count less ≤ 1 := by
  unfold escapeText? at h
  split at h
  · rename_i point hpoint
    obtain rfl := Option.some.inj h
    refine count_less_ofCodePoint ?_
    rw [numericEscape?, Option.filter_eq_some_iff] at hpoint
    exact of_decide_eq_true hpoint.2
  · have hnames : ∀ row ∈ escapeNames, row.2.count less ≤ 1 := by decide +kernel
    unfold namedEscape? at h
    obtain ⟨row, hrow, rfl⟩ := Option.map_eq_some_iff.1 h
    exact hnames row (List.mem_of_find?_eq_some hrow)

end Pod

namespace Thread

/-! ## What is shown and what is left -/

/-- What is shown of formatted text, against the text with its codes dropped: the same if all
codes that show are known, and else more brackets.  Nothing is shown without thread to
show it. -/
structure Shows (known : Bool) (content : Rendered) (plain : Text) : Prop where
  same : known = true → content.plain = plain
  more : known = false → plain.count less < content.plain.count less
  visible : content.text = [] → content.plain = []

namespace Shows

variable {known known' : Bool} {content content' : Rendered} {plain plain' : Text}

theorem ofText (t : Text) : Shows true (.ofText t) t :=
  ⟨fun _ => rfl, nofun, (escape_eq_nil_iff t).1⟩

theorem empty : Shows true .empty [] := ⟨fun _ => rfl, nofun, fun _ => rfl⟩

theorem count_le (h : Shows known content plain) :
    plain.count less ≤ content.plain.count less := by
  cases known with
  | true => rw [h.same rfl]
  | false => exact Nat.le_of_lt (h.more rfl)

theorem append (h : Shows known content plain) (h' : Shows known' content' plain') :
    Shows (known && known') (content ++ content') (plain ++ plain') := by
  have hplain : (content ++ content').plain = content.plain ++ content'.plain := rfl
  have htext : (content ++ content').text = content.text ++ content'.text := rfl
  refine ⟨?_, ?_, ?_⟩
  · intro hknown
    rw [Bool.and_eq_true] at hknown
    rw [hplain, h.same hknown.1, h'.same hknown.2]
  · intro hunknown
    have hle := h.count_le
    have hle' := h'.count_le
    rw [hplain, List.count_append, List.count_append]
    rcases (Bool.and_eq_false_iff).1 hunknown with hfirst | hsecond
    · have := h.more hfirst
      omega
    · have := h'.more hsecond
      omega
  · intro hnil
    rw [htext, List.append_eq_nil_iff] at hnil
    rw [hplain, h.visible hnil.1, h'.visible hnil.2]
    rfl

theorem wrapped (h : Shows known content plain) (name : String) :
    Shows known (content.wrapped name) plain := by
  unfold Rendered.wrapped
  split
  · rename_i hnil
    have hplain := h.visible (List.isEmpty_iff.1 hnil)
    refine ⟨fun hknown => ?_, fun hunknown => ?_, fun _ => rfl⟩
    · rw [← h.same hknown, hplain]
      rfl
    · have := h.more hunknown
      rw [hplain] at this
      simp at this
  · exact ⟨h.same, h.more, nofun⟩

/-- A code that is not known shows its brackets. -/
theorem literalCode (h : Shows known content plain) (letter : CodeUnit) :
    Shows false ⟨Rendered.literalCode [letter] content.text,
      Rendered.literalCode [letter] content.plain⟩ plain := by
  refine ⟨nofun, fun _ => ?_, nofun⟩
  have hle := h.count_le
  simp only [Rendered.literalCode, List.count_append, List.count_cons, beq_self_eq_true, if_true]
  omega

/-- An escape with a code in it is unknown, and shows both. -/
theorem escape (h : Shows known content plain) :
    Shows known (renderEscape content).1
      ((escapeText? plain.trim).getD (ofString "E<" ++ plain.trim ++ ofString ">")) := by
  have hliteral : ∀ name : Text, ofString "E<" ++ name ++ ofString ">"
      = Rendered.literalCode [ofChar 'E'] name := fun name => by
    rw [Rendered.literalCode, List.append_assoc]
    rfl
  have hcount : ∀ name : Text,
      (Rendered.literalCode [ofChar 'E'] name.trim).count less = name.count less + 1 := by
    intro name
    have hletter : ([ofChar 'E'] : Text).count less = 0 := by decide
    have hclose : ([greater] : Text).count less = 0 := by decide
    rw [Rendered.literalCode, List.count_append, List.count_cons_self, List.count_append,
      count_trim (by decide), hletter, hclose]
    omega
  rw [hliteral]
  unfold renderEscape
  dsimp only
  refine ⟨fun hknown => ?_, fun hunknown => ?_, ?_⟩
  · rw [h.same hknown]
    cases escapeText? plain.trim <;> rfl
  · have hmore := h.more hunknown
    have hmem : less ∈ content.plain.trim := by
      rw [← List.count_pos_iff, count_trim (by decide)]
      omega
    rw [Pod.escapeText?_of_not_isWord hmem (by decide)]
    show _ < (Rendered.literalCode [ofChar 'E'] content.plain.trim).count less
    rw [hcount]
    cases hvalue : escapeText? plain.trim with
    | some value =>
      have := Pod.count_less_escapeText? hvalue
      rw [Option.getD_some]
      omega
    | none =>
      rw [Option.getD_none, hcount]
      omega
  · intro hnil
    cases hvalue : escapeText? content.plain.trim with
    | some value =>
      rw [hvalue] at hnil
      exact (escape_eq_nil_iff _).1 hnil
    | none =>
      rw [hvalue] at hnil
      cases hnil

end Shows

theorem shows_renderCode {letter : CodeUnit} (hletter : letter ≠ ofChar 'L') {content : Rendered}
    {children : List Inline}
    (h : Shows (Inline.allKnown children) content (Inline.plains children))
    (delimiter : Pod.Delimiter) (line : Int) :
    Shows (Inline.known (.code letter delimiter children line)) (renderCode [letter] content).1
      (Inline.plain (.code letter delimiter children line)) := by
  have hcode : ∀ {c : Char}, [letter] = [ofChar c] → letter = ofChar c := fun hcode =>
    (List.cons.inj hcode).1
  unfold renderCode
  split_ifs with hb hc hi hf hs hhidden he
  · obtain rfl := hcode hb
    exact h.wrapped "bold"
  · obtain rfl := hcode hc
    exact h.wrapped "code"
  · obtain rfl := hcode hi
    exact h.wrapped "italic"
  · obtain rfl := hcode hf
    exact h.wrapped "italic(file)"
  · obtain rfl := hcode hs
    exact h
  · rcases hhidden with hx | hz
    · obtain rfl := hcode hx
      exact .empty
    · obtain rfl := hcode hz
      exact .empty
  · obtain rfl := hcode he
    exact h.escape
  · have hother : ∀ c : Char, ¬ [letter] = [ofChar c] → letter ≠ ofChar c := fun c hcode heq =>
      hcode (by rw [heq])
    obtain ⟨hx, hz⟩ := not_or.1 hhidden
    have hhidden' : (ofString "XZ").contains letter = false := by
      have hletters : ofString "XZ" = [ofChar 'X', ofChar 'Z'] := rfl
      simp [hletters, hother 'X' hx, hother 'Z' hz]
    have hunknown : (ofString "BCFISE").contains letter = false := by
      have hletters : ofString "BCFISE"
          = [ofChar 'B', ofChar 'C', ofChar 'F', ofChar 'I', ofChar 'S', ofChar 'E'] := rfl
      simp [hletters, hother 'B' hb, hother 'C' hc, hother 'F' hf, hother 'I' hi, hother 'S' hs,
        hother 'E' he]
    rw [Inline.known, hhidden', hunknown, Inline.plain,
      if_neg (not_or.2 ⟨hother 'X' hx, hother 'Z' hz⟩), if_neg (hother 'E' he)]
    exact h.literalCode letter

namespace Draft

/-- What is shown of formatted text without links. -/
theorem shows_contentOf (r : Registry) {nodes : List Inline} (h : Inline.allLinkFree nodes = true) :
    Shows (Inline.allKnown nodes) (contentOf nodes r) (Inline.plains nodes) := by
  fun_induction inlineEvents nodes with
  | case1 =>
    rw [contentOf_nil]
    exact .empty
  | case2 t rest ih =>
    simp only [Inline.allLinkFree, Inline.linkFree, Bool.true_and] at h
    rw [contentOf_text]
    exact (Shows.ofText t).append (ih h)
  | case3 delimiter children line rest link element ihdisplay ihrest =>
    simp [Inline.allLinkFree, Inline.linkFree] at h
  | case4 letter delimiter children line rest hletter element ihchildren ihrest =>
    simp only [Inline.allLinkFree, Inline.linkFree, Bool.and_eq_true] at h
    rw [contentOf_code r hletter]
    exact (shows_renderCode hletter (ihchildren h.1.2) delimiter line).append (ihrest h.2)

end Draft

end Thread

/-! ## The two names -/

/-- The name that a heading is registered under, if it has no links: what it shows without
formatting, squeezed. -/
def headingText (line : Int) (t : Text) : Text :=
  (Draft.contentOf (Block.nodes line t) .empty).plain.squeeze

theorem headingText_nil (line : Int) : headingText line [] = [] := by
  rw [headingText, Block.nodes_nil, Draft.contentOf_nil]
  rfl

/-- The name that a link to a section is looked up under: what is left of the squeezed text
without its codes. -/
def linkedText (line : Int) (t : Text) : Text := Inline.plains (Inline.parse line t.squeeze)

/-- The names of a heading and of a link to it are the same exactly if all codes of the heading
that show are known and its text, without the codes, has no gaps left to close up. -/
theorem linkedText_eq_iff {t : Text} (htrim : t.trim = t) {line : Int}
    (hfree : Inline.allLinkFree (Block.nodes line t) = true) (linkLine : Int) :
    linkedText linkLine t = headingText line t
      ↔ Inline.allKnown (Block.nodes line t) = true
        ∧ (linkedText linkLine t).squeeze = linkedText linkLine t := by
  have hregapped : Regapped t.expandTabs t.squeeze :=
    (regapped_expandTabs htrim).symm.trans (regapped_squeeze htrim)
  have halike : AllAlike (Block.nodes line t) (Inline.parse linkLine t.squeeze) :=
    parse_regapped hregapped line linkLine
  have hsqueeze : (Inline.plains (Block.nodes line t)).squeeze = (linkedText linkLine t).squeeze :=
    halike.plains.squeeze_eq
  have hshows := Draft.shows_contentOf .empty hfree
  cases hknown : Inline.allKnown (Block.nodes line t) with
  | true =>
    rw [headingText, hshows.same hknown, hsqueeze]
    exact ⟨fun h => ⟨rfl, h.symm⟩, fun h => h.2.symm⟩
  | false =>
    -- A code that is not known shows brackets that the link does not have.
    have hmore := hshows.more hknown
    have hcount : (linkedText linkLine t).count less < (headingText line t).count less := by
      rw [headingText, count_squeeze (by decide),
        ← count_squeeze (by decide) (linkedText linkLine t), ← hsqueeze,
        count_squeeze (by decide)]
      exact hmore
    refine ⟨fun h => ?_, fun h => by cases h.1⟩
    rw [h] at hcount
    exact absurd hcount (Nat.lt_irrefl _)

end PodLoom
