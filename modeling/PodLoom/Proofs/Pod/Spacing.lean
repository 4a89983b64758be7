import Mathlib.Data.List.Forall2
import PodLoom.Proofs.Pod.Inline
import PodLoom.Proofs.Text.Spacing
import PodLoom.Proofs.Text.Trimming

set_option autoImplicit false

/-!
# Gaps in formatted text

White space separates the brackets of a delimiter from the content, and otherwise it is text
like any other.  So a text whose gaps are changed into other gaps has the same codes, around
texts that are alike (`parse_regapped`), and its plain content is alike (`AllAlike.plains`): an
escape has the same name, unless the name has a gap in it and is unknown either way.
-/

namespace PodLoom

open Text CodeUnit

/-! ## Units that belong to no word -/

namespace CodeUnit

theorem digitValue?_of_not_isWord {u : CodeUnit} (h : u.isWord = false) : digitValue? u = none := by
  simp only [isWord, isLetter, isUpper, isLower, isDigit, Bool.or_eq_false_iff,
    Bool.and_eq_false_iff, decide_eq_false_iff_not, beq_eq_false_iff_ne, ne_eq,
    UInt16.le_iff_toNat_le, ← UInt16.toNat_inj, UInt16.reduceToNat] at h
  simp only [digitValue?, isDigit, UInt16.le_iff_toNat_le, UInt16.reduceToNat, Bool.and_eq_true,
    decide_eq_true_eq]
  rw [if_neg (by omega), if_neg (by omega), if_neg (by omega)]

end CodeUnit

namespace Pod

/-! ## Nodes that are alike -/

/-- Nodes with the same codes around texts that are alike. -/
inductive AllAlike : List Inline → List Inline → Prop where
  | nil : AllAlike [] []
  | text {t t' : Text} {rest rest' : List Inline} :
      Alike t t' → AllAlike rest rest' → AllAlike (.text t :: rest) (.text t' :: rest')
  | code (letter : CodeUnit) (d d' : Delimiter) (line line' : Int)
      {children children' rest rest' : List Inline} :
      AllAlike children children' → AllAlike rest rest' →
        AllAlike (.code letter d children line :: rest) (.code letter d' children' line' :: rest')

namespace AllAlike

variable {nodes nodes' more more' : List Inline}

theorem append (h : AllAlike nodes nodes') (hmore : AllAlike more more') :
    AllAlike (nodes ++ more) (nodes' ++ more') := by
  induction h with
  | nil => exact hmore
  | text ht _ ih => exact .text ht ih
  | code letter d d' line line' hchildren _ _ ih => exact .code letter d d' line line' hchildren ih

theorem reverse (h : AllAlike nodes nodes') : AllAlike nodes.reverse nodes'.reverse := by
  induction h with
  | nil => exact .nil
  | text ht _ ih =>
    rw [List.reverse_cons, List.reverse_cons]
    exact ih.append (.text ht .nil)
  | code letter d d' line line' hchildren _ _ ih =>
    rw [List.reverse_cons, List.reverse_cons]
    exact ih.append (.code letter d d' line line' hchildren .nil)

theorem pushText {run run' : Text} (hrun : Alike run.reverse run'.reverse)
    (h : AllAlike nodes nodes') : AllAlike (Pod.pushText run nodes) (Pod.pushText run' nodes') := by
  have hempty : run.isEmpty = run'.isEmpty := by
    have hnil := hrun.eq_nil_iff
    rw [List.reverse_eq_nil_iff, List.reverse_eq_nil_iff] at hnil
    rw [Bool.eq_iff_iff, List.isEmpty_iff, List.isEmpty_iff, hnil]
  unfold Pod.pushText
  rw [hempty]
  split
  · exact h
  · exact .text hrun h

end AllAlike

/-- Open codes of one kind, with nodes before them that are alike. -/
structure OpenCode.Alike (c c' : OpenCode) : Prop where
  letter : c.letter = c'.letter
  extra : c.extra = c'.extra
  before : AllAlike c.before c'.before

theorem OpenCode.Alike.node {c c' : OpenCode} (h : c.Alike c') (closing closing' : Option Text)
    {nodes nodes' : List Inline} (hnodes : AllAlike nodes nodes') :
    AllAlike (c.node closing nodes :: c.before) (c'.node closing' nodes' :: c'.before) := by
  unfold OpenCode.node
  rw [h.letter]
  exact .code _ _ _ _ _ hnodes.reverse h.before

theorem AllAlike.endCodes {stack stack' : List OpenCode}
    (hstack : List.Forall₂ OpenCode.Alike stack stack') {nodes nodes' : List Inline}
    (h : AllAlike nodes nodes') :
    AllAlike (Pod.endCodes stack nodes) (Pod.endCodes stack' nodes') := by
  induction hstack generalizing nodes nodes' with
  | nil => exact h.reverse
  | cons hc _ ih => exact ih (hc.node none none h)

/-! ## Delimiters -/

section Delimiters

variable {a b : Text}

/-- A closing delimiter keeps its brackets. -/
theorem closing?_regapped (h : Regapped a b) {extra : Nat} {padding rest : Text}
    (hclosing : closing? extra a = some (padding, rest)) :
    ∃ padding' rest', closing? extra b = some (padding', rest') ∧ Regapped rest rest' := by
  obtain ⟨rfl, hpadded⟩ := closing?_eq_some_iff.1 hclosing
  rw [List.append_assoc, List.replicate_succ, List.cons_append] at h
  obtain ⟨padding', b, rfl, hblank, hboth, hbrackets⟩ :=
    Regapped.inv (isBlank_of_paddedBy hpadded) (by decide) h
  have hsolid : ∀ u ∈ List.replicate extra greater, u.isBlank = false := fun u hu => by
    rw [List.eq_of_mem_replicate hu]
    decide
  obtain ⟨rest', rfl, hrest⟩ := hbrackets.inv_append hsolid
  refine ⟨padding', rest', closing?_eq_some_iff.2 ⟨?_, ?_⟩, hrest⟩
  · rw [List.append_assoc, List.replicate_succ, List.cons_append]
  · unfold PaddedBy at hpadded ⊢
    split at hpadded
    · rename_i hextra
      rw [if_pos hextra]
      exact hboth.1 hpadded
    · rename_i hextra
      rw [if_neg hextra]
      exact ⟨fun hnil => hpadded.1 (hboth.2 hnil), hblank⟩

theorem closing?_eq_none_regapped (h : Regapped a b) {extra : Nat}
    (hnone : closing? extra a = none) :
    closing? extra b = none := by
  cases hclosing : closing? extra b with
  | none => rfl
  | some found =>
    obtain ⟨padding, rest, hfound, -⟩ := closing?_regapped h.symm hclosing
    rw [hnone] at hfound
    cases hfound

/-- A delimiter with more than one bracket keeps its brackets. -/
theorem opening?_regapped_of_extra (h : Regapped a b) {o : Opening} (ho : opening? a = some o)
    (hextra : o.extra ≠ 0) :
    ∃ o', opening? b = some o' ∧ o'.letter = o.letter ∧ o'.extra = o.extra
      ∧ Regapped o.content o'.content := by
  obtain ⟨rfl, hletter, hpadded, htight⟩ := opening?_eq_some_iff.1 ho
  rw [PaddedBy, if_neg hextra] at hpadded
  rw [Opening.Tight, if_neg hextra] at htight
  have hfront : ∀ u ∈ o.letter :: List.replicate (o.extra + 1) less, u.isBlank = false := by
    refine List.forall_mem_cons.2 ⟨not_isBlank_of_isUpper hletter, fun u hu => ?_⟩
    rw [List.eq_of_mem_replicate hu]
    decide
  rw [List.append_assoc, ← List.cons_append] at h
  obtain ⟨c, rfl, hpadding⟩ := h.inv_append hfront
  cases hcontent : o.content with
  | nil =>
    -- A gap at the end is not regapped.
    rw [hcontent, List.append_nil] at hpadding
    generalize o.padding = padding at hpadded hpadding
    cases hpadding with
    | nil => exact absurd rfl hpadded.1
    | @unit g _ u rest _ _ _ _ hu _ =>
      have hblank := List.all_eq_true.1 hpadded.2 u (by simp)
      rw [hu] at hblank
      cases hblank
  | cons u content =>
    have hu : u.isBlank = false := by rwa [hcontent] at htight
    rw [hcontent] at hpadding
    obtain ⟨padding', content', rfl, hblank, hboth, hrest⟩ := Regapped.inv hpadded.2 hu hpadding
    refine ⟨⟨o.letter, o.extra, padding', u :: content'⟩,
      opening?_eq_some_iff.2 ⟨?_, hletter, ?_, ?_⟩, rfl, rfl, .cons hu hrest⟩
    · rw [List.append_assoc]
      rfl
    · rw [PaddedBy, if_neg hextra]
      exact ⟨fun hnil => hpadded.1 (hboth.2 hnil), hblank⟩
    · rw [Opening.Tight, if_neg hextra]
      exact hu

/-- One bracket has no white space to go with it. -/
theorem opening?_single {t : Text} {o : Opening} (ho : opening? t = some o) (hextra : o.extra = 0) :
    t = o.letter :: less :: o.content ∧ o.letter.isUpper = true := by
  obtain ⟨htext, hletter, hpadded, -⟩ := opening?_eq_some_iff.1 ho
  rw [PaddedBy, if_pos hextra] at hpadded
  rw [hextra, hpadded, List.append_nil] at htext
  exact ⟨htext, hletter⟩

/-- An opening delimiter keeps its brackets. -/
theorem opening?_regapped (h : Regapped a b) {o : Opening} (ho : opening? a = some o) :
    ∃ o', opening? b = some o' ∧ o'.letter = o.letter ∧ o'.extra = o.extra
      ∧ Regapped o.content o'.content := by
  by_cases hextra : o.extra = 0
  · obtain ⟨rfl, hletter⟩ := opening?_single ho hextra
    obtain ⟨c, rfl, hfront⟩ := h.inv_cons (not_isBlank_of_isUpper hletter)
    obtain ⟨c, rfl, hrest⟩ := hfront.inv_cons (u := less) (by decide)
    cases hopening : opening? (o.letter :: less :: c) with
    | none =>
      rw [opening?_eq_none_iff, hletter] at hopening
      simp at hopening
    | some o' =>
      by_cases hextra' : o'.extra = 0
      · obtain ⟨htext, -⟩ := opening?_single hopening hextra'
        obtain ⟨hsame, hbracket⟩ := List.cons.inj htext
        obtain rfl := (List.cons.inj hbracket).2
        exact ⟨o', rfl, hsame.symm, by rw [hextra, hextra'], hrest⟩
      · -- A wider delimiter would be one in the other text too.
        obtain ⟨o'', ho'', -, hwide, -⟩ := opening?_regapped_of_extra h.symm hopening hextra'
        rw [ho] at ho''
        obtain rfl := Option.some.inj ho''
        exact absurd (hwide.symm.trans hextra) hextra'
  · exact opening?_regapped_of_extra h ho hextra

theorem opening?_eq_none_regapped (h : Regapped a b) (hnone : opening? a = none) :
    opening? b = none := by
  cases hopening : opening? b with
  | none => rfl
  | some o =>
    obtain ⟨o', hfound, -⟩ := opening?_regapped h.symm hopening
    rw [hnone] at hfound
    cases hfound

theorem Shut.regapped (h : Regapped a b) {stack stack' : List OpenCode}
    (hstack : List.Forall₂ OpenCode.Alike stack stack') (hshut : Shut stack a) : Shut stack' b := by
  cases hstack with
  | nil => exact shut_nil b
  | cons hc _ =>
    rintro d hd
    cases hd
    rw [← hc.extra]
    exact closing?_eq_none_regapped h (hshut _ rfl)

end Delimiters

/-! ## Reading -/

/-- What does not close at a gap does not close in the middle of it. -/
theorem Shut.tail {stack : List OpenCode} {u v : CodeUnit} (hu : u.isBlank = true)
    (hv : v.isBlank = true) {t : Text} (h : Shut stack (u :: v :: t)) : Shut stack (v :: t) := by
  intro c hc
  cases hclosing : closing? c.extra (v :: t) with
  | none => rfl
  | some found =>
    obtain ⟨padding, rest⟩ := found
    obtain ⟨htext, hpadded⟩ := closing?_eq_some_iff.1 hclosing
    unfold PaddedBy at hpadded
    split at hpadded
    · rename_i hextra
      rw [hpadded, hextra] at htext
      obtain rfl := (List.cons.inj htext).1
      cases hv
    · rename_i hextra
      have hwider : closing? c.extra (u :: v :: t) = some (u :: padding, rest) := by
        refine closing?_eq_some_iff.2 ⟨by rw [htext]; rfl, ?_⟩
        rw [PaddedBy, if_neg hextra]
        refine ⟨by simp, ?_⟩
        rw [Text.isBlank, List.all_cons]
        exact Bool.and_eq_true_iff.2 ⟨hu, hpadded.2⟩
      rw [h c hc] at hwider
      cases hwider

/-- A gap that closes no code is text. -/
theorem readNodes_gap {stack : List OpenCode} {g rest : Text} (hg : g.isBlank = true)
    (hne : g ≠ []) (hshut : Shut stack (g ++ rest)) (nodes : List Inline) (run : Text)
    (line : Int) :
    ∃ line', readNodes stack nodes run line (g ++ rest)
      = readNodes stack nodes (g.reverse ++ run) line' rest := by
  induction g generalizing run line with
  | nil => exact absurd rfl hne
  | cons u g ih =>
    rw [Text.isBlank, List.all_cons, Bool.and_eq_true] at hg
    have hopen : opening? (u :: (g ++ rest)) = none := by
      rw [opening?_eq_none_iff, not_isUpper_of_isBlank hg.1, Bool.false_and]
    rw [List.cons_append] at hshut ⊢
    rw [readNodes_unit _ _ _ _ hshut hopen, List.reverse_cons, List.append_assoc]
    cases g with
    | nil => exact ⟨_, rfl⟩
    | cons v g =>
      have hv : v.isBlank = true := List.all_eq_true.1 hg.2 v List.mem_cons_self
      exact ih hg.2 (List.cons_ne_nil v g) (hshut.tail hg.1 hv) (u :: run) _

theorem alike_run_nil : Alike (List.reverse []) (List.reverse []) := .refl []

/-- Reading goes the same way in a text with other gaps. -/
theorem readNodes_regapped {a b : Text} (h : Regapped a b) {stack stack' : List OpenCode}
    (hstack : List.Forall₂ OpenCode.Alike stack stack') {nodes nodes' : List Inline}
    (hnodes : AllAlike nodes nodes') {run run' : Text} (hrun : Alike run.reverse run'.reverse)
    (line line' : Int) :
    AllAlike (readNodes stack nodes run line a) (readNodes stack' nodes' run' line' b) := by
  -- By the length of the text: a gap is read at once, anything else as the reader does.
  induction hn : a.length using Nat.strongRecOn generalizing a b stack stack' nodes nodes' run run'
    line line' with
  | ind n ih =>
    subst hn
    by_cases hshut : Shut stack a
    · have hshut' : Shut stack' b := hshut.regapped h hstack
      cases hopening : opening? a with
      | some o =>
        obtain ⟨o', hopening', hletter, hextra, hcontent⟩ := opening?_regapped h hopening
        rw [readNodes_opening _ _ _ _ hshut hopening, readNodes_opening _ _ _ _ hshut' hopening']
        exact ih _ (length_lt_of_opening hopening) hcontent
          (.cons ⟨hletter.symm, hextra.symm, hnodes.pushText hrun⟩ hstack) .nil
          alike_run_nil _ _ rfl
      | none =>
        have hopening' := opening?_eq_none_regapped h hopening
        cases h with
        | nil =>
          rw [readNodes_nil, readNodes_nil]
          exact (hnodes.pushText hrun).endCodes hstack
        | @unit g g' u a b hg hg' hboth hu hrest =>
          by_cases hgap : g = []
          · obtain rfl := hboth.1 hgap
            subst hgap
            rw [List.nil_append, readNodes_unit _ _ _ _ hshut hopening, List.nil_append,
              readNodes_unit _ _ _ _ hshut' hopening']
            refine ih _ (by simp) hrest hstack hnodes ?_ _ _ rfl
            rw [List.reverse_cons, List.reverse_cons]
            exact hrun.append (.refl [u])
          · have hgap' : g' ≠ [] := fun hnil => hgap (hboth.2 hnil)
            obtain ⟨after, hread⟩ := readNodes_gap hg hgap hshut nodes run line
            obtain ⟨after', hread'⟩ := readNodes_gap hg' hgap' hshut' nodes' run' line'
            rw [hread, hread']
            have hshorter : (u :: a).length < (g ++ u :: a).length := by
              have := List.length_pos_iff.2 hgap
              rw [List.length_append]
              omega
            refine ih _ hshorter (.cons hu hrest) hstack hnodes ?_ _ _ rfl
            rw [List.reverse_append, List.reverse_reverse, List.reverse_append,
              List.reverse_reverse]
            exact hrun.append (.of_gaps hg hg' hgap hgap')
    · cases hstack with
      | nil => exact absurd (shut_nil a) hshut
      | @cons c c' outer outer' hc houter =>
        cases hclosing : closing? c.extra a with
        | none =>
          refine absurd ?_ hshut
          rintro d hd
          cases hd
          exact hclosing
        | some found =>
          obtain ⟨padding, rest⟩ := found
          obtain ⟨padding', rest', hclosing', hrest⟩ := closing?_regapped h hclosing
          rw [hc.extra] at hclosing'
          rw [readNodes_closing _ _ _ _ hclosing, readNodes_closing _ _ _ _ hclosing']
          exact ih _ (length_lt_of_closing hclosing) hrest houter
            (hc.node _ _ (hnodes.pushText hrun)) alike_run_nil _ _
            rfl

/-- A text with other gaps has the same codes. -/
theorem parse_regapped {a b : Text} (h : Regapped a b) (line line' : Int) :
    AllAlike (Inline.parse line a) (Inline.parse line' b) :=
  readNodes_regapped h .nil .nil alike_run_nil line line'

/-! ## Escape names -/

section EscapeNames

variable {name : Text} {u : CodeUnit}

theorem numeralFrom?_of_not_isWord {base : Nat} {t : Text} (hmem : u ∈ t) (hu : u.isWord = false)
    (sofar : Nat) : numeralFrom? base sofar t = none := by
  induction t generalizing sofar with
  | nil => cases hmem
  | cons v t ih =>
    rw [numeralFrom?]
    rcases List.mem_cons.1 hmem with rfl | hmem
    · rw [digitIn?, digitValue?_of_not_isWord hu]
      rfl
    · cases digitIn? base v with
      | none => rfl
      | some d => exact ih hmem _

theorem numeral?_of_not_isWord {base : Nat} {t : Text} (hmem : u ∈ t) (hu : u.isWord = false) :
    numeral? base t = none := by
  unfold numeral?
  split
  · rfl
  · exact numeralFrom?_of_not_isWord hmem hu 0

theorem escapeNumber?_of_not_isWord (hmem : u ∈ name) (hu : u.isWord = false) :
    escapeNumber? name = none := by
  have hdigits : ∀ (front : Text) {digits : Text} {base : Nat}, name = front ++ digits →
      front.all CodeUnit.isWord = true → numeral? base digits = none := by
    intro front digits base hname hfront
    rw [hname] at hmem
    rcases List.mem_append.1 hmem with hmem | hmem
    · rw [List.all_eq_true.1 hfront u hmem] at hu
      cases hu
    · exact numeral?_of_not_isWord hmem hu
  have hdecimal : numeral? 10 name = none := numeral?_of_not_isWord hmem hu
  unfold escapeNumber?
  split
  · rw [hdigits [48, 120] rfl rfl, hdecimal]
    rfl
  · rw [hdigits [48, 88] rfl rfl, hdecimal]
    rfl
  · rw [hdigits [48] rfl rfl, hdecimal]
    rfl
  · exact hdecimal

/-- The name of an escape is a word. -/
theorem escapeText?_of_not_isWord (hmem : u ∈ name) (hu : u.isWord = false) :
    escapeText? name = none := by
  have hnames : ∀ row ∈ escapeNames, (ofString row.1).all CodeUnit.isWord = true := by
    decide +kernel
  have hnamed : namedEscape? name = none := by
    unfold namedEscape?
    rw [Option.map_eq_none_iff, List.find?_eq_none]
    intro row hrow hname
    have hword := hnames row hrow
    rw [eq_of_beq hname, List.all_eq_true] at hword
    rw [hword u hmem] at hu
    cases hu
  unfold escapeText? numericEscape?
  rw [escapeNumber?_of_not_isWord hmem hu]
  exact hnamed

end EscapeNames

/-! ## Plain content -/

/-- An escape whose name has the same words is the same, or unknown as well. -/
theorem escape_alike {name name' : Text} (h : name.words = name'.words) :
    Alike ((escapeText? name.trim).getD (ofString "E<" ++ name.trim ++ ofString ">"))
      ((escapeText? name'.trim).getD (ofString "E<" ++ name'.trim ++ ofString ">")) := by
  have hregapped := regapped_trim h
  by_cases hsolid : ∀ u ∈ name.trim, u.isBlank = false
  · rw [hregapped.eq_of_solid hsolid]
    exact .refl _
  · have hsolid' : ¬ ∀ u ∈ name'.trim, u.isBlank = false := fun hsolid' => by
      rw [hregapped.symm.eq_of_solid hsolid'] at hsolid'
      exact hsolid hsolid'
    have hunknown : ∀ {name : Text}, (¬ ∀ u ∈ name, u.isBlank = false) →
        escapeText? name = none := by
      intro name hgap
      simp only [not_forall, Bool.not_eq_false] at hgap
      obtain ⟨u, hmem, hu⟩ := hgap
      exact escapeText?_of_not_isWord hmem (not_isWord_of_isBlank hu)
    rw [hunknown hsolid, hunknown hsolid']
    exact ((Alike.refl _).append hregapped.alike).append (.refl _)

/-- Nodes that are alike have plain contents that are alike. -/
theorem AllAlike.plains {nodes nodes' : List Inline} (h : AllAlike nodes nodes') :
    Alike (Inline.plains nodes) (Inline.plains nodes') := by
  induction h with
  | nil => exact .refl _
  | text ht _ ih => exact ht.append ih
  | code letter d d' line line' _ _ ihchildren ih =>
    refine Alike.append ?_ ih
    unfold Inline.plain
    split
    · exact .refl []
    · split
      · exact escape_alike ihchildren.words_eq
      · exact ihchildren

end Pod

end PodLoom
