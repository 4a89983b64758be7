import PodLoom.Proofs.Thread.Fill
import PodLoom.Proofs.Thread.Markup
import PodLoom.Proofs.Thread.Navbar
import PodLoom.Thread.Writer

set_option autoImplicit false

/-!
# Clean thread

Thread is written from parts that are `Clean`: their brackets match, and none leaves a
macro name or a backslash unfinished, so one may stand behind the other.  An argument of
a macro need only be `Lawful`, since its closing bracket ends whatever stands at its end.

White space has no part in being lawful, so filling and trimming keep it.  What is
rendered from clean contents is clean, and so is the navigation of sections with clean
anchors and lawful labels.
-/

namespace PodLoom.Thread

open Text CodeUnit
open PodLoom.Pod (LinkKind)

/-- Thread that is complete: its brackets match and its backslashes mean something. -/
structure Lawful (t : Text) : Prop where
  balanced : Balanced t
  macros : onlyMacros t = true

/-- Thread that is complete whatever stands behind it. -/
structure Clean (t : Text) : Prop where
  balanced : Balanced t
  separate : Sealed t

/-- Whether a unit is part of the markup: a backslash or a square bracket. -/
def isMarkup (u : CodeUnit) : Bool := u == backslash || u == openBracket || u == closeBracket

theorem isMarkup_eq_false {u : CodeUnit} :
    isMarkup u = false ↔ u ≠ backslash ∧ u ≠ openBracket ∧ u ≠ closeBracket := by
  simp [isMarkup, and_assoc]

/-- No unit of a class is markup if the class does not hold the three units that are. -/
theorem isMarkup_of_class {test : CodeUnit → Bool} (hslash : test backslash = false)
    (hopen : test openBracket = false) (hclose : test closeBracket = false) {u : CodeUnit}
    (hu : test u = true) : isMarkup u = false := by
  rw [isMarkup_eq_false]
  refine ⟨?_, ?_, ?_⟩ <;> rintro rfl
  · simp [hslash] at hu
  · simp [hopen] at hu
  · simp [hclose] at hu

/-! ## Lawful thread -/

namespace Lawful

theorem of_words_eq {s t : Text} (h : s.words = t.words) (ht : Lawful t) : Lawful s :=
  ⟨.of_words_eq h ht.balanced, by rw [onlyMacros_of_words_eq h, ht.macros]⟩

theorem trim {t : Text} (h : Lawful t) : Lawful t.trim := of_words_eq (words_trim t) h

theorem trimEnd {t : Text} (h : Lawful t) : Lawful t.trimEnd := of_words_eq (words_trimEnd t) h

/-- A unit in front of lawful thread that is no markup. -/
theorem of_cons {u : CodeUnit} {t : Text} (hu : isMarkup u = false) (h : Lawful (u :: t)) :
    Lawful t := by
  obtain ⟨hslash, hopen, hclose⟩ := isMarkup_eq_false.1 hu
  obtain ⟨hbalanced, hmacros⟩ := h
  constructor
  · rw [Balanced, depthAfter, depthAfterUnit_of_ne hopen hclose, Option.bind_some] at hbalanced
    exact hbalanced
  · have hne : (u == backslash) = false := by simpa using hslash
    rw [onlyMacros, onlyMacrosFrom, hne] at hmacros
    exact hmacros

/-- A delimiter at the end of lawful thread that is no markup. -/
theorem of_concat {u : CodeUnit} {t : Text} (hu : isMarkup u = false) (hdelimiter : isDelimiter u)
    (h : Lawful (t ++ [u])) : Lawful t := by
  obtain ⟨-, hopen, hclose⟩ := isMarkup_eq_false.1 hu
  obtain ⟨hbalanced, hmacros⟩ := h
  constructor
  · rw [Balanced, depthAfter_append] at hbalanced
    obtain ⟨d, ht, hlast⟩ := Option.bind_eq_some_iff.1 hbalanced
    rw [depthAfter, depthAfterUnit_of_ne hopen hclose, Option.bind_some] at hlast
    cases hlast
    exact ht
  · rw [onlyMacros_append hdelimiter] at hmacros
    exact (Bool.and_eq_true_iff.1 hmacros).1

theorem dropQuoteAtStart {t : Text} (h : Lawful t) : Lawful (dropQuoteAtStart t) := by
  unfold Thread.dropQuoteAtStart
  split
  · rename_i hquote
    cases t with
    | nil => cases hquote
    | cons u t =>
      obtain rfl : u = quote := Option.some.inj hquote
      exact h.of_cons (by decide)
  · exact h

theorem dropQuoteAtEnd {t : Text} (h : Lawful t) : Lawful (dropQuoteAtEnd t) := by
  unfold Thread.dropQuoteAtEnd
  split
  · rename_i hquote
    have hconcat := List.dropLast_append_getLast? quote hquote
    refine of_concat (u := quote) (by decide) (by decide) ?_
    rw [hconcat]
    exact h
  · exact h

theorem stripQuotes {t : Text} (h : Lawful t) : Lawful (stripQuotes t) :=
  h.dropQuoteAtStart.dropQuoteAtEnd

end Lawful

/-! ## Clean thread -/

namespace Clean

theorem lawful {t : Text} (h : Clean t) : Lawful t := ⟨h.balanced, h.separate.onlyMacros⟩

theorem nil : Clean [] := ⟨.nil, .nil⟩

theorem append {s t : Text} (hs : Clean s) (ht : Clean t) : Clean (s ++ t) :=
  ⟨hs.balanced.append ht.balanced, hs.separate.append ht.separate⟩

theorem flatten {ts : List Text} (h : ∀ t ∈ ts, Clean t) : Clean ts.flatten :=
  ⟨.flatten fun t ht => (h t ht).balanced, .flatten fun t ht => (h t ht).separate⟩

theorem of_units {t : Text} (h : ∀ u ∈ t, isMarkup u = false) : Clean t :=
  ⟨.of_no_brackets fun u hu => (isMarkup_eq_false.1 (h u hu)).2,
    .of_no_backslash fun hmem => (isMarkup_eq_false.1 (h _ hmem)).1 rfl⟩

/-- A text without markup, as far as that can be computed. -/
theorem of_plain {t : Text} (h : t.all (!isMarkup ·) = true) : Clean t :=
  of_units (by simpa using h)

theorem join {sep : Text} (hsep : Clean sep) {ts : List Text} (h : ∀ t ∈ ts, Clean t) :
    Clean (join sep ts) := by
  induction ts with
  | nil => exact nil
  | cons t rest ih =>
    have hrest := ih fun s hs => h s (List.mem_cons_of_mem t hs)
    have ht := h t List.mem_cons_self
    cases rest with
    | nil => simpa [Text.join] using ht
    | cons s more =>
      rw [Text.join, List.intercalate_cons_cons]
      exact (ht.append hsep).append hrest

theorem escape (t : Text) : Clean (escape t) := ⟨.escape t, .escape t⟩

theorem bracketed {t : Text} (h : Lawful t) : Clean (bracketed t) :=
  ⟨h.balanced.bracketed, .bracketed h.macros⟩

/-- Lawful thread in front of a delimiter. -/
theorem concat {t : Text} (h : Lawful t) {u : CodeUnit} (hu : isMarkup u = false)
    (hdelimiter : isDelimiter u = true) : Clean (t ++ [u]) := by
  have hunit : Clean [u] := of_units fun v hv => List.mem_singleton.1 hv ▸ hu
  exact ⟨h.balanced.append hunit.balanced, .of_delimiter h.macros hdelimiter⟩

/-- A macro name, with nothing but its option behind it. -/
def isMacro (name : Text) : Bool := startsMacro name && name.all (!isMarkup ·)

/-- A macro whose name ends before a clean text. -/
theorem named {name : Text} (hname : isMacro name = true) {u : CodeUnit} {rest : Text}
    (hu : isDelimiter u = true) (hrest : Clean (u :: rest)) :
    Clean (backslash :: (name ++ u :: rest)) := by
  obtain ⟨hstarts, hplain⟩ := Bool.and_eq_true_iff.1 hname
  have hslash : backslash ∉ name := fun hmem =>
    absurd (List.all_eq_true.1 hplain _ hmem) (by decide)
  have hfront : Balanced (backslash :: name) :=
    (show Balanced [backslash] by decide).append (of_plain hplain).balanced
  refine ⟨hfront.append hrest.balanced, ?_⟩
  intro y hy
  have hne : (u == backslash) = false := by
    have := (Bool.and_eq_true_iff.1 hu).2
    simpa [bne] using this
  have hread := hrest.separate y hy
  rw [List.cons_append, onlyMacros, onlyMacrosFrom, hne] at hread
  rw [List.cons_append, List.append_assoc, List.cons_append, onlyMacros_macro hstarts hu hslash]
  exact hread

theorem command {name : String} (hname : isMacro (ofString name) = true) {arg : Text}
    {args : List Text} (h : ∀ t ∈ arg :: args, Lawful t) : Clean (command name (arg :: args)) := by
  have hargs : Clean ((arg :: args).flatMap Thread.bracketed) := by
    rw [List.flatMap]
    apply flatten
    intro s hs
    obtain ⟨t, ht, rfl⟩ := List.mem_map.1 hs
    exact bracketed (h t ht)
  rw [List.flatMap_cons] at hargs
  exact named hname (by decide) hargs

theorem of_unary {name : String} (hname : isMacro (ofString name) = true) {arg : Text}
    (h : Lawful arg) : Clean (Thread.command name [arg]) :=
  command hname fun _ ht => List.mem_singleton.1 ht ▸ h

theorem of_binary {name : String} (hname : isMacro (ofString name) = true) {arg arg' : Text}
    (h : Lawful arg) (h' : Lawful arg') : Clean (Thread.command name [arg, arg']) := by
  apply command hname
  intro t ht
  rcases List.mem_cons.1 ht with rfl | ht
  · exact h
  · exact List.mem_singleton.1 ht ▸ h'

theorem anchorLink {anchor text : Text} (hanchor : Clean anchor) (htext : Lawful text) :
    Clean (anchorLink anchor text) :=
  of_binary (by decide) ((of_plain (t := [ofChar '#']) (by decide)).append hanchor).lawful htext

/-- Lawful thread in front of a line end. -/
theorem concat_newline {t : Text} (h : Lawful t) : Clean (t ++ [newline]) :=
  concat h (by decide) (by decide)

theorem block {t : Text} (h : Lawful t) : Clean (Writer.block t) := by
  have hline := concat_newline (concat_newline h).lawful
  rw [List.append_assoc] at hline
  exact hline

/-- A line end at the end of lawful thread may be dropped. -/
theorem of_newline {t : Text} (h : Lawful (t ++ [newline])) : Lawful t :=
  Lawful.of_concat (by decide) (by decide) h

theorem fill {t : Text} (h : Lawful t) : Clean (fill t) := by
  have hfill : Lawful (Thread.fill t) := .of_words_eq (words_fill t) h
  unfold Thread.fill fillTo at hfill ⊢
  dsimp only at hfill ⊢
  split at hfill
  · rename_i hblank
    rw [if_pos hblank]
    exact nil
  · rename_i hblank
    rw [if_neg hblank]
    rw [← List.singleton_append, ← List.append_assoc] at hfill
    exact block (of_newline (of_newline hfill))

end Clean

/-! ## Rendered contents -/

theorem clean_wrapped {name : String} (hname : Clean.isMacro (ofString name) = true)
    {content : Rendered} (h : Clean content.text) : Clean (content.wrapped name).text := by
  unfold Rendered.wrapped
  split
  · exact .nil
  · exact .of_unary hname h.lawful

theorem clean_literalCode {letter : CodeUnit} (hletter : letter.isUpper = true) {t : Text}
    (h : Clean t) : Clean (Rendered.literalCode [letter] t) := by
  have hmarkup : isMarkup letter = false :=
    isMarkup_of_class (by decide) (by decide) (by decide) hletter
  have hfront : Clean [letter, less] := by
    apply Clean.of_units
    intro u hu
    rcases List.mem_cons.1 hu with rfl | hu
    · exact hmarkup
    · obtain rfl := List.mem_singleton.1 hu
      decide
  exact hfront.append (h.append (.of_plain (by decide)))

theorem clean_renderEscape (content : Rendered) : Clean (renderEscape content).1.text := by
  unfold renderEscape
  dsimp only
  split
  · exact .escape _
  · exact .of_unary (by decide) (Clean.escape _).lawful

/-- A formatting code renders clean content as clean content. -/
theorem clean_renderCode {letter : CodeUnit} (hletter : letter.isUpper = true)
    {content : Rendered} (h : Clean content.text) : Clean (renderCode [letter] content).1.text := by
  unfold renderCode
  split_ifs
  · exact clean_wrapped (by decide) h
  · exact clean_wrapped (by decide) h
  · exact clean_wrapped (by decide) h
  · exact clean_wrapped (by decide) h
  · exact h
  · exact .nil
  · exact clean_renderEscape content
  · exact clean_literalCode hletter h

/-! ## Sections -/

/-- Sections that can be linked to: their anchors, the supplied ones included, and their
labels do no harm in an argument. -/
structure Registry.Tidy (r : Registry) : Prop where
  supplied : ∀ pair ∈ r.supplied, Clean pair.2
  anchors : ∀ s ∈ r.sections, Clean s.anchor
  labels : ∀ s ∈ r.sections, Lawful s.label

theorem clean_numberedAnchor (n : Nat) : Clean (numberedAnchor n) := by
  apply Clean.of_units
  intro u hu
  rcases List.mem_cons.1 hu with rfl | hu
  · decide
  · exact isMarkup_of_class (by decide) (by decide) (by decide) (isDigit_of_mem_ofNat hu)

namespace Registry

theorem Tidy.allAnchors {r : Registry} (h : r.Tidy) : r.AllAnchors Clean :=
  ⟨h.supplied, h.anchors⟩

theorem tidy_register {r : Registry} (h : r.Tidy) (text : Text) {label : Text}
    (hlabel : Lawful label) : (r.register text label).2.Tidy := by
  have hall := h.allAnchors.register clean_numberedAnchor text label
  refine ⟨hall.supplied, hall.anchors, ?_⟩
  rw [sections_register]
  intro s hs
  rcases List.mem_append.1 hs with hs | hs
  · exact h.labels s hs
  · obtain rfl := List.mem_singleton.1 hs
    exact hlabel

theorem tidy_register_anchor {r : Registry} (h : r.Tidy) (text : Text) {label : Text}
    (hlabel : Lawful label) : Clean (r.register text label).1 := by
  have hsection : (⟨text, label, (r.register text label).1⟩ : Section)
      ∈ (r.register text label).2.sections := by
    rw [sections_register]
    exact List.mem_append_right _ (List.mem_singleton_self _)
  exact (tidy_register h text hlabel).anchors _ hsection

theorem tidy_suppliedWith (texts : List Text) : (suppliedWith (firstMet texts)).Tidy := by
  have hall := allAnchors_suppliedWith clean_numberedAnchor texts
  exact ⟨hall.supplied, hall.anchors, fun _ hs => (List.not_mem_nil hs).elim⟩

theorem tidy_empty : empty.Tidy :=
  ⟨fun _ h => (List.not_mem_nil h).elim, fun _ h => (List.not_mem_nil h).elim,
    fun _ h => (List.not_mem_nil h).elim⟩

theorem clean_lookup {r : Registry} (h : r.Tidy) {t anchor : Text}
    (hlookup : r.lookup t = some anchor) : Clean anchor :=
  h.allAnchors.of_lookup hlookup

end Registry

/-- A link renders clean content as clean content. -/
theorem clean_renderLink {r : Registry} (hr : r.Tidy) (kind : LinkKind)
    (target heading : Option Text) (hasLabel : Bool) {content : Rendered}
    (h : Clean content.text) :
    Clean (renderLink r kind target heading hasLabel content).text := by
  have hurl : Clean (command "link" [escape (target.getD []), content.text]) :=
    .of_binary (by decide) (Clean.escape _).lawful h.lawful
  unfold renderLink
  dsimp only
  split
  · split
    · exact (Clean.of_plain (t := [less]) (by decide)).append (hurl.append (.of_plain (by decide)))
    · exact hurl
  · split
    · split
      · rename_i anchor hfound
        have hlookup := (Option.filter_eq_some_iff.1 hfound).1
        exact .anchorLink (Registry.clean_lookup hr hlookup) h.lawful.stripQuotes
      · exact h
    · exact h

/-! ## Navigation -/

theorem Registry.clean_contents {r : Registry} (h : r.Tidy) : Clean r.contents := by
  unfold contents
  split
  · exact .nil
  · have hlines : Clean (r.sections.map contentsLine).flatten := by
      apply Clean.flatten
      intro t ht
      obtain ⟨s, hs, rfl⟩ := List.mem_map.1 ht
      have hlink := Clean.anchorLink (h.anchors s hs) (h.labels s hs)
      exact .concat_newline (Clean.of_unary (by decide) hlink.lawful).lawful
    have htitle : Clean (command "h2" [ofString "Table of Contents"]) :=
      .of_unary (by decide) (Clean.of_plain (by decide)).lawful
    exact ((htitle.append (.of_plain (by decide))).append hlines).append (.of_plain (by decide))

theorem Registry.clean_navbar {r : Registry} (h : r.Tidy) : Clean r.navbar := by
  unfold navbar navbarWithin
  split
  · exact .nil
  · have hlink : ∀ s ∈ r.sections, Clean (navbarLink s) := fun s hs =>
      .anchorLink (h.anchors s hs) (Clean.escape _).lawful
    have hlines : ∀ t ∈ (navbarLines navbarBudget r.sections).map fun line =>
        ofString "  " ++ Text.join " | " (line.map navbarLink), Clean t := by
      intro t ht
      obtain ⟨line, hline, rfl⟩ := List.mem_map.1 ht
      refine (Clean.of_plain (by decide)).append (.join (.of_plain (by decide)) ?_)
      intro u hu
      obtain ⟨s, hs, rfl⟩ := List.mem_map.1 hu
      have hs := List.mem_flatten_of_mem hline hs
      rw [flatten_navbarLines] at hs
      exact hlink s hs
    have hseparator : Clean " |\n" := .of_plain (by decide)
    have hbody := Clean.join hseparator hlines
    have hnewline : Clean [newline] := .of_plain (by decide)
    exact (Clean.of_unary (by decide) (hnewline.append (hbody.append hnewline)).lawful).append
      (.of_plain (by decide))

end PodLoom.Thread
