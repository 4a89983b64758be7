import PodLoom.Pod.Link
import PodLoom.Proofs.Text.Spacing
import PodLoom.Proofs.Text.Trimming

set_option autoImplicit false

/-!
# The forms of a link

What a link leads to may be written in several ways: a page by its name, a section behind a slash
and the name of its page, if it is in another one, with or without double quotes around it, or
the section in double quotes alone.  Here the parts of a link carry what makes them such, and a
link is written out of its parts (`WrittenLink.text`).  Reading undoes writing, whatever the
section holds: slashes, colons, parentheses, quotes and formatting codes (`parse_written`).

The ways to read a target are tried one after the other, and each form is told from those before
it by its front: a URL has a word and a single colon there, a quoted section a quote, and the
first slash outside of codes is the one behind the name of the page.
-/

namespace PodLoom.Pod

open Text CodeUnit

/-! ## Separators -/

theorem splitTopLevel?_of_notMem {sep : CodeUnit} {t : Text} (h : sep ∉ t) (depth : Nat) :
    splitTopLevel? sep depth t = none := by
  apply Option.eq_none_iff_forall_ne_some.2
  rintro ⟨before, after⟩ hsplit
  apply h
  rw [splitTopLevel?_eq_some hsplit]
  exact List.mem_append_right _ List.mem_cons_self

/-- A text in which no code starts is cut at the first separator behind it. -/
theorem splitTopLevel?_append {sep : CodeUnit} (hupper : sep.isUpper = false)
    (hcode : sep ≠ less) {before : Text} (hless : less ∉ before) (hsep : sep ∉ before)
    (after : Text) : splitTopLevel? sep 0 (before ++ sep :: after) = some (before, after) := by
  induction before with
  | nil =>
    cases after with
    | nil => simp [splitTopLevel?]
    | cons v after => simp [splitTopLevel?, hupper]
  | cons u before ih =>
    obtain ⟨-, hless⟩ := not_or.1 (List.mem_cons.not.1 hless)
    obtain ⟨hu, hsep⟩ := not_or.1 (List.mem_cons.not.1 hsep)
    have hrest := ih hless hsep
    obtain ⟨v, rest, hnext⟩ : ∃ v rest, before ++ sep :: after = v :: rest :=
      List.exists_cons_of_ne_nil (by simp)
    have hv : v ≠ less := by
      rintro rfl
      cases before with
      | nil => exact hcode (List.cons.inj hnext).1
      | cons w before => exact hless (List.mem_cons.2 (.inl (List.cons.inj hnext).1.symm))
    rw [hnext] at hrest
    rw [List.cons_append, hnext]
    simp [splitTopLevel?, hv, Ne.symm hu, hrest]

theorem splitTopLevel?_self {sep : CodeUnit} (hupper : sep.isUpper = false) (hcode : sep ≠ less)
    (t : Text) : splitTopLevel? sep 0 (sep :: t) = some ([], t) :=
  splitTopLevel?_append hupper hcode List.not_mem_nil List.not_mem_nil t

/-! ## What is no URL and no manual page -/

/-- A URL has a word and a single colon at its front. -/
theorem isUrl_of_dropWhile {t : Text}
    (h : ∀ first rest, t.dropWhile CodeUnit.isWord = ofChar ':' :: first :: rest →
      first = ofChar ':') : isUrl t = false := by
  unfold isUrl
  dsimp only
  split
  · rename_i colon first rest hdrop
    by_cases hcolon : colon = ofChar ':'
    · subst hcolon
      simp [h first rest hdrop]
    · simp [hcolon]
  · rfl

/-- A URL starts with a word. -/
theorem isUrl_of_not_isWord {u : CodeUnit} (hu : u.isWord = false) (t : Text) :
    isUrl (u :: t) = false := by
  unfold isUrl
  rw [List.takeWhile_cons_of_neg (by simp [hu])]
  dsimp only
  split
  · rfl
  · rfl

theorem isManPage_of_notMem {t : Text} (h : ofChar '(' ∉ t) : isManPage t = false := by
  unfold isManPage
  dsimp only
  split
  · rename_i paren rest hdrop
    have hmem : paren ∈ t := List.mem_of_mem_drop (hdrop ▸ List.mem_cons_self)
    have hparen : paren ≠ ofChar '(' := fun heq => h (heq ▸ hmem)
    simp [hparen]
  · rfl

/-! ## Quotes -/

/-- A text in double quotes. -/
def inQuotes (t : Text) : Text := quote :: (t ++ [quote])

theorem isQuoted_ends (u v : CodeUnit) (s : Text) :
    isQuoted (u :: (s ++ [v])) = true ↔ u = quote ∧ v = quote := by
  have hlast : (u :: (s ++ [v])).getLast? = some v := by
    rw [← List.cons_append, List.getLast?_concat]
  simp [isQuoted, hlast]

/-- Quotes are taken away from both ends or from neither. -/
theorem unquote_ends (u v : CodeUnit) (s : Text) :
    unquote (u :: (s ++ [v])) = if u = quote ∧ v = quote then s else u :: (s ++ [v]) := by
  unfold unquote
  by_cases h : u = quote ∧ v = quote
  · rw [if_pos ((isQuoted_ends u v s).2 h), if_pos h, List.tail_cons, List.dropLast_concat]
  · rw [if_neg fun hboth => h ((isQuoted_ends u v s).1 hboth), if_neg h]

theorem isQuoted_iff {t : Text} : isQuoted t = true ↔ ∃ inner, t = inQuotes inner := by
  constructor
  · intro h
    cases t with
    | nil => cases h
    | cons u rest =>
      rcases List.eq_nil_or_concat rest with rfl | ⟨inner, v, rfl⟩
      · simp [isQuoted] at h
      · rw [List.concat_eq_append] at h ⊢
        obtain ⟨rfl, rfl⟩ := (isQuoted_ends u v inner).1 h
        exact ⟨inner, rfl⟩
  · rintro ⟨inner, rfl⟩
    exact (isQuoted_ends quote quote inner).2 ⟨rfl, rfl⟩

theorem unquote_inQuotes (t : Text) : unquote (inQuotes t) = t := by
  rw [inQuotes, unquote_ends, if_pos ⟨rfl, rfl⟩]

/-! ## The parts of a link -/

/-- The name of a page: words joined by two colons. -/
structure PackageName where
  parts : List Text
  parts_ne_nil : parts ≠ []
  isWord_parts : ∀ part ∈ parts, part ≠ [] ∧ ∀ u ∈ part, u.isWord = true

namespace PackageName

variable (n : PackageName)

def text : Text := join (ofString "::") n.parts

/-- The name starts with a word, and nothing or two colons are behind it. -/
theorem exists_word : ∃ u word rest, n.text = u :: word ++ rest
    ∧ (∀ v ∈ u :: word, v.isWord = true) ∧ (rest = [] ∨ ∃ more, rest = ofString "::" ++ more) := by
  obtain ⟨part, parts, hparts⟩ := List.exists_cons_of_ne_nil n.parts_ne_nil
  obtain ⟨hne, hword⟩ := n.isWord_parts part (by rw [hparts]; exact List.mem_cons_self)
  obtain ⟨u, word, rfl⟩ := List.exists_cons_of_ne_nil hne
  by_cases hmore : parts = []
  · refine ⟨u, word, [], ?_, hword, .inl rfl⟩
    rw [text, hparts, hmore, join, List.intercalate_singleton, List.append_nil]
  · refine ⟨u, word, _, ?_, hword, .inr ⟨join (ofString "::") parts, rfl⟩⟩
    rw [text, hparts, join_cons _ _ hmore]

/-- Nothing but words and colons is in a name. -/
theorem notMem_text {v : CodeUnit} (hword : v.isWord = false) (hcolon : v ≠ ofChar ':') :
    v ∉ n.text := by
  apply notMem_join
  · intro hmem
    rcases List.mem_cons.1 hmem with heq | hmem
    · exact hcolon heq
    · exact hcolon (List.mem_singleton.1 hmem)
  · intro part hpart hmem
    have hv := (n.isWord_parts part hpart).2 v hmem
    rw [hword] at hv
    cases hv

theorem text_ne_nil : n.text ≠ [] := by
  obtain ⟨u, word, rest, htext, -, -⟩ := n.exists_word
  rw [htext]
  exact List.cons_ne_nil _ _

theorem not_isBlank : ∀ u ∈ n.text, u.isBlank = false := by
  intro u hu
  by_contra hblank
  rw [Bool.not_eq_false] at hblank
  refine n.notMem_text (not_isWord_of_isBlank hblank) ?_ hu
  rintro rfl
  cases hblank

theorem trim_text : n.text.trim = n.text :=
  trim_eq_self (fun u hu => n.not_isBlank u (List.mem_of_head? hu))
    fun u hu => n.not_isBlank u (List.mem_of_getLast? hu)

/-- A name is no URL, and no section makes it one. -/
theorem isUrl_append {t : Text} (ht : ∀ u ∈ t.head?, u.isWord = false ∧ u ≠ ofChar ':') :
    isUrl (n.text ++ t) = false := by
  obtain ⟨u, word, rest, htext, hword, hrest⟩ := n.exists_word
  have hdrop : (n.text ++ t).dropWhile CodeUnit.isWord = rest ++ t := by
    rw [htext, List.append_assoc, List.dropWhile_append_of_pos hword]
    rcases hrest with rfl | ⟨more, rfl⟩
    · cases t with
      | nil => rfl
      | cons v t => exact List.dropWhile_cons_of_neg (by simp [(ht v rfl).1])
    · exact List.dropWhile_cons_of_neg (by decide)
  apply isUrl_of_dropWhile
  intro first more hcolon
  rw [hdrop] at hcolon
  rcases hrest with rfl | ⟨behind, rfl⟩
  · rw [List.nil_append] at hcolon
    exact absurd rfl (ht (ofChar ':') (by rw [hcolon]; rfl)).2
  · exact (List.cons.inj (List.cons.inj hcolon).2).1.symm

theorem isQuoted_append (t : Text) : isQuoted (n.text ++ t) = false := by
  obtain ⟨u, word, rest, htext, hword, -⟩ := n.exists_word
  have hu : u ≠ quote := by
    rintro rfl
    cases hword quote List.mem_cons_self
  rw [Bool.eq_false_iff, Ne, isQuoted_iff]
  rintro ⟨inner, hinner⟩
  rw [htext] at hinner
  exact hu (List.cons.inj hinner).1

end PackageName

/-- The name of a section: some text with white space normalised and without a vertical bar. -/
structure SectionName where
  text : Text
  text_ne_nil : text ≠ []
  squeeze_text : text.squeeze = text
  notMem_bar : ofChar '|' ∉ text

namespace SectionName

variable (s : SectionName)

/-- The name has double quotes of its own around it. -/
def IsWrapped : Prop := ∃ inner, s.text = inQuotes inner

theorem trim_text : s.text.trim = s.text := by
  rw [← s.squeeze_text]
  exact trim_squeeze s.text

theorem squeeze_inQuotes : squeeze (inQuotes s.text) = inQuotes s.text := by
  have hhead : ∀ u ∈ s.text.head?, u.isBlank = false := by
    rw [← s.trim_text]
    exact not_isBlank_head_trim s.text
  have hlast : ∀ u ∈ s.text.getLast?, u.isBlank = false := by
    rw [← s.trim_text]
    exact not_isBlank_getLast_trim s.text
  have hbehind : ∀ u ∈ (s.text ++ [quote]).head?, u.isBlank = false := by
    rwa [List.head?_append_of_ne_nil _ s.text_ne_nil]
  calc squeeze (inQuotes s.text)
      = [quote] ++ squeeze (s.text ++ [quote]) :=
        squeeze_append (List.forall_mem_singleton.2 (by decide)) hbehind
    _ = inQuotes s.text := by
        rw [squeeze_concat hlast (by decide), s.squeeze_text]
        rfl

end SectionName

/-- A section as it is written: as it is, which is for names without quotes of their own around
them, or in double quotes. -/
inductive SectionForm where
  | bare (s : SectionName) (h : ¬ s.IsWrapped)
  | quoted (s : SectionName)

namespace SectionForm

/-- The section. -/
def name : SectionForm → SectionName
  | bare s _ => s
  | quoted s => s

def text : SectionForm → Text
  | bare s _ => s.text
  | quoted s => inQuotes s.text

variable (f : SectionForm)

theorem squeeze_text : f.text.squeeze = f.text := by
  cases f with
  | bare s _ => exact s.squeeze_text
  | quoted s => exact s.squeeze_inQuotes

theorem trim_text : f.text.trim = f.text := by
  rw [← f.squeeze_text]
  exact trim_squeeze f.text

theorem not_isBlank_head : ∀ u ∈ f.text.head?, u.isBlank = false := by
  rw [← f.trim_text]
  exact not_isBlank_head_trim f.text

theorem notMem_bar : ofChar '|' ∉ f.text := by
  cases f with
  | bare s _ => exact s.notMem_bar
  | quoted s =>
    have hquote : ofChar '|' ≠ quote := by decide
    simp [text, inQuotes, hquote, s.notMem_bar]

theorem unquote_text : unquote f.text = f.name.text := by
  cases f with
  | bare s h => exact if_neg fun hquoted => h (isQuoted_iff.1 hquoted)
  | quoted s => exact unquote_inQuotes s.text

end SectionForm

/-- What a link leads to, as it is written. -/
inductive WrittenTarget where
  /-- A page. -/
  | page (n : PackageName)
  /-- A section of another page. -/
  | inPage (n : PackageName) (f : SectionForm)
  /-- A section of the same page behind a slash. -/
  | here (f : SectionForm)
  /-- A section of the same page in quotes alone. -/
  | quoted (s : SectionName)

namespace WrittenTarget

def text : WrittenTarget → Text
  | page n => n.text
  | inPage n f => n.text ++ slash :: f.text
  | here f => slash :: f.text
  | quoted s => inQuotes s.text

def page? : WrittenTarget → Option Text
  | page n | inPage n _ => some n.text
  | here _ | quoted _ => none

def section? : WrittenTarget → Option Text
  | page _ => none
  | inPage _ f | here f => some f.name.text
  | quoted s => some s.text

variable (d : WrittenTarget)

theorem notMem_bar : ofChar '|' ∉ d.text := by
  have hslash : ofChar '|' ≠ slash := by decide
  have hname : ∀ n : PackageName, ofChar '|' ∉ n.text := fun n =>
    n.notMem_text (by decide) (by decide)
  cases d with
  | page n => exact hname n
  | inPage n f => simp [text, hname n, hslash, f.notMem_bar]
  | here f => simp [text, hslash, f.notMem_bar]
  | quoted s => exact (SectionForm.quoted s).notMem_bar

theorem squeeze_text : d.text.squeeze = d.text := by
  cases d with
  | page n =>
    have h := squeeze_append (t := []) n.not_isBlank nofun
    have hnil : squeeze [] = [] := rfl
    rwa [hnil, List.append_nil] at h
  | inPage n f =>
    have hfront : ∀ u ∈ n.text ++ [slash], u.isBlank = false :=
      List.forall_mem_append.2 ⟨n.not_isBlank, List.forall_mem_singleton.2 (by decide)⟩
    have h := squeeze_append hfront f.not_isBlank_head
    rwa [f.squeeze_text, List.append_assoc] at h
  | here f =>
    have hfront : ∀ u ∈ [slash], u.isBlank = false := List.forall_mem_singleton.2 (by decide)
    have h := squeeze_append hfront f.not_isBlank_head
    rwa [f.squeeze_text] at h
  | quoted s => exact s.squeeze_inQuotes

theorem isUrl_text : isUrl d.text = false := by
  cases d with
  | page n =>
    have h := n.isUrl_append (t := []) nofun
    rwa [List.append_nil] at h
  | inPage n f =>
    apply n.isUrl_append
    intro u hu
    obtain rfl := Option.some.inj hu
    decide
  | here f => exact isUrl_of_not_isWord (by decide) _
  | quoted s => exact isUrl_of_not_isWord (by decide) _

/-- The page and the section of a target are told apart as they were put together. -/
theorem splitTarget_text : splitTarget d.text = (d.page?, d.section?) := by
  unfold splitTarget
  cases d with
  | page n =>
    have hquoted := n.isQuoted_append []
    have hslash : splitTopLevel? slash 0 n.text = none :=
      splitTopLevel?_of_notMem (n.notMem_text (by decide) (by decide)) 0
    have hblank : n.text.any CodeUnit.isBlank = false :=
      List.any_eq_false.2 fun u hu => by simp [n.not_isBlank u hu]
    rw [List.append_nil] at hquoted
    simp only [text, hquoted, hslash, hblank]
    rfl
  | inPage n f =>
    have hsplit : splitTopLevel? slash 0 (n.text ++ slash :: f.text) = some (n.text, f.text) :=
      splitTopLevel?_append (by decide) (by decide) (n.notMem_text (by decide) (by decide))
        (n.notMem_text (by decide) (by decide)) f.text
    have hname : n.text.isEmpty = false := by simp [n.text_ne_nil]
    simp only [text, n.isQuoted_append, hsplit, n.trim_text, f.trim_text, f.unquote_text, hname]
    rfl
  | here f =>
    have hquoted : isQuoted (slash :: f.text) = false := by
      simp [isQuoted, show slash ≠ quote by decide]
    have hsplit : splitTopLevel? slash 0 (slash :: f.text) = some ([], f.text) :=
      splitTopLevel?_self (by decide) (by decide) f.text
    simp only [text, hquoted, hsplit, f.trim_text, f.unquote_text]
    rfl
  | quoted s =>
    have hquoted : isQuoted (inQuotes s.text) = true := isQuoted_iff.2 ⟨s.text, rfl⟩
    simp only [text, hquoted, unquote_inQuotes]
    rfl

theorem not_isManPage : d.page?.any isManPage = false := by
  cases d with
  | page n | inPage n f =>
    exact isManPage_of_notMem (n.notMem_text (by decide) (by decide))
  | here f => rfl
  | quoted s => rfl

end WrittenTarget

/-- The text of a link that has one of its own: trimmed, without a vertical bar and without a
formatting code. -/
structure LinkText where
  text : Text
  text_ne_nil : text ≠ []
  trim_text : text.trim = text
  notMem_bar : ofChar '|' ∉ text
  notMem_less : less ∉ text

/-- A link as it is written. -/
structure WrittenLink where
  label : Option LinkText
  target : WrittenTarget

namespace WrittenLink

def text (l : WrittenLink) : Text :=
  match l.label with
  | none => l.target.text
  | some t => t.text ++ ofChar '|' :: l.target.text

/-- The text that the link has of its own. -/
def label? (l : WrittenLink) : Option Text := l.label.map (·.text)

theorem splitLabel_text (l : WrittenLink) : splitLabel l.text = (l.label?, l.target.text) := by
  obtain ⟨label, target⟩ := l
  unfold splitLabel
  cases label with
  | none =>
    have hbar : splitTopLevel? '|' 0 target.text = none :=
      splitTopLevel?_of_notMem target.notMem_bar 0
    simp only [text, hbar, target.squeeze_text]
    rfl
  | some t =>
    have hsplit : splitTopLevel? '|' 0 (t.text ++ ofChar '|' :: target.text)
        = some (t.text, target.text) :=
      splitTopLevel?_append (by decide) (by decide) t.notMem_less t.notMem_bar target.text
    simp only [text, hsplit, t.trim_text, target.squeeze_text]
    rfl

end WrittenLink

/-- What is written for a link is read as what it was written for: the page and the section are
those of the target, in whatever form they are, and the link is one within the documentation.  A
text of the link's own makes no difference to them: it is the text of the link and what the link
shows, and without it the link shows the default text of the page and the section. -/
theorem parse_written (l : WrittenLink) :
    Link.parse l.text
      = { kind := .pod, label := l.label?, target := l.target.page?
          heading := l.target.section?
          display := l.label?.getD (defaultLinkText l.target.page? l.target.section?) } := by
  unfold Link.parse
  rw [l.splitLabel_text]
  dsimp only
  rw [l.target.isUrl_text, l.target.splitTarget_text, if_neg Bool.false_ne_true]
  dsimp only
  rw [l.target.not_isManPage, if_neg Bool.false_ne_true]

/-- A section with all that could be taken for something else. -/
def intricateSection : SectionName where
  text := "C<a/b>: \"x\" (1)"
  text_ne_nil := by decide
  squeeze_text := by decide
  notMem_bar := by decide

def fooBarName : PackageName where
  parts := ["Foo", "Bar"]
  parts_ne_nil := by decide
  isWord_parts part hpart := by
    have hall : ∀ part ∈ [ofString "Foo", ofString "Bar"],
        part ≠ [] ∧ part.all (·.isWord) = true := by decide
    exact ⟨(hall part hpart).1, List.all_eq_true.1 (hall part hpart).2⟩

/-- A link to that section of another page, under a text of its own. -/
def intricateLink : WrittenLink where
  label := some ⟨"a:b", by decide, by decide, by decide, by decide⟩
  target := .inPage fooBarName (.quoted intricateSection)

/-- A link to that section of the same page, without quotes around it. -/
def intricateLinkHere : WrittenLink where
  label := none
  target := .here (.bare intricateSection fun h => absurd (isQuoted_iff.2 h) (by decide))

/-- Both lead to it, and show what they should. -/
theorem parse_written_intricate :
    intricateLink.text = ofString "a:b|Foo::Bar/\"C<a/b>: \"x\" (1)\""
      ∧ Link.parse intricateLink.text
        = ⟨.pod, some "a:b", some "Foo::Bar", some "C<a/b>: \"x\" (1)", "a:b"⟩
      ∧ intricateLinkHere.text = ofString "/C<a/b>: \"x\" (1)"
      ∧ Link.parse intricateLinkHere.text
        = ⟨.pod, none, none, some "C<a/b>: \"x\" (1)", "\"C<a/b>: \"x\" (1)\""⟩ := by
  have hlabelled := parse_written intricateLink
  have hhere := parse_written intricateLinkHere
  refine ⟨by decide, hlabelled.trans ?_, by decide, hhere.trans ?_⟩
  · decide
  · decide

end PodLoom.Pod
