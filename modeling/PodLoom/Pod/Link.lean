import PodLoom.Pod.Inline
import PodLoom.Text.Count

set_option autoImplicit false

/-!
# Links: the content of an `L<>` code

A link's content is an optional `text|` part and a target.  The target is a URL, a
page with an optional section after a slash, or a section alone, in double quotes
or (an old form) with a space in it.  Separators count only outside formatting
codes.

`Link.parse` reads a content, and `count_less_display` bounds the brackets of the
text a link shows by those of its content: what is read again is never larger than
what was read.
-/

namespace PodLoom.Pod

open Text CodeUnit

/-- Link kinds, by the form of the target. -/
inductive LinkKind where
  | url
  | pod
  | man
  deriving DecidableEq, Repr, Inhabited

/-! ## Separators outside formatting codes -/

/-- Cut a text at the first `sep` outside formatting codes, where `depth` codes are
open at its start.  Only the single-bracket form is looked at: a capital letter and
`<` open a code, `>` closes one. -/
def splitTopLevel? (sep : CodeUnit) : Nat → Text → Option (Text × Text)
  | _, [] => none
  | depth, [u] => if u = greater ∧ 0 < depth then none
      else if u = sep ∧ depth = 0 then some ([], []) else none
  | depth, u :: v :: rest =>
      if u.isUpper ∧ v = less then
        (splitTopLevel? sep (depth + 1) rest).map fun (before, after) => (u :: v :: before, after)
      else if u = greater ∧ 0 < depth then
        (splitTopLevel? sep (depth - 1) (v :: rest)).map fun (before, after) => (u :: before, after)
      else if u = sep ∧ depth = 0 then some ([], v :: rest)
      else (splitTopLevel? sep depth (v :: rest)).map fun (before, after) => (u :: before, after)

/-- The index of the first `sep` outside formatting codes. -/
def indexOfTopLevel? (t : Text) (sep : CodeUnit) : Option Nat :=
  (splitTopLevel? sep 0 t).map (·.1.length)

theorem splitTopLevel?_eq_some {sep : CodeUnit} {depth : Nat} {t before after : Text}
    (h : splitTopLevel? sep depth t = some (before, after)) : t = before ++ sep :: after := by
  fun_induction splitTopLevel? sep depth t generalizing before after with
  | case1 => simp at h
  | case2 => simp at h
  | case3 depth u _ hu =>
    simp only [Option.some.injEq, Prod.mk.injEq] at h
    obtain ⟨rfl, rfl⟩ := h
    simp [hu.1]
  | case4 => simp at h
  | case5 depth u v rest _ ih =>
    simp only [Option.map_eq_some_iff, Prod.exists, Prod.mk.injEq] at h
    obtain ⟨a, b, hab, rfl, rfl⟩ := h
    simp [ih hab]
  | case6 depth u v rest _ _ ih =>
    simp only [Option.map_eq_some_iff, Prod.exists, Prod.mk.injEq] at h
    obtain ⟨a, b, hab, rfl, rfl⟩ := h
    simp [ih hab]
  | case7 depth u v rest _ _ hu =>
    simp only [Option.some.injEq, Prod.mk.injEq] at h
    obtain ⟨rfl, rfl⟩ := h
    simp [hu.1]
  | case8 depth u v rest _ _ _ ih =>
    simp only [Option.map_eq_some_iff, Prod.exists, Prod.mk.injEq] at h
    obtain ⟨a, b, hab, rfl, rfl⟩ := h
    simp [ih hab]

/-! ## Forms of a target -/

/-- A word, a colon and at least one more unit, without white space and without a
second colon after the first: a URL, but not a package name such as `Foo::Bar`. -/
def isUrl (t : Text) : Bool :=
  let scheme := t.takeWhile CodeUnit.isWord
  match t.dropWhile CodeUnit.isWord with
  | colon :: first :: rest =>
      !scheme.isEmpty && colon == ':' && first != ':' && !first.isBlank && !rest.any CodeUnit.isBlank
  | _ => false

/-- A manual page with its section, such as `crontab(5)`: a name without white
space, parenthesis or slash, and a word in parentheses. -/
def isManPage (t : Text) : Bool :=
  let name := t.takeWhile fun u : CodeUnit => !u.isBlank && u != ofChar '(' && u != slash
  match t.drop name.length with
  | paren :: rest =>
      let word := rest.takeWhile CodeUnit.isWord
      !name.isEmpty && paren == '(' && !word.isEmpty && rest.drop word.length == [ofChar ')']
  | [] => false

/-- Whether a text is in double quotes: it has one at either end, not the same
one. -/
def isQuoted (t : Text) : Bool :=
  2 ≤ t.length && t.head? == some quote && t.getLast? == some quote

/-- The text without the double quotes around it, if it is in quotes. -/
def unquote (t : Text) : Text := if isQuoted t then t.tail.dropLast else t

/-! ## Links -/

/-- A link as read: its kind, its explicit text, its target and section, and the
text to show.  The texts are source text, codes and all. -/
structure Link where
  kind : LinkKind
  label : Option Text
  target : Option Text
  heading : Option Text
  display : Text
  deriving DecidableEq, Repr, Inhabited

/-- The text shown for a link that has none of its own: the section in quotes, the
page, or the section `in` the page.  An empty part counts as missing. -/
def defaultLinkText (page heading : Option Text) : Text :=
  let page := page.getD []
  let sectionName := heading.getD []
  if sectionName.isEmpty then page
  else
    let quoted := quote :: (sectionName ++ [quote])
    if page.isEmpty then quoted else quoted ++ ofString " in " ++ page

/-- The page and section that a target names, if it is no URL. -/
def splitTarget (target : Text) : Option Text × Option Text :=
  if isQuoted target then (none, some (unquote target))
  else
    match splitTopLevel? slash 0 target with
    | some (before, after) =>
        let page := before.trim
        (if page.isEmpty then none else some page, some (unquote after.trim))
    | none => if target.any CodeUnit.isBlank then (none, some target) else (some target, none)

/-- The explicit text and the target of a link's content. -/
def splitLabel (content : Text) : Option Text × Text :=
  match splitTopLevel? '|' 0 content with
  | some (before, after) => (some before.trim, after.squeeze)
  | none => (none, content.squeeze)

/-- Read the content of a link. -/
def Link.parse (content : Text) : Link :=
  let (label, target) := splitLabel content
  if isUrl target then
    { kind := .url, label, target := some target, heading := none
      display := label.getD target }
  else
    let (page, heading) := splitTarget target
    { kind := if page.any isManPage then .man else .pod
      label, target := page, heading
      display := label.getD (defaultLinkText page heading) }

/-! ## The text shown is no larger than the content -/

theorem count_unquote_le (u : CodeUnit) (t : Text) : (unquote t).count u ≤ t.count u := by
  unfold unquote
  split
  · exact ((List.dropLast_sublist _).trans (List.tail_sublist _)).count_le u
  · exact Nat.le_refl _

theorem count_less_defaultLinkText (page heading : Option Text) :
    (defaultLinkText page heading).count less
      ≤ (page.getD []).count less + (heading.getD []).count less := by
  have hq : (quote == less) = false := by decide
  have hin : (ofString " in ").count less = 0 := by decide
  unfold defaultLinkText
  simp only
  split
  · omega
  · split
    · simp [List.count_cons, List.count_append, hq]
    · simp only [List.count_cons, List.count_append, List.count_nil, hq, hin]
      simp only [Bool.false_eq_true, if_false]
      omega

theorem count_less_splitTarget (target : Text) :
    ((splitTarget target).1.getD []).count less + ((splitTarget target).2.getD []).count less
      ≤ target.count less := by
  unfold splitTarget
  split
  · simpa using count_unquote_le less target
  · split
    · rename_i before after h
      have hs : target.count less = before.count less + after.count less := by
        rw [splitTopLevel?_eq_some h, List.count_append, List.count_cons]
        simp [show (slash == less) = false by decide]
      have hb := count_trim_le less before
      have ha := Nat.le_trans (count_unquote_le less after.trim) (count_trim_le less after)
      dsimp only
      split <;> simp only [Option.getD_none, Option.getD_some, List.count_nil] <;> omega
    · split <;> simp

theorem less_not_blank : CodeUnit.isBlank less = false := by decide

/-- The text that a link shows has no more opening brackets than its content. -/
theorem count_less_display (content : Text) :
    (Link.parse content).display.count less ≤ content.count less := by
  have key : ∀ (label : Option Text) (target : Text), splitLabel content = (label, target) →
      (label.getD []).count less + target.count less ≤ content.count less := by
    intro label target h
    unfold splitLabel at h
    split at h
    · rename_i before after hs
      obtain ⟨rfl, rfl⟩ := Prod.mk.inj h
      have := count_trim_le less before
      rw [splitTopLevel?_eq_some hs, List.count_append, List.count_cons, Option.getD_some,
        count_squeeze less_not_blank]
      omega
    · obtain ⟨rfl, rfl⟩ := Prod.mk.inj h
      simp [count_squeeze less_not_blank]
  unfold Link.parse
  generalize hsplit : splitLabel content = pair
  obtain ⟨label, target⟩ := pair
  have hk := key label target hsplit
  dsimp only
  split
  · cases label with
    | none => simpa using hk
    | some l => simp only [Option.getD_some] at hk ⊢; omega
  · have hd := count_less_defaultLinkText (splitTarget target).1 (splitTarget target).2
    have ht := count_less_splitTarget target
    cases label with
    | none => simp only [Option.getD_none, List.count_nil] at hk ⊢; omega
    | some l => simp only [Option.getD_some] at hk ⊢; omega

end PodLoom.Pod
