import PodLoom.Text.Lines

set_option autoImplicit false

/-!
# Words, ink and spacing

What a text says does not depend on how its words are set apart.  Two views forget
the spacing: `words`, the list of its words, and `ink`, the text with all white
space deleted, which is the words one after the other (`flatten_words`).

A text splits at every unit of white space (`words_append_blank`), and everything
here follows from that one equation.  `Respaced a b` says that `a` and `b` read the
same behind any text: then one may stand for the other at the end of a text, and the
words stay the same.
-/

namespace PodLoom.Text

open CodeUnit

/-- A text with all white space deleted. -/
def ink (t : Text) : Text := t.filter (!·.isBlank)

@[simp] theorem ink_nil : ink [] = [] := rfl

@[simp] theorem ink_append (s t : Text) : ink (s ++ t) = ink s ++ ink t := List.filter_append ..

theorem ink_eq_nil_iff {t : Text} : ink t = [] ↔ t.isBlank = true := by
  simp [ink, isBlank]

theorem ink_of_isBlank {t : Text} (h : t.isBlank = true) : ink t = [] := ink_eq_nil_iff.2 h

@[simp] theorem ink_replicate_newline (n : Nat) : ink (List.replicate n newline) = [] := by
  apply ink_of_isBlank
  simp only [isBlank, List.all_eq_true, List.mem_replicate]
  rintro u ⟨-, rfl⟩
  decide

/-! ## Words -/

theorem words_cons_blank {u : CodeUnit} (h : u.isBlank = true) (t : Text) :
    words (u :: t) = words t := by
  simp [words, h]

theorem words_ne_nil {u : CodeUnit} (h : u.isBlank = false) (t : Text) : words (u :: t) ≠ [] := by
  rw [words]
  simp only [h, Bool.false_eq_true, if_false]
  split
  · simp
  · split <;> simp

theorem words_cons_of_gap {u : CodeUnit} (hu : u.isBlank = false) {t : Text}
    (ht : t.head?.all CodeUnit.isBlank = true) : words (u :: t) = [u] :: words t := by
  rw [words]
  simp [hu, ht]

theorem words_cons_of_word {u : CodeUnit} (hu : u.isBlank = false) {t word : Text}
    {more : List Text} (ht : t.head?.all CodeUnit.isBlank = false) (hw : words t = word :: more) :
    words (u :: t) = (u :: word) :: more := by
  rw [words]
  simp [hu, ht, hw]

/-- White space ends a word, so a text may be cut there. -/
theorem words_append_blank (x : Text) {u : CodeUnit} (h : u.isBlank = true) (y : Text) :
    words (x ++ u :: y) = words x ++ words y := by
  induction x with
  | nil => simp [words_cons_blank h, words]
  | cons v x ih =>
    cases hv : v.isBlank with
    | true => rw [List.cons_append, words_cons_blank hv, words_cons_blank hv, ih]
    | false =>
      cases x with
      | nil =>
        rw [List.cons_append, words_cons_of_gap hv (by simpa using h),
          words_cons_of_gap hv (by simp), List.nil_append, words_cons_blank h]
        rfl
      | cons w x =>
        cases hw : w.isBlank with
        | true =>
          rw [List.cons_append, words_cons_of_gap hv (by simpa using hw), ih,
            words_cons_of_gap hv (by simpa using hw)]
          rfl
        | false =>
          obtain ⟨word, more, hx⟩ := List.exists_cons_of_ne_nil (words_ne_nil hw x)
          rw [hx] at ih
          rw [List.cons_append, words_cons_of_word hv (by simpa using hw) ih,
            words_cons_of_word hv (by simpa using hw) hx]
          rfl

theorem words_of_isBlank {t : Text} (h : t.isBlank = true) : words t = [] := by
  induction t with
  | nil => rfl
  | cons u t ih =>
    simp only [isBlank, List.all_cons, Bool.and_eq_true] at h
    rw [words_cons_blank h.1, ih h.2]

/-- A run without white space is one word. -/
theorem words_of_no_blank {t : Text} (hne : t ≠ []) (h : ∀ u ∈ t, u.isBlank = false) :
    words t = [t] := by
  induction t with
  | nil => exact absurd rfl hne
  | cons u t ih =>
    have hu := h u List.mem_cons_self
    cases t with
    | nil => simp [words, hu]
    | cons v t =>
      have ht := ih (by simp) fun w hw => h w (List.mem_cons_of_mem _ hw)
      have hv := h v (by simp)
      rw [words, ht]
      simp [hu, hv]

/-- The words of a text are not empty, and hold no white space. -/
theorem solid_of_mem_words {t w : Text} (h : w ∈ t.words) : w ≠ [] ∧ ∀ u ∈ w, u.isBlank = false := by
  induction t generalizing w with
  | nil => cases h
  | cons u t ih =>
    cases hu : u.isBlank with
    | true =>
      rw [words_cons_blank hu] at h
      exact ih h
    | false =>
      have hword : ∀ v ∈ ([u] : Text), v.isBlank = false := fun v hv => by
        rw [List.mem_singleton.1 hv]
        exact hu
      cases hgap : t.head?.all CodeUnit.isBlank with
      | true =>
        rw [words_cons_of_gap hu hgap] at h
        rcases List.mem_cons.1 h with rfl | h
        · exact ⟨List.cons_ne_nil u [], hword⟩
        · exact ih h
      | false =>
        cases hwords : words t with
        | nil =>
          cases t with
          | nil => cases hgap
          | cons v t => exact absurd hwords (words_ne_nil (by simpa using hgap) t)
        | cons word more =>
          rw [words_cons_of_word hu hgap hwords] at h
          rw [hwords] at ih
          rcases List.mem_cons.1 h with rfl | h
          · exact ⟨List.cons_ne_nil u word,
              List.forall_mem_cons.2 ⟨hu, (ih List.mem_cons_self).2⟩⟩
          · exact ih (List.mem_cons_of_mem word h)

theorem words_append_of_isBlank (x : Text) {g : Text} (hg : g.isBlank = true) (hne : g ≠ [])
    (y : Text) : words (x ++ g ++ y) = words x ++ words y := by
  obtain ⟨u, g, rfl⟩ := List.exists_cons_of_ne_nil hne
  simp only [isBlank, List.all_cons, Bool.and_eq_true] at hg
  rw [List.append_assoc, List.cons_append, words_append_blank x hg.1]
  congr 1
  clear hne
  induction g with
  | nil => rfl
  | cons v g ih =>
    simp only [List.all_cons, Bool.and_eq_true] at hg
    rw [List.cons_append, words_cons_blank hg.2.1]
    exact ih ⟨hg.1, hg.2.2⟩

/-- The words of a text, one after the other, are its ink. -/
theorem flatten_words (t : Text) : t.words.flatten = t.ink := by
  induction t with
  | nil => rfl
  | cons u t ih =>
    cases hu : u.isBlank with
    | true => rw [words_cons_blank hu, ih]; simp [ink, hu]
    | false =>
      have hink : ink (u :: t) = u :: ink t := by simp [ink, hu]
      rw [hink, ← ih, words]
      simp only [hu, Bool.false_eq_true, if_false]
      split
      · simp
      · split <;> rename_i hw <;> simp [hw]

theorem ink_eq_of_words_eq {s t : Text} (h : s.words = t.words) : s.ink = t.ink := by
  rw [← flatten_words, ← flatten_words, h]

/-! ## White space at the edges -/

theorem words_trimStart (t : Text) : words t.trimStart = words t := by
  induction t with
  | nil => rfl
  | cons u t ih =>
    cases hu : u.isBlank with
    | true => rw [trimStart, List.dropWhile_cons_of_pos hu, words_cons_blank hu]; exact ih
    | false => rw [trimStart, List.dropWhile_cons_of_neg (by simp [hu])]

/-- A text is what is left when its end is trimmed, and white space. -/
theorem exists_trimEnd (t : Text) : ∃ g : Text, g.isBlank = true ∧ t = t.trimEnd ++ g := by
  refine ⟨(t.reverse.takeWhile CodeUnit.isBlank).reverse, ?_, ?_⟩
  · simp only [isBlank, List.all_reverse]
    exact List.all_takeWhile
  · rw [trimEnd, ← List.reverse_append, List.takeWhile_append_dropWhile, List.reverse_reverse]

theorem words_trimEnd (t : Text) : words t.trimEnd = words t := by
  obtain ⟨g, hg, ht⟩ := exists_trimEnd t
  cases g with
  | nil =>
    rw [List.append_nil] at ht
    rw [← ht]
  | cons u g =>
    have hcut := words_append_of_isBlank t.trimEnd hg (by simp) []
    rw [List.append_nil, ← ht] at hcut
    rw [hcut]
    simp [words]

theorem words_trim (t : Text) : words t.trim = words t := by
  rw [trim, words_trimStart, words_trimEnd]

/-! ## Properties of a text that are properties of its words -/

/-- A test that may be made on either side of white space holds of a text if it
holds of each word. -/
theorem all_words {test : Text → Bool} (hnil : test [] = true)
    (hcut : ∀ (x : Text) (u : CodeUnit) (y : Text), u.isBlank = true →
      test (x ++ u :: y) = (test x && test y)) (t : Text) : test t = t.words.all test := by
  -- By length: the text up to the first white space is a word, or nothing.
  induction hn : t.length using Nat.strongRecOn generalizing t with
  | ind n ih =>
    subst hn
    have hsplit := List.takeWhile_append_dropWhile (p := fun u : CodeUnit => !u.isBlank) (l := t)
    have hfront : ∀ u ∈ t.takeWhile fun u : CodeUnit => !u.isBlank, u.isBlank = false := by
      intro u hu
      simpa using List.all_eq_true.1 List.all_takeWhile u hu
    have hword : ∀ x : Text, (∀ u ∈ x, u.isBlank = false) → test x = x.words.all test := by
      intro x hx
      cases x with
      | nil => simp [words, hnil]
      | cons v x => rw [words_of_no_blank (by simp) hx]; simp
    cases hrest : t.dropWhile fun u : CodeUnit => !u.isBlank with
    | nil =>
      rw [hrest, List.append_nil] at hsplit
      rw [← hsplit]
      exact hword _ hfront
    | cons u rest =>
      have hu : u.isBlank = true := by
        simpa [hrest] using List.head?_dropWhile_not (fun u : CodeUnit => !u.isBlank) t
      rw [hrest] at hsplit
      have hlen : rest.length < t.length := by
        have := congrArg List.length hsplit
        simp only [List.length_append, List.length_cons] at this
        omega
      rw [← hsplit, hcut _ _ _ hu, words_append_blank _ hu, List.all_append,
        ← hword _ hfront, ← ih _ hlen rest rfl]

/-! ## Spacing -/

/-- Two texts that read the same behind any text. -/
def Respaced (a b : Text) : Prop := ∀ x : Text, words (x ++ a) = words (x ++ b)

namespace Respaced

variable {a b c : Text}

theorem refl (a : Text) : Respaced a a := fun _ => rfl

theorem symm (h : Respaced a b) : Respaced b a := fun x => (h x).symm

theorem trans (hab : Respaced a b) (hbc : Respaced b c) : Respaced a c := fun x =>
  (hab x).trans (hbc x)

theorem append_left (x : Text) (h : Respaced a b) : Respaced (x ++ a) (x ++ b) := by
  intro y
  rw [← List.append_assoc, ← List.append_assoc]
  exact h (y ++ x)

theorem cons (u : CodeUnit) (h : Respaced a b) : Respaced (u :: a) (u :: b) :=
  h.append_left [u]

theorem words_eq (h : Respaced a b) : a.words = b.words := h []

theorem ink_eq (h : Respaced a b) : a.ink = b.ink := ink_eq_of_words_eq h.words_eq

/-- Any white space before a text is as good as any other. -/
theorem gap {g g' : Text} (hg : g.isBlank = true) (hg' : g'.isBlank = true) (hne : g ≠ [])
    (hne' : g' ≠ []) (t : Text) : Respaced (g ++ t) (g' ++ t) := by
  intro x
  rw [← List.append_assoc, ← List.append_assoc, words_append_of_isBlank x hg hne,
    words_append_of_isBlank x hg' hne']

/-- White space before white space, or at the end, says nothing. -/
theorem cons_blank {u : CodeUnit} (hu : u.isBlank = true) {t : Text}
    (ht : t.head?.all CodeUnit.isBlank = true) : Respaced (u :: t) t := by
  intro x
  cases t with
  | nil => rw [words_append_blank x hu]; simp [words]
  | cons v t =>
    have hv : v.isBlank = true := by simpa using ht
    rw [words_append_blank x hu, words_append_blank x hv, words_cons_blank hv]

/-- White space at the end says nothing. -/
theorem append_blank (t : Text) {g : Text} (hg : g.isBlank = true) : Respaced (t ++ g) t := by
  intro x
  cases g with
  | nil => rw [List.append_nil]
  | cons u g =>
    have hcut := words_append_of_isBlank (x ++ t) hg (List.cons_ne_nil u g) []
    rw [List.append_nil] at hcut
    rw [← List.append_assoc, hcut]
    exact List.append_nil _

end Respaced

end PodLoom.Text
