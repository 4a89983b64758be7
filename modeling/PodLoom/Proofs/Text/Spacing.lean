import PodLoom.Proofs.Text.Splitting
import PodLoom.Proofs.Text.Trimming
import PodLoom.Proofs.Text.Words

set_option autoImplicit false

/-!
# Gaps

A text that begins and ends with ink is a sequence of units, some of them with a gap in
front.  What a gap consists of does not matter where words count: squeezing the text and
expanding its tabs change gaps into gaps and nothing else (`regapped_squeeze`,
`regapped_expandTabs`).

`Regapped a b` says so of two texts.  It is finer than having the same words, for it speaks of
the texts unit by unit, and coarser than being equal, but not for texts without white space
(`Regapped.eq_of_solid`).  Parts of such texts, which may end in a gap, are `Alike`: each may
stand for the other in the middle of any text.
-/

namespace PodLoom.Text

open CodeUnit

/-! ## Edges -/

theorem trim_eq_self {t : Text} (hhead : ∀ u ∈ t.head?, u.isBlank = false)
    (hlast : ∀ u ∈ t.getLast?, u.isBlank = false) : t.trim = t := by
  rw [trim, trimEnd_eq_self hlast, trimStart]
  cases t with
  | nil => rfl
  | cons u s => rw [List.dropWhile_cons_of_neg (by simp [hhead u rfl])]

theorem not_isBlank_head_trim (t : Text) : ∀ u ∈ t.trim.head?, u.isBlank = false := by
  intro u hu
  have hnot := List.head?_dropWhile_not CodeUnit.isBlank t.trimEnd
  rw [show t.trimEnd.dropWhile CodeUnit.isBlank = t.trim from rfl, Option.mem_def.1 hu] at hnot
  simpa using hnot

theorem not_isBlank_getLast_trim (t : Text) : ∀ u ∈ t.trim.getLast?, u.isBlank = false := by
  intro u hu
  have hnot := List.head?_dropWhile_not CodeUnit.isBlank t.reverse
  have hlast : t.trimEnd.getLast? = some u := by
    obtain ⟨s, hs⟩ : ∃ s, t.trimEnd = s ++ t.trim := ⟨_, (List.takeWhile_append_dropWhile).symm⟩
    rw [hs, List.getLast?_append, Option.mem_def.1 hu]
    rfl
  rw [trimEnd, List.getLast?_reverse] at hlast
  rw [hlast] at hnot
  simpa using hnot

theorem trim_trim (t : Text) : t.trim.trim = t.trim :=
  trim_eq_self (not_isBlank_head_trim t) (not_isBlank_getLast_trim t)

/-- Pieces with ink at both ends, joined, have ink at both ends. -/
theorem trim_join {pieces : List Text} (h : ∀ w ∈ pieces, w ≠ [] ∧ w.trim = w) :
    (join [space] pieces).trim = join [space] pieces := by
  refine trim_eq_self ?_ ?_
  · cases pieces with
    | nil => exact fun _ hu => by cases hu
    | cons w rest =>
      obtain ⟨hne, htrim⟩ := h w List.mem_cons_self
      have hhead : (join [space] (w :: rest)).head? = w.head? := by
        cases rest with
        | nil => simp [join]
        | cons w' rest =>
          rw [join_cons_cons, List.head?_append]
          obtain ⟨u, w, rfl⟩ := List.exists_cons_of_ne_nil hne
          rfl
      rw [hhead, ← htrim]
      exact not_isBlank_head_trim w
  · induction pieces with
    | nil => exact fun _ hu => by cases hu
    | cons w rest ih =>
      cases rest with
      | nil =>
        rw [join, List.intercalate_singleton, ← (h w List.mem_cons_self).2]
        exact not_isBlank_getLast_trim w
      | cons w' rest =>
        have hsome : join [space] (w' :: rest) ≠ [] := by
          obtain ⟨hne, -⟩ := h w' (by simp)
          cases rest with
          | nil => simpa [join] using hne
          | cons w'' rest =>
            rw [join_cons_cons]
            simp [hne]
        have hlast := ih fun w hw => h w (List.mem_cons_of_mem _ hw)
        rw [join_cons_cons, List.getLast?_append, List.getLast?_append,
          List.getLast?_eq_some_getLast hsome, Option.some_or]
        rw [List.getLast?_eq_some_getLast hsome] at hlast
        exact hlast

/-- A squeezed text has ink at both ends. -/
theorem trim_squeeze (t : Text) : t.squeeze.trim = t.squeeze := by
  refine trim_join fun w hw => ?_
  obtain ⟨hne, hsolid⟩ := solid_of_mem_words hw
  exact ⟨hne, trim_eq_self (fun u hu => hsolid u (List.mem_of_head? hu))
    (fun u hu => hsolid u (List.mem_of_getLast? hu))⟩

/-! ## Texts that may stand for each other -/

/-- Two texts that read the same in the middle of any text. -/
def Alike (a b : Text) : Prop := ∀ y : Text, Respaced (a ++ y) (b ++ y)

namespace Alike

variable {a a' b b' : Text}

theorem refl (a : Text) : Alike a a := fun _ => .refl _

theorem symm (h : Alike a b) : Alike b a := fun y => (h y).symm

theorem append (ha : Alike a a') (hb : Alike b b') : Alike (a ++ b) (a' ++ b') := by
  intro y
  rw [List.append_assoc, List.append_assoc]
  exact (ha (b ++ y)).trans ((hb y).append_left a')

theorem cons (u : CodeUnit) (h : Alike a b) : Alike (u :: a) (u :: b) := (refl [u]).append h

theorem of_gaps {g g' : Text} (hg : g.isBlank = true) (hg' : g'.isBlank = true) (hne : g ≠ [])
    (hne' : g' ≠ []) : Alike g g' := fun y => .gap hg hg' hne hne' y

theorem words_eq (h : Alike a b) : a.words = b.words := by
  have hwords := (h []).words_eq
  rwa [List.append_nil, List.append_nil] at hwords

theorem squeeze_eq (h : Alike a b) : a.squeeze = b.squeeze := by rw [squeeze, squeeze, h.words_eq]

/-- Only the empty text is like the empty text, for any other sets apart what is around it. -/
theorem eq_nil_of_nil (h : Alike [] b) : b = [] := by
  have hblank : b.isBlank = true := by
    rw [← ink_eq_nil_iff, ← ink_eq_of_words_eq h.words_eq]
    rfl
  cases b with
  | nil => rfl
  | cons u b =>
    have hapart := h (ofString "a") (ofString "a")
    rw [List.nil_append, ← List.append_assoc,
      words_append_of_isBlank _ hblank (List.cons_ne_nil u b)] at hapart
    exact absurd hapart (by decide)

theorem eq_nil_iff (h : Alike a b) : a = [] ↔ b = [] := by
  constructor
  · rintro rfl
    exact h.eq_nil_of_nil
  · rintro rfl
    exact h.symm.eq_nil_of_nil

end Alike

/-! ## Texts with the same units and other gaps -/

/-- Two texts that end with ink, with the same units, and with gaps in front of the same
ones. -/
inductive Regapped : Text → Text → Prop where
  | nil : Regapped [] []
  | unit {g g' : Text} {u : CodeUnit} {a b : Text} (hg : g.isBlank = true)
      (hg' : g'.isBlank = true) (hboth : g = [] ↔ g' = []) (hu : u.isBlank = false) :
      Regapped a b → Regapped (g ++ u :: a) (g' ++ u :: b)

/-- A gap is told from the ink behind it. -/
theorem gap_append_inj {g g' a a' : Text} {u u' : CodeUnit} (hg : g.isBlank = true)
    (hg' : g'.isBlank = true) (hu : u.isBlank = false) (hu' : u'.isBlank = false)
    (h : g ++ u :: a = g' ++ u' :: a') : g = g' ∧ u = u' ∧ a = a' := by
  have hcut : ∀ {g a : Text} {u : CodeUnit}, g.isBlank = true → u.isBlank = false →
      (g ++ u :: a).takeWhile CodeUnit.isBlank = g := by
    intro g a u hg hu
    rw [List.takeWhile_append_of_pos (List.all_eq_true.1 hg),
      List.takeWhile_cons_of_neg (by simp [hu]), List.append_nil]
  obtain rfl : g = g' := by rw [← hcut (a := a) hg hu, h, hcut hg' hu']
  exact ⟨rfl, List.cons.inj (List.append_cancel_left h)⟩

namespace Regapped

variable {a b c : Text}

theorem cons {u : CodeUnit} (hu : u.isBlank = false) (h : Regapped a b) :
    Regapped (u :: a) (u :: b) := by
  have hnone : Text.isBlank [] = true := rfl
  exact .unit hnone hnone Iff.rfl hu h

theorem symm (h : Regapped a b) : Regapped b a := by
  induction h with
  | nil => exact .nil
  | unit hg hg' hboth hu _ ih => exact .unit hg' hg hboth.symm hu ih

theorem eq_nil_iff (h : Regapped a b) : a = [] ↔ b = [] := by
  cases h with
  | nil => exact Iff.rfl
  | unit => simp

/-- What a unit and the gap in front of it have become. -/
theorem inv {g : Text} {u : CodeUnit} (hg : g.isBlank = true) (hu : u.isBlank = false)
    (h : Regapped (g ++ u :: a) c) :
    ∃ g' b, c = g' ++ u :: b ∧ g'.isBlank = true ∧ (g = [] ↔ g' = []) ∧ Regapped a b := by
  generalize htext : g ++ u :: a = t at h
  cases h with
  | nil => simp at htext
  | unit hg' hg'' hboth hu' hrest =>
    obtain ⟨rfl, rfl, rfl⟩ := gap_append_inj hg hg' hu hu' htext
    exact ⟨_, _, rfl, hg'', hboth, hrest⟩

theorem inv_cons {u : CodeUnit} (hu : u.isBlank = false) (h : Regapped (u :: a) c) :
    ∃ b, c = u :: b ∧ Regapped a b := by
  obtain ⟨g', b, rfl, -, hboth, hrest⟩ := inv (g := []) rfl hu h
  obtain rfl := hboth.1 rfl
  exact ⟨b, rfl, hrest⟩

/-- Ink at the front stays as it is. -/
theorem inv_append {w : Text} (hw : ∀ u ∈ w, u.isBlank = false) (h : Regapped (w ++ a) c) :
    ∃ b, c = w ++ b ∧ Regapped a b := by
  induction w generalizing c with
  | nil => exact ⟨c, rfl, h⟩
  | cons u w ih =>
    obtain ⟨c, rfl, hword⟩ := inv_cons (hw u List.mem_cons_self) h
    obtain ⟨b, rfl, hrest⟩ := ih (fun v hv => hw v (List.mem_cons_of_mem u hv)) hword
    exact ⟨b, rfl, hrest⟩

theorem trans (hab : Regapped a b) (hbc : Regapped b c) : Regapped a c := by
  induction hab generalizing c with
  | nil => exact hbc
  | unit hg hg' hboth hu _ ih =>
    obtain ⟨g'', c, rfl, hg'', hboth', hrest⟩ := inv hg' hu hbc
    exact .unit hg hg'' (hboth.trans hboth') hu (ih hrest)

/-- A gap in front of two texts. -/
theorem gap {g g' : Text} (hg : g.isBlank = true) (hg' : g'.isBlank = true) (hne : g ≠ [])
    (hne' : g' ≠ []) (hsome : a ≠ []) (h : Regapped a b) : Regapped (g ++ a) (g' ++ b) := by
  cases h with
  | nil => exact absurd rfl hsome
  | unit hh hh' hboth hu hrest =>
    rw [← List.append_assoc, ← List.append_assoc]
    refine .unit ?_ ?_ ?_ hu hrest
    · rw [isBlank, List.all_append]
      exact Bool.and_eq_true_iff.2 ⟨hg, hh⟩
    · rw [isBlank, List.all_append]
      exact Bool.and_eq_true_iff.2 ⟨hg', hh'⟩
    · simp [hne, hne']

/-- A gap that is there may be wider. -/
theorem widen {u v : CodeUnit} (hu : u.isBlank = true) (hv : v.isBlank = true)
    (h : Regapped (v :: a) b) : Regapped (u :: v :: a) b := by
  generalize htext : v :: a = t at h
  cases h with
  | nil => cases htext
  | @unit g g' w a b hg hg' hboth hw hrest =>
    cases g with
    | nil =>
      obtain ⟨rfl, -⟩ := List.cons.inj htext
      rw [hw] at hv
      cases hv
    | cons v' g =>
      have hwide : Text.isBlank (u :: v' :: g) = true := by
        rw [isBlank, List.all_cons]
        exact Bool.and_eq_true_iff.2 ⟨hu, hg⟩
      exact .unit (g := u :: v' :: g) hwide hg' (by simpa using hboth) hw hrest

theorem alike (h : Regapped a b) : Alike a b := by
  induction h with
  | nil => exact .refl []
  | @unit g g' u a b hg hg' hboth _ _ ih =>
    refine Alike.append ?_ (ih.cons u)
    by_cases hnil : g = []
    · rw [hnil, hboth.1 hnil]
      exact .refl []
    · exact .of_gaps hg hg' hnil fun hnil' => hnil (hboth.2 hnil')

/-- A text without white space has no gaps to change. -/
theorem eq_of_solid (h : Regapped a b) (hsolid : ∀ u ∈ a, u.isBlank = false) : a = b := by
  induction h with
  | nil => rfl
  | @unit g g' u a b hg _ hboth _ _ ih =>
    obtain rfl : g = [] := by
      refine List.eq_nil_iff_forall_not_mem.2 fun v hv => ?_
      have hblank := List.all_eq_true.1 hg v hv
      rw [hsolid v (List.mem_append_left _ hv)] at hblank
      cases hblank
    rw [hboth.1 rfl, ih fun v hv => hsolid v (List.mem_cons_of_mem u hv)]

theorem getLast?_eq (h : Regapped a b) : a.getLast? = b.getLast? := by
  induction h with
  | nil => rfl
  | unit _ _ _ _ _ ih => simp [List.getLast?_append, List.getLast?_cons, ih]

end Regapped

/-! ## Squeezed texts -/

theorem squeeze_blank {u : CodeUnit} (hu : u.isBlank = true) (t : Text) :
    squeeze (u :: t) = t.squeeze := by
  rw [squeeze, words_cons_blank hu, squeeze]

theorem squeeze_singleton {u : CodeUnit} (hu : u.isBlank = false) : squeeze [u] = [u] := by
  rw [squeeze, words_of_no_blank (List.cons_ne_nil u []) (by simpa using hu)]
  rfl

/-- A unit in a word. -/
theorem squeeze_unit {u v : CodeUnit} (hu : u.isBlank = false) (hv : v.isBlank = false)
    (t : Text) : squeeze (u :: v :: t) = u :: squeeze (v :: t) := by
  obtain ⟨word, more, hwords⟩ := List.exists_cons_of_ne_nil (words_ne_nil hv t)
  rw [squeeze, words_cons_of_word hu (by simpa using hv) hwords, squeeze, hwords]
  cases more <;> simp [join, List.intercalate]

/-- The last unit of a word that is not the last word. -/
theorem squeeze_gap {u v : CodeUnit} (hu : u.isBlank = false) (hv : v.isBlank = true) {t : Text}
    (hsome : words t ≠ []) : squeeze (u :: v :: t) = u :: space :: squeeze (v :: t) := by
  obtain ⟨word, more, hwords⟩ := List.exists_cons_of_ne_nil hsome
  rw [squeeze, words_cons_of_gap hu (by simpa using hv), squeeze, words_cons_blank hv, hwords]
  simp [join, List.intercalate]

theorem words_ne_nil_of_getLast {t : Text} {u : CodeUnit} (hlast : t.getLast? = some u)
    (hu : u.isBlank = false) : words t ≠ [] := by
  intro hnil
  have hink : u ∈ t.ink :=
    List.mem_filter.2 ⟨List.mem_of_getLast? hlast, by rw [hu]; rfl⟩
  rw [← flatten_words, hnil] at hink
  cases hink

/-- Words stay as they are in front of ink. -/
theorem squeeze_append {x t : Text} (hx : ∀ u ∈ x, u.isBlank = false)
    (ht : ∀ u ∈ t.head?, u.isBlank = false) : squeeze (x ++ t) = x ++ t.squeeze := by
  induction x with
  | nil => rfl
  | cons u x ih =>
    obtain ⟨hu, hx⟩ := List.forall_mem_cons.1 hx
    have hrest := ih hx
    rw [List.cons_append, List.cons_append, ← hrest]
    cases hnext : x ++ t with
    | nil => exact squeeze_singleton hu
    | cons v rest =>
      refine squeeze_unit hu ?_ rest
      cases x with
      | nil =>
        rw [List.nil_append] at hnext
        exact ht v (by rw [hnext]; rfl)
      | cons w x =>
        obtain rfl := (List.cons.inj hnext).1
        exact hx w List.mem_cons_self

/-- Ink stays as it is behind ink. -/
theorem squeeze_concat {t : Text} {w : CodeUnit} (hlast : ∀ u ∈ t.getLast?, u.isBlank = false)
    (hw : w.isBlank = false) : squeeze (t ++ [w]) = t.squeeze ++ [w] := by
  induction t with
  | nil => exact squeeze_singleton hw
  | cons u t ih =>
    cases t with
    | nil =>
      have hu : u.isBlank = false := hlast u rfl
      rw [List.singleton_append, squeeze_unit hu hw, squeeze_singleton hw, squeeze_singleton hu]
      rfl
    | cons v t =>
      have hsame : ∀ u ∈ (v :: t).getLast?, u.isBlank = false := by
        rwa [List.getLast?_cons_cons] at hlast
      have hrest : squeeze (v :: (t ++ [w])) = squeeze (v :: t) ++ [w] := ih hsame
      -- By the kinds of the two units in front.
      cases hu : u.isBlank with
      | true =>
        rw [List.cons_append, squeeze_blank hu, squeeze_blank hu]
        exact hrest
      | false =>
        cases hv : v.isBlank with
        | false =>
          rw [squeeze_unit hu hv, List.cons_append, List.cons_append, squeeze_unit hu hv, hrest]
          rfl
        | true =>
          obtain ⟨last, hget⟩ : ∃ last, (v :: t).getLast? = some last :=
            ⟨_, List.getLast?_eq_some_getLast (List.cons_ne_nil v t)⟩
          have hsome : words t ≠ [] := by
            have hwords := words_ne_nil_of_getLast hget (hsame last hget)
            rwa [words_cons_blank hv] at hwords
          have hmore : words (t ++ [w]) ≠ [] :=
            words_ne_nil_of_getLast List.getLast?_concat hw
          rw [squeeze_gap hu hv hsome, List.cons_append, List.cons_append,
            squeeze_gap hu hv hmore, hrest]
          rfl

/-- A text that ends with ink is squeezed by squeezing its gaps; a gap at its front is lost. -/
theorem regapped_squeeze_of_getLast {t : Text} (hlast : ∀ u ∈ t.getLast?, u.isBlank = false) :
    Regapped t (if t.head?.any CodeUnit.isBlank then space :: t.squeeze else t.squeeze) := by
  induction t with
  | nil => exact .nil
  | cons u t ih =>
    cases t with
    | nil =>
      have hu : u.isBlank = false := hlast u rfl
      rw [if_neg (by simp [hu]), squeeze_singleton hu]
      exact .cons hu .nil
    | cons v t =>
      obtain ⟨last, hget⟩ : ∃ last, (v :: t).getLast? = some last :=
        ⟨_, List.getLast?_eq_some_getLast (List.cons_ne_nil v t)⟩
      have hsame : ∀ w ∈ (v :: t).getLast?, w.isBlank = false := fun w hw =>
        hlast w (by rw [List.getLast?_cons_cons]; exact hw)
      have hsome : words (v :: t) ≠ [] := words_ne_nil_of_getLast hget (hsame last hget)
      have hrest := ih hsame
      -- By the kinds of the two units in front.
      cases hu : u.isBlank <;> cases hv : v.isBlank <;>
        simp only [List.head?_cons, Option.any_some, hu, hv, Bool.false_eq_true, if_true,
          if_false] at hrest ⊢
      · rw [squeeze_unit hu hv]
        exact .cons hu hrest
      · rw [squeeze_gap hu hv (by rwa [words_cons_blank hv] at hsome)]
        exact .cons hu hrest
      · rw [squeeze_blank hu]
        have hfront : Text.isBlank [u] = true := by simpa [isBlank] using hu
        have hspace : Text.isBlank [space] = true := rfl
        exact .gap hfront hspace (by simp) (by simp) (List.cons_ne_nil v t) hrest
      · rw [squeeze_blank hu]
        exact hrest.widen hu hv

/-- A text with ink at both ends is squeezed by squeezing its gaps. -/
theorem regapped_squeeze {t : Text} (htrim : t.trim = t) : Regapped t t.squeeze := by
  have hlast : ∀ u ∈ t.getLast?, u.isBlank = false := by
    rw [← htrim]
    exact not_isBlank_getLast_trim t
  have hhead : t.head?.any CodeUnit.isBlank = false := by
    have hhead := not_isBlank_head_trim t
    rw [htrim] at hhead
    cases h : t.head? with
    | none => rfl
    | some u => exact hhead u h
  have hsqueeze := regapped_squeeze_of_getLast hlast
  rwa [hhead] at hsqueeze

theorem squeeze_trim (t : Text) : t.trim.squeeze = t.squeeze := by
  rw [squeeze, words_trim, squeeze]

/-- Texts with the same words have the same units between their edges. -/
theorem regapped_trim {a b : Text} (h : a.words = b.words) : Regapped a.trim b.trim := by
  have ha := regapped_squeeze (trim_trim a)
  have hb := regapped_squeeze (trim_trim b)
  rw [squeeze_trim] at ha hb
  rw [squeeze, h, ← squeeze] at ha
  exact ha.trans hb.symm

/-! ## Expanded tabs -/

theorem regapped_expandTabsFrom {width : Nat} (hwidth : 0 < width) {t : Text} (column : Nat)
    (hlast : ∀ u ∈ t.getLast?, u.isBlank = false) : Regapped t (expandTabsFrom width column t) := by
  induction t generalizing column with
  | nil => exact .nil
  | cons u t ih =>
    have hstep : ∀ (gap : Text) (column : Nat), gap.isBlank = true → gap ≠ [] →
        u.isBlank = true → Regapped (u :: t) (gap ++ expandTabsFrom width column t) := by
      intro gap column hgap hne hu
      cases t with
      | nil =>
        rw [hlast u rfl] at hu
        cases hu
      | cons v t =>
        refine .gap (g := [u]) (by simpa [isBlank] using hu) hgap (by simp) hne
          (List.cons_ne_nil v t) (ih column ?_)
        rwa [List.getLast?_cons_cons] at hlast
    rw [expandTabsFrom]
    split
    · rename_i htab
      subst htab
      have hgap : 0 < width - column % width := Nat.sub_pos_of_lt (Nat.mod_lt _ hwidth)
      refine hstep _ _ ?_ ?_ (by decide)
      · simp only [isBlank, List.all_eq_true, List.mem_replicate]
        rintro v ⟨-, rfl⟩
        decide
      · simpa using Nat.ne_of_gt hgap
    · split
      · rename_i hnewline
        subst hnewline
        exact hstep [newline] 0 (by decide) (by simp) (by decide)
      · cases hu : u.isBlank with
        | true => exact hstep [u] (column + 1) (by simpa [isBlank] using hu) (by simp) hu
        | false =>
          refine .cons hu (ih (column + 1) ?_)
          intro v hv
          refine hlast v ?_
          rw [List.getLast?_cons, Option.mem_def.1 hv]
          rfl

/-- A text with ink at both ends has its tabs expanded by changing its gaps. -/
theorem regapped_expandTabs {t : Text} (htrim : t.trim = t) : Regapped t t.expandTabs := by
  refine regapped_expandTabsFrom (by decide) 0 ?_
  rw [← htrim]
  exact not_isBlank_getLast_trim t

end PodLoom.Text
