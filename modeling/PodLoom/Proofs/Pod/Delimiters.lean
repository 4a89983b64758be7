import PodLoom.Pod.Inline

set_option autoImplicit false

/-!
# Delimiters

What `opening?` and `closing?` take for a delimiter, as grammars: a capital letter, brackets
and the white space that they call for (`opening?_eq_some_iff`), and that white space and as
many brackets (`closing?_eq_some_iff`).

A delimiter is found by what stands at the front of a text.  A longer text has the same closing
delimiter (`closing?_append`), and the content that an opening delimiter leaves may be cut short
(`opening?_of_cut`).
-/

namespace PodLoom.Pod

open Text CodeUnit

/-- The white space between the brackets of a delimiter and the content: none if there is
one bracket on each side, and some if there are more. -/
def PaddedBy (extra : Nat) (padding : Text) : Prop :=
  if extra = 0 then padding = [] else padding ≠ [] ∧ padding.isBlank = true

/-- The white space of a delimiter is what its brackets call for. -/
def Delimiter.Proper (d : Delimiter) : Prop :=
  PaddedBy d.extra d.opening ∧ ∀ padding ∈ d.closing, PaddedBy d.extra padding

theorem isBlank_of_paddedBy {extra : Nat} {padding : Text} (h : PaddedBy extra padding) :
    padding.isBlank = true := by
  unfold PaddedBy at h
  split at h
  · rw [h]
    rfl
  · exact h.2

theorem afterFront?_append (front rest : Text) : afterFront? front (front ++ rest) = some rest := by
  simp [afterFront?]

theorem spanBlank_eq {padding rest : Text} (hpadding : padding.isBlank = true)
    (hrest : rest.head?.any CodeUnit.isBlank = false) :
    (padding ++ rest).spanBlank = (padding, rest) := by
  have hall : ∀ u ∈ padding, u.isBlank = true := List.all_eq_true.1 hpadding
  unfold spanBlank
  rw [List.takeWhile_append_of_pos hall, List.dropWhile_append_of_pos hall]
  cases rest with
  | nil => simp
  | cons u rest =>
    have hu : u.isBlank = false := hrest
    simp [hu]

theorem isBlank_spanBlank (t : Text) : t.spanBlank.1.isBlank = true := List.all_takeWhile

theorem head_spanBlank (t : Text) : t.spanBlank.2.head?.any CodeUnit.isBlank = false := by
  unfold spanBlank
  cases h : t.dropWhile CodeUnit.isBlank with
  | nil => rfl
  | cons u rest =>
    have hu := List.head?_dropWhile_not CodeUnit.isBlank t
    rw [h] at hu
    simpa using hu

/-- A closing delimiter is the white space that its brackets call for, and the brackets. -/
theorem closing?_eq_some_iff {extra : Nat} {t padding rest : Text} :
    closing? extra t = some (padding, rest)
      ↔ t = padding ++ List.replicate (extra + 1) greater ++ rest ∧ PaddedBy extra padding := by
  constructor
  · intro h
    refine ⟨closing?_eq_some h, ?_⟩
    unfold closing? at h
    unfold PaddedBy
    split at h
    · rename_i hextra
      simp only [Option.map_eq_some_iff, Prod.mk.injEq] at h
      obtain ⟨_, -, rfl, -⟩ := h
      rw [if_pos hextra]
    · rename_i hextra
      split at h
      · cases h
      · rename_i hblank
        simp only [Option.map_eq_some_iff, Prod.mk.injEq] at h
        obtain ⟨_, -, rfl, -⟩ := h
        rw [if_neg hextra]
        exact ⟨fun hnil => hblank (by rw [hnil]; rfl), isBlank_spanBlank t⟩
  · rintro ⟨rfl, hpadding⟩
    unfold PaddedBy at hpadding
    unfold closing?
    split at hpadding
    · rename_i hextra
      subst hextra hpadding
      simp [afterFront?]
    · rename_i hextra
      obtain ⟨hne, hblank⟩ := hpadding
      have hspan : (padding ++ (List.replicate (extra + 1) greater ++ rest)).spanBlank = _ :=
        spanBlank_eq hblank rfl
      rw [if_neg hextra, List.append_assoc, hspan, afterFront?_append]
      simp [hne]

theorem closing?_append {extra : Nat} {t padding rest : Text}
    (h : closing? extra t = some (padding, rest)) (more : Text) :
    closing? extra (t ++ more) = some (padding, rest ++ more) := by
  obtain ⟨rfl, hpadding⟩ := closing?_eq_some_iff.1 h
  exact closing?_eq_some_iff.2 ⟨List.append_assoc .., hpadding⟩

/-- Where no code closes, none closes if the text is cut short. -/
theorem closing?_eq_none_of_cut {extra : Nat} {s t : Text} (hs : s <+: t)
    (h : closing? extra t = none) : closing? extra s = none := by
  obtain ⟨more, rfl⟩ := hs
  cases hclosing : closing? extra s with
  | none => rfl
  | some found =>
    obtain ⟨padding, rest⟩ := found
    rw [closing?_append hclosing more] at h
    cases h

theorem opening?_eq_none_iff {u : CodeUnit} {rest : Text} :
    opening? (u :: rest) = none ↔ (u.isUpper && rest.head? == some less) = false := by
  cases rest with
  | nil => simp [opening?]
  | cons v rest =>
    unfold opening?
    simp only [List.head?_cons]
    by_cases hopen : (u.isUpper && v == less) = true
    · have hboth : (u.isUpper && some v == some less) = true := by simpa using hopen
      rw [if_pos hopen, hboth]
      split <;> simp
    · have hboth : (u.isUpper && some v == some less) = false := by simpa using hopen
      rw [if_neg hopen, hboth]
      simp

/-- Where no code opens, none opens if the text is cut short. -/
theorem opening?_eq_none_of_cut {u : CodeUnit} {s rest : Text} (hs : s <+: rest)
    (h : opening? (u :: rest) = none) : opening? (u :: s) = none := by
  rw [opening?_eq_none_iff] at h ⊢
  cases s with
  | nil => simp
  | cons v s =>
    obtain ⟨more, rfl⟩ := hs
    exact h

/-- The brackets and the white space of an opening delimiter are all that could be taken
for it. -/
def Opening.Tight (o : Opening) : Prop :=
  if o.extra = 0 then
    (o.content.takeWhile (· == less)).isEmpty = true
      ∨ (o.content.dropWhile (· == less)).head?.any CodeUnit.isBlank = false
  else o.content.head?.any CodeUnit.isBlank = false

theorem less_ne_of_isBlank {u : CodeUnit} (h : u.isBlank = true) : (u == less) = false := by
  rw [beq_eq_false_iff_ne]
  rintro rfl
  cases h

/-- An opening delimiter is a capital letter, brackets and the white space that they call
for. -/
theorem opening?_eq_some_iff {t : Text} {o : Opening} :
    opening? t = some o
      ↔ t = o.letter :: (List.replicate (o.extra + 1) less ++ o.padding ++ o.content)
        ∧ o.letter.isUpper = true ∧ PaddedBy o.extra o.padding ∧ o.Tight := by
  constructor
  · intro h
    refine ⟨opening?_eq_some h, ?_⟩
    unfold opening? at h
    split at h
    · rename_i letter bracket rest
      split at h
      · rename_i hfront
        have hletter := (Bool.and_eq_true_iff.1 hfront).1
        dsimp only at h
        split at h
        · rename_i hmore
          obtain ⟨hsome, hblank⟩ := Bool.and_eq_true_iff.1 hmore
          cases h
          have hextra : (rest.takeWhile (· == less)).length ≠ 0 := by simpa using hsome
          refine ⟨hletter, ?_, ?_⟩
          · rw [PaddedBy, if_neg hextra]
            refine ⟨?_, isBlank_spanBlank _⟩
            cases hafter : rest.dropWhile (· == less) with
            | nil => simp [hafter] at hblank
            | cons u after =>
              have hu : u.isBlank = true := by simpa [hafter] using hblank
              simp [spanBlank, hu]
          · rw [Opening.Tight, if_neg hextra]
            exact head_spanBlank _
        · rename_i hmore
          cases h
          refine ⟨hletter, rfl, ?_⟩
          rw [Opening.Tight, if_pos rfl]
          simpa [Decidable.or_iff_not_imp_left] using hmore
      · cases h
    · cases h
  · obtain ⟨letter, extra, padding, content⟩ := o
    rintro ⟨rfl, hletter, hpadding, htight⟩
    unfold Opening.Tight at htight
    unfold PaddedBy at hpadding
    unfold opening?
    cases extra with
    | zero =>
      dsimp only at hpadding htight
      rw [if_pos rfl] at hpadding htight
      subst hpadding
      have hplain : (!(content.takeWhile (· == less)).isEmpty
          && (content.dropWhile (· == less)).head?.any CodeUnit.isBlank) = false := by
        rcases htight with htight | htight
        · rw [htight]
          rfl
        · rw [htight, Bool.and_false]
      simp [hletter, hplain]
    | succ extra =>
      dsimp only at hpadding htight
      rw [if_neg (Nat.succ_ne_zero extra)] at hpadding htight
      obtain ⟨hne, hblank⟩ := hpadding
      obtain ⟨u, padding, rfl⟩ := List.exists_cons_of_ne_nil hne
      have hu : u.isBlank = true := List.all_eq_true.1 hblank u List.mem_cons_self
      have hless : ∀ v ∈ List.replicate (extra + 1) less, (v == less) = true := fun v hv => by
        rw [List.eq_of_mem_replicate hv]
        rfl
      have hspan := spanBlank_eq hblank htight
      dsimp only at hletter hspan ⊢
      rw [List.replicate_succ, List.cons_append, List.cons_append, List.append_assoc]
      dsimp only
      rw [List.takeWhile_append_of_pos hless, List.dropWhile_append_of_pos hless, List.cons_append,
        List.takeWhile_cons_of_neg (by simp [less_ne_of_isBlank hu]),
        List.dropWhile_cons_of_neg (by simp [less_ne_of_isBlank hu]), List.append_nil,
        ← List.cons_append, hspan]
      simp [hletter, hu]

theorem Opening.Tight.of_cut {o : Opening} (h : o.Tight) {s : Text} (hs : s <+: o.content) :
    ({ o with content := s } : Opening).Tight := by
  obtain ⟨more, hmore⟩ := hs
  unfold Opening.Tight at h ⊢
  rw [← hmore] at h
  dsimp only
  cases s with
  | nil => simp
  | cons u s =>
    split at h
    · rename_i hextra
      rw [if_pos hextra]
      refine h.imp (fun h => ?_) (fun h => ?_)
      · by_cases hu : (u == less) = true
        · simp [hu] at h
        · simp [hu]
      · rw [List.dropWhile_append] at h
        cases hdrop : (u :: s).dropWhile (· == less) with
        | nil => rfl
        | cons v rest =>
          rw [hdrop, if_neg (by simp)] at h
          exact h
    · rename_i hextra
      rw [if_neg hextra]
      exact h

/-- What a delimiter opens may be cut short. -/
theorem opening?_of_cut {t s : Text} {o : Opening} (h : opening? t = some o)
    (hs : s <+: o.content) :
    opening? (o.letter :: (List.replicate (o.extra + 1) less ++ o.padding ++ s))
      = some { o with content := s } := by
  obtain ⟨-, hletter, hpadding, htight⟩ := opening?_eq_some_iff.1 h
  exact opening?_eq_some_iff.2 ⟨rfl, hletter, hpadding, htight.of_cut hs⟩

end PodLoom.Pod
