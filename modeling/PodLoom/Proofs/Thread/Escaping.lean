import PodLoom.Proofs.Thread.Markup

set_option autoImplicit false

/-!
# Reading escaped text back

Escaping a text loses nothing.  The escapes of the units are a prefix code: none of them is the
front of another (`escapeUnit_append_inj`).  So escaped text can be read from left to right,
and each unit is known as soon as its escape has come to an end (`readBack`); wherever the text
was cut when it was escaped makes no difference, and whatever it looks like neither: backslashes
next to brackets and text that spells an entity come back as they were.

The escapes hold backslashes and brackets themselves.  Each bracket of escaped text stands in the
entity of a bracket of the text (`BracketsInEntities`).
-/

namespace PodLoom.Thread

open Text CodeUnit

/-! ## Reading from left to right -/

/-- The unit that a text is the escape of. -/
def unescapeUnit? : Text → Option CodeUnit
  | [u] => if u = backslash ∨ u = openBracket ∨ u = closeBracket then none else some u
  | t =>
      if t = [backslash, backslash] then some backslash
      else if t = ofString "\\entity[91]" then some openBracket
      else if t = ofString "\\entity[93]" then some closeBracket
      else none

/-- Read escaped text back, behind the part of an escape that has begun already.  A unit is told
by its whole escape and by nothing that follows. -/
def readBackFrom : Text → Text → Option Text
  | begun, [] => if begun.isEmpty then some [] else none
  | begun, u :: rest =>
      match unescapeUnit? (begun ++ [u]) with
      | some v => (readBackFrom [] rest).map (v :: ·)
      | none => readBackFrom (begun ++ [u]) rest

/-- The text that escaped text stands for. -/
def readBack (t : Text) : Option Text := readBackFrom [] t

theorem unescapeUnit?_escapeUnit (u : CodeUnit) : unescapeUnit? (escapeUnit u) = some u := by
  by_cases hslash : u = backslash
  · rw [hslash]
    rfl
  · by_cases hopen : u = openBracket
    · rw [hopen]
      rfl
    · by_cases hclose : u = closeBracket
      · rw [hclose]
        rfl
      · have hplain : escapeUnit u = [u] := by
          rw [escapeUnit, if_neg hslash, if_neg hopen, if_neg hclose]
        have hnone : ¬ (u = backslash ∨ u = openBracket ∨ u = closeBracket) := by
          simp [hslash, hopen, hclose]
        rw [hplain]
        exact if_neg hnone

theorem unescapeUnit?_eq_some {t : Text} {u : CodeUnit} :
    unescapeUnit? t = some u ↔ t = escapeUnit u := by
  constructor
  · intro h
    unfold unescapeUnit? at h
    split at h
    · split at h
      · cases h
      · rename_i hnone
        obtain rfl := Option.some.inj h
        simp only [not_or] at hnone
        rw [escapeUnit, if_neg hnone.1, if_neg hnone.2.1, if_neg hnone.2.2]
    · split at h
      · rename_i ht
        obtain rfl := Option.some.inj h
        exact ht
      · split at h
        · rename_i ht
          obtain rfl := Option.some.inj h
          exact ht
        · split at h
          · rename_i ht
            obtain rfl := Option.some.inj h
            exact ht
          · cases h
  · rintro rfl
    exact unescapeUnit?_escapeUnit u

/-- An escape stands for nothing until it has come to its end. -/
theorem unescapeUnit?_of_append {u v : CodeUnit} {begun rest : Text}
    (h : begun ++ v :: rest = escapeUnit u) : unescapeUnit? begun = none := by
  apply Option.eq_none_iff_forall_ne_some.2
  intro w hw
  rw [unescapeUnit?_eq_some] at hw
  rw [hw, ← List.append_nil (escapeUnit u)] at h
  cases (escapeUnit_append_inj h).2

/-- The rest of an escape is read, and its unit is known. -/
theorem readBackFrom_append {begun more : Text} {u : CodeUnit} (hmore : more ≠ [])
    (h : begun ++ more = escapeUnit u) (rest : Text) :
    readBackFrom begun (more ++ rest) = (readBack rest).map (u :: ·) := by
  induction more generalizing begun with
  | nil => exact absurd rfl hmore
  | cons v more ih =>
    have hsplit : begun ++ [v] ++ more = escapeUnit u := by
      rw [List.append_assoc]
      exact h
    rw [List.cons_append, readBackFrom]
    cases more with
    | nil =>
      rw [List.append_nil] at hsplit
      rw [unescapeUnit?_eq_some.2 hsplit]
      rfl
    | cons w more =>
      rw [unescapeUnit?_of_append hsplit]
      exact ih (List.cons_ne_nil w more) hsplit

theorem readBack_escape (t : Text) : readBack (escape t) = some t := by
  induction t with
  | nil => rfl
  | cons u t ih =>
    have hescape : escape (u :: t) = escapeUnit u ++ escape t := rfl
    rw [hescape, readBack, readBackFrom_append (escapeUnit_ne_nil u) (List.nil_append _), ih]
    rfl

/-- Nothing but escaped text can be read back. -/
theorem append_eq_escape_of_readBackFrom {begun s t : Text} (h : readBackFrom begun s = some t) :
    begun ++ s = escape t := by
  induction s generalizing begun t with
  | nil =>
    rw [readBackFrom] at h
    split at h
    · rename_i hbegun
      obtain rfl := Option.some.inj h
      rw [List.isEmpty_iff.1 hbegun]
      rfl
    · cases h
  | cons u s ih =>
    have hsplit : begun ++ u :: s = begun ++ [u] ++ s := by simp
    rw [readBackFrom] at h
    rw [hsplit]
    split at h
    · rename_i v hv
      obtain ⟨behind, hbehind, rfl⟩ := Option.map_eq_some_iff.1 h
      have hrest : s = escape behind := ih hbehind
      rw [unescapeUnit?_eq_some.1 hv, hrest]
      rfl
    · exact ih h

theorem readBack_eq_some {s t : Text} : readBack s = some t ↔ s = escape t := by
  constructor
  · exact append_eq_escape_of_readBackFrom
  · rintro rfl
    exact readBack_escape t

/-! ## Brackets -/

/-- A place in escaped text lies in the escape of one unit of the text. -/
theorem exists_escapeUnit_of_escape {t before after : Text} {u : CodeUnit}
    (h : escape t = before ++ u :: after) :
    ∃ front v back x y, t = front ++ v :: back ∧ before = escape front ++ x
      ∧ after = y ++ escape back ∧ escapeUnit v = x ++ u :: y := by
  induction t generalizing before with
  | nil => simp [escape] at h
  | cons w t ih =>
    have hescape : escapeUnit w ++ escape t = before ++ u :: after := h
    rcases List.append_eq_append_iff.1 hescape with ⟨more, hbefore, hrest⟩ | ⟨more, hunit, hrest⟩
    · -- The place is behind the escape of the first unit.
      obtain ⟨front, v, back, x, y, rfl, rfl, hafter, hv⟩ := ih hrest
      refine ⟨w :: front, v, back, x, y, rfl, ?_, hafter, hv⟩
      rw [hbefore, ← List.append_assoc]
      rfl
    · cases more with
      | nil =>
        -- It is the very first of what comes behind it.
        have hnext : escape t = [] ++ u :: after := hrest.symm
        obtain ⟨front, v, back, x, y, rfl, hnil, hafter, hv⟩ := ih hnext
        refine ⟨w :: front, v, back, x, y, rfl, ?_, hafter, hv⟩
        have hescape : escape (w :: front) = escapeUnit w ++ escape front := rfl
        rw [hescape, List.append_assoc, ← hnil, hunit, List.append_nil, List.append_nil]
      | cons first more =>
        obtain ⟨rfl, hafter⟩ := List.cons.inj hrest
        exact ⟨[], w, t, before, more, rfl, rfl, hafter, hunit⟩

theorem mem_escapeUnit_bracket {u v : CodeUnit} (hu : u = openBracket ∨ u = closeBracket)
    (h : u ∈ escapeUnit v) :
    (v = openBracket ∧ escapeUnit v = ofString "\\entity[91]")
      ∨ (v = closeBracket ∧ escapeUnit v = ofString "\\entity[93]") := by
  by_cases hopen : v = openBracket
  · exact .inl ⟨hopen, by rw [hopen]; rfl⟩
  · by_cases hclose : v = closeBracket
    · exact .inr ⟨hclose, by rw [hclose]; rfl⟩
    · exfalso
      unfold escapeUnit at h
      rw [if_neg hopen, if_neg hclose] at h
      split at h
      · obtain rfl : u = backslash := by simpa using h
        revert hu
        decide
      · obtain rfl := List.mem_singleton.1 h
        exact hu.elim hopen hclose

/-- Each bracket of an escaped text belongs to an entity that stands for a bracket of the text:
what is before the entity and what is behind it are the text before that bracket and the text
behind it, escaped. -/
def BracketsInEntities (t : Text) : Prop :=
  ∀ before u after, escape t = before ++ u :: after → u = openBracket ∨ u = closeBracket →
    ∃ front v back x y, t = front ++ v :: back ∧ before = escape front ++ x
      ∧ after = y ++ escape back
      ∧ ((v = openBracket ∧ x ++ u :: y = ofString "\\entity[91]")
        ∨ (v = closeBracket ∧ x ++ u :: y = ofString "\\entity[93]"))

theorem bracketsInEntities (t : Text) : BracketsInEntities t := by
  intro before u after h hu
  obtain ⟨front, v, back, x, y, ht, hbefore, hafter, hv⟩ := exists_escapeUnit_of_escape h
  have hmem : u ∈ escapeUnit v := by
    rw [hv]
    exact List.mem_append_right _ List.mem_cons_self
  have hentity := mem_escapeUnit_bracket hu hmem
  rw [hv] at hentity
  exact ⟨front, v, back, x, y, ht, hbefore, hafter, hentity⟩

/-- Escaping is lossless, and it does not matter in which pieces a text is escaped: two texts with
the same escaped text are the same, every bracket belongs to an entity so that the brackets match,
and what is read back from left to right is the text, from escaped text and from nothing else. -/
theorem escape_lossless (s t : Text) :
    escape (s ++ t) = escape s ++ escape t ∧ (escape s = escape t ↔ s = t)
      ∧ BracketsInEntities s ∧ Balanced (escape s)
      ∧ ∀ escaped, readBack escaped = some s ↔ escaped = escape s := by
  refine ⟨escape_append s t, ?_, bracketsInEntities s, .escape s, ?_⟩
  · constructor
    · exact escape_injective
    · exact congrArg escape
  · intro escaped
    exact readBack_eq_some

/-- Text that looks like an entity, with a backslash next to a bracket. -/
example : escape "\\entity[91]\\]" = "\\\\entity\\entity[91]91\\entity[93]\\\\\\entity[93]" := by
  decide

end PodLoom.Thread
