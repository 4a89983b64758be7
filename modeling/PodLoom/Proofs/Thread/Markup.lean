import PodLoom.Proofs.Text.Trimming
import PodLoom.Proofs.Text.Words
import PodLoom.Thread.Markup

set_option autoImplicit false

/-!
# Well-formed thread

Thread is well-formed if its brackets match and each of its backslashes means
something.

* `depthAfter` reads a text from inside some open brackets and says how many are open
  behind it, or that one was closed that was not open.  A text is `Balanced` if it
  leads from no open bracket to none.
* `onlyMacros` reads a text from left to right: a backslash is the first of a doubled
  pair, or it starts a macro, whose whole name is among `macroNames`.

Neither looks at white space: both are the same for two texts with the same words.
-/

namespace PodLoom.Thread

open Text CodeUnit

/-! ## Brackets -/

/-- The number of open brackets behind a unit that stands inside `depth` of them; none
if it closes one where none is open. -/
def depthAfterUnit (depth : Nat) (u : CodeUnit) : Option Nat :=
  if u = openBracket then some (depth + 1)
  else if u = closeBracket then if depth = 0 then none else some (depth - 1)
  else some depth

/-- The number of open brackets behind a text that starts inside `depth` of them. -/
def depthAfter : Nat → Text → Option Nat
  | depth, [] => some depth
  | depth, u :: rest => (depthAfterUnit depth u).bind fun d => depthAfter d rest

theorem depthAfterUnit_open (d : Nat) : depthAfterUnit d openBracket = some (d + 1) := rfl

theorem depthAfterUnit_of_ne {u : CodeUnit} (ho : u ≠ openBracket) (hc : u ≠ closeBracket)
    (d : Nat) : depthAfterUnit d u = some d := by
  simp [depthAfterUnit, ho, hc]

/-- The step of the count, in numbers. -/
theorem count_of_depthAfterUnit {d d' : Nat} {u : CodeUnit} (h : depthAfterUnit d u = some d') :
    [u].count closeBracket + d' = [u].count openBracket + d := by
  unfold depthAfterUnit at h
  split at h
  · rename_i hu
    subst hu
    have hcount : [openBracket].count closeBracket = 0 := by decide
    have hd : d + 1 = d' := by simpa using h
    rw [hcount, List.count_singleton_self]
    omega
  · split at h
    · rename_i hu
      subst hu
      have hcount : [closeBracket].count openBracket = 0 := by decide
      split at h
      · simp at h
      · have hd : d - 1 = d' := by simpa using h
        rw [hcount, List.count_singleton_self]
        omega
    · rename_i hno hnc
      have hd : d = d' := by simpa using h
      simp [hno, hnc, hd]

theorem depthAfterUnit_add {d d' : Nat} {u : CodeUnit} (h : depthAfterUnit d u = some d')
    (k : Nat) : depthAfterUnit (d + k) u = some (d' + k) := by
  unfold depthAfterUnit at h ⊢
  split at h
  · rename_i hu
    obtain rfl : d + 1 = d' := by simpa using h
    rw [if_pos hu, Nat.add_right_comm]
  · rename_i hu
    rw [if_neg hu]
    split at h
    · rename_i hc
      rw [if_pos hc]
      split at h
      · simp at h
      · obtain rfl : d - 1 = d' := by simpa using h
        rw [if_neg (by omega)]
        congr 1
        omega
    · rename_i hc
      obtain rfl : d = d' := by simpa using h
      rw [if_neg hc]

@[simp] theorem depthAfter_nil (d : Nat) : depthAfter d [] = some d := rfl

theorem depthAfter_append (d : Nat) (s t : Text) :
    depthAfter d (s ++ t) = (depthAfter d s).bind (depthAfter · t) := by
  induction s generalizing d with
  | nil => rfl
  | cons u s ih =>
    simp only [List.cons_append, depthAfter, Option.bind_assoc, ih]

/-- More open brackets around a text stay open behind it. -/
theorem depthAfter_add {d d' : Nat} {t : Text} (h : depthAfter d t = some d') (k : Nat) :
    depthAfter (d + k) t = some (d' + k) := by
  induction t generalizing d with
  | nil =>
    obtain rfl : d = d' := by simpa using h
    rfl
  | cons u t ih =>
    obtain ⟨e, he, hrest⟩ := Option.bind_eq_some_iff.1 h
    rw [depthAfter, depthAfterUnit_add he, Option.bind_some]
    exact ih hrest

/-- White space is no bracket. -/
theorem depthAfter_ink (d : Nat) (t : Text) : depthAfter d t.ink = depthAfter d t := by
  have hopen : openBracket.isBlank = false := by decide
  have hclose : closeBracket.isBlank = false := by decide
  induction t generalizing d with
  | nil => rfl
  | cons u t ih =>
    cases hu : u.isBlank with
    | true =>
      have hno : u ≠ openBracket := by rintro rfl; simp [hopen] at hu
      have hnc : u ≠ closeBracket := by rintro rfl; simp [hclose] at hu
      have hink : ink (u :: t) = ink t := by simp [ink, hu]
      rw [hink, ih, depthAfter, depthAfterUnit_of_ne hno hnc, Option.bind_some]
    | false =>
      have hink : ink (u :: t) = u :: ink t := by simp [ink, hu]
      simp only [hink, depthAfter, ih]

/-- How far the closing brackets of a text get behind the opening ones. -/
theorem count_of_depthAfter {d d' : Nat} {t : Text} (h : depthAfter d t = some d') :
    t.count closeBracket + d' = t.count openBracket + d := by
  induction t generalizing d with
  | nil =>
    obtain rfl : d = d' := by simpa using h
    rfl
  | cons u t ih =>
    obtain ⟨e, he, hrest⟩ := Option.bind_eq_some_iff.1 h
    have hunit := count_of_depthAfterUnit he
    have hcount := ih hrest
    rw [← List.singleton_append, List.count_append, List.count_append]
    omega

theorem exists_depthAfter_of_prefix {d d' : Nat} {p t : Text} (h : depthAfter d t = some d')
    (hp : p <+: t) : ∃ e, depthAfter d p = some e := by
  obtain ⟨rest, rfl⟩ := hp
  rw [depthAfter_append] at h
  obtain ⟨e, he, -⟩ := Option.bind_eq_some_iff.1 h
  exact ⟨e, he⟩

/-- A text whose brackets match. -/
def Balanced (t : Text) : Prop := depthAfter 0 t = some 0

namespace Balanced

theorem depth {t : Text} (h : Balanced t) (d : Nat) : depthAfter d t = some d := by
  simpa using depthAfter_add h d

instance (t : Text) : Decidable (Balanced t) := inferInstanceAs (Decidable (_ = _))

theorem nil : Balanced [] := rfl

theorem append {s t : Text} (hs : Balanced s) (ht : Balanced t) : Balanced (s ++ t) := by
  rw [Balanced, depthAfter_append, hs, Option.bind_some]
  exact ht

theorem of_no_brackets {t : Text} (h : ∀ u ∈ t, u ≠ openBracket ∧ u ≠ closeBracket) :
    Balanced t := by
  induction t with
  | nil => rfl
  | cons u t ih =>
    obtain ⟨hno, hnc⟩ := h u List.mem_cons_self
    rw [Balanced, depthAfter, depthAfterUnit_of_ne hno hnc, Option.bind_some]
    exact ih fun v hv => h v (List.mem_cons_of_mem _ hv)

theorem bracketed {t : Text} (h : Balanced t) : Balanced (bracketed t) := by
  rw [Balanced, Thread.bracketed, depthAfter, depthAfterUnit_open, Option.bind_some,
    depthAfter_append, h.depth]
  rfl

theorem of_words_eq {s t : Text} (h : s.words = t.words) (ht : Balanced t) : Balanced s := by
  rw [Balanced, ← depthAfter_ink, ink_eq_of_words_eq h, depthAfter_ink]
  exact ht

theorem flatten {ts : List Text} (h : ∀ t ∈ ts, Balanced t) : Balanced ts.flatten := by
  induction ts with
  | nil => exact nil
  | cons t ts ih =>
    rw [List.flatten_cons]
    exact (h t List.mem_cons_self).append (ih fun s hs => h s (List.mem_cons_of_mem _ hs))

theorem escapeUnit (u : CodeUnit) : Balanced (escapeUnit u) := by
  unfold Thread.escapeUnit
  split
  · decide
  · split
    · decide
    · rename_i hno
      split
      · decide
      · rename_i hnc
        exact of_no_brackets fun v hv => by
          obtain rfl : v = u := by simpa using hv
          exact ⟨hno, hnc⟩

/-- Escaped text opens and closes nothing. -/
theorem escape (t : Text) : Balanced (escape t) := by
  rw [Thread.escape, List.flatMap]
  apply flatten
  intro s hs
  obtain ⟨u, -, rfl⟩ := List.mem_map.1 hs
  exact escapeUnit u

end Balanced

/-! ## Macros -/

/-- The names of the macros. -/
def macroNames : List Text :=
  (["bold", "code", "italic", "link", "entity", "desc", "bullet", "number", "block", "pre",
    "h1", "h2", "h3", "h4", "h5", "p", "div", "id", "heading", "signature"]).map ofString

/-- Whether a text starts with the name of a macro: all its word units up to the first
other one. -/
def startsMacro (t : Text) : Bool := macroNames.contains (t.takeWhile CodeUnit.isWord)

/-- Whether each backslash of a text is the first of a doubled pair or starts a macro;
`escaping` says that an unpaired backslash stands right before the text. -/
def onlyMacrosFrom : Bool → Text → Bool
  | escaping, [] => !escaping
  | false, u :: rest => onlyMacrosFrom (u == backslash) rest
  | true, u :: rest =>
      if u = backslash then onlyMacrosFrom false rest
      else startsMacro (u :: rest) && onlyMacrosFrom false rest

/-- Whether each backslash of a text is the first of a doubled pair or starts a
macro. -/
def onlyMacros (t : Text) : Bool := onlyMacrosFrom false t

/-- A unit that ends a macro name and is no backslash. -/
def isDelimiter (u : CodeUnit) : Bool := !u.isWord && u != backslash

theorem takeWhile_isWord_append {u : CodeUnit} (hu : u.isWord = false) (x y : Text) :
    (x ++ u :: y).takeWhile CodeUnit.isWord = x.takeWhile CodeUnit.isWord := by
  induction x with
  | nil => simp [hu]
  | cons v x ih =>
    cases hv : v.isWord with
    | true => simp [hv, ih]
    | false => simp [hv]

/-- A text may be cut before a delimiter. -/
theorem onlyMacrosFrom_append {u : CodeUnit} (hu : isDelimiter u = true) (escaping : Bool)
    (x y : Text) :
    onlyMacrosFrom escaping (x ++ u :: y) = (onlyMacrosFrom escaping x && onlyMacros y) := by
  obtain ⟨hword, hslash⟩ : u.isWord = false ∧ u ≠ backslash := by
    simpa [isDelimiter] using hu
  have hstart : ∀ x : Text, startsMacro (x ++ u :: y) = startsMacro x := by
    intro x
    rw [startsMacro, startsMacro, takeWhile_isWord_append hword]
  induction x generalizing escaping with
  | nil =>
    cases escaping with
    | false =>
      have hne : (u == backslash) = false := by simpa using hslash
      simp [onlyMacrosFrom, onlyMacros, hne]
    | true =>
      have hnone : startsMacro (u :: y) = false := by
        rw [startsMacro, List.takeWhile_cons_of_neg (by simp [hword])]
        decide
      simp [onlyMacrosFrom, hslash, hnone]
  | cons v x ih =>
    cases escaping with
    | false =>
      rw [List.cons_append, onlyMacrosFrom, onlyMacrosFrom]
      exact ih _
    | true =>
      have hhead := hstart (v :: x)
      rw [List.cons_append] at hhead
      rw [List.cons_append, onlyMacrosFrom, onlyMacrosFrom, hhead]
      split
      · exact ih _
      · rw [ih, Bool.and_assoc]

theorem onlyMacros_append {u : CodeUnit} (hu : isDelimiter u = true) (x y : Text) :
    onlyMacros (x ++ u :: y) = (onlyMacros x && onlyMacros y) :=
  onlyMacrosFrom_append hu false x y

theorem isDelimiter_of_isBlank {u : CodeUnit} (h : u.isBlank = true) : isDelimiter u = true := by
  simp only [isDelimiter, Bool.and_eq_true, Bool.not_eq_true', bne_iff_ne]
  refine ⟨not_isWord_of_isBlank h, ?_⟩
  rintro rfl
  exact absurd h (by decide)

/-- The macros of a text are the macros of its words. -/
theorem onlyMacros_eq_all_words (t : Text) : onlyMacros t = t.words.all onlyMacros :=
  all_words rfl (fun x _ y hu => onlyMacros_append (isDelimiter_of_isBlank hu) x y) t

theorem onlyMacros_of_words_eq {s t : Text} (h : s.words = t.words) :
    onlyMacros s = onlyMacros t := by
  rw [onlyMacros_eq_all_words, h, ← onlyMacros_eq_all_words]

theorem onlyMacros_of_no_backslash {t : Text} (h : backslash ∉ t) : onlyMacros t = true := by
  induction t with
  | nil => rfl
  | cons u t ih =>
    obtain ⟨hu, ht⟩ : backslash ≠ u ∧ backslash ∉ t := by simpa using h
    have hne : (u == backslash) = false := by simpa using Ne.symm hu
    rw [onlyMacros, onlyMacrosFrom, hne]
    exact ih ht

/-- A macro name that something else follows. -/
theorem onlyMacros_macro {name : Text} (hname : startsMacro name = true) {u : CodeUnit}
    (hu : isDelimiter u = true) (hslash : backslash ∉ name) (rest : Text) :
    onlyMacros (backslash :: (name ++ u :: rest)) = onlyMacros rest := by
  cases name with
  | nil => exact absurd hname (by decide)
  | cons v name =>
    obtain ⟨hv, hrest⟩ : backslash ≠ v ∧ backslash ∉ name := by simpa using hslash
    have hstart : onlyMacrosFrom true (v :: name) = true := by
      rw [onlyMacrosFrom, if_neg (Ne.symm hv), hname, Bool.true_and]
      exact onlyMacros_of_no_backslash hrest
    rw [onlyMacros, onlyMacrosFrom, beq_self_eq_true, onlyMacrosFrom_append hu, hstart,
      Bool.true_and]

/-! ## Text that anything may follow -/

/-- A text that leaves no macro name and no backslash unfinished: whatever follows it
is read as it would be by itself. -/
def Sealed (t : Text) : Prop := ∀ y : Text, onlyMacros y = true → onlyMacros (t ++ y) = true

namespace Sealed

theorem nil : Sealed [] := fun _ hy => hy

theorem append {s t : Text} (hs : Sealed s) (ht : Sealed t) : Sealed (s ++ t) := by
  intro y hy
  rw [List.append_assoc]
  exact hs _ (ht y hy)

theorem onlyMacros {t : Text} (h : Sealed t) : onlyMacros t = true := by
  have hnil := h [] rfl
  rwa [List.append_nil] at hnil

theorem flatten {ts : List Text} (h : ∀ t ∈ ts, Sealed t) : Sealed ts.flatten := by
  induction ts with
  | nil => exact nil
  | cons t ts ih =>
    rw [List.flatten_cons]
    exact (h t List.mem_cons_self).append (ih fun s hs => h s (List.mem_cons_of_mem _ hs))

/-- A delimiter seals what stands before it. -/
theorem of_delimiter {t : Text} (h : Thread.onlyMacros t = true) {u : CodeUnit}
    (hu : isDelimiter u = true) : Sealed (t ++ [u]) := by
  intro y hy
  rw [List.append_assoc, List.singleton_append, onlyMacros_append hu, h, hy]
  rfl

theorem singleton {u : CodeUnit} (hu : u ≠ backslash) : Sealed [u] := by
  intro y hy
  have hne : (u == backslash) = false := by simpa using hu
  rw [List.singleton_append, Thread.onlyMacros, onlyMacrosFrom, hne]
  exact hy

theorem of_no_backslash {t : Text} (h : backslash ∉ t) : Sealed t := by
  induction t with
  | nil => exact nil
  | cons u t ih =>
    obtain ⟨hu, ht⟩ : backslash ≠ u ∧ backslash ∉ t := by simpa using h
    rw [← List.singleton_append]
    exact (singleton (Ne.symm hu)).append (ih ht)

theorem bracketed {t : Text} (h : Thread.onlyMacros t = true) : Sealed (bracketed t) := by
  rw [Thread.bracketed, ← List.singleton_append]
  exact (singleton (by decide)).append (of_delimiter h (by decide))

theorem escapeUnit (u : CodeUnit) : Sealed (escapeUnit u) := by
  unfold Thread.escapeUnit
  split
  · exact fun y hy => hy
  · split
    · exact of_delimiter (t := "\\entity[91") (by decide) (by decide)
    · split
      · exact of_delimiter (t := "\\entity[93") (by decide) (by decide)
      · rename_i hslash _ _
        exact singleton hslash

/-- Escaped text holds no macros but entities. -/
theorem escape (t : Text) : Sealed (escape t) := by
  rw [Thread.escape, List.flatMap]
  apply flatten
  intro s hs
  obtain ⟨u, -, rfl⟩ := List.mem_map.1 hs
  exact escapeUnit u

end Sealed

/-! ## The arguments of a macro -/

/-- Behind a text whose brackets match, no bracket can be closed. -/
theorem not_balanced_append_close {t : Text} (h : Balanced t) (rest : Text) :
    ¬ Balanced (t ++ closeBracket :: rest) := by
  rw [Balanced, depthAfter_append, h]
  rintro ⟨⟩

/-- An argument ends where its brackets match. -/
theorem bracketed_append_inj {a b s t : Text} (ha : Balanced a) (hb : Balanced b)
    (h : bracketed a ++ s = bracketed b ++ t) : a = b ∧ s = t := by
  have hinner : a ++ closeBracket :: s = b ++ closeBracket :: t := by
    simpa [bracketed] using h
  rcases List.append_eq_append_iff.1 hinner with ⟨more, rfl, hmore⟩ | ⟨more, rfl, hmore⟩
  · cases more with
    | nil => exact ⟨(List.append_nil a).symm, (List.cons.inj hmore).2⟩
    | cons u more =>
      obtain rfl := (List.cons.inj hmore).1
      exact absurd hb (not_balanced_append_close ha more)
  · cases more with
    | nil => exact ⟨List.append_nil b, (List.cons.inj hmore).2.symm⟩
    | cons u more =>
      obtain rfl := (List.cons.inj hmore).1
      exact absurd ha (not_balanced_append_close hb more)

theorem anchorLink_eq (anchor text : Text) :
    anchorLink anchor text
      = ofString "\\link[#" ++ (anchor ++ (ofString "][" ++ (text ++ [closeBracket]))) := by
  simp only [anchorLink, command, bracketed, List.flatMap_cons, List.flatMap_nil, List.cons_append,
    List.append_assoc, List.append_nil, List.nil_append]
  rfl

/-! ## The units of escaped text -/

/-- The units that escaping may add to a text. -/
def escapeUnits : Text := ofString "\\entiy[913]"

theorem count_escapeUnit {u : CodeUnit} (hu : u ∉ escapeUnits) (v : CodeUnit) :
    (escapeUnit v).count u = ([v] : Text).count u := by
  have hnone : ∀ w ∈ escapeUnits, ([w] : Text).count u = 0 := fun w hw =>
    List.count_eq_zero.2 fun hmem => hu (List.mem_singleton.1 hmem ▸ hw)
  have hadded : ∀ t : Text, t ⊆ escapeUnits → t.count u = 0 := fun t ht =>
    List.count_eq_zero.2 fun hmem => hu (ht hmem)
  unfold escapeUnit
  split
  · rename_i hv
    rw [hv, hnone backslash (by decide)]
    exact hadded _ (by decide)
  · split
    · rename_i hv
      rw [hv, hnone openBracket (by decide)]
      exact hadded _ (by decide)
    · split
      · rename_i hv
        rw [hv, hnone closeBracket (by decide)]
        exact hadded _ (by decide)
      · rfl

/-- Escaping keeps the number of any other unit. -/
theorem count_escape {u : CodeUnit} (hu : u ∉ escapeUnits) (t : Text) :
    (escape t).count u = t.count u := by
  induction t with
  | nil => rfl
  | cons v t ih =>
    have hescape : escape (v :: t) = escapeUnit v ++ escape t := rfl
    rw [hescape, List.count_append, count_escapeUnit hu, ih, ← List.count_append]
    rfl

theorem escapeUnit_ne_nil (u : CodeUnit) : escapeUnit u ≠ [] := by
  unfold escapeUnit
  split
  · exact List.cons_ne_nil _ _
  · split
    · exact List.cons_ne_nil _ _
    · split
      · exact List.cons_ne_nil _ _
      · exact List.cons_ne_nil _ _

/-- No unit is escaped to the front of what another is escaped to. -/
theorem escapeUnit_append_inj {u v : CodeUnit} {s t : Text}
    (h : escapeUnit u ++ s = escapeUnit v ++ t) : u = v ∧ s = t := by
  unfold escapeUnit at h
  -- The three escapes differ in the unit behind the backslash, or in the last digit.
  split_ifs at h <;> simp_all [ofString, ofCodePoint, backslash, openBracket, closeBracket]

/-- The text can be read off the escaped text. -/
theorem escape_injective {s t : Text} (h : escape s = escape t) : s = t := by
  induction s generalizing t with
  | nil =>
    cases t with
    | nil => rfl
    | cons v t => exact absurd (List.append_eq_nil_iff.1 h.symm).1 (escapeUnit_ne_nil v)
  | cons u s ih =>
    cases t with
    | nil => exact absurd (List.append_eq_nil_iff.1 h).1 (escapeUnit_ne_nil u)
    | cons v t =>
      obtain ⟨rfl, hrest⟩ := escapeUnit_append_inj h
      rw [ih hrest]

/-! ## White space in escaped text -/

theorem escapeUnit_of_isBlank {u : CodeUnit} (hu : u.isBlank = true) : escapeUnit u = [u] := by
  have hne : ∀ v : CodeUnit, v.isBlank = false → u ≠ v := by
    rintro v hv rfl
    rw [hu] at hv
    cases hv
  rw [escapeUnit, if_neg (hne _ (by decide)), if_neg (hne _ (by decide)),
    if_neg (hne _ (by decide))]

theorem not_isBlank_of_mem_escapeUnit {u : CodeUnit} (hu : u.isBlank = false) :
    ∀ v ∈ escapeUnit u, v.isBlank = false := by
  have hany : (escapeUnit u).any CodeUnit.isBlank = false := by
    unfold escapeUnit
    split
    · rfl
    · split
      · rfl
      · split
        · rfl
        · simpa using hu
  exact fun v hv => Bool.eq_false_iff.2 (List.any_eq_false.1 hany v hv)

theorem escape_eq_nil_iff (t : Text) : escape t = [] ↔ t = [] := by
  cases t with
  | nil => exact iff_of_true rfl rfl
  | cons u t =>
    refine iff_of_false (fun h => ?_) (List.cons_ne_nil u t)
    exact escapeUnit_ne_nil u (List.append_eq_nil_iff.1 h).1

/-- White space is escaped as it is, and nothing else becomes white space. -/
theorem trimEnd_escape (t : Text) : (escape t).trimEnd = escape t.trimEnd := by
  induction t with
  | nil => rfl
  | cons u t ih =>
    have hescape : ∀ t, escape (u :: t) = escapeUnit u ++ escape t := fun t => rfl
    rw [hescape]
    cases hu : u.isBlank with
    | false =>
      rw [trimEnd_append_of_no_blank (not_isBlank_of_mem_escapeUnit hu), ih,
        trimEnd_cons_of_not_blank hu, hescape]
    | true =>
      rw [escapeUnit_of_isBlank hu, List.singleton_append, trimEnd_cons, trimEnd_cons, ih]
      simp only [escape_eq_nil_iff, hu, and_true]
      split
      · rfl
      · rw [hescape, escapeUnit_of_isBlank hu, List.singleton_append]

end PodLoom.Thread
