import PodLoom.Pod.Link
import PodLoom.Proofs.Pod.Inline
import PodLoom.Proofs.Text.Trimming

set_option autoImplicit false

/-!
# Separators outside codes

The content of a link is cut at the first separator outside codes, and two readings say
where that is: `indexOfTopLevel?` counts brackets, and `parse` reads the codes themselves
(`outsideIndex?`).  The count knows one form of code only, a letter and a bracket that the
next unmatched bracket closes.

What the count makes of a separator depends on the ends of the text in front of it: it finds
nothing open there if no end opens more codes than it has closing brackets (`Settled`).  A
separator outside codes is always settled (`Level.settled_outside`), so the count never goes
past it.  It may stop short of it, in a code with more brackets on each side, where a closing
bracket may be text, and where more than one closes the code (`indexOfTopLevel?_in_code`).
-/

namespace PodLoom.Pod

open Text CodeUnit Inline

/-! ## Counting openings -/

/-- The number of places in a text where a code opens: a capital letter and a bracket. -/
def openings : Text → Nat
  | [] => 0
  | u :: rest =>
      if (u.isUpper && rest.head? == some less) = true then openings rest + 1 else openings rest

theorem openings_cons_of_none {u : CodeUnit} {rest : Text}
    (h : (u.isUpper && rest.head? == some less) = false) :
    openings (u :: rest) = openings rest := by
  simp [openings, h]

theorem openings_cons_of_not_upper {u : CodeUnit} (h : u.isUpper = false) (rest : Text) :
    openings (u :: rest) = openings rest :=
  openings_cons_of_none (by rw [h, Bool.false_and])

theorem openings_opening {u : CodeUnit} (h : u.isUpper = true) (rest : Text) :
    openings (u :: less :: rest) = openings rest + 1 := by
  have hless : openings (less :: rest) = openings rest :=
    openings_cons_of_not_upper (by decide) rest
  rw [openings, if_pos (by simp [h]), hless]

theorem openings_cons_le (u : CodeUnit) (rest : Text) :
    openings (u :: rest) ≤ openings rest + 1 := by
  rw [openings]
  split <;> omega

theorem openings_append_le (s t : Text) : openings s + openings t ≤ openings (s ++ t) := by
  induction s with
  | nil => simp [openings]
  | cons u rest ih =>
    rw [List.cons_append, openings, openings]
    split
    · rename_i hopen
      have hopen' : (u.isUpper && (rest ++ t).head? == some less) = true := by
        cases rest with
        | nil => simp at hopen
        | cons v rest => exact hopen
      rw [if_pos hopen']
      omega
    · split <;> omega

/-- No code opens across the seam of two texts. -/
def Seamed (s t : Text) : Prop := (s.getLast?.any isUpper && t.head? == some less) = false

theorem seamed_nil (t : Text) : Seamed [] t := rfl

theorem Seamed.suffix {s s' t : Text} (h : Seamed s t) (hs : s' <:+ s) : Seamed s' t := by
  obtain ⟨front, rfl⟩ := hs
  cases s' with
  | nil => exact seamed_nil t
  | cons u s' =>
    rw [Seamed, List.getLast?_append, Option.or_of_isSome (by simp)] at h
    exact h

theorem Seamed.cut {s t t' : Text} (h : Seamed s (t ++ t')) : Seamed s t := by
  cases t with
  | nil => simp [Seamed]
  | cons u t => exact h

theorem seamed_of_last {u : CodeUnit} (hu : u.isUpper = false) (s t : Text) :
    Seamed (s ++ [u]) t := by
  simp [Seamed, hu]

theorem seamed_of_not_upper {s : Text} (h : ∀ u ∈ s, u.isUpper = false) (t : Text) :
    Seamed s t := by
  rcases List.eq_nil_or_concat s with rfl | ⟨s, u, rfl⟩
  · exact seamed_nil t
  · rw [List.concat_eq_append] at h ⊢
    exact seamed_of_last (h u (by simp)) s t

theorem seamed_of_head {t : Text} (h : t.head? ≠ some less) (s : Text) : Seamed s t := by
  simp [Seamed, h]

theorem openings_append {s t : Text} (h : Seamed s t) :
    openings (s ++ t) = openings s + openings t := by
  induction s with
  | nil => simp [openings]
  | cons u rest ih =>
    cases rest with
    | nil => simpa [openings] using openings_cons_of_none h
    | cons v rest =>
      have ih := ih (by simpa [Seamed] using h)
      have hhead : (v :: rest ++ t).head? = (v :: rest).head? := rfl
      rw [List.cons_append, openings, ih, hhead, openings.eq_2 u]
      by_cases hopen : (u.isUpper && (v :: rest).head? == some less) = true
      · rw [if_pos hopen, if_pos hopen]
        omega
      · rw [if_neg hopen, if_neg hopen]

theorem openings_le_of_suffix {s t : Text} (h : s <:+ t) : openings s ≤ openings t := by
  obtain ⟨front, rfl⟩ := h
  have := openings_append_le front s
  omega

/-! ## Settled texts -/

/-- Nothing is left open at the end of a text, going by its brackets: no end of it opens
more codes than it has closing brackets. -/
def Settled (t : Text) : Prop := ∀ s, s <:+ t → openings s ≤ s.count greater

theorem settled_cons {u : CodeUnit} {t : Text} :
    Settled (u :: t) ↔ openings (u :: t) ≤ (u :: t).count greater ∧ Settled t := by
  simp [Settled, List.suffix_cons_iff]

theorem settled_nil : Settled [] := by simp [Settled, openings]

theorem settled_of_openings {t : Text} (h : openings t = 0) : Settled t := by
  intro s hs
  have := openings_le_of_suffix hs
  omega

theorem Settled.suffix {s t : Text} (ht : Settled t) (hs : s <:+ t) : Settled s :=
  fun w hw => ht w (hw.trans hs)

theorem Settled.append {s t : Text} (hs : Settled s) (ht : Settled t) (hseam : Seamed s t) :
    Settled (s ++ t) := by
  rintro w ⟨front, hw⟩
  rcases List.append_eq_append_iff.1 hw with ⟨rest, rfl, rfl⟩ | ⟨rest, rfl, rfl⟩
  · have hrest := hs rest (List.suffix_append _ _)
    have htail := ht t (List.suffix_refl t)
    rw [openings_append (hseam.suffix (List.suffix_append _ _)), List.count_append]
    omega
  · exact ht w (List.suffix_append _ _)

/-- Nothing is left open at the end of a text that starts inside `depth` codes. -/
def SettledFrom (depth : Nat) (t : Text) : Prop :=
  depth + openings t ≤ t.count greater ∧ Settled t

theorem settledFrom_zero {t : Text} : SettledFrom 0 t ↔ Settled t := by
  refine ⟨And.right, fun h => ⟨?_, h⟩⟩
  rw [Nat.zero_add]
  exact h t (List.suffix_refl t)

section Steps

variable {depth : Nat} {u : CodeUnit} {t : Text}

theorem settledFrom_nil : SettledFrom depth [] ↔ depth = 0 := by
  simp [SettledFrom, settled_nil, openings]

theorem settledFrom_opening (hu : u.isUpper = true) :
    SettledFrom depth (u :: less :: t) ↔ SettledFrom (depth + 1) t := by
  have hne : u ≠ greater := by rintro rfl; exact absurd hu (by decide)
  have hopen := openings_opening hu t
  have hless : openings (less :: t) = openings t := openings_cons_of_not_upper (by decide) t
  have hcount : (less :: t).count greater = t.count greater :=
    List.count_cons_of_ne (by decide)
  simp only [SettledFrom, settled_cons, hopen, hless, List.count_cons_of_ne hne, hcount]
  constructor
  · rintro ⟨h, -, -, ht⟩
    exact ⟨by omega, ht⟩
  · rintro ⟨h, ht⟩
    exact ⟨by omega, by omega, by omega, ht⟩

theorem settledFrom_greater : SettledFrom depth (greater :: t) ↔ SettledFrom (depth - 1) t := by
  have hopen : openings (greater :: t) = openings t := openings_cons_of_not_upper (by decide) t
  simp only [SettledFrom, settled_cons, hopen, List.count_cons_self]
  constructor
  · rintro ⟨h, -, ht⟩
    have := ht t (List.suffix_refl t)
    exact ⟨by omega, ht⟩
  · rintro ⟨h, ht⟩
    exact ⟨by omega, by omega, ht⟩

theorem settledFrom_other (hu : ¬(u = greater ∧ 0 < depth))
    (hopen : openings (u :: t) = openings t) :
    SettledFrom depth (u :: t) ↔ SettledFrom depth t := by
  by_cases hgreater : u = greater
  · have hdepth : depth = 0 := Nat.eq_zero_of_not_pos fun h => hu ⟨hgreater, h⟩
    rw [hgreater, hdepth, settledFrom_greater]
  replace hu := hgreater
  simp only [SettledFrom, settled_cons, hopen, List.count_cons_of_ne hu]
  constructor
  · rintro ⟨h, -, ht⟩
    exact ⟨h, ht⟩
  · rintro ⟨h, ht⟩
    exact ⟨h, by omega, ht⟩

end Steps

/-! ## The first separator that a count of the brackets finds -/

/-- A unit that is no part of an opening delimiter and closes nothing. -/
structure Neutral (sep : CodeUnit) : Prop where
  notUpper : sep.isUpper = false
  notLess : sep ≠ less
  notGreater : sep ≠ greater

theorem openings_cons_of_isPrefix {u v : CodeUnit} {t rest : Text}
    (hopen : ¬(u.isUpper = true ∧ v = less)) (ht : t <+: v :: rest) :
    openings (u :: t) = openings t := by
  refine openings_cons_of_none ?_
  cases t with
  | nil => simp
  | cons w t =>
    obtain ⟨rfl, -⟩ := List.cons_prefix_cons.1 ht
    simpa using hopen

section Split

variable {sep : CodeUnit} {depth : Nat} {t before after : Text}

/-- At the separator that is found, nothing is left open. -/
theorem settledFrom_of_split (h : splitTopLevel? sep depth t = some (before, after)) :
    SettledFrom depth before := by
  fun_induction splitTopLevel? sep depth t generalizing before after with
  | case1 => cases h
  | case2 => cases h
  | case3 depth u _ hsep =>
    cases h
    exact settledFrom_nil.2 hsep.2
  | case4 => cases h
  | case5 depth u v rest hopen ih =>
    simp only [Option.map_eq_some_iff, Prod.exists, Prod.mk.injEq] at h
    obtain ⟨before, after, hsplit, rfl, rfl⟩ := h
    rw [hopen.2, settledFrom_opening hopen.1]
    exact ih hsplit
  | case6 depth u v rest _ hclose ih =>
    simp only [Option.map_eq_some_iff, Prod.exists, Prod.mk.injEq] at h
    obtain ⟨before, after, hsplit, rfl, rfl⟩ := h
    rw [hclose.1, settledFrom_greater]
    exact ih hsplit
  | case7 depth u v rest _ _ hsep =>
    cases h
    exact settledFrom_nil.2 hsep.2
  | case8 depth u v rest hopen hclose _ ih =>
    simp only [Option.map_eq_some_iff, Prod.exists, Prod.mk.injEq] at h
    obtain ⟨before, after, hsplit, rfl, rfl⟩ := h
    have hprefix : before <+: v :: rest := ⟨_, (splitTopLevel?_eq_some hsplit).symm⟩
    rw [settledFrom_other hclose (openings_cons_of_isPrefix hopen hprefix)]
    exact ih hsplit

/-- At a separator in front of the one that is found, a code is left open. -/
theorem not_settledFrom_of_lt (neutral : Neutral sep) (ht : t = before ++ sep :: after)
    (hlt : ∀ found ∈ splitTopLevel? sep depth t, before.length < found.1.length) :
    ¬SettledFrom depth before := by
  fun_induction splitTopLevel? sep depth t generalizing before after with
  | case1 => simp at ht
  | case2 depth u hclose =>
    cases before with
    | nil => exact absurd ((List.cons.inj ht).1.symm.trans hclose.1) neutral.notGreater
    | cons w before => simp at ht
  | case3 => exact absurd (hlt _ rfl) (Nat.not_lt_zero _)
  | case4 depth u _ hsep =>
    cases before with
    | nil => exact fun h => hsep ⟨(List.cons.inj ht).1, settledFrom_nil.1 h⟩
    | cons w before => simp at ht
  | case5 depth u v rest hopen ih =>
    obtain ⟨hupper, rfl⟩ := hopen
    rcases before with _ | ⟨w, _ | ⟨x, before⟩⟩
    · cases ht
      exact absurd neutral.notUpper (by simp [hupper])
    · cases ht
      exact absurd rfl neutral.notLess
    · cases ht
      rw [settledFrom_opening hupper]
      refine ih rfl fun found hfound => ?_
      have := hlt _ (Option.mem_map_of_mem _ hfound)
      simpa using this
  | case6 depth u v rest _ hclose ih =>
    cases before with
    | nil => exact absurd ((List.cons.inj ht).1.symm.trans hclose.1) neutral.notGreater
    | cons w before =>
      obtain ⟨rfl, htail⟩ := List.cons.inj ht
      rw [hclose.1, settledFrom_greater]
      refine ih htail fun found hfound => ?_
      have := hlt _ (Option.mem_map_of_mem _ hfound)
      simpa using this
  | case7 => exact absurd (hlt _ rfl) (Nat.not_lt_zero _)
  | case8 depth u v rest hopen hclose hsep ih =>
    cases before with
    | nil => exact fun h => hsep ⟨(List.cons.inj ht).1, settledFrom_nil.1 h⟩
    | cons w before =>
      obtain ⟨rfl, htail⟩ := List.cons.inj ht
      rw [settledFrom_other hclose (openings_cons_of_isPrefix hopen ⟨_, htail.symm⟩)]
      refine ih htail fun found hfound => ?_
      have := hlt _ (Option.mem_map_of_mem _ hfound)
      simpa using this

end Split

/-! ## Runs of text -/

namespace Inline

mutual

/-- No code opens in the runs of text of a node, and where they stand in a code with one
bracket on each side, as `single` says of the node itself, none closes it. -/
def Inert (single : Bool) : Inline → Prop
  | .text content => openings content = 0 ∧ (single = true → greater ∉ content)
  | .code _ delimiter children _ => AllInert (delimiter.extra == 0) children

/-- The runs of text of a sequence of nodes open no codes and close none. -/
def AllInert (single : Bool) : List Inline → Prop
  | [] => True
  | node :: rest => Inert single node ∧ AllInert single rest

end

theorem allInert_iff {single : Bool} {nodes : List Inline} :
    AllInert single nodes ↔ ∀ node ∈ nodes, Inert single node := by
  induction nodes with
  | nil => simp [AllInert]
  | cons node rest ih => rw [AllInert, ih, List.forall_mem_cons]

theorem AllInert.reverse {single : Bool} {nodes : List Inline} (h : AllInert single nodes) :
    AllInert single nodes.reverse :=
  allInert_iff.2 fun node hnode => allInert_iff.1 h node (List.mem_reverse.1 hnode)

theorem AllInert.pushText {single : Bool} {nodes : List Inline} (h : AllInert single nodes)
    {run : Text} (hrun : Inert single (.text run.reverse)) :
    AllInert single (Pod.pushText run nodes) := by
  unfold Pod.pushText
  split
  · exact h
  · exact ⟨hrun, h⟩

end Inline

/-- The innermost code of a stack has one bracket on each side. -/
def inSingle (stack : List OpenCode) : Bool := stack.head?.any (·.extra == 0)

/-- The runs of text in front of each code of a stack open no codes and close none. -/
def StackInert : List OpenCode → Prop
  | [] => True
  | c :: outer => AllInert (inSingle outer) c.before ∧ StackInert outer

theorem allInert_node {c : OpenCode} {outer : List OpenCode} {nodes : List Inline}
    (hbefore : AllInert (inSingle outer) c.before)
    (hnodes : AllInert (inSingle (c :: outer)) nodes) (closing : Option Text) :
    AllInert (inSingle outer) (c.node closing nodes :: c.before) :=
  ⟨hnodes.reverse, hbefore⟩

theorem allInert_endCodes {stack : List OpenCode} {nodes : List Inline}
    (hstack : StackInert stack) (hnodes : AllInert (inSingle stack) nodes) :
    AllInert false (endCodes stack nodes) := by
  induction stack generalizing nodes with
  | nil => exact hnodes.reverse
  | cons c outer ih => exact ih hstack.2 (allInert_node hstack.1 hnodes none)

/-- A unit is read as text where it closes no code and opens none. -/
theorem inert_unit {stack : List OpenCode} {run : Text} {u : CodeUnit} {rest : Text}
    (hshut : Shut stack (u :: rest)) (hrun : Inert (inSingle stack) (.text run.reverse))
    (hseam : Seamed run.reverse (u :: rest)) :
    Inert (inSingle stack) (.text (u :: run).reverse) := by
  rw [List.reverse_cons]
  refine ⟨?_, fun hsingle => ?_⟩
  · have hunit : Seamed run.reverse [u] := hseam
    rw [openings_append hunit, hrun.1]
    simp [openings]
  · rw [List.mem_append, List.mem_singleton]
    refine not_or.2 ⟨hrun.2 hsingle, ?_⟩
    rintro rfl
    cases stack with
    | nil => cases hsingle
    | cons c outer =>
      have hextra : c.extra = 0 := eq_of_beq hsingle
      have hclosing := hshut c rfl
      rw [hextra] at hclosing
      simp [closing?, afterFront?] at hclosing

theorem allInert_readNodes {stack : List OpenCode} {nodes : List Inline} {run : Text} {line : Int}
    {t : Text} (hstack : StackInert stack) (hnodes : AllInert (inSingle stack) nodes)
    (hrun : Inert (inSingle stack) (.text run.reverse)) (hseam : Seamed run.reverse t) :
    AllInert false (readNodes stack nodes run line t) := by
  have hempty : ∀ single, Inert single (.text (List.reverse [])) := fun _ => by
    simp [Inert, openings]
  fun_induction readNodes stack nodes run line t with
  | case1 stack nodes run line t h => exact allInert_endCodes hstack (hnodes.pushText hrun)
  | case2 stack nodes run line t c outer padding rest h ih =>
    obtain ⟨rfl, -⟩ := Front.Found.of_eq h
    exact ih hstack.2 (allInert_node hstack.1 (hnodes.pushText hrun) _) (hempty _) rfl
  | case3 stack nodes run line t o h ih =>
    exact ih ⟨hnodes.pushText hrun, hstack⟩ trivial (hempty _) rfl
  | case4 stack nodes run line t u rest h ih =>
    have hshut : Shut stack t := shut_of_front (by simp [h])
    have hopening := opening?_of_front_unit h
    obtain rfl : t = u :: rest := Front.Found.of_eq h
    refine ih hstack hnodes (inert_unit hshut hrun hseam) ?_
    rw [opening?_eq_none_iff] at hopening
    simpa [Seamed] using hopening

namespace Inline

theorem allInert_parse (line : Int) (t : Text) : AllInert false (parse line t) :=
  allInert_readNodes trivial trivial (by simp [Inert, openings, inSingle]) rfl

/-! ## Codes that are closed -/

/-- A level that starts with a code starts with its letter. -/
theorem Level.seamed {nodes : List Inline} (h : Level nodes)
    (hcode : ∀ next, nodes.head? ≠ some (.text next)) (s : Text) : Seamed s (sources nodes) := by
  have hletter : ∀ {letter : CodeUnit} (rest : Text), letter.isUpper = true →
      Seamed s (letter :: rest) := by
    intro letter rest hupper
    have hne : letter ≠ less := by
      rintro rfl
      exact absurd hupper (by decide)
    simp [Seamed, hne]
  cases h with
  | nil => simp [Seamed, sources]
  | text => exact absurd rfl (hcode _)
  | closed read => exact hletter _ read.upper
  | unclosed read => exact hletter _ read.upper

theorem openings_eq_zero {t : Text} (h : ∀ u ∈ t, u.isUpper = false) : openings t = 0 := by
  induction t with
  | nil => rfl
  | cons u rest ih =>
    obtain ⟨hu, hrest⟩ := List.forall_mem_cons.1 h
    rw [openings_cons_of_not_upper hu, ih hrest]

section Delimiter

variable {d : Delimiter} (proper : d.Proper)

include proper

theorem not_isUpper_of_mem_front : ∀ u ∈ d.front, u.isUpper = false := by
  intro u hu
  rcases List.mem_append.1 hu with hu | hu
  · rw [List.eq_of_mem_replicate hu]
    decide
  · exact not_isUpper_of_isBlank (List.all_eq_true.1 (isBlank_of_paddedBy proper.1) u hu)

/-- A closing delimiter is white space and closing brackets. -/
theorem isBlank_or_eq_of_mem_back : ∀ u ∈ d.back, u.isBlank = true ∨ u = greater := by
  intro u hu
  unfold Delimiter.back at hu
  split at hu
  · cases hu
  · rename_i closing hclosing
    have hblank := isBlank_of_paddedBy (proper.2 closing hclosing)
    exact (List.mem_append.1 hu).imp (List.all_eq_true.1 hblank u) List.eq_of_mem_replicate

theorem openings_back : openings d.back = 0 := by
  refine openings_eq_zero fun u hu => ?_
  rcases isBlank_or_eq_of_mem_back proper u hu with hblank | rfl
  · exact not_isUpper_of_isBlank hblank
  · decide

theorem seamed_back (s : Text) : Seamed s d.back := by
  refine seamed_of_head (fun hhead => ?_) s
  rcases isBlank_or_eq_of_mem_back proper _ (List.mem_of_head? hhead) with hblank | hgreater
  · exact absurd hblank (by decide)
  · exact absurd hgreater (by decide)

/-- A closing bracket makes up for the letter of a code. -/
theorem settled_code (closed : 0 < d.back.count greater) (letter : CodeUnit)
    {children : List Inline} (line : Int) (h : Settled (sources children)) :
    Settled (source (.code letter d children line)) := by
  have hfront := not_isUpper_of_mem_front proper
  have hrest : Settled (sources children ++ d.back) :=
    h.append (settled_of_openings (openings_back proper)) (seamed_back proper _)
  have hcontent : Settled (d.front ++ (sources children ++ d.back)) :=
    (settled_of_openings (openings_eq_zero hfront)).append hrest (seamed_of_not_upper hfront _)
  rw [source, List.append_assoc, settled_cons]
  refine ⟨?_, hcontent⟩
  have hopenings : openings (d.front ++ (sources children ++ d.back)) = openings (sources children) := by
    rw [openings_append (seamed_of_not_upper hfront _), openings_append (seamed_back proper _),
      openings_eq_zero hfront, openings_back proper, Nat.zero_add, Nat.add_zero]
  have hletter := openings_cons_le letter (d.front ++ (sources children ++ d.back))
  have hchildren := h _ (List.suffix_refl _)
  rw [List.count_cons, List.count_append, List.count_append]
  omega

end Delimiter

theorem count_greater_back (extra : Nat) (opening closing : Text) :
    0 < (Delimiter.back ⟨extra, opening, some closing⟩).count greater := by
  simp only [Delimiter.back, Delimiter.count, List.count_append, List.count_replicate_self]
  omega

theorem seamed_code (letter : CodeUnit) (extra : Nat) (opening closing : Text)
    (children : List Inline) (line : Int) (t : Text) :
    Seamed (source (.code letter ⟨extra, opening, some closing⟩ children line)) t := by
  have hlast : source (.code letter ⟨extra, opening, some closing⟩ children line)
      = letter :: (Delimiter.front ⟨extra, opening, some closing⟩ ++ sources children ++ closing
        ++ List.replicate extra greater) ++ [greater] := by
    simp [source, Delimiter.back, Delimiter.count, List.replicate_succ']
  rw [hlast]
  exact seamed_of_last (by decide) _ t

/-- Nothing is left open at the end of a level whose codes are closed. -/
theorem Level.settled {nodes : List Inline} (h : Level nodes) {single : Bool}
    (hinert : AllInert single nodes) (hclosed : allErrata nodes = []) :
    Settled (sources nodes) := by
  match nodes, h with
  | _, .nil => exact settled_nil
  | _, .text filled apart rest =>
    exact (settled_of_openings hinert.1.1).append (rest.settled hinert.2 hclosed)
      (rest.seamed apart _)
  | _, .closed read unbroken rest =>
    have hrest : allErrata _ = [] := (List.append_eq_nil_iff.1 hclosed).2
    exact (settled_code read.proper (count_greater_back ..) _ _ (read.level.settled hinert.1 unbroken)).append
      (rest.settled hinert.2 hrest) (seamed_code _ _ _ _ _ _ _)
  | _, .unclosed read => simp [allErrata, errata] at hclosed
termination_by sizeOf nodes

/-! ## The first separator outside codes -/

/-- The offset of the first `sep` of a node, if the node is a run of text. -/
def ownIndex? (sep : CodeUnit) : Inline → Option Nat
  | .text content => content.idxOf? sep
  | .code .. => none

/-- The offset of the first `sep` that stands in a run of text of the outermost level. -/
def outsideIndex? (sep : CodeUnit) : List Inline → Option Nat
  | [] => none
  | node :: rest =>
      (ownIndex? sep node).or ((outsideIndex? sep rest).map (node.source.length + ·))

theorem exists_text_of_ownIndex? {sep : CodeUnit} {node : Inline} {n : Nat}
    (h : ownIndex? sep node = some n) :
    ∃ before after, node = .text (before ++ sep :: after) ∧ before.length = n := by
  cases node with
  | code => cases h
  | text content =>
    obtain ⟨hn, hget, -⟩ := List.idxOf?_eq_some_iff.1 h
    refine ⟨content.take n, content.drop (n + 1), ?_, List.length_take_of_le hn.le⟩
    rw [← hget, ← List.drop_eq_getElem_cons, List.take_append_drop]

theorem ownIndex?_text (sep : CodeUnit) (before after : Text) :
    ∃ n, ownIndex? sep (.text (before ++ sep :: after)) = some n ∧ n ≤ before.length := by
  induction before with
  | nil => exact ⟨0, by simp [ownIndex?, List.idxOf?_cons], Nat.le_refl 0⟩
  | cons u before ih =>
    obtain ⟨n, hn, hle⟩ := ih
    by_cases hu : u = sep
    · exact ⟨0, by simp [ownIndex?, List.idxOf?_cons, hu], Nat.zero_le _⟩
    · rw [ownIndex?] at hn
      exact ⟨n + 1, by simp [ownIndex?, List.idxOf?_cons, hu, hn], by simpa using hle⟩

/-- Nothing is left open at the first separator that stands outside codes. -/
theorem Level.settled_outside {sep : CodeUnit} {nodes : List Inline} (h : Level nodes)
    {single : Bool} (hinert : AllInert single nodes) {n : Nat}
    (hn : outsideIndex? sep nodes = some n) :
    ∃ before after, sources nodes = before ++ sep :: after ∧ before.length = n
      ∧ Settled before := by
  induction h generalizing n with
  | nil => cases hn
  | @text run nodes filled apart rest ih =>
    rcases Option.or_eq_some_iff.1 hn with hown | ⟨-, hrest⟩
    · obtain ⟨before, after, hrun, hlength⟩ := exists_text_of_ownIndex? hown
      cases hrun
      refine ⟨before, after ++ sources nodes, ?_, hlength, settled_of_openings ?_⟩
      · simp [sources, source]
      · have := openings_append_le before (sep :: after)
        have := hinert.1.1
        omega
    · obtain ⟨m, hm, rfl⟩ := Option.map_eq_some_iff.1 hrest
      obtain ⟨before, after, hsource, hlength, hsettled⟩ := ih hinert.2 hm
      refine ⟨run ++ before, after, ?_, by rw [List.length_append, hlength, source], ?_⟩
      · rw [sources, source, hsource, List.append_assoc]
      · refine (settled_of_openings hinert.1.1).append hsettled ?_
        exact Seamed.cut (hsource ▸ rest.seamed apart run)
  | @closed letter extra opening closing children line nodes read unbroken rest ih =>
    obtain ⟨m, hm, rfl⟩ := Option.map_eq_some_iff.1 hn
    obtain ⟨before, after, hsource, hlength, hsettled⟩ := ih hinert.2 hm
    refine ⟨source (.code letter ⟨extra, opening, some closing⟩ children line) ++ before, after,
      ?_, by rw [List.length_append, hlength], ?_⟩
    · rw [sources, hsource, List.append_assoc]
    · have hchildren := read.level.settled hinert.1 unbroken
      exact (settled_code read.proper (count_greater_back ..) _ _ hchildren).append hsettled
        (seamed_code _ _ _ _ _ _ _)
  | unclosed read => cases hn

/-! ## Codes with one bracket on each side -/

/-- A code with one bracket on each side. -/
structure Occurrence.Single (c : Occurrence) : Prop where
  upper : c.letter.isUpper = true
  proper : c.delimiter.Proper
  single : c.delimiter.extra = 0

theorem front_of_single {delimiter : Delimiter} (proper : delimiter.Proper)
    (single : delimiter.extra = 0) : delimiter.front = [less] := by
  have hopening := proper.1
  rw [PaddedBy, if_pos single] at hopening
  rw [Delimiter.front, hopening, Delimiter.count, single]
  rfl

theorem back_of_single {delimiter : Delimiter} (proper : delimiter.Proper)
    (single : delimiter.extra = 0) : delimiter.back = [] ∨ delimiter.back = [greater] := by
  unfold Delimiter.back
  cases hclosing : delimiter.closing with
  | none => exact .inl rfl
  | some closing =>
    have hpadding := proper.2 closing hclosing
    rw [PaddedBy, if_pos single] at hpadding
    rw [hpadding, Delimiter.count, single]
    exact .inr rfl

theorem source_of_single {d : Delimiter} (proper : d.Proper) (single : d.extra = 0)
    (letter : CodeUnit) (children : List Inline) (line : Int) :
    source (.code letter d children line) = letter :: less :: (sources children ++ d.back) := by
  rw [source, front_of_single proper single]
  rfl

theorem count_greater_back_le {d : Delimiter} (proper : d.Proper) (single : d.extra = 0) :
    d.back.count greater ≤ 1 := by
  rcases back_of_single proper single with hback | hback
  · rw [hback]
    decide
  · rw [hback]
    decide

theorem greater_ne_of_isUpper {u : CodeUnit} (h : u.isUpper = true) : greater ≠ u := by
  rintro rfl
  exact absurd h (by decide)

theorem count_greater_letter {letter : CodeUnit} (h : letter.isUpper = true) (t : Text) :
    (letter :: less :: t).count greater = t.count greater := by
  rw [List.count_cons_of_ne (greater_ne_of_isUpper h).symm, List.count_cons_of_ne (by decide)]

theorem count_greater_le_append {s t : Text} {m : Nat} (hs : s.count greater ≤ openings s)
    (ht : t.count greater ≤ openings t + m) :
    (s ++ t).count greater ≤ openings (s ++ t) + m := by
  have := openings_append_le s t
  rw [List.count_append]
  omega

mutual

theorem count_greater_le_openings_node {after : Text} :
    (node : Inline) → Inert true node → (∀ c ∈ occurrences after node, c.Single) →
      ∀ s, s <+: node.source → s.count greater ≤ openings s
  | .text content, hinert, _, s, hs => by
      have hnone : greater ∉ s := fun hmem => hinert.2 rfl (hs.subset hmem)
      rw [List.count_eq_zero.2 hnone]
      exact Nat.zero_le _
  | .code letter d children line, hinert, hsingle, s, hs => by
      obtain ⟨hself, hcodes⟩ := List.forall_mem_cons.1 hsingle
      have hupper : letter.isUpper = true := hself.upper
      have hproper : d.Proper := hself.proper
      have hextra : d.extra = 0 := hself.single
      rw [Inert, beq_iff_eq.2 hextra] at hinert
      rw [source_of_single hproper hextra] at hs
      rcases s with _ | ⟨u, _ | ⟨v, s⟩⟩
      · exact Nat.zero_le _
      · obtain ⟨rfl, -⟩ := List.cons_prefix_cons.1 hs
        rw [List.count_eq_zero.2 (by simpa using greater_ne_of_isUpper hupper)]
        exact Nat.zero_le _
      · obtain ⟨rfl, hbracket⟩ := List.cons_prefix_cons.1 hs
        obtain ⟨rfl, t, ht⟩ := List.cons_prefix_cons.1 hbracket
        rw [count_greater_letter hupper, openings_opening hupper]
        rcases List.append_eq_append_iff.1 ht with ⟨rest, hchildren, -⟩ | ⟨rest, rfl, hback⟩
        · have := count_greater_le_openings children hinert hcodes s ⟨rest, hchildren.symm⟩
          omega
        · -- the bracket that closes the code makes up for its letter
          have hrest : rest.count greater ≤ d.back.count greater :=
            (List.IsPrefix.sublist ⟨t, hback.symm⟩).count_le greater
          have hone := count_greater_back_le hproper hextra
          exact count_greater_le_append
            (count_greater_le_openings children hinert hcodes _ (List.prefix_refl _)) (by omega)

/-- Where every code has one bracket on each side, no front of what a code holds has more
closing brackets than openings. -/
theorem count_greater_le_openings {after : Text} :
    (nodes : List Inline) → AllInert true nodes → (∀ c ∈ allOccurrences after nodes, c.Single) →
      ∀ s, s <+: sources nodes → s.count greater ≤ openings s
  | [], _, _, s, hs => by
      rw [List.prefix_nil.1 hs]
      exact Nat.zero_le _
  | node :: rest, hinert, hsingle, s, hs => by
      rw [allOccurrences, List.forall_mem_append] at hsingle
      obtain ⟨after', hsource⟩ := hs
      rcases List.append_eq_append_iff.1 hsource with ⟨t, hnode, -⟩ | ⟨t, rfl, hrest⟩
      · exact count_greater_le_openings_node node hinert.1 hsingle.1 s ⟨t, hnode.symm⟩
      · exact count_greater_le_append (m := 0)
          (count_greater_le_openings_node node hinert.1 hsingle.1 _ (List.prefix_refl _))
          (count_greater_le_openings rest hinert.2 hsingle.2 t ⟨_, hrest.symm⟩)

end

/-- A code with one bracket on each side is left open at every separator in it. -/
theorem not_settled_in_single {sep : CodeUnit} (neutral : Neutral sep) {c : Occurrence}
    (hinert : AllInert true c.children) (hc : c.Single) {after : Text}
    (hsingle : ∀ d ∈ allOccurrences after c.children, d.Single) {s t : Text}
    (hsource : c.node.source = s ++ sep :: t) : ¬Settled s := by
  obtain ⟨hupper, hproper, hextra⟩ := hc
  rw [Occurrence.node, source_of_single hproper hextra] at hsource
  rcases s with _ | ⟨u, _ | ⟨v, s⟩⟩
  · obtain ⟨rfl, -⟩ := List.cons.inj hsource
    exact absurd neutral.notUpper (by simp [hupper])
  · exact absurd (List.cons.inj (List.cons.inj hsource).2).1.symm neutral.notLess
  · obtain ⟨hletter, hbracket⟩ := List.cons.inj hsource
    obtain ⟨rfl, hcontent⟩ := List.cons.inj hbracket
    have hs : s <+: sources c.children := by
      rcases List.append_eq_append_iff.1 hcontent with ⟨rest, -, hback⟩ | ⟨rest, hrest, -⟩
      · have hmem : sep ∈ c.delimiter.back := by
          rw [hback]
          simp
        rcases back_of_single hproper hextra with hnone | hone
        · simp [hnone] at hmem
        · rw [hone, List.mem_singleton] at hmem
          exact absurd hmem neutral.notGreater
      · exact ⟨rest, hrest.symm⟩
    intro hsettled
    have hopen := hsettled _ (List.suffix_refl _)
    rw [← hletter, openings_opening hupper, count_greater_letter hupper] at hopen
    have := count_greater_le_openings c.children hinert hsingle s hs
    omega

/-- A separator in front of the first one outside codes stands in a code of the node, or
behind the node and in front of the first one outside codes there. -/
theorem in_code_or_behind {sep : CodeUnit} {node : Inline} {rest : List Inline}
    {before after : Text} (hsource : sources (node :: rest) = before ++ sep :: after)
    (hlt : ∀ n ∈ outsideIndex? sep (node :: rest), before.length < n) :
    (node.isText = false ∧ ∃ t, node.source = before ++ sep :: t)
      ∨ ∃ tail, before = node.source ++ tail ∧ sources rest = tail ++ sep :: after
          ∧ ∀ n ∈ outsideIndex? sep rest, tail.length < n := by
  have hbehind : ∀ tail, before = node.source ++ tail →
      ∀ n ∈ outsideIndex? sep rest, tail.length < n := by
    rintro tail rfl n hn
    cases hown : ownIndex? sep node with
    | none =>
      have := hlt (node.source.length + n) (by simp [outsideIndex?, hown, Option.mem_def.1 hn])
      rw [List.length_append] at this
      omega
    | some m =>
      have := hlt m (by simp [outsideIndex?, hown])
      obtain ⟨b, a, rfl, rfl⟩ := exists_text_of_ownIndex? hown
      rw [source, List.length_append, List.length_append] at this
      omega
  rcases List.append_eq_append_iff.1 hsource with ⟨tail, hbefore, hrest⟩ | ⟨t, hnode, hafter⟩
  · exact .inr ⟨tail, hbefore, hrest, hbehind tail hbefore⟩
  · cases t with
    | nil =>
      have hbefore : before = node.source ++ [] := by rw [hnode, List.append_nil, List.append_nil]
      exact .inr ⟨[], hbefore, hafter.symm, hbehind [] hbefore⟩
    | cons u t =>
      obtain ⟨rfl, -⟩ := List.cons.inj hafter
      refine .inl ⟨?_, t, hnode⟩
      cases node with
      | code => rfl
      | text content =>
        -- in a run of text the separator would be the first one outside codes, or behind it
        obtain rfl : content = before ++ sep :: t := hnode
        obtain ⟨n, hn, hle⟩ := ownIndex?_text sep before t
        have := hlt n (by simp [outsideIndex?, hn])
        omega

/-- Where every code has one bracket on each side, a code is left open at every separator
in front of the first one outside codes. -/
theorem not_settled_of_single {sep : CodeUnit} (neutral : Neutral sep) {nodes : List Inline}
    {single : Bool} (hinert : AllInert single nodes) {behind : Text}
    (hsingle : ∀ c ∈ allOccurrences behind nodes, c.Single) {before after : Text}
    (hsource : sources nodes = before ++ sep :: after)
    (hlt : ∀ n ∈ outsideIndex? sep nodes, before.length < n) : ¬Settled before := by
  induction nodes generalizing before with
  | nil => simp [sources] at hsource
  | cons node rest ih =>
    rw [allOccurrences, List.forall_mem_append] at hsingle
    obtain ⟨hcode, t, ht⟩ | ⟨tail, rfl, htail, hlt⟩ := in_code_or_behind hsource hlt
    · cases node with
      | text => cases hcode
      | code letter d children line =>
        obtain ⟨hself, hcodes⟩ := List.forall_mem_cons.1 hsingle.1
        have hextra : d.extra = 0 := hself.single
        have hchildren := hinert.1
        rw [Inert, beq_iff_eq.2 hextra] at hchildren
        exact not_settled_in_single neutral hchildren hself hcodes ht
    · exact fun h => ih hinert.2 hsingle.2 htail hlt (h.suffix (List.suffix_append _ _))

/-- The separator that a count of brackets finds is never behind the first one that stands
outside codes, and it is that one exactly if in front of every separator that stands in a code
before it, some end of the text opens more codes than it has closing brackets.  That holds
where every code has one bracket on each side. -/
theorem indexOfTopLevel?_eq_iff (line : Int) (t : Text) {sep : CodeUnit}
    (hsep : sep = '|' ∨ sep = slash) :
    (∀ n ∈ outsideIndex? sep (parse line t), ∃ m ∈ indexOfTopLevel? t sep, m ≤ n)
      ∧ (indexOfTopLevel? t sep = outsideIndex? sep (parse line t)
          ↔ ∀ before after, t = before ++ sep :: after →
              (∀ n ∈ outsideIndex? sep (parse line t), before.length < n) → ¬Settled before)
      ∧ ((∀ c ∈ allOccurrences [] (parse line t), c.delimiter.extra = 0) →
          indexOfTopLevel? t sep = outsideIndex? sep (parse line t)) := by
  have neutral : Neutral sep := by
    rcases hsep with rfl | rfl
    · exact ⟨by decide, by decide, by decide⟩
    · exact ⟨by decide, by decide, by decide⟩
  have hlevel := level_parse line t
  have hfound : ∀ n ∈ outsideIndex? sep (parse line t), ∃ m ∈ indexOfTopLevel? t sep, m ≤ n := by
    intro n hn
    obtain ⟨before, after, hsource, rfl, hsettled⟩ :=
      hlevel.settled_outside (allInert_parse line t) hn
    rw [sources_parse] at hsource
    by_contra hnone
    refine absurd (settledFrom_zero.2 hsettled)
      (not_settledFrom_of_lt neutral hsource fun found hsplit => ?_)
    by_contra hle
    exact hnone ⟨_, Option.mem_map_of_mem _ hsplit, Nat.not_lt.1 hle⟩
  have hagree : (∀ before after, t = before ++ sep :: after →
      (∀ n ∈ outsideIndex? sep (parse line t), before.length < n) → ¬Settled before) →
      indexOfTopLevel? t sep = outsideIndex? sep (parse line t) := by
    intro hopen
    cases hsplit : splitTopLevel? sep 0 t with
    | none =>
      have hindex : indexOfTopLevel? t sep = none := by rw [indexOfTopLevel?, hsplit]; rfl
      rw [hindex] at hfound ⊢
      exact (Option.eq_none_iff_forall_not_mem.2 fun n hn => by simpa using hfound n hn).symm
    | some found =>
      obtain ⟨before, after⟩ := found
      have hindex : indexOfTopLevel? t sep = some before.length := by
        rw [indexOfTopLevel?, hsplit]
        rfl
      have hsettled := settledFrom_zero.1 (settledFrom_of_split hsplit)
      -- the separator that is found is not in front of the first one outside codes
      obtain ⟨n, hn, hle⟩ : ∃ n ∈ outsideIndex? sep (parse line t), n ≤ before.length := by
        by_contra hnone
        refine hopen before after (splitTopLevel?_eq_some hsplit) (fun n hn => ?_) hsettled
        by_contra hlt
        exact hnone ⟨n, hn, Nat.not_lt.1 hlt⟩
      obtain ⟨m, hm, hle'⟩ := hfound n hn
      rw [hindex] at hm ⊢
      cases hm
      rw [Option.mem_def.1 hn, Nat.le_antisymm hle' hle]
  refine ⟨hfound, ⟨fun hsame before after hsource hlt => ?_, hagree⟩,
    fun hsingle => hagree fun before after hsource hlt => ?_⟩
  · rw [← settledFrom_zero]
    refine not_settledFrom_of_lt neutral hsource fun found hsplit => hlt _ ?_
    rw [← hsame]
    exact Option.mem_map_of_mem _ hsplit
  · have hcodes : ∀ c ∈ allOccurrences [] (parse line t), c.Single := fun c hc =>
      have hread := (hlevel.readAlone (fun _ => rfl) hc).1
      ⟨hread.upper, hread.proper, hsingle c hc⟩
    have hsources : sources (parse line t) = before ++ sep :: after := by
      rw [sources_parse, hsource]
    exact not_settled_of_single neutral (allInert_parse line t) hcodes hsources hlt

/-- The bar in a code is passed over, and the bar behind it is found. -/
theorem indexOfTopLevel?_behind_code :
    (ofChar '|' = '|' ∨ ofChar '|' = slash)
      ∧ (∀ c ∈ allOccurrences [] (parse 1 (ofString "B<a|b> | c")), c.delimiter.extra = 0)
      ∧ indexOfTopLevel? (ofString "B<a|b> | c") '|' = some 7 := by
  have hsingle : ∀ c ∈ allOccurrences [] (parse 1 (ofString "B<a|b> | c")),
      c.delimiter.extra = 0 := by decide +kernel
  refine ⟨.inl rfl, hsingle, ?_⟩
  rw [(indexOfTopLevel?_eq_iff 1 (ofString "B<a|b> | c") (.inl rfl)).2.2 hsingle]
  decide +kernel

/-- A bracket that is text in a code with two brackets on each side is taken for its end, and
the bar behind it for one outside codes. -/
theorem indexOfTopLevel?_in_code :
    indexOfTopLevel? (ofString "B<< a > b | c >>") '|' = some 10
      ∧ outsideIndex? '|' (parse 1 (ofString "B<< a > b | c >>")) = none := by
  decide +kernel

end Inline

end PodLoom.Pod
