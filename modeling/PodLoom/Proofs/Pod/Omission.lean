import PodLoom.Proofs.Pod.WellNested

set_option autoImplicit false

/-!
# Paragraphs that may be left out

A paragraph is silent if it delivers nothing and leaves the context as it is.  To leave silent
paragraphs out of a document changes nothing that is delivered, as long as the paragraphs that
are kept are taken as before (`takeParagraphs_kept`).  They can differ in one thing only, which
is the paragraph after them, and nothing but an `=over` looks at that (`Dispatch.taken_next`).

What is met in a region that is passed over is silent, and may be left out of every document
(`deliver_unskipped`).  The commands that have no content of their own are silent too, but the
kind of a list is read off the paragraph right behind its `=over`: they may be left out exactly
if none of them stands between an `=over` and an `=item` (`deliver_contentful_iff`).
-/

namespace PodLoom.Pod

open Text

/-! ## Paragraphs one by one -/

theorem Delivery.empty_append (d : Delivery) : Delivery.empty ++ d = d := by
  cases d
  rfl

/-- The paragraphs that are taken are those of the document. -/
theorem map_paragraph_dispatches (c : Context) (ps : List Paragraph) :
    (dispatches c ps).map (·.paragraph) = ps := by
  induction ps generalizing c with
  | nil => rfl
  | cons p rest ih => rw [dispatches, List.map_cons, ih]

/-- Each paragraph is taken with the one that comes after it. -/
theorem next_of_dispatches {c : Context} {ps : List Paragraph} {before after : List Dispatch}
    {d : Dispatch} (h : dispatches c ps = before ++ d :: after) :
    d.next = (after.map (·.paragraph)).head? := by
  induction before generalizing c ps with
  | nil =>
    cases ps with
    | nil => cases h
    | cons p rest =>
      obtain ⟨rfl, rfl⟩ := List.cons.inj h
      rw [map_paragraph_dispatches]
  | cons b before ih =>
    cases ps with
    | nil => cases h
    | cons p rest => exact ih (List.cons.inj h).2

namespace Dispatch

/-- The paragraph delivers nothing and changes nothing. -/
def IsSilent (d : Dispatch) : Prop := d.taken = (d.context, .empty)

/-- The paragraph is an `=over` that starts a list. -/
def startsList (d : Dispatch) : Bool :=
  d.paragraph.kind == .command (ofString "over") && d.context.mode? != some .skip

/-- A paragraph with the context it is met in and all that comes of it. -/
def account (d : Dispatch) : Context × Paragraph × Context × Delivery :=
  (d.context, d.paragraph, d.taken.1, d.taken.2)

/-- Only an `=over` that starts a list depends on the paragraph after it. -/
theorem taken_next {d : Dispatch} (h : d.startsList = false) (next : Option Paragraph) :
    taken { d with next } = d.taken := by
  unfold taken takeParagraph
  by_cases hskip : d.context.mode? = some .skip ∧ d.paragraph.boundsRegion = false
  · rw [if_pos hskip, if_pos hskip]
  · rw [if_neg hskip, if_neg hskip]
    cases hkind : d.paragraph.kind with
    | verbatim => rfl
    | ordinary => rfl
    | command name =>
      have hover : name ≠ ofString "over" := by
        intro hname
        have hbounds : d.paragraph.boundsRegion = false := by
          rw [Paragraph.boundsRegion, hkind, hname]
          decide
        have hmode : d.context.mode? ≠ some .skip := fun hmode => hskip ⟨hmode, hbounds⟩
        simp [startsList, hkind, hname, hmode] at h
      unfold takeCommand
      simp only [if_neg hover]

/-- An `=over` that starts a list opens it, and that is all it does. -/
theorem taken_startsList {d : Dispatch} (h : d.startsList = true) :
    d.taken = ({ d.context with lists := ⟨listKind d.next, d.paragraph.line⟩ :: d.context.lists },
      .ofEvents [.start (.over (listKind d.next) d.paragraph.line)]) := by
  simp only [startsList, Bool.and_eq_true, beq_iff_eq, bne_iff_ne] at h
  rw [taken_command h.1 fun hskip => h.2 hskip.1]
  rfl

end Dispatch

/-! ## Leaving paragraphs out -/

section

variable (keep : Dispatch → Bool)

/-- The paragraphs that are kept of those taken from a context on. -/
def kept (c : Context) (ps : List Paragraph) : List Paragraph :=
  ((dispatches c ps).filter keep).map (·.paragraph)

/-- What is not kept of these paragraphs is silent, and what is kept is taken as before, though
another paragraph may come after it. -/
def Omittable : List Dispatch → Prop
  | [] => True
  | d :: rest =>
      (if keep d then
          Dispatch.taken { d with next := ((rest.filter keep).map (·.paragraph)).head? } = d.taken
        else d.IsSilent)
        ∧ Omittable rest

variable {keep}

theorem kept_cons_of_pos {c : Context} {p : Paragraph} {rest : List Paragraph}
    (h : keep ⟨c, p, rest.head?⟩ = true) :
    kept keep c (p :: rest) = p :: kept keep (takeParagraph c p rest.head?).1 rest := by
  rw [kept, dispatches, List.filter_cons_of_pos h]
  rfl

theorem kept_cons_of_neg {c : Context} {p : Paragraph} {rest : List Paragraph}
    (h : ¬ keep ⟨c, p, rest.head?⟩ = true) :
    kept keep c (p :: rest) = kept keep (takeParagraph c p rest.head?).1 rest := by
  rw [kept, dispatches, List.filter_cons_of_neg h]
  rfl

/-- What is kept is met in the same contexts and delivers the same. -/
theorem account_kept {c : Context} {ps : List Paragraph} (h : Omittable keep (dispatches c ps)) :
    (dispatches c (kept keep c ps)).map Dispatch.account
      = ((dispatches c ps).filter keep).map Dispatch.account := by
  induction ps generalizing c with
  | nil => rfl
  | cons p rest ih =>
    obtain ⟨hfirst, hrest⟩ := h
    by_cases hkeep : keep ⟨c, p, rest.head?⟩ = true
    · rw [if_pos hkeep] at hfirst
      have htaken : takeParagraph c p (kept keep (takeParagraph c p rest.head?).1 rest).head?
          = takeParagraph c p rest.head? := hfirst
      rw [kept_cons_of_pos hkeep, dispatches, dispatches, List.filter_cons_of_pos hkeep,
        List.map_cons, List.map_cons, htaken, ih hrest]
      simp only [Dispatch.account, Dispatch.taken, htaken]
    · rw [if_neg hkeep] at hfirst
      have hcontext : (takeParagraph c p rest.head?).1 = c := congrArg Prod.fst hfirst
      rw [hcontext] at hrest
      rw [kept_cons_of_neg hkeep, dispatches, List.filter_cons_of_neg hkeep, hcontext, ih hrest]

/-- What is kept leads to the same context and delivers the same as all. -/
theorem takeParagraphs_kept {c : Context} {ps : List Paragraph}
    (h : Omittable keep (dispatches c ps)) :
    takeParagraphs c (kept keep c ps) = takeParagraphs c ps := by
  induction ps generalizing c with
  | nil => rfl
  | cons p rest ih =>
    obtain ⟨hfirst, hrest⟩ := h
    by_cases hkeep : keep ⟨c, p, rest.head?⟩ = true
    · rw [if_pos hkeep] at hfirst
      have htaken : takeParagraph c p (kept keep (takeParagraph c p rest.head?).1 rest).head?
          = takeParagraph c p rest.head? := hfirst
      rw [kept_cons_of_pos hkeep, takeParagraphs, takeParagraphs, htaken]
      dsimp only
      rw [ih hrest]
    · rw [if_neg hkeep] at hfirst
      have hsilent : takeParagraph c p rest.head? = (c, .empty) := hfirst
      rw [hsilent] at hrest
      rw [kept_cons_of_neg hkeep, takeParagraphs, hsilent]
      dsimp only
      rw [ih hrest, Delivery.empty_append]

theorem deliver_kept {ps : List Paragraph} (h : Omittable keep (dispatches .empty ps)) :
    deliver (kept keep .empty ps) = deliver ps := by
  rw [deliver, deliver, takeParagraphs_kept h]

end

/-- Behind its start, a document is what its paragraphs deliver. -/
theorem tail_documentEvents {ps qs : List Paragraph} (h : deliver ps = deliver qs) (file : Text)
    (id : Option Text) : (documentEvents file id ps).tail = (documentEvents file id qs).tail := by
  rw [documentEvents, documentEvents, h]
  rfl

/-! ## Regions that are passed over -/

namespace Dispatch

/-- The paragraph is met when the innermost open region is one that is passed over, and it
bounds no region itself. -/
def isSkipped (d : Dispatch) : Bool :=
  d.context.mode? == some .skip && !d.paragraph.boundsRegion

theorem isSilent_of_isSkipped {d : Dispatch} (h : d.isSkipped = true) : d.IsSilent := by
  simp only [isSkipped, Bool.and_eq_true, beq_iff_eq, Bool.not_eq_true'] at h
  exact if_pos h

end Dispatch

/-- The paragraphs of a document that are not passed over. -/
def unskipped (ps : List Paragraph) : List Paragraph := kept (!·.isSkipped) .empty ps

/-- What is passed over may be left out.  An `=over` that starts a list leaves the regions as
they are, so the paragraph after it is not passed over either. -/
theorem omittable_isSkipped (c : Context) (ps : List Paragraph) :
    Omittable (!·.isSkipped) (dispatches c ps) := by
  induction ps generalizing c with
  | nil => trivial
  | cons p rest ih =>
    let d : Dispatch := ⟨c, p, rest.head?⟩
    refine ⟨?_, ih d.taken.1⟩
    split
    · by_cases hstarts : d.startsList = true
      · have hregions : d.taken.1.mode? = c.mode? :=
          congrArg (fun taken => taken.1.mode?) (Dispatch.taken_startsList hstarts)
        have hmode : (c.mode? == some .skip) = false := by
          simp only [Dispatch.startsList, Bool.and_eq_true, bne_iff_ne] at hstarts
          exact beq_eq_false_iff_ne.2 hstarts.2
        have hnext : (kept (!·.isSkipped) d.taken.1 rest).head? = rest.head? := by
          cases rest with
          | nil => rfl
          | cons q more =>
            have hkeep : (!Dispatch.isSkipped ⟨d.taken.1, q, more.head?⟩) = true := by
              simp [Dispatch.isSkipped, hregions, hmode]
            rw [kept_cons_of_pos hkeep]
            rfl
        exact congrArg (fun next => Dispatch.taken { d with next }) hnext
      · exact Dispatch.taken_next (Bool.not_eq_true _ ▸ hstarts) _
    · rename_i hskipped
      exact Dispatch.isSilent_of_isSkipped (by simpa using hskipped)

/-- What is met in a region that is passed over has no influence.  It delivers nothing and leaves
the context as it is; without it, all other paragraphs are met in the same contexts and deliver
the same; and so the document delivers the same events and errors, to the last. -/
theorem deliver_unskipped (file : Text) (id : Option Text) (ps : List Paragraph) :
    (∀ d ∈ dispatches .empty ps, d.isSkipped = true → d.IsSilent)
      ∧ (dispatches .empty (unskipped ps)).map Dispatch.account
        = ((dispatches .empty ps).filter (!·.isSkipped)).map Dispatch.account
      ∧ deliver (unskipped ps) = deliver ps
      ∧ (documentEvents file id (unskipped ps)).tail = (documentEvents file id ps).tail := by
  have homit := omittable_isSkipped .empty ps
  have hdeliver : deliver (unskipped ps) = deliver ps := deliver_kept homit
  refine ⟨?_, account_kept homit, hdeliver, tail_documentEvents hdeliver file id⟩
  intro d _ hskipped
  exact Dispatch.isSilent_of_isSkipped hskipped

/-- A list of items with a region in it that is passed over, and in that a list without an end, an
error, and a region that would be raw text elsewhere. -/
def straddled : List Paragraph :=
  Paragraph.split
    "=over\n\n=item *\n\n=begin html\n\n=over\n\nB<b\n\n=begin thread\n\n=for\n\n=end thread\n\n=end html\n\n=back\n"

/-- Without all that, the list is delivered just the same. -/
theorem deliver_unskipped_straddled :
    (unskipped straddled).length = 7 ∧ straddled.length = 10
      ∧ deliver (unskipped straddled) = deliver straddled :=
  ⟨by decide +kernel, by decide +kernel, (deliver_unskipped "a.pod" none straddled).2.2.1⟩

/-! ## Commands without content -/

/-- The paragraph is a command that has no content of its own. -/
def Paragraph.isStructural (p : Paragraph) : Bool :=
  match p.kind with
  | .command name => Pod.isStructural name
  | _ => false

/-- The paragraph is an `=item`. -/
def Paragraph.isItem (p : Paragraph) : Bool := p.kind == .command (ofString "item")

/-- The paragraphs of a document that have content. -/
def contentful (ps : List Paragraph) : List Paragraph := ps.filter (!·.isStructural)

theorem contentful_cons_of_pos {p : Paragraph} (h : p.isStructural = true)
    (ps : List Paragraph) : contentful (p :: ps) = contentful ps :=
  List.filter_cons_of_neg (by simp [h])

theorem contentful_cons_of_neg {p : Paragraph} (h : p.isStructural = false)
    (ps : List Paragraph) : contentful (p :: ps) = p :: contentful ps :=
  List.filter_cons_of_pos (by simp [h])

/-- Whether a paragraph has content can be told without its context. -/
theorem kept_contentful (c : Context) (ps : List Paragraph) :
    kept (!·.paragraph.isStructural) c ps = contentful ps := by
  induction ps generalizing c with
  | nil => rfl
  | cons p rest ih =>
    cases hp : p.isStructural with
    | true => rw [kept_cons_of_neg (by simp [hp]), contentful_cons_of_pos hp, ih]
    | false => rw [kept_cons_of_pos (by simp [hp]), contentful_cons_of_neg hp, ih]

theorem Paragraph.exists_command_of_isStructural {p : Paragraph} (h : p.isStructural = true) :
    ∃ name, p.kind = .command name ∧ Pod.isStructural name = true := by
  unfold isStructural at h
  split at h
  · rename_i name hkind
    exact ⟨name, hkind, h⟩
  · cases h

theorem Paragraph.isItem_of_isStructural {p : Paragraph} (h : p.isStructural = true) :
    p.isItem = false := by
  obtain ⟨name, hkind, hname⟩ := exists_command_of_isStructural h
  rw [isItem, hkind]
  simp only [Pod.isStructural, Bool.or_eq_true, beq_iff_eq] at hname
  rcases hname with (rfl | rfl) | rfl <;> decide

/-- A list is a block list if no item comes right behind its `=over`. -/
theorem listKind_eq_block_iff {next : Option Paragraph} :
    listKind next = .block ↔ next.any Paragraph.isItem = false := by
  cases next with
  | none => simp [listKind]
  | some p =>
    by_cases hitem : p.kind = .command (ofString "item")
    · have hany : (some p).any Paragraph.isItem = true := by simp [Paragraph.isItem, hitem]
      have hkind : listKind (some p) ≠ .block := by
        unfold listKind
        dsimp only
        rw [if_pos hitem]
        split
        · decide
        · split
          · decide
          · decide
      simp [hany, hkind]
    · have hany : (some p).any Paragraph.isItem = false := by simp [Paragraph.isItem, hitem]
      have hkind : listKind (some p) = .block := by
        unfold listKind
        dsimp only
        exact if_neg hitem
      simp [hany, hkind]

namespace Dispatch

theorem isSilent_of_isStructural {d : Dispatch} (h : d.paragraph.isStructural = true) :
    d.IsSilent := by
  by_cases hskip : d.context.mode? = some .skip ∧ d.paragraph.boundsRegion = false
  · exact if_pos hskip
  · obtain ⟨name, hkind, hname⟩ := Paragraph.exists_command_of_isStructural h
    rw [IsSilent, taken_command hkind hskip]
    simp only [Pod.isStructural, Bool.or_eq_true, beq_iff_eq] at hname
    rcases hname with (rfl | rfl) | rfl <;> rfl

theorem startsList_of_isStructural {d : Dispatch} (h : d.paragraph.isStructural = true) :
    d.startsList = false := by
  obtain ⟨name, hkind, hname⟩ := Paragraph.exists_command_of_isStructural h
  simp only [Pod.isStructural, Bool.or_eq_true, beq_iff_eq] at hname
  rw [startsList, hkind]
  rcases hname with (rfl | rfl) | rfl <;> rfl

/-- The paragraph starts a list, and nothing but commands without content, one at least, stands
between it and an item. -/
def isInterrupted (d : Dispatch) (after : List Paragraph) : Bool :=
  d.startsList && after.head?.any Paragraph.isStructural
    && (contentful after).head?.any Paragraph.isItem

end Dispatch

/-- The kind of a list is that which the first paragraph with content gives it, unless a command
without content hides an item. -/
theorem listKind_contentful_iff (after : List Paragraph) :
    listKind (contentful after).head? = listKind after.head?
      ↔ (after.head?.any Paragraph.isStructural && (contentful after).head?.any Paragraph.isItem)
        = false := by
  cases after with
  | nil => simp [contentful]
  | cons q rest =>
    cases hq : q.isStructural with
    | true =>
      have hblock : listKind (some q) = .block :=
        listKind_eq_block_iff.2 (Paragraph.isItem_of_isStructural hq)
      rw [List.head?_cons, hblock, listKind_eq_block_iff, Option.any_some, hq, Bool.true_and]
    | false =>
      rw [contentful_cons_of_neg hq, List.head?_cons, List.head?_cons, Option.any_some, hq,
        Bool.false_and]
      exact iff_of_true rfl rfl

/-- The `=over` commands among these that are cut off from their first item. -/
def interrupted : List Dispatch → List Dispatch
  | [] => []
  | d :: rest =>
      if d.isInterrupted (rest.map (·.paragraph)) then d :: interrupted rest
      else interrupted rest

theorem interrupted_cons_eq_nil_iff {d : Dispatch} {rest : List Dispatch} :
    interrupted (d :: rest) = []
      ↔ d.isInterrupted (rest.map (·.paragraph)) = false ∧ interrupted rest = [] := by
  rw [interrupted]
  split
  · rename_i hd
    simp [hd]
  · rename_i hd
    simp [hd]

/-- If no list is cut off from its first item, the commands without content may be left out. -/
theorem omittable_isStructural {c : Context} {ps : List Paragraph}
    (h : interrupted (dispatches c ps) = []) :
    Omittable (!·.paragraph.isStructural) (dispatches c ps) := by
  induction ps generalizing c with
  | nil => trivial
  | cons p rest ih =>
    let d : Dispatch := ⟨c, p, rest.head?⟩
    obtain ⟨hfirst, hrest⟩ := interrupted_cons_eq_nil_iff.1 h
    rw [map_paragraph_dispatches] at hfirst
    refine ⟨?_, ih hrest⟩
    split
    · by_cases hstarts : d.startsList = true
      · have hnext : (kept (!·.paragraph.isStructural) d.taken.1 rest).head?
            = (contentful rest).head? := by rw [kept_contentful]
        have hkind : listKind (contentful rest).head? = listKind rest.head? := by
          rw [listKind_contentful_iff]
          rwa [Dispatch.isInterrupted, hstarts, Bool.true_and] at hfirst
        have htaken := Dispatch.taken_startsList (d := { d with next := (contentful rest).head? })
          hstarts
        show Dispatch.taken { d with next := (kept _ d.taken.1 rest).head? } = d.taken
        rw [hnext, htaken, Dispatch.taken_startsList hstarts, hkind]
      · exact Dispatch.taken_next (Bool.not_eq_true _ ▸ hstarts) _
    · rename_i hstructural
      exact Dispatch.isSilent_of_isStructural (by simpa using hstructural)

/-- The start of a list tells its kind, so documents with and without the commands that have no
content can deliver the same events only if no list is cut off from its first item. -/
theorem interrupted_eq_nil_of_events {c : Context} {ps : List Paragraph} {more more' : List Event}
    (h : (takeParagraphs c (contentful ps)).2.events ++ more
      = (takeParagraphs c ps).2.events ++ more') : interrupted (dispatches c ps) = [] := by
  induction ps generalizing c with
  | nil => rfl
  | cons p rest ih =>
    let d : Dispatch := ⟨c, p, rest.head?⟩
    have hall : (takeParagraphs c (p :: rest)).2.events
        = d.taken.2.events ++ (takeParagraphs d.taken.1 rest).2.events := rfl
    rw [hall, List.append_assoc] at h
    rw [dispatches, interrupted_cons_eq_nil_iff, map_paragraph_dispatches]
    cases hp : p.isStructural with
    | true =>
      have hsilent : d.taken = (c, .empty) := Dispatch.isSilent_of_isStructural hp
      have hcontext : (takeParagraph c p rest.head?).1 = c := congrArg Prod.fst hsilent
      rw [contentful_cons_of_pos hp, hsilent] at h
      rw [hcontext]
      refine ⟨?_, ih h⟩
      rw [Dispatch.isInterrupted, Dispatch.startsList_of_isStructural hp]
      rfl
    | false =>
      let d' : Dispatch := ⟨c, p, (contentful rest).head?⟩
      have hcontentful : (takeParagraphs c (contentful (p :: rest))).2.events
          = d'.taken.2.events ++ (takeParagraphs d'.taken.1 (contentful rest)).2.events := by
        rw [contentful_cons_of_neg hp]
        rfl
      rw [hcontentful, List.append_assoc] at h
      by_cases hstarts : d.startsList = true
      · have htaken := Dispatch.taken_startsList hstarts
        have htaken' := Dispatch.taken_startsList (d := d') hstarts
        rw [htaken, htaken'] at h
        obtain ⟨hstart, hrest⟩ := List.cons.inj h
        have hkind : listKind (contentful rest).head? = listKind rest.head? := by
          injection hstart with helement
          injection helement
        refine ⟨?_, ?_⟩
        · rw [Dispatch.isInterrupted, hstarts, Bool.true_and, ← listKind_contentful_iff]
          exact hkind
        · have hcontext : (takeParagraph c p rest.head?).1 = _ := congrArg Prod.fst htaken
          rw [hcontext]
          apply ih
          rw [← hkind] at hrest ⊢
          exact hrest
      · have hfalse : d.startsList = false := Bool.not_eq_true _ ▸ hstarts
        have htaken : d'.taken = d.taken := Dispatch.taken_next hfalse _
        rw [htaken] at h
        refine ⟨?_, ih (List.append_cancel_left h)⟩
        rw [Dispatch.isInterrupted, hfalse]
        rfl

/-- The commands without content are silent.  To leave them all out changes nothing that a
document delivers if and only if none of them stands, with none but others of them, between the
`=over` of a list and an item.  The kind of a list is the one that the first paragraph with
content behind its `=over` gives it, unless the list is cut off in this way. -/
theorem deliver_contentful_iff (ps : List Paragraph) :
    (∀ d ∈ dispatches .empty ps, d.paragraph.isStructural = true → d.IsSilent)
      ∧ (deliver (contentful ps) = deliver ps ↔ interrupted (dispatches .empty ps) = [])
      ∧ ∀ before d after, dispatches .empty ps = before ++ d :: after → d.startsList = true →
          let content := contentful (after.map (·.paragraph))
          (d.taken.2.events = [.start (.over (listKind content.head?) d.paragraph.line)]
            ↔ d.isInterrupted (after.map (·.paragraph)) = false) := by
  refine ⟨?_, ⟨?_, ?_⟩, ?_⟩
  · intro d _ hstructural
    exact Dispatch.isSilent_of_isStructural hstructural
  · intro h
    exact interrupted_eq_nil_of_events (congrArg Delivery.events h)
  · intro h
    rw [← kept_contentful .empty]
    exact deliver_kept (omittable_isStructural h)
  · intro before d after hsplit hstarts content
    rw [Dispatch.taken_startsList hstarts, Dispatch.isInterrupted, hstarts, Bool.true_and,
      next_of_dispatches hsplit, ← listKind_contentful_iff]
    constructor
    · intro hevents
      injection hevents with hstart
      injection hstart with helement
      injection helement with hkind
      exact hkind.symm
    · intro hkind
      rw [← hkind]
      rfl

/-- Lists of both kinds, with commands without content in front of them, behind them, and between
their items. -/
def punctuated : List Paragraph :=
  Paragraph.split
    "=pod\n\n=over\n\n=item *\n\n=cut\n\n=item *\n\n=over\n\n=encoding utf8\n\nSet in.\n\n=back\n\n=back\n\n=cut\n"

/-- Without these commands the lists are delivered just the same. -/
theorem deliver_contentful_punctuated :
    interrupted (dispatches .empty punctuated) = []
      ∧ (contentful punctuated).length = 7 ∧ punctuated.length = 11
      ∧ deliver (contentful punctuated) = deliver punctuated := by
  have huninterrupted : interrupted (dispatches .empty punctuated) = [] := by decide +kernel
  refine ⟨huninterrupted, by decide +kernel, by decide +kernel, ?_⟩
  exact (deliver_contentful_iff punctuated).2.1.2 huninterrupted

/-- A list with a command without content between its start and its first item. -/
def cutOff : List Paragraph := Paragraph.split "=over\n\n=pod\n\n=item 1. One\n\n=back\n"

/-- It starts as a block list, and without that command as a numbered list. -/
theorem deliver_contentful_cutOff :
    (deliver cutOff).events.head? = some (.start (.over .block 1))
      ∧ (deliver (contentful cutOff)).events.head? = some (.start (.over .number 1))
      ∧ deliver (contentful cutOff) ≠ deliver cutOff := by
  have hblock : (deliver cutOff).events.head? = some (.start (.over .block 1)) := by decide +kernel
  have hnumber : (deliver (contentful cutOff)).events.head? = some (.start (.over .number 1)) := by
    decide +kernel
  refine ⟨hblock, hnumber, ?_⟩
  intro h
  rw [h, hblock] at hnumber
  cases hnumber

end PodLoom.Pod
