import PodLoom.Proofs.Thread.Header

set_option autoImplicit false

/-!
# What stands before and behind a point of a page

A sink adds to its text and never takes anything back, and what it adds does not depend on
the text it has, only on the blank lines it defers and on whether the navigation is still to
come (`Leads`).  So a page can be cut at a chunk.  What stands before the chunk is what the
sink had (`around_isPrefix_emit`), and what stands behind it is what the later chunks make on
their own.  In the same way it can be cut at the navigation, which stands in one piece
(`exists_behind_reserved`).
-/

namespace PodLoom.Thread

open Text CodeUnit

namespace Sink

theorem deferred_reserved {s : Sink} (h : s.held = none) : s.reserved.deferred = 0 := by
  unfold reserved
  rw [h]
  rfl

theorem around_reserved {s : Sink} (h : s.held = none) (navigation : Text) :
    around navigation s.reserved = finished navigation s ++ navigation := by
  have hfinished := finished_reserved h navigation
  rw [finished, deferred_reserved h, List.replicate_zero, List.append_nil] at hfinished
  exact hfinished

/-! ## Sinks that go on alike -/

/-- One sink has `before` in front of what another has, and goes on like it: both defer as
many blank lines, and a navigation is still to come in both, and then the same, or in
neither. -/
structure Leads (navigation navigation' before : Text) (s s' : Sink) : Prop where
  deferred : s.deferred = s'.deferred
  held : s.held.isSome = s'.held.isSome
  same : s.held = none → navigation = navigation'
  text : around navigation s = before ++ around navigation' s'

namespace Leads

variable {navigation navigation' before : Text} {s s' : Sink}

theorem defer (h : Leads navigation navigation' before s s') (n : Nat) :
    Leads navigation navigation' before { s with deferred := n } { s' with deferred := n } :=
  ⟨rfl, h.held, h.same, h.text⟩

theorem pass (h : Leads navigation navigation' before s s') (piece : Text) :
    Leads navigation navigation' before (Sink.pass piece s) (Sink.pass piece s') := by
  refine ⟨?_, ?_, fun hnone => h.same ?_, ?_⟩
  · rw [deferred_pass, deferred_pass, h.deferred]
  · rw [held_pass_isSome, held_pass_isSome, h.held]
  · rw [← Option.not_isSome_iff_eq_none, ← held_pass_isSome piece s, hnone]
    exact Bool.false_ne_true
  · rw [around_pass, around_pass, h.text, List.append_assoc]

theorem flushed (h : Leads navigation navigation' before s s') :
    Leads navigation navigation' before s.flushed s'.flushed := by
  unfold Sink.flushed
  rw [h.deferred]
  exact (h.pass _).defer 0

theorem finished (h : Leads navigation navigation' before s s') :
    finished navigation s = before ++ finished navigation' s' := by
  rw [Sink.finished, Sink.finished, h.text, h.deferred, List.append_assoc]

theorem admitted (h : Leads navigation navigation' before s s') (chunk : Text) :
    (admitted chunk s).1 = (admitted chunk s').1
      ∧ Leads navigation navigation' before (admitted chunk s).2 (admitted chunk s').2 := by
  unfold Sink.admitted
  rw [h.deferred]
  split
  · exact ⟨rfl, h⟩
  · split
    · exact ⟨rfl, (h.pass _).flushed⟩
    · exact ⟨rfl, h.flushed⟩

theorem emit (h : Leads navigation navigation' before s s') (chunk : Text) :
    Leads navigation navigation' before (emit chunk s) (emit chunk s') := by
  obtain ⟨hrest, hsinks⟩ := h.admitted chunk
  unfold Sink.emit
  rw [hrest]
  exact (hsinks.defer _).pass _

theorem reserved (h : Leads navigation navigation' before s s') :
    Leads navigation navigation' before s.reserved s'.reserved := by
  have hheld := h.held
  unfold Sink.reserved
  cases hs : s.held with
  | some pieces =>
    rw [hs] at hheld
    obtain ⟨pieces', hs'⟩ := Option.isSome_iff_exists.1 hheld.symm
    rw [hs']
    exact h
  | none =>
    rw [hs] at hheld
    have hs' : s'.held = none := Option.not_isSome_iff_eq_none.1 (by rw [← hheld]; simp)
    obtain rfl := h.same hs
    rw [hs']
    refine ⟨rfl, rfl, nofun, ?_⟩
    have htext : s.flushed.target.text = before ++ s'.flushed.target.text := by
      rw [target_flushed hs navigation, target_flushed hs' navigation, h.finished]
    show s.flushed.target.text ++ _ = before ++ (s'.flushed.target.text ++ _)
    rw [htext, List.append_assoc]

theorem foldl (h : Leads navigation navigation' before s s') (steps : List Step) :
    Leads navigation navigation' before (steps.foldl after s) (steps.foldl after s') := by
  induction steps generalizing s s' with
  | nil => exact h
  | cons step steps ih =>
    cases step with
    | output chunk => exact ih (h.emit chunk)
    | reserve => exact ih h.reserved

end Leads

/-! ## Behind the navigation -/

/-- The navigation stands in one piece, between what the sink had when its place was reserved
and the chunks that came later. -/
theorem exists_behind_reserved {s : Sink} (hheld : s.held = none) (navigation : Text)
    (steps : List Step) :
    ∃ behind, finished navigation (steps.foldl after s.reserved)
        = finished navigation s ++ (navigation ++ behind)
      ∧ Respaced behind (chunks steps) := by
  let s' : Sink := ⟨0, some [], .fresh⟩
  have hleads : Leads navigation [] (finished navigation s ++ navigation) s.reserved s' := by
    have hsome : s.reserved.held.isSome = true := by simp [reserved, hheld]
    refine ⟨deferred_reserved hheld, hsome, fun hnone => ?_, ?_⟩
    · rw [hnone] at hsome
      cases hsome
    · rw [around_reserved hheld]
      exact (List.append_nil _).symm
  refine ⟨finished [] (steps.foldl after s'), ?_, ?_⟩
  · rw [(hleads.foldl steps).finished, List.append_assoc]
  · exact foldl_of_held ⟨.refl, .symm, .trans⟩ (fun chunk _ => respaced_emit [] chunk)
      (settled_of_deferred (s := s') rfl) rfl

/-! ## Behind a chunk -/

/-- The text that steps add to a sink, up to spacing. -/
def ahead (navigation : Text) (s : Sink) (steps : List Step) : Text :=
  if s.held.isSome then chunks steps else spliced navigation steps

theorem respaced_ahead {s : Sink} (hs : s.Settled) (navigation : Text) (steps : List Step) :
    Respaced (finished navigation (steps.foldl after s))
      (finished navigation s ++ ahead navigation s steps) := by
  unfold ahead
  split
  · rename_i hheld
    exact foldl_of_held ⟨.refl, .symm, .trans⟩ (fun chunk _ => respaced_emit navigation chunk)
      hs hheld
  · rename_i hheld
    exact respaced_foldl hs (Option.not_isSome_iff_eq_none.1 hheld) navigation steps

/-- A chunk goes behind the blank lines as it is if none are deferred or if it does not start
with a closing bracket line. -/
theorem admitted_whole {chunk : Text} {s : Sink}
    (h : s.deferred = 0 ∨ afterClosingLine? chunk = none) (navigation : Text) :
    (admitted chunk s).1 = chunk ∧ around navigation (admitted chunk s).2 = finished navigation s := by
  unfold admitted
  split
  · rename_i hdeferred
    refine ⟨rfl, ?_⟩
    rw [finished, hdeferred]
    exact (List.append_nil _).symm
  · rename_i hdeferred
    rw [h.resolve_left hdeferred]
    exact ⟨rfl, around_flushed navigation s⟩

/-- The text of a sink begins with what was passed on to it. -/
theorem around_isPrefix_finished (navigation : Text) (s : Sink) :
    around navigation s <+: finished navigation s := List.prefix_append _ _

theorem around_isPrefix_emit (navigation chunk : Text) (s : Sink) :
    around navigation s <+: around navigation (emit chunk s) := by
  have hadmitted : around navigation s <+: around navigation (admitted chunk s).2 := by
    unfold admitted
    split
    · exact List.prefix_refl _
    · split
      · rw [around_flushed]
        refine .trans ?_ (around_isPrefix_finished navigation _)
        rw [around_pass]
        exact List.prefix_append _ _
      · rw [around_flushed]
        exact around_isPrefix_finished navigation s
  rw [emit, around_pass, around_deferred]
  exact hadmitted.trans (List.prefix_append _ _)

theorem around_isPrefix_reserved (navigation : Text) (s : Sink) :
    around navigation s <+: around navigation s.reserved := by
  cases hheld : s.held with
  | some pieces => simp [reserved, hheld]
  | none =>
    rw [around_reserved hheld]
    exact (around_isPrefix_finished navigation s).trans (List.prefix_append _ _)

/-- Nothing that was passed on to a sink is taken back. -/
theorem around_isPrefix_foldl (navigation : Text) (steps : List Step) (s : Sink) :
    around navigation s <+: finished navigation (steps.foldl after s) := by
  induction steps generalizing s with
  | nil => exact around_isPrefix_finished navigation s
  | cons step steps ih =>
    cases step with
    | output chunk => exact (around_isPrefix_emit navigation chunk s).trans (ih (emit chunk s))
    | reserve => exact (around_isPrefix_reserved navigation s).trans (ih s.reserved)

/-- What later steps make stands behind the end of a line as it would stand behind any other. -/
theorem exists_behind_line {s : Sink} {navigation before : Text} {blanks : Nat}
    (h : around navigation s = before ++ newline :: List.replicate blanks newline)
    (steps : List Step) :
    ∃ behind, finished navigation (steps.foldl after s) = before ++ newline :: behind
      ∧ Respaced (newline :: behind) (newline :: ahead navigation s steps) := by
  -- The sink that has only the end of the line, and no navigation if it is past.
  let line : Text := List.replicate (blanks + 1) newline
  let navigation' : Text := if s.held.isSome then [] else navigation
  let s' : Sink := ⟨s.deferred, s.held.map fun _ => [line],
    if s.held.isSome then .fresh else ⟨[line], none⟩⟩
  have hline : around navigation' s' = line := by
    cases hheld : s.held <;> simp [around, s', navigation', hheld, Target.text, Target.fresh]
  have hahead : ahead navigation' s' steps = ahead navigation s steps := by
    cases hheld : s.held <;> simp [ahead, s', navigation', hheld]
  have hleads : Leads navigation navigation' before s s' := by
    refine ⟨rfl, Option.isSome_map.symm, fun hnone => ?_, ?_⟩
    · simp [navigation', hnone]
    · rw [h, hline]
      rfl
  have hsettled : s'.Settled := fun _ navigation => by
    have hend : line = List.replicate blanks newline ++ [newline] := List.replicate_succ'
    cases hheld : s.held with
    | some pieces =>
      exact ⟨navigation ++ List.replicate blanks newline,
        by simp [around, s', hheld, Target.text, Target.fresh, hend]⟩
    | none => exact ⟨_, by simpa [around, s', hheld, Target.text] using hend⟩
  obtain ⟨behind, hbehind⟩ := around_isPrefix_foldl navigation' steps s'
  have hrespaced := respaced_ahead hsettled navigation' steps
  rw [hline] at hbehind
  rw [← hbehind, finished, hline, hahead, List.replicate_append_replicate] at hrespaced
  refine ⟨List.replicate blanks newline ++ behind, ?_, hrespaced.trans ?_⟩
  · rw [(hleads.foldl steps).finished, ← hbehind]
    rfl
  · have hblanks : List.replicate (blanks + 1 + s.deferred) newline ≠ [] := by simp
    exact Respaced.gap (isBlank_replicate_newline _) (isBlank_replicate_newline 1) hblanks
      (List.cons_ne_nil _ _) _

/-- A block ends with the end of its line, and one blank line is deferred. -/
theorem splitBlankLines_block {front : Text} {u : CodeUnit} (hu : u.isBlank = false) :
    splitBlankLines (front ++ [u] ++ [newline, newline]) = (front ++ [u] ++ [newline], 1) := by
  have hne : (u == newline) = false := by
    rw [beq_eq_false_iff_ne]
    rintro rfl
    cases hu
  have hlast : front ++ [u] ++ [newline, newline] = front ++ [u] ++ [newline] ++ [newline] := by
    simp
  have hfeeds : ((front ++ [u] ++ [newline, newline]).reverse.takeWhile (· == newline)).length = 2 := by
    simp [hne]
  unfold splitBlankLines
  dsimp only
  rw [hfeeds, hlast, List.length_append, List.length_singleton, Nat.add_sub_cancel, List.take_left]

/-- A block that goes behind the deferred blank lines as it is, is passed on with the end of its
line. -/
theorem around_emit_block {s : Sink} {front : Text} {u : CodeUnit} (hu : u.isBlank = false)
    (h : s.deferred = 0 ∨ afterClosingLine? (front ++ [u] ++ [newline, newline]) = none)
    (navigation : Text) :
    around navigation (emit (front ++ [u] ++ [newline, newline]) s)
      = finished navigation s ++ (front ++ [u]) ++ [newline] := by
  obtain ⟨hadmitted, haround⟩ := admitted_whole h navigation
  rw [emit, hadmitted, splitBlankLines_block hu, around_pass, around_deferred, haround]
  exact (List.append_assoc ..).symm

theorem takeWhile_append_stop {p : CodeUnit → Bool} {u : CodeUnit} (hu : p u = false)
    (front rest : Text) : (front ++ u :: rest).takeWhile p = front.takeWhile p := by
  induction front with
  | nil => simp [hu]
  | cons v front ih =>
    cases hv : p v with
    | false => simp [hv]
    | true => rw [List.cons_append, List.takeWhile_cons_of_pos hv, ih, List.takeWhile_cons_of_pos hv]

/-- A closing bracket line at the front of a block is one of the text in it, unless the text is
that bracket. -/
theorem afterClosingLine?_block {front : Text} {u : CodeUnit} (hu : u.isBlank = false)
    (h : afterClosingLine? (front ++ [u]) = none) :
    front ++ [u] = [closeBracket]
      ∨ afterClosingLine? (front ++ [u] ++ [newline, newline]) = none := by
  cases front with
  | nil =>
    by_cases hclose : u = closeBracket
    · exact .inl (congrArg (fun v => [v]) hclose)
    · exact .inr (if_neg fun hfound => hclose hfound.1)
  | cons v front =>
    -- The white space behind a bracket ends before the last unit.
    have hgap : ∀ rest : Text,
        (front ++ u :: rest).takeWhile CodeUnit.isBlank = front.takeWhile CodeUnit.isBlank :=
      takeWhile_append_stop hu front
    refine .inr (if_neg fun hfound => ?_)
    have hnone : ¬ (v = closeBracket ∧ newline ∈ (front ++ [u]).takeWhile CodeUnit.isBlank) := by
      intro hclose
      have hsome : afterClosingLine? (v :: (front ++ [u])) = some _ := if_pos hclose
      rw [List.cons_append, hsome] at h
      cases h
    rw [hgap []] at hnone
    refine hnone ⟨hfound.1, ?_⟩
    have hfeed : newline ∈ (front ++ [u] ++ [newline, newline]).takeWhile CodeUnit.isBlank := hfound.2
    rwa [List.append_assoc, List.singleton_append, hgap] at hfeed

/-- A block whose text does not start with a closing bracket line, or in front of which no blank
line is deferred, stands in one piece, between what the sink had and what later steps make. -/
theorem exists_around_block {s : Sink} {front : Text} {u : CodeUnit}
    (hu : u.isBlank = false)
    (h : s.deferred = 0 ∨ afterClosingLine? (front ++ [u]) = none) (navigation : Text)
    (steps : List Step) :
    ∃ before behind,
      finished navigation (steps.foldl after (emit (front ++ [u] ++ [newline, newline]) s))
        = before ++ (front ++ [u] ++ newline :: behind)
      ∧ Respaced before (finished navigation s)
      ∧ Respaced (newline :: behind) (newline :: ahead navigation s steps) := by
  let chunk : Text := front ++ [u] ++ [newline, newline]
  have hahead : ahead navigation (emit chunk s) steps = ahead navigation s steps := by
    unfold ahead
    rw [held_emit_isSome]
  have hcases : (s.deferred = 0 ∨ afterClosingLine? chunk = none)
      ∨ s.deferred ≠ 0 ∧ front ++ [u] = [closeBracket] := by
    by_cases hdeferred : s.deferred = 0
    · exact .inl (.inl hdeferred)
    · rcases afterClosingLine?_block hu (h.resolve_left hdeferred) with hclose | hnone
      · exact .inr ⟨hdeferred, hclose⟩
      · exact .inl (.inr hnone)
  rcases hcases with hwhole | ⟨hdeferred, hclose⟩
  · have hline : around navigation (emit chunk s)
        = finished navigation s ++ (front ++ [u]) ++ newline :: List.replicate 0 newline :=
      around_emit_block hu hwhole navigation
    obtain ⟨behind, hbehind, hrespaced⟩ := exists_behind_line hline steps
    rw [hahead] at hrespaced
    exact ⟨finished navigation s, behind, by rw [hbehind, List.append_assoc], .refl _, hrespaced⟩
  · -- The bracket goes before the blank lines, which come behind it instead.
    have hadmitted : admitted chunk s = ([], (pass [closeBracket, newline] s).flushed) := by
      have hchunk : afterClosingLine? chunk = some [] := by
        rw [show chunk = [closeBracket] ++ [newline, newline] from congrArg (· ++ _) hclose]
        decide
      rw [admitted, if_neg hdeferred, hchunk]
    have hline : around navigation (emit chunk s)
        = around navigation s ++ [closeBracket] ++ newline :: List.replicate s.deferred newline := by
      have hnothing : (splitBlankLines []).1 = [] := by decide
      rw [emit, hadmitted, hnothing, around_pass, around_deferred, around_flushed, finished,
        around_pass, deferred_pass]
      simp
    obtain ⟨behind, hbehind, hrespaced⟩ := exists_behind_line hline steps
    rw [hahead] at hrespaced
    refine ⟨around navigation s, behind, ?_, ?_, hrespaced⟩
    · rw [hbehind, hclose, List.append_assoc]
    · exact (Respaced.append_blank _ (isBlank_replicate_newline _)).symm

end Sink

namespace Desk

variable (k : Desk)

theorem sink_eq (pieces : List Piece) :
    k.sink pieces = (pieces.flatMap k.steps).foldl Sink.after (.on .fresh) := rfl

/-- What the sink has behind pieces is their text, with the navigation in its place. -/
theorem respaced_sink (navigation : Text) (pieces : List Piece) :
    Respaced (Sink.finished navigation (k.sink pieces))
      (Sink.spliced navigation (pieces.flatMap k.steps)) :=
  Sink.respaced_foldl (s := .on .fresh) (Sink.settled_of_deferred rfl) rfl _ _

/-- On a page with navigation, the navigation stands in one piece behind the page header. -/
theorem exists_around_navigation (hnavigation : k.options.wantsNavigation = true) {d : Draft}
    {before after : List Piece} {title : Text} {description : Option Text}
    (hpieces : d.pieces = before ++ .header title description :: after)
    (hbefore : ∀ q ∈ before, q.isHeader = false) :
    ∃ ahead behind, k.finished d = ahead ++ (k.navigation d.sections ++ behind)
      ∧ Respaced ahead (k.text (before ++ [.header title description]))
      ∧ Respaced behind (k.text after) := by
  let written := before.flatMap k.steps ++ (k.chunks (.header title description)).map .output
  have hsteps : d.pieces.flatMap k.steps = written ++ .reserve :: after.flatMap k.steps := by
    have hheader : k.steps (.header title description)
        = (k.chunks (.header title description)).map .output ++ [.reserve] := by
      rw [steps, reservation, hnavigation]
      rfl
    rw [hpieces, List.flatMap_append, List.flatMap_cons, hheader, List.append_assoc,
      List.singleton_append, ← List.append_assoc]
  have hheld : (written.foldl Sink.after (.on .fresh)).held = none := by
    have hsink := k.held_sink (.inr hbefore)
    have hreserve : Sink.Step.reserve
        ∉ (k.chunks (.header title description)).map Sink.Step.output := by simp
    have hsame := Sink.held_foldl hreserve (k.sink before)
    rw [hsink] at hsame
    rw [List.foldl_append]
    exact Option.not_isSome_iff_eq_none.1 (by rw [← sink_eq, hsame]; exact Bool.false_ne_true)
  obtain ⟨behind, hfinished, hbehind⟩ :=
    Sink.exists_behind_reserved hheld (k.navigation d.sections) (after.flatMap k.steps)
  refine ⟨Sink.finished (k.navigation d.sections) (written.foldl Sink.after (.on .fresh)), behind,
    ?_, ?_, ?_⟩
  · rw [finished, sink_eq, hsteps, List.foldl_append]
    exact hfinished
  · have hahead := Sink.respaced_foldl (s := .on .fresh) (Sink.settled_of_deferred rfl) rfl
      (k.navigation d.sections) written
    have htext : Sink.spliced (k.navigation d.sections) written
        = k.text (before ++ [.header title description]) := by
      have houtputs := spliced_outputs (k.navigation d.sections)
        (k.chunks (.header title description)) []
      rw [List.append_nil] at houtputs
      rw [k.spliced_steps (.inr hbefore), houtputs, text_append, text_cons]
      rfl
    rw [htext] at hahead
    exact hahead
  · rw [← chunks_steps]
    exact hbehind

/-- A block of a page stands in one piece, between the text of the pieces before it and that of
the pieces behind it, unless it starts with a closing bracket line. -/
theorem exists_around_passage {d : Draft} {before after : List Piece} {front : Text}
    {u : CodeUnit} (hu : u.isBlank = false)
    (hpieces : d.pieces = before ++ .passage (front ++ [u] ++ [newline, newline]) :: after)
    (h : (k.sink before).deferred = 0 ∨ Sink.afterClosingLine? (front ++ [u]) = none) :
    ∃ ahead behind, k.finished d = ahead ++ (front ++ [u] ++ newline :: behind)
      ∧ Respaced ahead (Sink.finished (k.navigation d.sections) (k.sink before))
      ∧ Respaced (newline :: behind) (newline
          :: Sink.ahead (k.navigation d.sections) (k.sink before) (after.flatMap k.steps)) := by
  rw [finished, hpieces, sink_append]
  exact Sink.exists_around_block hu h _ _

end Desk

end PodLoom.Thread
