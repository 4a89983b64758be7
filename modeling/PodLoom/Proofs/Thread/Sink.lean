import PodLoom.Proofs.Attempt
import PodLoom.Proofs.Text.Words
import PodLoom.Thread.Sink

set_option autoImplicit false

/-!
# What a sink makes of its chunks

A sink on a willing target, one that refuses nothing, never fails, and then each of
its actions is a function on sinks: `pass`, `flushed`, `emit` and `reserved`.

The text of a sink is what its target would have if the document ended here with a
given navigation (`finished`).  Writing a chunk appends it to that text, up to
spacing: only a closing bracket line is moved, and only over blank lines
(`respaced_emit`).  So a list of steps leaves the text that `spliced` describes: the
chunks one after the other, with the navigation at the first reservation.
-/

namespace PodLoom

namespace Thread.Sink

open Text CodeUnit

/-! ## Steps -/

/-- A thing that is done to a sink before it is finished. -/
inductive Step where
  | output (chunk : Text)
  | reserve
  deriving DecidableEq, Repr, Inhabited

/-- Do a step. -/
def perform : Step → Attempt Sink Unit
  | .output chunk => output chunk
  | .reserve => reserve

/-! ## Willing targets -/

/-- The target of a sink refuses nothing. -/
def Willing (s : Sink) : Prop := s.target.fault = none

/-- The sink after a piece was passed on. -/
def pass (piece : Text) (s : Sink) : Sink :=
  if piece.isEmpty then s
  else
    match s.held with
    | some pieces => { s with held := some (pieces ++ [piece]) }
    | none => { s with target := { s.target with taken := s.target.taken ++ [piece] } }

/-- The sink after its deferred blank lines were written. -/
def flushed (s : Sink) : Sink := { pass (List.replicate s.deferred newline) s with deferred := 0 }

/-- What is left of a chunk, and the sink, once the deferred blank lines are out. -/
def admitted (chunk : Text) (s : Sink) : Text × Sink :=
  if s.deferred = 0 then (chunk, s)
  else
    match afterClosingLine? chunk with
    | some rest => (rest, (pass [closeBracket, newline] s).flushed)
    | none => (chunk, s.flushed)

/-- The sink after a chunk was written. -/
def emit (chunk : Text) (s : Sink) : Sink :=
  pass (splitBlankLines (admitted chunk s).1).1
    { (admitted chunk s).2 with deferred := (splitBlankLines (admitted chunk s).1).2 }

/-- The sink after the place of the navigation was reserved. -/
def reserved (s : Sink) : Sink :=
  match s.held with
  | some _ => s
  | none => { s.flushed with held := some [] }

/-- The sink after a step. -/
def after (s : Sink) : Step → Sink
  | .output chunk => emit chunk s
  | .reserve => reserved s

theorem willing_pass {s : Sink} (h : s.Willing) (piece : Text) : (pass piece s).Willing := by
  unfold pass
  split
  · exact h
  · split
    · exact h
    · exact h

theorem willing_flushed {s : Sink} (h : s.Willing) : s.flushed.Willing :=
  willing_pass h (List.replicate s.deferred newline)

theorem willing_admitted {s : Sink} (h : s.Willing) (chunk : Text) :
    (admitted chunk s).2.Willing := by
  unfold admitted
  split
  · exact h
  · split
    · exact willing_flushed (willing_pass h _)
    · exact willing_flushed h

theorem willing_emit {s : Sink} (h : s.Willing) (chunk : Text) : (emit chunk s).Willing := by
  unfold emit
  apply willing_pass
  exact willing_admitted h chunk

theorem willing_reserved {s : Sink} (h : s.Willing) : s.reserved.Willing := by
  unfold reserved
  split
  · exact h
  · exact willing_flushed h

theorem take_run {t : Target} (h : t.fault = none) (piece : Text) :
    Target.take piece t = (.ok (), { t with taken := t.taken ++ [piece] }) := by
  unfold Target.take
  rw [Attempt.bind_run_ok (Attempt.state_run t)]
  simp [h]

theorem write_run {s : Sink} (h : s.Willing) (piece : Text) :
    write piece s = (.ok (), pass piece s) := by
  unfold write pass
  split
  · rfl
  · rw [Attempt.bind_run_ok (Attempt.state_run s)]
    split
    · rename_i pieces hheld
      simp [hheld]
    · rename_i hheld
      simp only [hheld, onTarget, Attempt.within, take_run h]

theorem flush_run {s : Sink} (h : s.Willing) : flush s = (.ok (), s.flushed) := by
  unfold flush
  rw [Attempt.bind_run_ok (Attempt.state_run s), Attempt.bind_run_ok (write_run h _)]
  rfl

theorem output_run {s : Sink} (h : s.Willing) (chunk : Text) :
    output chunk s = (.ok (), emit chunk s) := by
  have hend : ∀ (rest : Text) {s' : Sink}, s'.Willing →
      (Attempt.change (fun s : Sink => { s with deferred := (splitBlankLines rest).2 }) >>=
        fun _ => write (splitBlankLines rest).1) s'
      = (.ok (), pass (splitBlankLines rest).1
          { s' with deferred := (splitBlankLines rest).2 }) := fun rest s' hs' =>
    write_run (s := { s' with deferred := (splitBlankLines rest).2 }) hs' _
  unfold output emit admitted
  rw [Attempt.bind_run_ok (Attempt.state_run s)]
  by_cases hd : s.deferred = 0
  · simp only [hd, if_true]
    exact hend chunk h
  · simp only [hd, if_false]
    cases hc : afterClosingLine? chunk with
    | none =>
      simp only [pure_bind]
      rw [Attempt.bind_run_ok (flush_run h)]
      exact hend chunk (willing_flushed h)
    | some rest =>
      simp only [pure_bind]
      rw [Attempt.bind_run_ok (write_run h _),
        Attempt.bind_run_ok (flush_run (willing_pass h _))]
      exact hend rest (willing_flushed (willing_pass h _))

theorem reserve_run {s : Sink} (h : s.Willing) : reserve s = (.ok (), s.reserved) := by
  unfold reserve reserved
  rw [Attempt.bind_run_ok (Attempt.state_run s)]
  cases s.held with
  | some pieces => rfl
  | none =>
    show (flush >>= fun _ => _) s = _
    rw [Attempt.bind_run_ok (flush_run h)]
    rfl

theorem perform_run {s : Sink} (h : s.Willing) (step : Step) :
    perform step s = (.ok (), s.after step) ∧ (s.after step).Willing := by
  cases step with
  | output chunk => exact ⟨output_run h chunk, willing_emit h chunk⟩
  | reserve => exact ⟨reserve_run h, willing_reserved h⟩

/-! ## The text of a sink -/

/-- What was passed on to a sink, around a navigation in its place. -/
def around (navigation : Text) (s : Sink) : Text :=
  s.target.text ++ match s.held with
    | some pieces => navigation ++ pieces.flatten
    | none => []

/-- What the target of a sink has once the document ends here. -/
def finished (navigation : Text) (s : Sink) : Text :=
  around navigation s ++ List.replicate s.deferred newline

/-- Blank lines are deferred only behind the end of a line. -/
def Settled (s : Sink) : Prop :=
  s.deferred ≠ 0 → ∀ navigation, ∃ x, around navigation s = x ++ [newline]

theorem deferred_pass (piece : Text) (s : Sink) : (pass piece s).deferred = s.deferred := by
  unfold pass
  split
  · rfl
  · split
    · rfl
    · rfl

theorem around_deferred (navigation : Text) (s : Sink) (n : Nat) :
    around navigation { s with deferred := n } = around navigation s := rfl

theorem around_pass (navigation piece : Text) (s : Sink) :
    around navigation (pass piece s) = around navigation s ++ piece := by
  unfold pass
  split
  · rename_i hpiece
    rw [List.isEmpty_iff.1 hpiece, List.append_nil]
  · cases hheld : s.held with
    | some pieces => simp [around, hheld]
    | none => simp [around, hheld, Target.text]

theorem around_flushed (navigation : Text) (s : Sink) :
    around navigation s.flushed = finished navigation s :=
  around_pass navigation (List.replicate s.deferred newline) s

theorem held_pass_isSome (piece : Text) (s : Sink) :
    (pass piece s).held.isSome = s.held.isSome := by
  unfold pass
  split
  · rfl
  · split
    · rename_i hheld
      rw [hheld]
      rfl
    · rfl

theorem held_emit_isSome (chunk : Text) (s : Sink) :
    (emit chunk s).held.isSome = s.held.isSome := by
  unfold emit admitted
  rw [held_pass_isSome]
  split
  · rfl
  · split
    · exact (held_pass_isSome _ _).trans (held_pass_isSome _ s)
    · exact held_pass_isSome _ s

/-- A chunk is a body and the line feeds behind it, all but the first of which are
blank lines. -/
theorem exists_splitBlankLines (chunk : Text) :
    ∃ (body : Text) (feeds : Nat), chunk = body ++ List.replicate feeds newline
      ∧ splitBlankLines chunk
        = (body ++ List.replicate (feeds - (feeds - 1)) newline, feeds - 1) := by
  have hsplit := List.takeWhile_append_dropWhile (p := (· == newline)) (l := chunk.reverse)
  have hfeeds := Pod.eq_replicate_takeWhile newline chunk.reverse
  generalize hn : (chunk.reverse.takeWhile (· == newline)).length = n at hfeeds
  generalize hbody : (chunk.reverse.dropWhile (· == newline)).reverse = body
  have hchunk : chunk = body ++ List.replicate n newline := by
    rw [← List.reverse_inj, ← hbody, List.reverse_append, List.reverse_replicate,
      List.reverse_reverse, ← hfeeds, hsplit]
  refine ⟨body, n, hchunk, ?_⟩
  have hlen : chunk.length - (n - 1) = body.length + (n - (n - 1)) := by
    rw [hchunk]
    simp only [List.length_append, List.length_replicate]
    omega
  unfold splitBlankLines
  simp only [hn]
  rw [hlen, hchunk, List.take_length_add_append, List.take_replicate]
  congr 3
  omega

theorem splitBlankLines_eq (chunk : Text) :
    chunk = (splitBlankLines chunk).1 ++ List.replicate (splitBlankLines chunk).2 newline := by
  obtain ⟨body, n, hchunk, hsplit⟩ := exists_splitBlankLines chunk
  rw [hsplit, List.append_assoc, List.replicate_append_replicate,
    show n - (n - 1) + (n - 1) = n by omega]
  exact hchunk

theorem splitBlankLines_ends {chunk : Text} (h : (splitBlankLines chunk).2 ≠ 0) :
    ∃ x, (splitBlankLines chunk).1 = x ++ [newline] := by
  obtain ⟨body, n, -, hsplit⟩ := exists_splitBlankLines chunk
  rw [hsplit] at h ⊢
  exact ⟨body, by rw [show n - (n - 1) = 1 by simp only at h; omega]; rfl⟩

theorem settled_emit (chunk : Text) (s : Sink) : (emit chunk s).Settled := by
  intro hd navigation
  unfold emit at hd ⊢
  rw [around_pass]
  rw [deferred_pass] at hd
  obtain ⟨x, hx⟩ := splitBlankLines_ends hd
  exact ⟨_ ++ x, by rw [hx, List.append_assoc]⟩

theorem settled_of_deferred {s : Sink} (h : s.deferred = 0) : s.Settled := fun hne =>
  absurd h hne

/-- A closing bracket line is a bracket, white space with the end of the line in it, and
what follows. -/
theorem afterClosingLine?_eq {chunk rest : Text} (h : afterClosingLine? chunk = some rest) :
    ∃ gap gap' after : Text, gap.isBlank = true ∧ gap'.isBlank = true ∧ gap ≠ []
      ∧ chunk = closeBracket :: (gap ++ after) ∧ rest = gap' ++ after := by
  cases chunk with
  | nil => simp [afterClosingLine?] at h
  | cons u chunk =>
    replace h : (if u = closeBracket ∧ newline ∈ chunk.takeWhile CodeUnit.isBlank then
        some (((chunk.takeWhile CodeUnit.isBlank).reverse.takeWhile (· != newline)).reverse
          ++ chunk.dropWhile CodeUnit.isBlank)
      else none) = some rest := h
    split at h
    · rename_i hclose
      obtain ⟨rfl, hfeed⟩ := hclose
      have hblank : ∀ v ∈ chunk.takeWhile CodeUnit.isBlank, v.isBlank = true := fun v hv =>
        List.all_eq_true.1 List.all_takeWhile v hv
      refine ⟨chunk.takeWhile CodeUnit.isBlank, _, chunk.dropWhile CodeUnit.isBlank,
        List.all_takeWhile, ?_, List.ne_nil_of_mem hfeed, ?_, (Option.some.inj h).symm⟩
      · rw [Text.isBlank, List.all_reverse, List.all_eq_true]
        intro v hv
        exact hblank v (List.mem_reverse.1 ((List.takeWhile_sublist _).subset hv))
      · rw [List.takeWhile_append_dropWhile]
    · cases h

theorem isBlank_replicate_newline (n : Nat) : Text.isBlank (List.replicate n newline) = true :=
  ink_eq_nil_iff.1 (ink_replicate_newline n)

/-- Behind the end of a line, a closing bracket line may be written before or after blank
lines. -/
theorem respaced_closing {gap gap' : Text} (hgap : gap.isBlank = true)
    (hgap' : gap'.isBlank = true) (hne : gap ≠ []) (blanks : Nat) (rest : Text) :
    Respaced
      (newline :: closeBracket :: newline :: (List.replicate blanks newline ++ (gap' ++ rest)))
      (newline :: (List.replicate blanks newline ++ closeBracket :: (gap ++ rest))) := by
  have hbehind : Respaced ((newline :: (List.replicate blanks newline ++ gap')) ++ rest)
      (gap ++ rest) := by
    refine Respaced.gap ?_ hgap (by simp) hne rest
    have hblanks := isBlank_replicate_newline blanks
    simp only [Text.isBlank, List.all_cons, List.all_append, Bool.and_eq_true] at hblanks hgap' ⊢
    exact ⟨by decide, hblanks, hgap'⟩
  have hbefore : Respaced ([newline] ++ closeBracket :: (gap ++ rest))
      ((newline :: List.replicate blanks newline) ++ closeBracket :: (gap ++ rest)) := by
    refine Respaced.gap (by decide) ?_ (by simp) (by simp) _
    exact isBlank_replicate_newline (blanks + 1)
  have hclose := (hbehind.cons closeBracket).cons newline
  rw [List.cons_append, List.append_assoc] at hclose
  exact hclose.trans hbefore

theorem afterClosingLine?_of_head {chunk : Text} (h : chunk.head? ≠ some closeBracket) :
    afterClosingLine? chunk = none := by
  cases chunk with
  | nil => rfl
  | cons u rest =>
    have hu : u ≠ closeBracket := fun hu => h (congrArg some hu)
    exact if_neg fun hclose => hu hclose.1

/-- All of a chunk that does not start with a closing bracket comes behind the blank lines. -/
theorem admitted_of_head {chunk : Text} (h : chunk.head? ≠ some closeBracket) (s : Sink) :
    (admitted chunk s).1 = chunk := by
  unfold admitted
  split
  · rfl
  · rw [afterClosingLine?_of_head h]

/-- Writing a chunk appends what is left of it once the deferred blank lines are out. -/
theorem finished_emit (navigation chunk : Text) (s : Sink) :
    finished navigation (emit chunk s)
      = around navigation (admitted chunk s).2 ++ (admitted chunk s).1 := by
  rw [finished, emit, deferred_pass, around_pass, around_deferred, List.append_assoc,
    ← splitBlankLines_eq]

/-- Writing a chunk appends it to the text of a sink, as far as a relation tells texts
apart. -/
def Appends (R : Text → Text → Prop) (navigation chunk : Text) : Prop :=
  ∀ ⦃s : Sink⦄, s.Settled → ∀ y,
    R (finished navigation (emit chunk s) ++ y) (finished navigation s ++ (chunk ++ y))

/-- Up to spacing, every chunk is appended. -/
theorem respaced_emit (navigation chunk : Text) : Appends Respaced navigation chunk := by
  intro s hs y
  rw [finished_emit]
  unfold admitted
  split
  · rename_i hd
    have hnone : List.replicate s.deferred newline = [] := by rw [hd]; rfl
    rw [finished, hnone, List.append_nil, List.append_assoc]
    exact Respaced.refl _
  · rename_i hd
    split
    · rename_i rest hclose
      obtain ⟨x, hx⟩ := hs hd navigation
      obtain ⟨gap, gap', after, hgap, hgap', hne, rfl, rfl⟩ := afterClosingLine?_eq hclose
      have hmoved := respaced_closing hgap hgap' hne s.deferred (after ++ y)
      rw [around_flushed, finished, finished, around_pass, deferred_pass, hx]
      simpa using hmoved.append_left x
    · rw [around_flushed, List.append_assoc]
      exact Respaced.refl _

/-! ## The text of a list of steps -/

/-- The chunks among steps, one after the other. -/
def chunks : List Step → Text
  | [] => []
  | .output chunk :: rest => chunk ++ chunks rest
  | .reserve :: rest => chunks rest

/-- The chunks among steps, with a navigation at the first reservation. -/
def spliced (navigation : Text) : List Step → Text
  | [] => []
  | .output chunk :: rest => chunk ++ spliced navigation rest
  | .reserve :: rest => navigation ++ chunks rest

@[simp] theorem chunks_append (xs ys : List Step) : chunks (xs ++ ys) = chunks xs ++ chunks ys := by
  induction xs with
  | nil => rfl
  | cons step xs ih =>
    cases step with
    | output chunk => rw [List.cons_append, chunks, chunks, ih, List.append_assoc]
    | reserve => exact ih

/-- Nothing is held: the target has all but the deferred blank lines. -/
theorem around_of_held {s : Sink} (h : s.held = none) (navigation : Text) :
    around navigation s = s.target.text := by
  rw [around, h, List.append_nil]

theorem target_flushed {s : Sink} (h : s.held = none) (navigation : Text) :
    s.flushed.target.text = finished navigation s := by
  have hflushed : s.flushed.held = none := by
    have hsome := held_pass_isSome (List.replicate s.deferred newline) s
    rw [h] at hsome
    exact Option.not_isSome_iff_eq_none.1 (by simp [flushed, hsome])
  rw [← around_of_held hflushed navigation, around_flushed]

theorem finished_reserved {s : Sink} (h : s.held = none) (navigation : Text) :
    finished navigation s.reserved = finished navigation s ++ navigation := by
  have htext := target_flushed h navigation
  unfold reserved
  simp only [h]
  rw [← htext]
  show (_ ++ (navigation ++ [])) ++ [] = _
  rw [List.append_nil, List.append_nil]

section

variable {R : Text → Text → Prop} {navigation : Text}

/-- With the place of the navigation reserved, steps append their chunks. -/
theorem foldl_of_held (hR : Equivalence R) {steps : List Step}
    (happends : ∀ chunk, .output chunk ∈ steps → Appends R navigation chunk) {s : Sink}
    (hs : s.Settled) (hheld : s.held.isSome = true) :
    R (finished navigation (steps.foldl after s)) (finished navigation s ++ chunks steps) := by
  induction steps generalizing s with
  | nil => simpa [chunks] using hR.refl _
  | cons step steps ih =>
    have hsteps : ∀ chunk, .output chunk ∈ steps → Appends R navigation chunk :=
      fun chunk hchunk => happends chunk (List.mem_cons_of_mem step hchunk)
    cases step with
    | output chunk =>
      have hrest := ih hsteps (settled_emit chunk s) (by rw [held_emit_isSome]; exact hheld)
      exact hR.trans hrest (happends chunk List.mem_cons_self hs (chunks steps))
    | reserve =>
      obtain ⟨pieces, hpieces⟩ := Option.isSome_iff_exists.1 hheld
      have hsame : s.reserved = s := by simp [reserved, hpieces]
      show R (finished navigation (steps.foldl after s.reserved)) _
      rw [hsame]
      exact ih hsteps hs hheld

/-- The text of a sink after steps: the chunks of the steps, with the navigation in its
place, as far as each chunk is appended. -/
theorem foldl_spliced (hR : Equivalence R) {steps : List Step}
    (happends : ∀ chunk, .output chunk ∈ steps → Appends R navigation chunk) {s : Sink}
    (hs : s.Settled) (hheld : s.held = none) :
    R (finished navigation (steps.foldl after s))
      (finished navigation s ++ spliced navigation steps) := by
  induction steps generalizing s with
  | nil => simpa [spliced] using hR.refl _
  | cons step steps ih =>
    have hsteps : ∀ chunk, .output chunk ∈ steps → Appends R navigation chunk :=
      fun chunk hchunk => happends chunk (List.mem_cons_of_mem step hchunk)
    cases step with
    | output chunk =>
      have hnone : (emit chunk s).held = none := by
        rw [← Option.not_isSome_iff_eq_none, held_emit_isSome, hheld]
        simp
      exact hR.trans (ih hsteps (settled_emit chunk s) hnone)
        (happends chunk List.mem_cons_self hs (spliced navigation steps))
    | reserve =>
      have hsome : s.reserved.held.isSome = true := by simp [reserved, hheld]
      have hdeferred : s.reserved.deferred = 0 := by simp [reserved, hheld, flushed]
      have hrest := foldl_of_held hR hsteps (settled_of_deferred hdeferred) hsome
      rw [finished_reserved hheld, List.append_assoc] at hrest
      exact hrest

end

theorem respaced_foldl {s : Sink} (hs : s.Settled) (hheld : s.held = none) (navigation : Text)
    (steps : List Step) :
    Respaced (finished navigation (steps.foldl after s))
      (finished navigation s ++ spliced navigation steps) :=
  foldl_spliced ⟨.refl, .symm, .trans⟩ (fun chunk _ => respaced_emit navigation chunk) hs hheld

/-- Only a reservation makes a sink hold anything. -/
theorem held_foldl {steps : List Step} (h : Step.reserve ∉ steps) (s : Sink) :
    (steps.foldl after s).held.isSome = s.held.isSome := by
  induction steps generalizing s with
  | nil => rfl
  | cons step steps ih =>
    obtain ⟨hstep, hsteps⟩ := not_or.1 (mt List.mem_cons.2 h)
    rw [List.foldl_cons, ih hsteps]
    cases step with
    | output chunk => exact held_emit_isSome chunk s
    | reserve => exact absurd rfl hstep

/-! ## The end of a document -/

theorem around_foldl_pass (navigation : Text) (pieces : List Text) (s : Sink) :
    around navigation (pieces.foldl (fun s piece => pass piece s) s)
      = around navigation s ++ pieces.flatten := by
  induction pieces generalizing s with
  | nil => simp
  | cons piece pieces ih => rw [List.foldl_cons, ih, around_pass, List.flatten_cons, List.append_assoc]

theorem held_foldl_pass_isSome (pieces : List Text) (s : Sink) :
    (pieces.foldl (fun s piece => pass piece s) s).held.isSome = s.held.isSome := by
  induction pieces generalizing s with
  | nil => rfl
  | cons piece pieces ih => rw [List.foldl_cons, ih, held_pass_isSome]

theorem deferred_foldl_pass (pieces : List Text) (s : Sink) :
    (pieces.foldl (fun s piece => pass piece s) s).deferred = s.deferred := by
  induction pieces generalizing s with
  | nil => rfl
  | cons piece pieces ih => rw [List.foldl_cons, ih, deferred_pass]

/-- The target of a finished sink has the text of the sink. -/
theorem finish_run {s : Sink} (h : s.Willing) (navigation : Text) :
    ∃ s', finish navigation s = (.ok (), s') ∧ s'.target.text = finished navigation s := by
  have hflush : ∀ {s' : Sink}, s'.held = none → s'.deferred = s.deferred →
      around navigation s' = around navigation s →
      s'.flushed.target.text = finished navigation s := by
    intro s' hheld hdeferred haround
    rw [target_flushed hheld navigation, finished, finished, hdeferred, haround]
  unfold finish
  rw [Attempt.bind_run_ok (Attempt.state_run s), Attempt.bind_run_ok (Attempt.change_run _ s)]
  cases hheld : s.held with
  | none =>
    refine ⟨_, flush_run (s := { s with held := none }) h, hflush rfl rfl ?_⟩
    rw [around_of_held rfl, around_of_held hheld]
  | some pieces =>
    let start : Sink := pass navigation { s with held := none }
    have hstart : start.Willing := willing_pass (s := { s with held := none }) h navigation
    have hpieces := Attempt.forEach_run (fun s piece => pass piece s) Willing
      (fun _ piece hs => ⟨write_run hs piece, willing_pass hs piece⟩) pieces
      hstart
    have hwilling : (pieces.foldl (fun s piece => pass piece s) start).Willing := by
      refine List.foldlRecOn pieces _ hstart ?_
      intro s' hs' piece _
      exact willing_pass hs' piece
    refine ⟨(pieces.foldl (fun s piece => pass piece s) start).flushed, ?_, hflush ?_ ?_ ?_⟩
    · show (write navigation >>= fun _ => Attempt.forEach write pieces >>= fun _ => flush) _ = _
      rw [Attempt.bind_run_ok (write_run (s := { s with held := none }) h navigation),
        Attempt.bind_run_ok hpieces, flush_run hwilling]
    · rw [← Option.not_isSome_iff_eq_none, held_foldl_pass_isSome, held_pass_isSome]
      simp
    · rw [deferred_foldl_pass, deferred_pass]
    · rw [around_foldl_pass, around_pass, around_of_held rfl, around, hheld, List.append_assoc]

end Thread.Sink

end PodLoom
