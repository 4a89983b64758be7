import PodLoom.Proofs.Thread.Streaming

set_option autoImplicit false

/-!
# A sink conserves text

Whatever chunks a sink is given, and wherever the place of the navigation is reserved
between them, its target ends up with these chunks and the navigation in its place, and
with nothing else (`finish_conserves`).  White space apart, this holds of all chunks.  A
chunk is moved only if it starts with a closing bracket, so without such chunks the text is
exact; and if these are all mere closing lines, only line feeds are moved.
-/

namespace PodLoom

namespace Text

open CodeUnit

/-! ## Texts with their line feeds in different places -/

/-- Two texts that differ at most in where their line feeds stand. -/
structure Relined (a b : Text) : Prop where
  others : a.filter (· != newline) = b.filter (· != newline)
  feeds : a.count newline = b.count newline

namespace Relined

variable {a b c : Text}

theorem refl (a : Text) : Relined a a := ⟨rfl, rfl⟩

theorem symm (h : Relined a b) : Relined b a := ⟨h.others.symm, h.feeds.symm⟩

theorem trans (h : Relined a b) (h' : Relined b c) : Relined a c :=
  ⟨h.others.trans h'.others, h.feeds.trans h'.feeds⟩

theorem append {a' b' : Text} (h : Relined a b) (h' : Relined a' b') :
    Relined (a ++ a') (b ++ b') := by
  refine ⟨?_, ?_⟩
  · rw [List.filter_append, List.filter_append, h.others, h'.others]
  · rw [List.count_append, List.count_append, h.feeds, h'.feeds]

/-- Line feeds may be moved over any text. -/
theorem swap (a : Text) (n : Nat) :
    Relined (a ++ List.replicate n newline) (List.replicate n newline ++ a) := by
  refine ⟨?_, ?_⟩
  · simp [List.filter_append]
  · rw [List.count_append, List.count_append, Nat.add_comm]

/-- Where line feeds stand makes no difference to anything else in a text. -/
theorem ink_eq (h : Relined a b) : a.ink = b.ink := by
  have hblank : ∀ t : Text, ink (t.filter (· != newline)) = ink t := by
    intro t
    rw [ink, ink, List.filter_filter]
    refine List.filter_congr fun u _ => ?_
    by_cases hu : u = newline
    · subst hu
      rfl
    · simp [hu]
  rw [← hblank a, h.others, hblank]

end Relined

end Text

namespace Thread.Sink

open Text CodeUnit

/-! ## Writing a chunk -/

/-- A chunk that does not start with a closing bracket is appended as it is. -/
theorem appends_of_head {chunk : Text} (h : chunk.head? ≠ some closeBracket) (navigation : Text) :
    Appends Eq navigation chunk := by
  intro s _ y
  rw [finished_emit, ← List.append_assoc]
  unfold admitted
  split
  · rename_i hd
    rw [finished, hd, List.replicate_zero, List.append_nil]
  · rw [afterClosingLine?_of_head h, around_flushed]

/-- A closing line changes places with the deferred blank lines. -/
theorem appends_closing (navigation : Text) :
    Appends Relined navigation [closeBracket, newline] := by
  intro s _ y
  rw [finished_emit, ← List.append_assoc]
  refine .append ?_ (.refl y)
  unfold admitted
  split
  · rename_i hd
    rw [finished, hd, List.replicate_zero, List.append_nil]
    exact .refl _
  · have hclosing : afterClosingLine? [closeBracket, newline] = some [] := by decide
    rw [hclosing]
    dsimp only
    rw [List.append_nil, around_flushed, finished, finished, around_pass, deferred_pass,
      List.append_assoc, List.append_assoc]
    exact .append (.refl _) (.swap _ _)

/-- A chunk that starts with a closing bracket only if it is a closing line moves line
feeds at most. -/
theorem appends_relined {chunk : Text}
    (h : chunk.head? = some closeBracket → chunk = [closeBracket, newline]) (navigation : Text) :
    Appends Relined navigation chunk := by
  by_cases hhead : chunk.head? = some closeBracket
  · rw [h hhead]
    exact appends_closing navigation
  · intro s hs y
    rw [appends_of_head hhead navigation hs y]
    exact .refl _

/-! ## A sink from its first chunk to its end -/

/-- Do steps, then finish. -/
def deliver (steps : List Step) (navigation : Text) : Attempt Sink Unit := do
  Attempt.forEach perform steps
  finish navigation

theorem streams_deliver (steps : List Step) (navigation : Text) :
    Streams (deliver steps navigation) := by
  refine .seq (.forEach fun step _ => ?_) (streams_finish navigation)
  cases step with
  | output chunk => exact streams_output chunk
  | reserve => exact streams_reserve

/-- A new target ends up with the text of the sink after the steps. -/
theorem deliver_run (steps : List Step) (navigation : Text) :
    ∃ s, deliver steps navigation (.on .fresh) = (.ok (), s)
      ∧ s.target.text = finished navigation (steps.foldl after (.on .fresh)) := by
  have hsteps := Attempt.forEach_run after Willing (fun _ step hs => perform_run hs step) steps
    (s := .on .fresh) rfl
  have hwilling : (steps.foldl after (.on .fresh)).Willing :=
    List.foldlRecOn steps _ (show (Sink.on .fresh).Willing from rfl) fun _ hs step _ =>
      (perform_run hs step).2
  obtain ⟨s, hfinish, htext⟩ := finish_run hwilling navigation
  exact ⟨s, (Attempt.bind_run_ok hsteps).trans hfinish, htext⟩

/-- A target that refuses nothing ends up with the text of the sink, behind what it had
taken before. -/
theorem exists_written (taken : List Text) (steps : List Step) (navigation : Text) :
    ∃ s, deliver steps navigation (.on ⟨taken, none⟩) = (.ok (), s)
      ∧ s.target.text
        = taken.flatten ++ finished navigation (steps.foldl after (.on .fresh)) := by
  obtain ⟨fresh, hfresh, htext⟩ := deliver_run steps navigation
  obtain ⟨r, s, pieces, hrun⟩ :=
    Target.course_willing (streams_deliver steps navigation) (.on .fresh)
  obtain ⟨rfl, rfl⟩ := Prod.mk.inj (hfresh.symm.trans (hrun []))
  refine ⟨_, hrun taken, ?_⟩
  rw [← htext]
  exact List.flatten_append

/-- A sink on a target that refuses nothing passes on what it is given: white space apart,
the chunks with the navigation at the first reservation.  If the chunks that start with a
closing bracket are mere closing lines, line feeds change places and nothing else; and
without such chunks nothing does. -/
theorem finish_conserves (taken : List Text) (steps : List Step) (navigation : Text) :
    ∃ s written, deliver steps navigation (.on ⟨taken, none⟩) = (.ok (), s)
      ∧ s.target.text = taken.flatten ++ written
      ∧ written.ink = (spliced navigation steps).ink
      ∧ ((∀ chunk, .output chunk ∈ steps → chunk.head? = some closeBracket →
          chunk = [closeBracket, newline]) → Relined written (spliced navigation steps))
      ∧ ((∀ chunk, .output chunk ∈ steps → chunk.head? ≠ some closeBracket) →
          written = spliced navigation steps) := by
  obtain ⟨s, hrun, htext⟩ := exists_written taken steps navigation
  have hsettled : (Sink.on .fresh).Settled := settled_of_deferred rfl
  refine ⟨s, _, hrun, htext, ?_, ?_, ?_⟩
  · exact (respaced_foldl hsettled rfl navigation steps).ink_eq
  · intro hclosing
    exact foldl_spliced ⟨.refl, .symm, .trans⟩
      (fun chunk hchunk => appends_relined (hclosing chunk hchunk) navigation) hsettled rfl
  · intro hclosing
    exact foldl_spliced ⟨.refl, .symm, .trans⟩
      (fun chunk hchunk => appends_of_head (hclosing chunk hchunk) navigation) hsettled rfl

/-- A closing line behind a blank line, and a reservation. -/
def closingSteps : List Step := [.output "a\n\n", .output "]\n", .reserve, .output "b\n"]

/-- Its chunks that start with a closing bracket are mere closing lines. -/
theorem finish_conserves_closing_line :
    (∀ chunk, .output chunk ∈ closingSteps → chunk.head? = some closeBracket →
        chunk = [closeBracket, newline])
      ∧ ∃ s, deliver closingSteps "n\n" (.on .fresh) = (.ok (), s)
        ∧ Relined s.target.text "a\n\n]\nn\nb\n" := by
  have hclosing : ∀ chunk, .output chunk ∈ closingSteps → chunk.head? = some closeBracket →
      chunk = [closeBracket, newline] := by
    intro chunk hchunk hhead
    have hmem : chunk = "a\n\n" ∨ chunk = "]\n" ∨ chunk = "b\n" := by
      simpa [closingSteps] using hchunk
    rcases hmem with rfl | rfl | rfl
    · exact absurd hhead (by decide)
    · rfl
    · exact absurd hhead (by decide)
  obtain ⟨s, written, hrun, htext, -, hrelined, -⟩ := finish_conserves [] closingSteps "n\n"
  obtain rfl : s.target.text = written := htext
  exact ⟨hclosing, s, hrun, hrelined hclosing⟩

end Thread.Sink

end PodLoom
