import Mathlib.Data.List.Forall2
import PodLoom.Proofs.Thread.Growth
import PodLoom.Proofs.Thread.Invariant
import PodLoom.Proofs.Thread.Placement

set_option autoImplicit false

/-!
# Blocks in their order

A sink defers blank lines and holds back what comes behind the navigation, but it does neither
inside a chunk.  So a block that is the end of a chunk stands in one piece in the text of the
sink, and the blocks of later chunks stand behind it (`Sink.holdsInOrder_foldl`).

A list writes a block as the end of a chunk too: it may open an item in front of the block, and
the macro of an item never starts with a closing bracket (`Draft.Tagged.invariant`).
-/

namespace PodLoom

open Text CodeUnit

/-- Texts stand in a text one behind the other, each in one piece. -/
def Text.HoldsInOrder : List Text → Text → Prop
  | [], _ => True
  | block :: blocks, t =>
      ∃ ahead behind, t = ahead ++ (block ++ behind) ∧ HoldsInOrder blocks behind

theorem Text.HoldsInOrder.append_left {blocks : List Text} {t : Text} (h : HoldsInOrder blocks t)
    (x : Text) : HoldsInOrder blocks (x ++ t) := by
  cases blocks with
  | nil => trivial
  | cons block blocks =>
    obtain ⟨ahead, behind, rfl, hbehind⟩ := h
    exact ⟨x ++ ahead, behind, (List.append_assoc ..).symm, hbehind⟩

namespace Thread

open PodLoom.Pod (ListKind)

/-! ## Blocks in a sink -/

namespace Sink

/-- A step that writes a block: its chunk ends with the block and a blank line, and does not
start with a closing bracket. -/
def Step.Writes (block : Text) : Step → Prop
  | .output chunk => chunk.head? ≠ some closeBracket
      ∧ ∃ (front : Text) (u : CodeUnit), u.isBlank = false ∧ block <:+ front ++ [u]
        ∧ chunk = front ++ [u] ++ [newline, newline]
  | .reserve => False

theorem around_isPrefix_after (navigation : Text) (s : Sink) (step : Step) :
    around navigation s <+: around navigation (s.after step) := by
  cases step with
  | output chunk => exact around_isPrefix_emit navigation chunk s
  | reserve => exact around_isPrefix_reserved navigation s

/-- A block is passed on in one piece. -/
theorem exists_around_writes {block : Text} {step : Step} (h : step.Writes block)
    (navigation : Text) (s : Sink) :
    ∃ ahead, around navigation (s.after step)
      = around navigation s ++ (ahead ++ (block ++ [newline])) := by
  cases step with
  | reserve => exact h.elim
  | output chunk =>
    obtain ⟨hhead, front, u, hu, ⟨opening, hblock⟩, rfl⟩ := h
    have haround := around_emit_block (s := s) hu (.inr (afterClosingLine?_of_head hhead))
      navigation
    refine ⟨List.replicate s.deferred newline ++ opening, haround.trans ?_⟩
    rw [← hblock, finished]
    simp only [List.append_assoc]

/-- Blocks that steps write stand in the text of the sink behind what it has, in their order and
each in one piece. -/
theorem holdsInOrder_foldl {blocks : List Text} {steps : List Step}
    (h : List.SublistForall₂ Step.Writes blocks steps)
    (navigation : Text) (s : Sink) :
    ∃ behind, finished navigation (steps.foldl after s) = around navigation s ++ behind
      ∧ HoldsInOrder blocks behind := by
  induction h generalizing s with
  | @nil steps =>
    obtain ⟨behind, hbehind⟩ := around_isPrefix_foldl navigation steps s
    exact ⟨behind, hbehind.symm, trivial⟩
  | @cons block step blocks steps hstep _ ih =>
    obtain ⟨ahead, haround⟩ := exists_around_writes hstep navigation s
    obtain ⟨behind, hfinished, hbehind⟩ := ih (s.after step)
    refine ⟨ahead ++ (block ++ ([newline] ++ behind)), ?_,
      ahead, _, rfl, hbehind.append_left [newline]⟩
    rw [List.foldl_cons, hfinished, haround]
    simp only [List.append_assoc]
  | @cons_right step blocks steps _ ih =>
    obtain ⟨passed, haround⟩ := around_isPrefix_after navigation s step
    obtain ⟨behind, hfinished, hbehind⟩ := ih (s.after step)
    refine ⟨passed ++ behind, ?_, hbehind.append_left passed⟩
    rw [List.foldl_cons, hfinished, ← haround, List.append_assoc]

theorem writes_append {blocks blocks' : List Text} {steps steps' : List Step}
    (h : List.SublistForall₂ Step.Writes blocks steps)
    (h' : List.SublistForall₂ Step.Writes blocks' steps') :
    List.SublistForall₂ Step.Writes (blocks ++ blocks') (steps ++ steps') := by
  induction h with
  | @nil steps =>
    induction steps with
    | nil => exact h'
    | cons step steps ih => exact .cons_right ih
  | cons hstep _ ih => exact .cons hstep ih
  | cons_right _ ih => exact .cons_right ih

end Sink

/-! ## Blocks in lists -/

theorem head?_itemTag (kind : ListKind) (label : Text) :
    (Writer.itemTag kind label).head? = some backslash := by
  cases kind <;> rfl

namespace Draft

variable {p : Policy} {d d' d'' : Draft}

/-- The macro that opens the next item of a list does not start with a closing bracket. -/
def Tagged (d : Draft) : Prop := ∀ s ∈ d.scopes, s.tag.head? ≠ some closeBracket

namespace Tagged

theorem onScope (h : d.Tagged) {f : Scope → Scope × List Piece}
    (hf : ∀ s, s.tag.head? ≠ some closeBracket → (f s).1.tag.head? ≠ some closeBracket) :
    (d.onScope f).Tagged := by
  rcases d with ⟨frames, _ | ⟨s, outer⟩, inName, headerDone, sections, warnings, pieces⟩
  · exact h
  · obtain ⟨hs, houter⟩ := List.forall_mem_cons.1 h
    exact List.forall_mem_cons.2 ⟨hf s hs, houter⟩

theorem settle (h : d.Tagged) : (d.onScope Scope.settle).Tagged :=
  h.onScope fun s hs => by rwa [Scope.tag_settle]

theorem close (h : d.Tagged) : (d.onScope Scope.close).Tagged :=
  h.onScope fun s hs => by rwa [show s.close.1.tag = s.tag from s.tag_settle]

theorem place (h : d.Tagged) (body : Text) : (d.place body).Tagged := by
  unfold Draft.place
  split
  · exact h
  · exact h.onScope fun s hs => by rwa [Scope.tag_place]

theorem enter (h : d.Tagged) (kind : ListKind) : (d.enter kind).Tagged := by
  refine List.forall_mem_cons.2 ⟨?_, h.settle⟩
  cases kind <;> decide

theorem exit (h : d.Tagged) : d.exit.Tagged := fun s hs =>
  h.close s (List.mem_of_mem_tail hs)

theorem item (h : d.Tagged) (kind : ListKind) (label : Text) :
    (d.onScope (Scope.next (Writer.itemTag kind label))).Tagged := by
  refine h.onScope fun s _ => ?_
  show (Writer.itemTag kind label).head? ≠ some closeBracket
  rw [head?_itemTag]
  decide

theorem invariant (p : Policy) : Invariant p Tagged where
  frames h _ := h
  inName h _ := h
  warn h _ _ := h
  header h _ _ := h
  heading h _ _ := h
  registered h _ _ _ := h
  passage h _ := h
  place h body := h.place body
  item h kind label := h.item kind label
  close h := h.close
  enter h kind := h.enter kind
  exit h := h.exit

end Tagged

/-- A draft continues another one with pieces that write blocks in their order, and maybe with
others. -/
def Brings (k : Desk) (blocks : List Text) (d d' : Draft) : Prop :=
  ∃ more, d'.pieces = d.pieces ++ more
    ∧ List.SublistForall₂ Sink.Step.Writes blocks (more.flatMap k.steps)

namespace Brings

variable {k : Desk} {blocks blocks' : List Text}

/-- What writes no block may write anything. -/
theorem of_pieces (h : ∃ more, d'.pieces = d.pieces ++ more) : Brings k [] d d' := by
  obtain ⟨more, hpieces⟩ := h
  exact ⟨more, hpieces, .nil⟩

theorem trans (h : Brings k blocks d d') (h' : Brings k blocks' d' d'') :
    Brings k (blocks ++ blocks') d d'' := by
  obtain ⟨more, hpieces, hwrites⟩ := h
  obtain ⟨more', hpieces', hwrites'⟩ := h'
  refine ⟨more ++ more', by rw [hpieces', hpieces, List.append_assoc], ?_⟩
  rw [List.flatMap_append]
  exact Sink.writes_append hwrites hwrites'

/-- Other pieces may come before the one that writes a block. -/
theorem of_last (more : List Piece) {q : Piece} {block : Text}
    (hpieces : d'.pieces = d.pieces ++ (more ++ [q]))
    (hwrites : List.SublistForall₂ Sink.Step.Writes [block] (k.steps q)) :
    Brings k [block] d d' := by
  refine ⟨more ++ [q], hpieces, ?_⟩
  rw [List.flatMap_append, List.flatMap_singleton]
  exact Sink.writes_append (.nil (l := more.flatMap k.steps)) hwrites

section

variable {front : Text} {u : CodeUnit}

/-- A block that stands for itself. -/
theorem writes_passage (k : Desk) (hu : u.isBlank = false)
    (hhead : (front ++ [u]).head? ≠ some closeBracket) :
    List.SublistForall₂ Sink.Step.Writes [front ++ [u]]
      (k.steps (.passage (Writer.block (front ++ [u])))) := by
  refine .cons ⟨?_, front, u, hu, List.suffix_refl _, rfl⟩ .nil
  rwa [Writer.block, List.head?_append_of_ne_nil]
  simp

/-- A block in the bracket that opens an item. -/
theorem writes_opening (k : Desk) (hu : u.isBlank = false) {tag : Text}
    (htag : tag.head? ≠ some closeBracket) :
    List.SublistForall₂ Sink.Step.Writes [front ++ [u]]
      (k.steps (.opening tag (Writer.block (front ++ [u])))) := by
  refine .cons ⟨?_, tag ++ newline :: openBracket :: front, u, hu, ?_, ?_⟩ .nil
  · cases tag with
    | nil => exact fun h => absurd (Option.some.inj h) (by decide)
    | cons v tag => exact htag
  · exact ⟨tag ++ [newline, openBracket], by simp⟩
  · simp [Writer.block, show ofString "\n\n" = [newline, newline] from rfl]

/-- A block is written in a list or on the page. -/
theorem place (k : Desk) (hd : d.Tagged) (hu : u.isBlank = false)
    (hhead : (front ++ [u]).head? ≠ some closeBracket) :
    Brings k [front ++ [u]] d (d.place (Writer.block (front ++ [u]))) := by
  rcases d with ⟨frames, _ | ⟨s, outer⟩, inName, headerDone, sections, warnings, pieces⟩
  · exact of_last [] rfl (writes_passage k hu hhead)
  · have htag : s.tag.head? ≠ some closeBracket := hd s List.mem_cons_self
    obtain ⟨more, q, hplace, hwrites⟩ : ∃ more q,
        (s.place (Writer.block (front ++ [u]))).2 = more ++ [q]
          ∧ List.SublistForall₂ Sink.Step.Writes [front ++ [u]] (k.steps q) := by
      unfold Scope.place
      split
      · exact ⟨s.closers, _, rfl, writes_opening k hu htag⟩
      · split
        · exact ⟨[], _, rfl, writes_opening k hu (by decide)⟩
        · exact ⟨[], _, rfl, writes_passage k hu hhead⟩
    exact of_last more (congrArg (pieces ++ ·) hplace) hwrites

end

end Brings

end Draft

end Thread

end PodLoom
