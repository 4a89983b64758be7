import PodLoom.Proofs.Thread.Draft

set_option autoImplicit false

/-!
# Invariants of drafts

Whatever event comes, it does a few things to a draft: it changes the open elements, reports a
warning, writes the page header, a heading or a block, or acts on the innermost list.  What all
of these preserve is true of every draft of a document (`Invariant.step`, `Invariant.run`).
-/

namespace PodLoom.Thread.Draft

open Text CodeUnit
open PodLoom.Pod (Element Event ListKind)

/-- A property of drafts that everything an event can do preserves. -/
structure Invariant (p : Policy) (P : Draft → Prop) : Prop where
  frames {d : Draft} : P d → ∀ frames, P { d with frames }
  inName {d : Draft} : P d → ∀ inName, P { d with inName }
  warn {d : Draft} : P d → ∀ line message, P (d.warn line message)
  header {d : Draft} : P d → ∀ title description, P (d.writeHeader title description)
  heading {d : Draft} {level : Nat} : P d → ∀ label, ¬(level = 1 ∧ p.tracks = true) →
    P (d.write [.heading level none label])
  registered {d : Draft} : P d → ∀ label text, p.tracks = true → P (d.writeSection 1 label text)
  passage {d : Draft} : P d → ∀ text, P (d.write [.passage text])
  place {d : Draft} : P d → ∀ body, P (d.place body)
  item {d : Draft} : P d → ∀ kind label, P (d.onScope (Scope.next (Writer.itemTag kind label)))
  close {d : Draft} : P d → P (d.onScope Scope.close)
  enter {d : Draft} : P d → ∀ kind, P (d.enter kind)
  exit {d : Draft} : P d → P d.exit

namespace Invariant

variable {p : Policy} {P : Draft → Prop} {d : Draft}

theorem writeHeading (hP : Invariant p P) (h : P d) (level : Nat) (content : Rendered) :
    P (d.writeHeading p level content) := by
  have hleft := hP.close (hP.inName h false)
  unfold Draft.writeHeading
  split
  · exact hP.inName h true
  · split
    · rename_i hlevel
      rw [hlevel.1]
      exact hP.registered hleft _ _ hlevel.2
    · exact hP.heading hleft _ ‹_›

theorem writeBody (hP : Invariant p P) (h : P d) (t : Text) : P (d.writeBody t) := by
  unfold Draft.writeBody
  split
  · exact h
  · exact hP.place h t

theorem writeParagraph (hP : Invariant p P) (h : P d) (content : Rendered) :
    P (d.writeParagraph content) := by
  unfold Draft.writeParagraph
  split
  · exact h
  · split
    · exact hP.header h _ _
    · exact hP.writeBody h _

theorem writeData (hP : Invariant p P) (h : P d) (content : Rendered) : P (d.writeData content) := by
  unfold Draft.writeData
  split
  · exact h
  · exact hP.passage h _

theorem append (hP : Invariant p P) (h : P d) (rendered : Rendered) : P (d.append rendered) :=
  hP.frames h _

theorem appendRendering (hP : Invariant p P) (h : P d) (line : Int) (rendering : Rendering) :
    P (d.appendRendering line rendering) := by
  unfold Draft.appendRendering
  split
  · exact hP.append (hP.warn h _ _) _
  · exact hP.append h _

theorem finishBlock (hP : Invariant p P) (h : P d) (element : Element) (content : Rendered) :
    P (d.finishBlock p element content) := by
  cases element with
  | format code line => exact hP.appendRendering h _ _
  | link kind target heading hasLabel line => exact hP.append h _
  | head level line => exact hP.writeHeading h level content
  | para line => exact hP.writeParagraph h content
  | verbatim line => exact hP.writeBody h _
  | data target line => exact hP.writeData h content
  | item kind marker line => exact hP.item h kind _
  | command name text line => exact hP.warn h _ _
  | «over» kind line => exact h

theorem finishElement (hP : Invariant p P) (h : P d) (element : Element) :
    P (d.finishElement p element) := by
  rcases finishElement_cases p element d with
    ⟨kind, line, rfl, heq | heq⟩ | heq | ⟨frame, frames, -, -, heq⟩
  · rw [heq]
    exact hP.warn h _ _
  · rw [heq]
    exact hP.exit h
  · rw [heq]
    exact h
  · rw [heq]
    exact hP.finishBlock (hP.frames h frames) element frame.content

theorem step (hP : Invariant p P) (h : P d) (e : Event) : P (d.step p e) := by
  cases e with
  | docStart info => exact h
  | docEnd errata => exact h
  | text t => exact hP.frames h _
  | start element =>
    cases element with
    | «over» kind line => exact hP.enter h kind
    | _ => exact hP.frames h _
  | finish element => exact hP.finishElement h element

theorem run (hP : Invariant p P) (h : P d) (events : List Event) : P (d.run p events) := by
  induction events generalizing d with
  | nil => exact h
  | cons e rest ih => exact ih (hP.step h e)

theorem start (hP : Invariant p P) {sections : Registry} (h : P (blank sections)) (title : Text)
    (contentless : Bool) : P (Draft.start p title contentless sections) := by
  unfold Draft.start
  split
  · exact hP.header h _ _
  · exact h

theorem exitEach (hP : Invariant p P) (h : P d) (ended : List Scope) : P (d.exitEach ended) := by
  induction ended generalizing d with
  | nil => exact h
  | cons s rest ih => exact ih (hP.exit h)

theorem complete (hP : Invariant p P) (h : P d) (contentless : Bool) :
    P (d.complete contentless) := by
  unfold Draft.complete
  split
  · exact h
  · exact hP.passage (hP.exitEach h d.scopes) _

end Invariant

end PodLoom.Thread.Draft
