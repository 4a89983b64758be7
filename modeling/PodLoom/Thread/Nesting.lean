import PodLoom.Pod.Event
import PodLoom.Thread.Sink

set_option autoImplicit false

/-!
# Nesting: lists on a sink

Every open list has a scope, which knows the macro of its next item and two facts:
an item is *pending* when it was met but its body was not, and *open* when its
bracket is written and not yet closed.  The opening of an item is written only when
its body, the next item, a heading or the end of the list comes, so an item without
a body still appears.
-/

namespace PodLoom.Thread

open Text CodeUnit
open PodLoom.Pod (ListKind)

/-- The macro of a block list. -/
def blockTag : Text := "\\block"

/-- An open list. -/
structure Scope where
  kind : ListKind
  /-- The macro that opens the next item. -/
  tag : Text
  /-- An item was met whose body was not. -/
  pending : Bool
  /-- An item's bracket is written and not closed. -/
  isOpen : Bool
  deriving DecidableEq, Repr, Inhabited

/-- The scope of a list that starts. -/
def Scope.ofKind (kind : ListKind) : Scope :=
  ⟨kind, if kind = .block then blockTag else [], false, false⟩

/-- A sink with the lists that are open on it, innermost first. -/
structure Nesting where
  scopes : List Scope
  sink : Sink
  deriving DecidableEq, Repr, Inhabited

namespace Nesting

/-- No list is open on a sink. -/
def on (sink : Sink) : Nesting := ⟨[], sink⟩

/-- Whether a list is open. -/
def inList (n : Nesting) : Bool := !n.scopes.isEmpty

/-- Act on the sink. -/
def onSink {α : Type} (m : Attempt Sink α) : Attempt Nesting α :=
  m.within Nesting.sink fun sink n => { n with sink }

/-- Write a chunk to the sink. -/
def output (chunk : Text) : Attempt Nesting Unit := onSink (Sink.output chunk)

/-- Change the innermost scope. -/
def changeScope (f : Scope → Scope) : Attempt Nesting Unit :=
  Attempt.change fun n => { n with scopes := n.scopes.modifyHead f }

/-- Close the item of a scope if it is open; the scope is the innermost one. -/
def closeOpen (scope : Scope) : Attempt Nesting Unit :=
  if scope.isOpen then do
    output [closeBracket, newline]
    changeScope fun s => { s with isOpen := false }
  else pure ()

/-- Open an item with a macro and the start of its body. -/
def openItem (tag body : Text) : Attempt Nesting Unit := do
  output (tag ++ newline :: openBracket :: body)
  changeScope fun s => { s with isOpen := true }

/-- Write a block inside the innermost list.  The first one after an item closes the
item before it and opens its own; in a block list, the first one opens the block.
Later ones continue what is open, and outside lists a block stands for itself. -/
def item (body : Text) : Attempt Nesting Unit := do
  match (← Attempt.state).scopes with
  | [] => output body
  | scope :: _ =>
      if scope.pending then do
        closeOpen scope
        openItem scope.tag body
        changeScope fun s => { s with pending := false }
      else if scope.kind = .block ∧ scope.isOpen = false then openItem blockTag body
      else output body

/-- Write the pending item of a list, without a body. -/
def openPending (scope : Scope) : Attempt Nesting Unit :=
  if scope.pending then item [] else pure ()

/-- Start a list.  A pending item of the list around it is opened first, so the new
list stands inside its brackets. -/
def enter (kind : ListKind) : Attempt Nesting Unit := do
  match (← Attempt.state).scopes with
  | scope :: _ => openPending scope
  | [] => pure ()
  Attempt.change fun n => { n with scopes := .ofKind kind :: n.scopes }

/-- Note an item of the innermost list, with the macro that will open it. -/
def startItem (tag : Text) : Attempt Nesting Unit := do
  match (← Attempt.state).scopes with
  | [] => pure ()
  | scope :: _ => do
      openPending scope
      changeScope fun s => { s with tag, pending := true }

/-- Write the pending item of the innermost list and close the open one. -/
def closeItem : Attempt Nesting Unit := do
  match (← Attempt.state).scopes with
  | [] => pure ()
  | scope :: _ => do
      openPending scope
      match (← Attempt.state).scopes with
      | [] => pure ()
      | scope :: _ => closeOpen scope

/-- End the innermost list; `false` if none is open. -/
def exit : Attempt Nesting Bool := do
  if (← Attempt.state).inList then do
    closeItem
    Attempt.change fun n => { n with scopes := n.scopes.tail }
    pure true
  else pure false

/-- End as many lists as there are scopes in a list. -/
def exitEach : List Scope → Attempt Nesting Unit
  | [] => pure ()
  | _ :: rest => do
      let _ ← exit
      exitEach rest

/-- End every open list. -/
def exitAll : Attempt Nesting Unit := do
  exitEach (← Attempt.state).scopes

end Nesting

end PodLoom.Thread
