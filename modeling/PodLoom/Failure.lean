import PodLoom.Pod.Inline

set_option autoImplicit false

/-!
# Failures, and actions that may fail

A conversion can fail for one of a few causes, each a constructor of `Failure`; the
words are in one place, `Failure.message`.

An `Attempt` is an action on a state that may fail.  What it has done before it
fails stays done: a failed action still leaves a state, and the next action starts
from it.  That is what a receiver of events needs, whose target may refuse a piece
of the output in the middle of anything.
-/

namespace PodLoom

open Text

/-- Why a conversion fails. -/
inductive Failure where
  /-- The source had errors; all that could be converted was, and `output` is it, if
  it was collected. -/
  | syntaxErrors (file : Text) (errata : List Pod.Erratum) (output : Text)
  /-- The target refused a piece of the output. -/
  | refused (reason : Text)
  /-- The output file cannot be opened. -/
  | cannotOpen (path reason : Text)
  /-- The directory for the output file cannot be made. -/
  | noDirectory (reason : Text)
  /-- The source cannot be read. -/
  | unreadable (source reason : Text)
  /-- A supplied anchor does not start with a letter. -/
  | invalidAnchor (anchor heading : Text)
  /-- An event came before a document start or after a document end. -/
  | outsideDocument
  deriving DecidableEq, Repr, Inhabited

/-- The line of an erratum in a report. -/
def Failure.erratumLine (file : Text) (e : Pod.Erratum) : Text :=
  ofString "  " ++ file ++ ofString ":" ++ ofInt e.line ++ ofString ": " ++ e.message

/-- What a failure says. -/
def Failure.message : Failure → Text
  | .syntaxErrors file errata _ =>
      file ++ ofString " had " ++ ofNat errata.length ++ ofString " POD syntax error"
        ++ (if errata.length = 1 then [] else ofString "s") ++ ofString ":\n"
        ++ join [CodeUnit.newline] (errata.map (erratumLine file))
  | .refused reason => ofString "Write to output failed: " ++ reason
  | .cannotOpen path reason =>
      ofString "Can't open " ++ path ++ ofString " for writing: " ++ reason
  | .noDirectory reason => reason
  | .unreadable source reason => ofString "Can't read " ++ source ++ ofString ": " ++ reason
  | .invalidAnchor anchor heading =>
      ofString "Invalid anchor \"" ++ anchor ++ ofString "\" for section \"" ++ heading
        ++ ofString "\": anchors must start with a letter"
  | .outsideDocument => ofString "POD event received outside of a document"

/-! ## Attempts -/

/-- An action on a state that may fail, and leaves a state either way. -/
def Attempt (σ α : Type) : Type := σ → Except Failure α × σ

namespace Attempt

variable {σ τ α β : Type}

/-- Do nothing. -/
def done (a : α) : Attempt σ α := fun s => (.ok a, s)

/-- Do one thing, then, unless it failed, another. -/
def andThen (m : Attempt σ α) (f : α → Attempt σ β) : Attempt σ β := fun s =>
  match m s with
  | (.ok a, s') => f a s'
  | (.error e, s') => (.error e, s')

instance : Monad (Attempt σ) where
  pure := done
  bind := andThen

/-- Fail, leaving the state as it is. -/
def fail (e : Failure) : Attempt σ α := fun s => (.error e, s)

/-- The state. -/
def state : Attempt σ σ := fun s => (.ok s, s)

/-- Change the state. -/
def change (f : σ → σ) : Attempt σ Unit := fun s => (.ok (), f s)

/-- Act on a part of the state. -/
def within (get : σ → τ) (set : τ → σ → σ) (m : Attempt τ α) : Attempt σ α := fun s =>
  let (r, t) := m (get s)
  (r, set t s)

/-- Do something for each item, in order. -/
def forEach (act : α → Attempt σ Unit) : List α → Attempt σ Unit
  | [] => pure ()
  | a :: rest => do
      act a
      forEach act rest

@[simp] theorem pure_run (a : α) (s : σ) : (pure a : Attempt σ α) s = (.ok a, s) := rfl

@[simp] theorem fail_run (e : Failure) (s : σ) : (fail e : Attempt σ α) s = (.error e, s) := rfl

@[simp] theorem state_run (s : σ) : (state : Attempt σ σ) s = (.ok s, s) := rfl

@[simp] theorem change_run (f : σ → σ) (s : σ) : change f s = (.ok (), f s) := rfl

theorem bind_run (m : Attempt σ α) (f : α → Attempt σ β) (s : σ) :
    (m >>= f) s = match m s with
      | (.ok a, s') => f a s'
      | (.error e, s') => (.error e, s') := rfl

theorem bind_run_ok {m : Attempt σ α} {f : α → Attempt σ β} {s s' : σ} {a : α}
    (h : m s = (.ok a, s')) : (m >>= f) s = f a s' := by rw [bind_run, h]

theorem bind_run_error {m : Attempt σ α} {f : α → Attempt σ β} {s s' : σ} {e : Failure}
    (h : m s = (.error e, s')) : (m >>= f) s = (.error e, s') := by rw [bind_run, h]

theorem map_id (m : Attempt σ α) : (id <$> m) = m := by
  funext s
  show andThen m (fun a => done a) s = m s
  unfold andThen
  rcases m s with ⟨_ | _, _⟩ <;> rfl

theorem bind_bind {γ : Type} (m : Attempt σ α) (f : α → Attempt σ β) (g : β → Attempt σ γ) :
    (m >>= f >>= g) = m >>= fun a => f a >>= g := by
  funext s
  simp only [bind_run]
  rcases m s with ⟨_ | _, _⟩ <;> rfl

instance : LawfulMonad (Attempt σ) :=
  LawfulMonad.mk' _ map_id (fun _ _ => rfl) bind_bind

end Attempt

end PodLoom
