import PodLoom.Failure

set_option autoImplicit false

/-!
# Actions one after another

Something may be done for the items of a list in parts (`forEach_append`), and what each action
keeps is kept by all of them (`Keeps`), also by those that fail.
-/

namespace PodLoom

namespace Attempt

variable {σ α : Type}

theorem forEach_append (act : α → Attempt σ Unit) (xs ys : List α) :
    forEach act (xs ++ ys) = forEach act xs >>= fun _ => forEach act ys := by
  induction xs with
  | nil => rfl
  | cons x xs ih =>
    show (act x >>= fun _ => forEach act (xs ++ ys)) = _
    rw [ih, ← bind_bind]
    rfl

/-- Actions that never fail, one after the other. -/
theorem forEach_run {act : α → Attempt σ Unit} (next : σ → α → σ) (keeps : σ → Prop)
    (hact : ∀ s a, keeps s → act a s = (.ok (), next s a) ∧ keeps (next s a)) (xs : List α)
    {s : σ} (hs : keeps s) : forEach act xs s = (.ok (), xs.foldl next s) := by
  induction xs generalizing s with
  | nil => rfl
  | cons x xs ih =>
    obtain ⟨hrun, hkeeps⟩ := hact s x hs
    rw [forEach, bind_run_ok hrun]
    exact ih hkeeps

end Attempt

/-- An action keeps a property of the state, also when it fails. -/
def Keeps {σ α : Type} (P : σ → Prop) (m : Attempt σ α) : Prop := ∀ s, P s → P (m s).2

namespace Keeps

variable {σ α β : Type} {P : σ → Prop}

theorem pure (a : α) : Keeps P (pure a : Attempt σ α) := fun _ h => h

theorem fail (e : Failure) : Keeps P (Attempt.fail e : Attempt σ α) := fun _ h => h

theorem bind {m : Attempt σ α} {f : α → Attempt σ β} (hm : Keeps P m)
    (hf : ∀ a, Keeps P (f a)) : Keeps P (m >>= f) := by
  intro s h
  have hfirst := hm s h
  rcases hrun : m s with ⟨_ | a, s'⟩
  · rw [hrun] at hfirst
    rwa [Attempt.bind_run_error hrun]
  · rw [hrun] at hfirst
    rw [Attempt.bind_run_ok hrun]
    exact hf a s' hfirst

/-- One action after another. -/
theorem seq {m : Attempt σ Unit} {m' : Attempt σ α} (hm : Keeps P m) (hm' : Keeps P m') :
    Keeps P (m >>= fun _ => m') := hm.bind fun _ => hm'

/-- An action that is done or not before another. -/
theorem optional {p : Prop} [Decidable p] {m : Attempt σ Unit} {m' : Attempt σ α}
    (hm : Keeps P m) (hm' : Keeps P m') : Keeps P (if p then m >>= fun _ => m' else m') := by
  split
  · exact hm.seq hm'
  · exact hm'

/-- What is done next may depend on a state that has the property. -/
theorem inspect {f : σ → Attempt σ α} (hf : ∀ s, P s → Keeps P (f s)) :
    Keeps P (Attempt.state >>= f) := fun s h => hf s h s h

/-- An action on a part of the state. -/
theorem within {τ : Type} {Q : τ → Prop} {get : σ → τ} {put : τ → σ → σ} {m : Attempt τ α}
    (hm : Keeps Q m) (hget : ∀ s, P s → Q (get s)) (hput : ∀ x s, Q x → P s → P (put x s)) :
    Keeps P (m.within get put) := fun s h => hput _ s (hm _ (hget s h)) h

theorem forEach {act : β → Attempt σ Unit} {items : List β}
    (hact : ∀ item ∈ items, Keeps P (act item)) : Keeps P (Attempt.forEach act items) := by
  induction items with
  | nil => exact pure ()
  | cons item rest ih =>
    exact (hact item List.mem_cons_self).seq
      (ih fun other hother => hact other (List.mem_cons_of_mem item hother))

end Keeps

end PodLoom
