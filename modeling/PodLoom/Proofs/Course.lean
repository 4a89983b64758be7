import PodLoom.Proofs.Thread.Sink

set_option autoImplicit false

/-!
# Courses: actions that pass things on

A writer gives its target pieces of text, and a reader sends a writer events.  Whoever
receives such items may fail at one of them, and then the action that passes it on ends
there; apart from that the action never looks at the receiver.

So an action has a course that no receiver changes (`Course`): it passes some items on, in
order, and comes to a result and a state, unless the receiver fails at one of the items.
This is kept by whatever builds one action from others.  An action that has a course
wherever it starts is said to stream (`Streams`).
-/

namespace PodLoom

/-- A state that receives items, and may fail at one. -/
class Intake (τ : Type) (ι : outParam Type) where
  take : ι → Attempt τ Unit

/-- Receive items in order, up to the first that fails. -/
def Intake.takeAll {τ ι : Type} [Intake τ ι] (items : List ι) : Attempt τ Unit :=
  Attempt.forEach Intake.take items

/-- A state with a receiver in it, and the order in which such states may follow one another
while things are passed on. -/
class Outlet (σ : Type) (τ : outParam Type) where
  /-- The state with another receiver. -/
  onto : σ → τ → σ
  Leads : σ → σ → Prop
  refl (s : σ) : Leads s s
  trans {s s' s'' : σ} : Leads s s' → Leads s' s'' → Leads s s''

export Outlet (onto Leads)

section

variable {ρ σ τ ι α β : Type} [Intake τ ι] [Outlet ρ τ] [Outlet σ τ]

theorem Intake.takeAll_append (items more : List ι) :
    (takeAll (items ++ more) : Attempt τ Unit) = takeAll items >>= fun _ => takeAll more :=
  Attempt.forEach_append take items more

theorem Intake.takeAll_singleton (item : ι) (t : τ) : takeAll [item] t = take item t := by
  show (take item >>= fun _ => pure ()) t = take item t
  rw [bind_pure_unit]

/-- The course of an action on a state, whatever the receiver: it passes items on and comes
to a result and a state, unless the receiver fails at one of the items. -/
structure Course (m : Attempt σ α) (s : σ) (r : Except Failure α) (s' : σ)
    (items : List ι) : Prop where
  leads : Leads s s'
  taken : ∀ {t t' : τ}, Intake.takeAll items t = (.ok (), t') →
    m (onto s t) = (r, onto s' t')
  refused : ∀ {t t' : τ} {e : Failure}, Intake.takeAll items t = (.error e, t') →
    ∃ s'', Leads s'' s' ∧ m (onto s t) = (.error e, onto s'' t')

namespace Course

/-- An action that passes nothing on. -/
theorem silent {m : Attempt σ α} {s s' : σ} {r : Except Failure α} (hleads : Leads s s')
    (hrun : ∀ t : τ, m (onto s t) = (r, onto s' t)) : Course m s r s' [] := by
  refine ⟨hleads, ?_, ?_⟩
  · intro t t' htake
    obtain ⟨-, rfl⟩ := Prod.mk.inj htake
    exact hrun t
  · intro t t' e htake
    exact nomatch (Prod.mk.inj htake).1

/-- A change that has nothing to do with the receiver. -/
theorem change {f : σ → σ} {s : σ} (hf : ∀ t : τ, f (onto s t) = onto (f s) t)
    (hleads : Leads s (f s)) : Course (Attempt.change f) s (.ok ()) (f s) [] :=
  silent hleads fun t => congrArg (Prod.mk _) (hf t)

theorem bind {m : Attempt σ α} {f : α → Attempt σ β} {s s' s'' : σ} {a : α}
    {r : Except Failure β} {items more : List ι} (hm : Course m s (.ok a) s' items)
    (hf : Course (f a) s' r s'' more) : Course (m >>= f) s r s'' (items ++ more) := by
  refine ⟨Outlet.trans hm.leads hf.leads, ?_, ?_⟩
  · intro t t' htake
    rw [Intake.takeAll_append] at htake
    rcases hfirst : Intake.takeAll items t with ⟨_ | _, u⟩
    · rw [Attempt.bind_run_error hfirst] at htake
      exact nomatch (Prod.mk.inj htake).1
    · rw [Attempt.bind_run_ok hfirst] at htake
      rw [Attempt.bind_run_ok (hm.taken hfirst)]
      exact hf.taken htake
  · intro t t' e htake
    rw [Intake.takeAll_append] at htake
    rcases hfirst : Intake.takeAll items t with ⟨e' | _, u⟩
    · rw [Attempt.bind_run_error hfirst] at htake
      obtain ⟨rfl, rfl⟩ : e' = e ∧ u = t' := by simpa using htake
      obtain ⟨left, hleads, hrun⟩ := hm.refused hfirst
      exact ⟨left, Outlet.trans hleads hf.leads, Attempt.bind_run_error hrun⟩
    · rw [Attempt.bind_run_ok hfirst] at htake
      rw [Attempt.bind_run_ok (hm.taken hfirst)]
      exact hf.refused htake

theorem bind_error {m : Attempt σ α} {f : α → Attempt σ β} {s s' : σ} {e : Failure}
    {items : List ι} (hm : Course m s (.error e) s' items) :
    Course (m >>= f) s (.error e) s' items := by
  refine ⟨hm.leads, ?_, ?_⟩
  · intro t t' htake
    exact Attempt.bind_run_error (hm.taken htake)
  · intro t t' e htake
    obtain ⟨left, hleads, hrun⟩ := hm.refused htake
    exact ⟨left, hleads, Attempt.bind_run_error hrun⟩

/-- The state may be looked at, except for the receiver. -/
theorem inspect {f : σ → Attempt σ α} {s s' : σ} {r : Except Failure α} {items : List ι}
    (hblind : ∀ t : τ, f (onto s t) = f s) (hf : Course (f s) s r s' items) :
    Course (Attempt.state >>= f) s r s' items := by
  have hrun : ∀ t : τ, (Attempt.state >>= f) (onto s t) = f s (onto s t) := by
    intro t
    rw [Attempt.bind_run_ok (Attempt.state_run _), hblind]
  refine ⟨hf.leads, ?_, ?_⟩
  · intro t t' htake
    rw [hrun]
    exact hf.taken htake
  · intro t t' e htake
    rw [hrun]
    exact hf.refused htake

end Course

/-- An action has a course wherever it starts. -/
def Streams (m : Attempt σ α) : Prop := ∀ s, ∃ r s' items, Course m s r s' items

namespace Streams

theorem pure (a : α) : Streams (pure a : Attempt σ α) := fun s =>
  ⟨_, s, [], .silent (Outlet.refl s) fun _ => rfl⟩

theorem fail (e : Failure) : Streams (Attempt.fail e : Attempt σ α) := fun s =>
  ⟨_, s, [], .silent (Outlet.refl s) fun _ => rfl⟩

theorem change {f : σ → σ} (hf : ∀ s (t : τ), f (onto s t) = onto (f s) t)
    (hleads : ∀ s, Leads s (f s)) : Streams (Attempt.change f) := fun s =>
  ⟨_, f s, [], .change (hf s) (hleads s)⟩

theorem bind {m : Attempt σ α} {f : α → Attempt σ β} (hm : Streams m)
    (hf : ∀ a, Streams (f a)) : Streams (m >>= f) := by
  intro s
  obtain ⟨r, s', items, hfirst⟩ := hm s
  cases r with
  | error e => exact ⟨_, s', items, hfirst.bind_error⟩
  | ok a =>
    obtain ⟨r, s'', more, hrest⟩ := hf a s'
    exact ⟨r, s'', items ++ more, hfirst.bind hrest⟩

/-- One action after another. -/
theorem seq {m : Attempt σ Unit} {m' : Attempt σ α} (hm : Streams m) (hm' : Streams m') :
    Streams (m >>= fun _ => m') := hm.bind fun _ => hm'

/-- An action that is done or not before another. -/
theorem optional {p : Prop} [Decidable p] {m : Attempt σ Unit} {m' : Attempt σ α}
    (hm : Streams m) (hm' : Streams m') :
    Streams (if p then m >>= fun _ => m' else m') := by
  split
  · exact hm.seq hm'
  · exact hm'

theorem inspect {f : σ → Attempt σ α} (hblind : ∀ s (t : τ), f (onto s t) = f s)
    (hf : ∀ s, Streams (f s)) : Streams (Attempt.state >>= f) := by
  intro s
  obtain ⟨r, s', items, hcourse⟩ := hf s s
  exact ⟨r, s', items, hcourse.inspect (hblind s)⟩

/-- An action on a part of the state that holds the receiver. -/
theorem within {get : σ → ρ} {put : ρ → σ → σ} {m : Attempt ρ α} (hm : Streams m)
    (hget : ∀ s (t : τ), get (onto s t) = onto (get s) t)
    (hput : ∀ x s (t t' : τ), put (onto x t') (onto s t) = onto (put x s) t')
    (hleads : ∀ x s, Leads s (put x s)) (hleads' : ∀ x y s, Leads (put x s) (put y s)) :
    Streams (m.within get put) := by
  intro s
  obtain ⟨r, x, items, hcourse⟩ := hm (get s)
  have hwithin : ∀ {t t' : τ} {q : Except Failure α} {y : ρ},
      m (onto (get s) t) = (q, onto y t') →
      m.within get put (onto s t) = (q, onto (put y s) t') := by
    intro t t' q y hrun
    simp only [Attempt.within, hget, hrun, hput]
  refine ⟨r, put x s, items, hleads x s, ?_, ?_⟩
  · intro t t' htake
    exact hwithin (hcourse.taken htake)
  · intro t t' e htake
    obtain ⟨y, -, hrun⟩ := hcourse.refused htake
    exact ⟨put y s, hleads' y x s, hwithin hrun⟩

theorem forEach {act : β → Attempt σ Unit} {items : List β}
    (hact : ∀ item ∈ items, Streams (act item)) : Streams (Attempt.forEach act items) := by
  induction items with
  | nil => exact pure ()
  | cons item rest ih =>
    exact (hact item List.mem_cons_self).seq
      (ih fun other hother => hact other (List.mem_cons_of_mem _ hother))

end Streams

end

end PodLoom
