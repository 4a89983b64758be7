import Mathlib.Data.List.Perm.Subperm
import PodLoom.Text.Keyed

set_option autoImplicit false

/-!
# Mappings whose keys are distinct

A mapping that holds each key once is left as it is when it is put in key order, up to
the order of its pairs, and says the same of every key.
-/

namespace PodLoom.Keyed

variable {α : Type}

/-- The keys of a mapping. -/
def keys (pairs : List (Text × α)) : List Text := pairs.map (·.1)

/-! ## Looking up -/

theorem find?_nil (key : Text) : find? key ([] : List (Text × α)) = none := rfl

theorem find?_cons (key : Text) (pair : Text × α) (rest : List (Text × α)) :
    find? key (pair :: rest) = if pair.1 = key then some pair.2 else find? key rest := by
  unfold find?
  by_cases h : pair.1 = key
  · simp [h]
  · simp [h]

theorem find?_eq_none_iff {key : Text} {pairs : List (Text × α)} :
    find? key pairs = none ↔ key ∉ keys pairs := by
  induction pairs with
  | nil => simp [find?_nil, keys]
  | cons pair rest ih =>
    rw [find?_cons]
    by_cases h : pair.1 = key
    · simp [h, keys]
    · rw [if_neg h, ih]
      simp [keys, Ne.symm h]

theorem mem_of_find? {key : Text} {value : α} {pairs : List (Text × α)}
    (h : find? key pairs = some value) : (key, value) ∈ pairs := by
  induction pairs with
  | nil => cases h
  | cons pair rest ih =>
    rw [find?_cons] at h
    split at h
    · rename_i hkey
      cases h
      rw [← hkey]
      exact List.mem_cons_self
    · exact List.mem_cons_of_mem pair (ih h)

/-- In a mapping that holds each key once, a key has the value it stands with. -/
theorem find?_of_mem {key : Text} {value : α} {pairs : List (Text × α)}
    (hnodup : (keys pairs).Nodup) (h : (key, value) ∈ pairs) : find? key pairs = some value := by
  induction pairs with
  | nil => cases h
  | cons pair rest ih =>
    obtain ⟨hfirst, hrest⟩ := List.nodup_cons.1 hnodup
    rw [find?_cons]
    rcases List.mem_cons.1 h with rfl | h
    · rw [if_pos rfl]
    · have hne : pair.1 ≠ key := by
        rintro rfl
        exact hfirst (List.mem_map_of_mem (f := (·.1)) h)
      rw [if_neg hne]
      exact ih hrest h

theorem find?_perm {key : Text} {pairs more : List (Text × α)} (hnodup : (keys pairs).Nodup)
    (h : pairs.Perm more) : find? key more = find? key pairs := by
  have hmore : (keys more).Nodup := (h.map Prod.fst).nodup_iff.1 hnodup
  cases hfound : find? key pairs with
  | none =>
    rw [find?_eq_none_iff] at hfound ⊢
    exact fun hmem => hfound ((h.map (·.1)).mem_iff.2 hmem)
  | some value => exact find?_of_mem hmore (h.mem_iff.1 (mem_of_find? hfound))

/-! ## Key order -/

theorem put_of_not_mem {key : Text} {value : α} {pairs : List (Text × α)}
    (h : key ∉ keys pairs) : put key value pairs = pairs ++ [(key, value)] := by
  induction pairs with
  | nil => rfl
  | cons pair rest ih =>
    obtain ⟨k, v⟩ := pair
    simp only [keys, List.map_cons, List.mem_cons, not_or] at h
    rw [put, if_neg (Ne.symm h.1), ih h.2, List.cons_append]

theorem foldl_put_of_nodup (kept : List (Text × α)) {pairs : List (Text × α)}
    (h : (keys (kept ++ pairs)).Nodup) :
    pairs.foldl (fun kept (k, v) => put k v kept) kept = kept ++ pairs := by
  induction pairs generalizing kept with
  | nil => simp
  | cons pair rest ih =>
    obtain ⟨k, v⟩ := pair
    have hfresh : k ∉ keys kept := by
      simp only [keys, List.map_append, List.map_cons, List.nodup_append, List.nodup_cons] at h
      exact fun hmem => h.2.2 k hmem k List.mem_cons_self rfl
    have hput : put k v kept ++ rest = kept ++ (k, v) :: rest := by
      rw [put_of_not_mem hfresh, List.append_assoc, List.singleton_append]
    rw [← hput] at h ⊢
    exact ih _ h

theorem dedup_of_nodup {pairs : List (Text × α)} (h : (keys pairs).Nodup) : dedup pairs = pairs :=
  foldl_put_of_nodup [] h

theorem inOrder_perm (pairs : List (Text × α)) : (inOrder pairs).Perm (dedup pairs) := by
  have hindexed : ∀ kept : List (Text × α),
      (kept.filterMap fun (k, v) => (index? k).map fun n => (n, k, v)).map (·.2)
        = kept.filter fun (k, _) => (index? k).isSome := by
    intro kept
    induction kept with
    | nil => rfl
    | cons pair rest ih =>
      obtain ⟨k, v⟩ := pair
      cases hk : index? k with
      | none => simpa [List.filterMap_cons, hk] using ih
      | some n => simpa [List.filterMap_cons, hk] using ih
  have hsorted := (List.mergeSort_perm
    ((dedup pairs).filterMap fun (k, v) => (index? k).map fun n => (n, k, v))
    fun a b => decide (a.1 ≤ b.1)).map (·.2)
  rw [hindexed] at hsorted
  refine (hsorted.append_right _).trans ?_
  have hsplit := List.filter_append_perm (fun pair : Text × α => (index? pair.1).isSome)
    (dedup pairs)
  simpa only [Option.not_isSome] using hsplit

theorem mem_put {key : Text} {value : α} {pairs : List (Text × α)} {pair : Text × α}
    (h : pair ∈ put key value pairs) : pair = (key, value) ∨ pair ∈ pairs := by
  induction pairs with
  | nil => exact .inl (List.mem_singleton.1 h)
  | cons first rest ih =>
    obtain ⟨k, v⟩ := first
    unfold put at h
    split at h
    · rename_i hkey
      rcases List.mem_cons.1 h with rfl | h
      · exact .inl (by rw [hkey])
      · exact .inr (List.mem_cons_of_mem _ h)
    · rcases List.mem_cons.1 h with rfl | h
      · exact .inr List.mem_cons_self
      · rcases ih h with h | h
        · exact .inl h
        · exact .inr (List.mem_cons_of_mem _ h)

/-- A mapping in key order has no pairs that were not given. -/
theorem mem_of_mem_inOrder {pairs : List (Text × α)} {pair : Text × α}
    (h : pair ∈ inOrder pairs) : pair ∈ pairs := by
  have hdedup : pair ∈ dedup pairs := (inOrder_perm pairs).mem_iff.1 h
  have hfold : ∀ kept, pair ∈ pairs.foldl (fun kept (k, v) => put k v kept) kept →
      pair ∈ kept ∨ pair ∈ pairs := by
    clear h hdedup
    induction pairs with
    | nil => exact fun kept hkept => .inl hkept
    | cons first rest ih =>
      intro kept hkept
      rcases ih _ hkept with h | h
      · rcases mem_put h with rfl | h
        · exact .inr List.mem_cons_self
        · exact .inl h
      · exact .inr (List.mem_cons_of_mem first h)
  rcases hfold [] hdedup with h | h
  · cases h
  · exact h

theorem inOrder_perm_of_nodup {pairs : List (Text × α)} (h : (keys pairs).Nodup) :
    (inOrder pairs).Perm pairs := by
  have hperm := inOrder_perm pairs
  rwa [dedup_of_nodup h] at hperm

theorem find?_inOrder {pairs : List (Text × α)} (h : (keys pairs).Nodup) (key : Text) :
    find? key (inOrder pairs) = find? key pairs :=
  find?_perm h (inOrder_perm_of_nodup h).symm

end PodLoom.Keyed
