import PodLoom.Proofs.Text.Utf8
import PodLoom.Text.Case

set_option autoImplicit false

/-!
# Case and line feeds

No letter has a line feed for its other case: all that the tables map to lies above the controls.
So a text without line feeds has none in lower case, and no unit but the line feed has one in
upper case.
-/

namespace PodLoom.Text

open CodeUnit Case

/-- Code points above the line feed are not written with one. -/
theorem newline_notMem_ofCodePoint {n : Nat} (hlow : 10 < n) (hhigh : n ≤ 0x10FFFF) :
    newline ∉ ofCodePoint n := by
  have hfeed : newline.toNat = 10 := rfl
  have hne : ∀ m : Nat, m < 65536 → m ≠ 10 → newline ≠ m.toUInt16 := by
    intro m hm hten heq
    have hnat := congrArg UInt16.toNat heq
    rw [hfeed, Nat.toUInt16, UInt16.toNat_ofNat', Nat.mod_eq_of_lt hm] at hnat
    omega
  unfold ofCodePoint
  split
  · rw [List.mem_singleton]
    exact hne n (by omega) (by omega)
  · rw [List.mem_cons, List.mem_singleton, not_or]
    exact ⟨hne _ (by omega) (by omega), hne _ (by omega) (by omega)⟩

/-- The rows of a table that map to code points above the line feed. -/
def Case.Shift.IsAboveFeed (s : Shift) : Prop :=
  10 < (s.first : Int) + s.distance ∧ (s.last : Int) + s.distance ≤ 0x10FFFF

instance (s : Shift) : Decidable s.IsAboveFeed := inferInstanceAs (Decidable (_ ∧ _))

theorem newline_notMem_shifted {table : List Shift} (htable : ∀ s ∈ table, s.IsAboveFeed) {n : Nat}
    (hn : newline ∉ ofCodePoint n) :
    newline ∉ ofCodePoint ((shifted? table n).getD n) := by
  cases hfound : table.find? (·.covers n) with
  | none =>
    rw [shifted?, hfound]
    exact hn
  | some s =>
    obtain ⟨hlow, hhigh⟩ := htable s (List.mem_of_find?_eq_some hfound)
    have hcovers := List.find?_some hfound
    simp only [Shift.covers, Bool.and_eq_true, decide_eq_true_eq] at hcovers
    rw [shifted?, hfound]
    exact newline_notMem_ofCodePoint (by dsimp only [Option.map_some, Option.getD_some]; omega)
      (by dsimp only [Option.map_some, Option.getD_some]; omega)

theorem newline_notMem_lowerFrom {ns : List Nat} (hns : ∀ n ∈ ns, newline ∉ ofCodePoint n)
    (afterCased : Bool) : ∀ n ∈ lowerFrom afterCased ns, newline ∉ ofCodePoint n := by
  induction ns generalizing afterCased with
  | nil => exact fun n hn => (List.not_mem_nil hn).elim
  | cons n rest ih =>
    obtain ⟨hfirst, hrest⟩ := List.forall_mem_cons.1 hns
    have htable : ∀ s ∈ lowerShifts, s.IsAboveFeed := by decide +kernel
    intro m hm
    rw [lowerFrom] at hm
    rcases List.mem_append.1 hm with hm | hm
    · -- Only the sigma and the dotted capital are not in the table.
      split at hm
      · obtain rfl := List.mem_singleton.1 hm
        split <;> exact newline_notMem_ofCodePoint (by omega) (by omega)
      · split at hm
        · have hdotted : ∀ m ∈ [0x69, 0x307], 10 < m ∧ m ≤ 0x10FFFF := by decide
          exact newline_notMem_ofCodePoint (hdotted m hm).1 (hdotted m hm).2
        · obtain rfl := List.mem_singleton.1 hm
          exact newline_notMem_shifted htable hfirst
    · exact ih hrest _ m hm

/-- Lower case brings no line feed into a text. -/
theorem newline_notMem_lower {t : Text} (h : newline ∉ t) : newline ∉ t.lower := by
  rw [← flatMap_ofCodePoint t] at h
  have hpoints : ∀ n ∈ t.codePoints, newline ∉ ofCodePoint n := fun n hn hmem =>
    h (List.mem_flatMap.2 ⟨n, hn, hmem⟩)
  intro hmem
  obtain ⟨n, hn, hfeed⟩ := List.mem_flatMap.1 hmem
  exact newline_notMem_lowerFrom hpoints false n hn hfeed

/-- Upper case brings no line feed into a text. -/
theorem newline_notMem_upperUnit {u : CodeUnit} (h : u ≠ newline) : newline ∉ upperUnit u := by
  have hexpansions : ∀ entry ∈ upperExpansions, ∀ n ∈ entry.2, 10 < n ∧ n ≤ 0x10FFFF := by
    decide +kernel
  have hshifts : ∀ s ∈ upperShifts, s.IsAboveFeed := by decide +kernel
  unfold upperUnit
  dsimp only
  split
  · rename_i point ns hfound
    intro hmem
    obtain ⟨n, hn, hfeed⟩ := List.mem_flatMap.1 hmem
    obtain ⟨hlow, hhigh⟩ := hexpansions _ (List.mem_of_find?_eq_some hfound) n hn
    exact newline_notMem_ofCodePoint hlow hhigh hfeed
  · refine newline_notMem_shifted hshifts ?_
    rw [ofCodePoint_toNat, List.mem_singleton]
    exact fun heq => h heq.symm

end PodLoom.Text
