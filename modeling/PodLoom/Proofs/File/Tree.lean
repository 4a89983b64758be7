import PodLoom.File.Tree
import PodLoom.Proofs.Text.Keyed

set_option autoImplicit false

/-!
# Reading what was written

What is put at a place stands there, and if no directory gives way to it, every directory is
still one.  So a path that named a place before a file was written there names it still
(`locate_put`), and a file that was opened and written is read back by the path it was opened
by (`read_put_of_openFile`).
-/

namespace PodLoom

open Text

namespace Keyed

variable {α : Type}

theorem find?_put_self (key : Text) (value : α) (pairs : List (Text × α)) :
    find? key (put key value pairs) = some value := by
  induction pairs with
  | nil => rw [put, find?_cons, if_pos rfl]
  | cons pair rest ih =>
    obtain ⟨k, v⟩ := pair
    rw [put]
    by_cases hkey : k = key
    · rw [if_pos hkey, find?_cons, if_pos hkey]
    · rw [if_neg hkey, find?_cons, if_neg hkey, ih]

theorem find?_put_of_ne {key other : Text} (h : other ≠ key) (value : α)
    (pairs : List (Text × α)) : find? other (put key value pairs) = find? other pairs := by
  induction pairs with
  | nil => rw [put, find?_cons, if_neg (Ne.symm h)]
  | cons pair rest ih =>
    obtain ⟨k, v⟩ := pair
    rw [put]
    by_cases hkey : k = key
    · rw [if_pos hkey, find?_cons, find?_cons, hkey, if_neg (Ne.symm h), if_neg (Ne.symm h)]
    · rw [if_neg hkey, find?_cons, find?_cons, ih]

/-- The value that is given last counts. -/
theorem put_put (key : Text) (value before : α) (pairs : List (Text × α)) :
    put key value (put key before pairs) = put key value pairs := by
  induction pairs with
  | nil => simp [put]
  | cons pair rest ih =>
    obtain ⟨k, v⟩ := pair
    by_cases hkey : k = key
    · rw [put, put, if_pos hkey, put, if_pos hkey, if_pos hkey]
    · rw [put, put, if_neg hkey, put, if_neg hkey, if_neg hkey, ih]

end Keyed

namespace FileTree

/-! ## Putting and looking up -/

theorem at?_cons (tree : FileTree) (name : Text) (rest : List Text) :
    tree.at? (name :: rest) = (tree.entry? name).bind fun t => t.at? rest := by
  rw [at?]

theorem put_cons (new : FileTree) (name : Text) (rest : List Text) (tree : FileTree) :
    put new (name :: rest) tree
      = .directory (Keyed.put name (put new rest ((tree.entry? name).getD empty)) tree.entries) := by
  rw [put]

theorem entry?_put_self (new : FileTree) (name : Text) (rest : List Text) (tree : FileTree) :
    entry? (put new (name :: rest) tree) name
      = some (put new rest ((tree.entry? name).getD empty)) := by
  rw [put_cons]
  exact Keyed.find?_put_self _ _ _

theorem entry?_put_of_ne (new : FileTree) {name other : Text} (h : other ≠ name)
    (rest : List Text) (tree : FileTree) :
    entry? (put new (name :: rest) tree) other = tree.entry? other := by
  rw [put_cons]
  exact Keyed.find?_put_of_ne h _ _

/-- What was put at a place stands there. -/
theorem at?_put (new : FileTree) (place : List Text) (tree : FileTree) :
    (put new place tree).at? place = some new := by
  induction place generalizing tree with
  | nil => rfl
  | cons name rest ih =>
    rw [at?_cons, entry?_put_self]
    exact ih _

/-- What is put at a place last counts. -/
theorem put_put (new old : FileTree) (place : List Text) (tree : FileTree) :
    put new place (put old place tree) = put new place tree := by
  induction place generalizing tree with
  | nil => rfl
  | cons name rest ih =>
    rw [put_cons new name rest (put old (name :: rest) tree), entry?_put_self, Option.getD_some, ih,
      put_cons old, put_cons new]
    exact congrArg directory (Keyed.put_put _ _ _ _)

/-- Directories stay what they are, unless something is put in the place of one. -/
theorem at?_put_directory (new : FileTree) {place other : List Text} {tree : FileTree}
    (hplace : ∀ entries, tree.at? place ≠ some (.directory entries))
    {entries : List (Text × FileTree)} (h : tree.at? other = some (.directory entries)) :
    ∃ entries', (put new place tree).at? other = some (.directory entries') := by
  induction place generalizing other tree with
  | nil =>
    cases tree with
    | directory entries => exact absurd rfl (hplace entries)
    | file content =>
      cases other with
      | nil => cases h
      | cons name rest => cases h
  | cons name rest ih =>
    cases other with
    | nil => exact ⟨_, rfl⟩
    | cons name' rest' =>
      by_cases hname : name' = name
      · subst hname
        rw [at?_cons] at h
        obtain ⟨sub, hsub, hdirectory⟩ := Option.bind_eq_some_iff.1 h
        rw [at?_cons, entry?_put_self, hsub, Option.getD_some]
        refine ih (fun entries hentries => hplace entries ?_) hdirectory
        rw [at?_cons, hsub]
        exact hentries
      · rw [at?_cons, entry?_put_of_ne new hname]
        exact ⟨entries, h⟩

/-! ## Paths -/

/-- Names lead to the same place after a file was put at a place that is no directory. -/
theorem follow_put (new : FileTree) {place : List Text} {tree : FileTree}
    (hplace : ∀ entries, tree.at? place ≠ some (.directory entries)) {start target : List Text}
    {names : List Text} (h : tree.follow start names = .ok target) :
    (put new place tree).follow start names = .ok target := by
  induction names generalizing start with
  | nil => exact h
  | cons name rest ih =>
    unfold follow at h ⊢
    cases hstart : tree.at? start with
    | none =>
      rw [hstart] at h
      cases h
    | some t =>
      cases t with
      | file content =>
        rw [hstart] at h
        cases h
      | directory entries =>
        obtain ⟨entries', hstart'⟩ := at?_put_directory new hplace hstart
        rw [hstart] at h
        rw [hstart']
        dsimp only at h ⊢
        by_cases hhere : name = Path.here
        · rw [if_pos hhere] at h ⊢
          exact ih h
        · rw [if_neg hhere] at h ⊢
          by_cases habove : name = Path.above
          · rw [if_pos habove] at h ⊢
            exact ih h
          · rw [if_neg habove] at h ⊢
            exact ih h

theorem locate_put (new : FileTree) {place : List Text} {tree : FileTree}
    (hplace : ∀ entries, tree.at? place ≠ some (.directory entries)) {cwd path : Text}
    {target : List Text} (h : tree.locate cwd path = .ok target) :
    (put new place tree).locate cwd path = .ok target := by
  unfold locate at h ⊢
  split at h
  · cases h
  · rename_i hempty
    rw [if_neg hempty]
    exact follow_put new hplace h

/-! ## Files -/

/-- A file that can be opened is at the place that its path names, or there is nothing there
yet, and it is empty. -/
theorem openFile_eq_ok {tree files : FileTree} {cwd path : Text} {place : List Text}
    (h : tree.openFile cwd path = .ok (place, files)) :
    tree.locate cwd path = .ok place ∧ (∀ entries, tree.at? place ≠ some (.directory entries))
      ∧ Path.endsInSlash path = false ∧ files = put (.file []) place tree := by
  unfold openFile at h
  cases hlocate : tree.locate cwd path with
  | error e =>
    rw [hlocate] at h
    cases h
  | ok target =>
    rw [hlocate] at h
    dsimp only [bind, Except.bind] at h
    cases hplace : tree.at? target with
    | none =>
      rw [hplace] at h
      dsimp only at h
      split at h
      · cases h
      · rename_i hslash
        cases h
        exact ⟨rfl, by simp [hplace], Bool.eq_false_iff.2 hslash, rfl⟩
    | some t =>
      rw [hplace] at h
      cases t with
      | directory entries => cases h
      | file content =>
        dsimp only at h
        split at h
        · cases h
        · rename_i hslash
          cases h
          exact ⟨rfl, by simp [hplace], Bool.eq_false_iff.2 hslash, rfl⟩

/-- What is written to a file that was opened is what is read from it by the same path. -/
theorem read_put_of_openFile {tree files : FileTree} {cwd path : Text} {place : List Text}
    (h : tree.openFile cwd path = .ok (place, files)) (content : Bytes) :
    (put (.file content) place files).read cwd path = .ok content := by
  obtain ⟨hlocate, hplace, hslash, rfl⟩ := openFile_eq_ok h
  rw [put_put, read, locate_put _ hplace hlocate]
  dsimp only [bind, Except.bind]
  rw [at?_put, hslash]
  rfl

end FileTree

end PodLoom
