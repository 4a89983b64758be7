import PodLoom.Proofs.File.Frame

set_option autoImplicit false

/-!
# Trees that grow

To write files by some paths, and to make the directories for them, lets a tree grow: its
directories stay, others come only on the way to the paths, and no file but theirs is changed
(`Grown`).

Whether a file can be written by another path does not depend on that.  What counts is which
files stand on the way to it and whether a directory stands where it leads
(`makeDirectory_ok_iff`, `openFile_ok_iff`), and as long as none of the paths is an ancestor of
another, a tree that has grown is the same in both.
-/

namespace PodLoom

open Text
open PodLoom.Path (AreNames IsEntry IsName ofComponents)

namespace Path

/-- The place of one path is on the way to that of another. -/
def IsAncestor (path other : Text) : Prop :=
  components path <+: components other ∧ components path ≠ components other

instance (path other : Text) : Decidable (IsAncestor path other) :=
  inferInstanceAs (Decidable (_ ∧ _))

/-- The directory that a path is in, and the last name of the path. -/
theorem exists_parent {path : Text} (h : AreNames (components path)) :
    components (parent path) = (components path).dropLast
      ∧ (components path = [] ∨ ∃ last, components path = components (parent path) ++ [last]) := by
  have hparent : components (parent path) = (components path).dropLast :=
    components_ofComponents fun part hpart => h part ((List.dropLast_subset _) hpart)
  refine ⟨hparent, ?_⟩
  rw [hparent]
  rcases List.eq_nil_or_concat' (components path) with hnil | ⟨front, last, hlast⟩
  · exact .inl hnil
  · exact .inr ⟨last, by rw [hlast, List.dropLast_concat]⟩

theorem isAncestor_of_components {path other name : Text} {rest : List Text}
    (h : components other = components path ++ name :: rest) : IsAncestor path other := by
  refine ⟨⟨name :: rest, h.symm⟩, ?_⟩
  rw [h]
  simp

end Path

namespace FileTree

variable {tree made : FileTree} {place : List Text}

/-- A directory stands at a place. -/
def IsDirectoryAt (tree : FileTree) (place : List Text) : Prop :=
  ∃ entries, tree.at? place = some (.directory entries)

theorem not_isDirectoryAt_of_none (h : tree.at? place = none) : ¬ tree.IsDirectoryAt place := by
  rintro ⟨entries, hentries⟩
  rw [h] at hentries
  cases hentries

theorem at?_append_of_none (h : tree.at? place = none) (rest : List Text) :
    tree.at? (place ++ rest) = none := by
  rw [at?_append, h]
  rfl

/-! ## What can be made and opened -/

/-- Directories can be made unless a file is on the way. -/
theorem makeDirectory_ok_iff {start names : List Text} :
    (∃ made, tree.makeDirectory start names = .ok made)
      ↔ ∀ front name rest content, names = front ++ name :: rest →
          tree.at? (start ++ (front ++ [name])) ≠ some (.file content) := by
  induction names generalizing start with
  | nil =>
    refine iff_of_true ⟨tree, rfl⟩ ?_
    intro front name rest content hnames
    simp at hnames
  | cons first more ih =>
    rw [makeDirectory]
    cases hfirst : tree.at? (start ++ [first]) with
    | none =>
      -- Where nothing is, nothing is behind it either.
      refine iff_of_true ⟨_, rfl⟩ ?_
      intro front name rest content hnames hfile
      cases front with
      | nil =>
        obtain ⟨rfl, -⟩ := List.cons.inj hnames
        rw [List.nil_append, hfirst] at hfile
        cases hfile
      | cons first' front =>
        obtain ⟨rfl, -⟩ := List.cons.inj hnames
        have hbehind := at?_append_of_none hfirst (front ++ [name])
        rw [List.append_assoc] at hbehind
        cases hbehind.symm.trans hfile
    | some t =>
      cases t with
      | file found =>
        refine iff_of_false (by simp) ?_
        intro hfree
        exact hfree [] first more found rfl hfirst
      | directory entries =>
        dsimp only
        rw [ih]
        constructor
        · intro hfree front name rest content hnames
          cases front with
          | nil =>
            obtain ⟨rfl, -⟩ := List.cons.inj hnames
            rw [List.nil_append, hfirst]
            intro hfile
            cases hfile
          | cons first' front =>
            obtain ⟨rfl, hmore⟩ := List.cons.inj hnames
            have hbehind := hfree front name rest content hmore
            rwa [List.append_assoc] at hbehind
        · intro hfree front name rest content hnames
          rw [List.append_assoc]
          exact hfree (first :: front) name rest content (congrArg _ hnames)

/-- The directories that were to be made are there. -/
theorem isDirectoryAt_makeDirectory {start names : List Text}
    (h : tree.makeDirectory start names = .ok made) (hstart : tree.IsDirectoryAt start)
    {front back : List Text} (hnames : names = front ++ back) :
    made.IsDirectoryAt (start ++ front) := by
  induction names generalizing start front back with
  | nil =>
    cases h
    obtain ⟨rfl, -⟩ := List.append_eq_nil_iff.1 hnames.symm
    rwa [List.append_nil]
  | cons first more ih =>
    rw [makeDirectory] at h
    cases hfirst : tree.at? (start ++ [first]) with
    | none =>
      rw [hfirst] at h
      cases h
      refine at?_put_of_isPrefix [] ?_ tree
      rw [List.append_assoc, List.singleton_append, hnames]
      exact ⟨back, List.append_assoc ..⟩
    | some t =>
      rw [hfirst] at h
      cases t with
      | file content => cases h
      | directory entries =>
        dsimp only at h
        cases front with
        | nil =>
          obtain ⟨entries', hentries'⟩ := ih h ⟨entries, hfirst⟩ (List.nil_append more).symm
          rw [List.append_nil] at hentries' ⊢
          exact exists_directory_of_at? hentries'
        | cons first' front =>
          obtain ⟨rfl, hmore⟩ := List.cons.inj hnames
          have hbehind := ih h ⟨entries, hfirst⟩ hmore
          rwa [List.append_assoc] at hbehind

/-- Names are followed where directories lead. -/
theorem follow_of_directories {start names : List Text} (h : AreNames names)
    (hway : ∀ front name rest, names = front ++ name :: rest →
      tree.IsDirectoryAt (start ++ front)) :
    tree.follow start names = .ok (start ++ names) := by
  induction names generalizing start with
  | nil => rw [List.append_nil]; rfl
  | cons first more ih =>
    have hfirst : IsName first := h first List.mem_cons_self
    obtain ⟨entries, hentries⟩ := hway [] first more rfl
    rw [List.append_nil] at hentries
    have hassoc : start ++ first :: more = start ++ [first] ++ more := by simp
    unfold follow
    rw [hentries]
    dsimp only
    rw [if_neg hfirst.ne_here, if_neg hfirst.ne_above, hassoc]
    refine ih (fun p hp => h p (List.mem_cons_of_mem first hp)) ?_
    intro front name rest hmore
    rw [List.append_assoc]
    exact hway (first :: front) name rest (congrArg _ hmore)

/-- A file can be opened where directories lead, unless there is one in its place. -/
theorem openFile_ok_iff (cwd : Text) {parts : List Text} (h : AreNames parts) (hne : parts ≠ [])
    (hway : ∀ front name rest, parts = front ++ name :: rest → tree.IsDirectoryAt front) :
    (∃ opened, tree.openFile cwd (ofComponents parts) = .ok opened)
      ↔ ¬ tree.IsDirectoryAt parts := by
  have hend : Path.endsInSlash (ofComponents parts) = false := Path.endsInSlash_ofComponents h hne
  rw [openFile, locate_names cwd h, follow_of_directories h hway]
  dsimp only [bind, Except.bind]
  rw [List.nil_append, hend]
  cases hat : tree.at? parts with
  | none => exact iff_of_true ⟨_, rfl⟩ (not_isDirectoryAt_of_none hat)
  | some t =>
    cases t with
    | directory entries =>
      refine iff_of_false ?_ ?_
      · rintro ⟨opened, hopened⟩
        cases hopened
      · exact fun hnot => hnot ⟨entries, hat⟩
    | file content =>
      refine iff_of_true ⟨_, rfl⟩ ?_
      rintro ⟨entries, hentries⟩
      cases hat.symm.trans hentries

/-- Nothing can be read by a path that ends in a slash. -/
theorem read_ne_ok_of_endsInSlash {cwd path : Text} (h : Path.endsInSlash path = true)
    (content : Bytes) : tree.read cwd path ≠ .ok content := by
  intro hread
  rw [read] at hread
  cases hplace : tree.locate cwd path with
  | error e =>
    rw [hplace] at hread
    cases hread
  | ok place =>
    rw [hplace] at hread
    dsimp only [bind, Except.bind] at hread
    rw [h] at hread
    cases hat : tree.at? place with
    | none =>
      rw [hat] at hread
      cases hread
    | some t =>
      rw [hat] at hread
      cases t with
      | file found => cases hread
      | directory entries => cases hread

/-! ## Growing -/

/-- A tree has grown to another by what was written by some paths.  Its directories stay, others
are on the way to the paths, and what is read by another path in normal form is as before. -/
structure Grown (targets : List Text) (old new : FileTree) : Prop where
  kept : ∀ place, old.IsDirectoryAt place → new.IsDirectoryAt place
  made : ∀ place, new.IsDirectoryAt place → old.IsDirectoryAt place
    ∨ ∃ target ∈ targets, ∃ name rest, Path.components target = place ++ name :: rest
  files : ∀ place content, AreNames place → place ≠ [] → ofComponents place ∉ targets →
    (new.at? place = some (.file content) ↔ old.at? place = some (.file content))

namespace Grown

variable {targets targets' : List Text} {old new newer : FileTree}

theorem refl (targets : List Text) (tree : FileTree) : Grown targets tree tree where
  kept _ h := h
  made _ h := .inl h
  files _ _ _ _ _ := Iff.rfl

theorem of_subset (h : Grown targets old new) (hsubset : targets ⊆ targets') :
    Grown targets' old new where
  kept := h.kept
  made place hplace := by
    rcases h.made place hplace with hold | ⟨target, htarget, hway⟩
    · exact .inl hold
    · exact .inr ⟨target, hsubset htarget, hway⟩
  files place content hnames hne hout :=
    h.files place content hnames hne fun htarget => hout (hsubset htarget)

theorem trans (h : Grown targets old new) (h' : Grown targets new newer) :
    Grown targets old newer where
  kept place hplace := h'.kept place (h.kept place hplace)
  made place hplace := by
    rcases h'.made place hplace with hnew | hway
    · exact h.made place hnew
    · exact .inr hway
  files place content hnames hne hout := by
    rw [h'.files place content hnames hne hout, h.files place content hnames hne hout]

/-- What is read by other paths is as before. -/
theorem read (h : Grown targets old new) (cwd : Text) {path : Text} (hpath : IsEntry path)
    (hout : path ∉ targets) (content : Bytes) :
    new.read cwd path = .ok content ↔ old.read cwd path = .ok content := by
  obtain ⟨front, name, hnames, rfl⟩ := hpath
  have hne : front ++ [name] ≠ [] := by simp
  rw [read_names_iff cwd hnames hne, read_names_iff cwd hnames hne,
    h.files _ content hnames hne hout]

/-- Where a path leads that is an ancestor of none of the paths, no directory is made. -/
theorem isDirectoryAt_iff (h : Grown targets old new) {path : Text}
    (hpath : ∀ target ∈ targets, ¬ Path.IsAncestor path target) :
    new.IsDirectoryAt (Path.components path) ↔ old.IsDirectoryAt (Path.components path) := by
  refine ⟨fun hnew => ?_, h.kept _⟩
  rcases h.made _ hnew with hold | ⟨target, htarget, name, rest, hway⟩
  · exact hold
  · exact absurd (Path.isAncestor_of_components hway) (hpath target htarget)

/-- The directory for a path can be made as before, if none of the paths is an ancestor of it. -/
theorem makeDirectories_iff (h : Grown targets old new) {path : Text}
    (hnames : AreNames (Path.components path))
    (hpath : ∀ target ∈ targets, ¬ Path.IsAncestor target path) :
    (∃ made, new.makeDirectories (Path.parent path) = .ok made)
      ↔ ∃ made, old.makeDirectories (Path.parent path) = .ok made := by
  rw [makeDirectories, makeDirectories, makeDirectory_ok_iff, makeDirectory_ok_iff]
  obtain ⟨-, hparent⟩ := Path.exists_parent hnames
  have hway : ∀ front name rest, Path.components (Path.parent path) = front ++ name :: rest →
      ∀ content, new.at? (front ++ [name]) = some (.file content)
        ↔ old.at? (front ++ [name]) = some (.file content) := by
    intro front name rest hfront content
    rcases hparent with hnil | ⟨last, hlast⟩
    · rw [Path.parent, hnil] at hfront
      cases front <;> cases hfront
    · have hsplit : Path.components path = front ++ [name] ++ (rest ++ [last]) := by
        rw [hlast, hfront]
        simp
      have hplace : AreNames (front ++ [name]) := (Path.areNames_append.1 (hsplit ▸ hnames)).1
      refine h.files _ content hplace (by simp) ?_
      intro htarget
      refine hpath _ htarget ?_
      have hcomponents := Path.components_ofComponents hplace
      rw [Path.IsAncestor, hcomponents, hsplit]
      exact ⟨List.prefix_append _ _, by simp⟩
  constructor
  · intro hfree front name rest content hfront
    rw [ne_eq, List.nil_append, ← hway front name rest hfront content]
    exact hfree front name rest content hfront
  · intro hfree front name rest content hfront
    rw [ne_eq, List.nil_append, hway front name rest hfront content]
    exact hfree front name rest content hfront

end Grown

/-- To make the directory for a path lets a tree grow by it. -/
theorem grown_makeDirectories {path : Text} (hnames : AreNames (Path.components path))
    (h : tree.makeDirectories (Path.parent path) = .ok made) : Grown [path] tree made := by
  rcases makeDirectory_cases h with rfl | ⟨front, name, rest, hplace, -, hnone, hmade⟩
  · exact .refl _ _
  rw [List.nil_append] at hplace hmade
  have hfree : ∀ entries, tree.at? (Path.components (Path.parent path))
      ≠ some (.directory entries) := by
    intro entries hentries
    rw [hplace, ← List.singleton_append, ← List.append_assoc,
      at?_append_of_none hnone] at hentries
    cases hentries
  refine ⟨fun place hdirectory => ?_, fun place hdirectory => ?_, ?_⟩
  · obtain ⟨entries, hentries⟩ := hdirectory
    rw [hmade]
    exact at?_put_directory empty hfree hentries
  · by_cases hon : place <+: Path.components (Path.parent path)
    · obtain ⟨more, hmore⟩ := hon
      rcases (Path.exists_parent hnames).2 with hnil | ⟨last, hlast⟩
      · rw [Path.parent, hnil] at hplace
        cases front <;> cases hplace
      · right
        refine ⟨path, List.mem_singleton_self path, ?_⟩
        rw [hlast, ← hmore]
        cases more with
        | nil => exact ⟨last, [], by simp⟩
        | cons first more => exact ⟨first, more ++ [last], by simp⟩
    · left
      obtain ⟨entries, hentries⟩ := hdirectory
      by_cases hbehind : Path.components (Path.parent path) <+: place
      · obtain ⟨more, rfl⟩ := hbehind
        rw [hmade, at?_append, at?_put] at hentries
        cases more with
        | nil => exact absurd (by simp) hon
        | cons first more => cases hentries
      · rw [hmade, at?_put_of_apart empty hon hbehind] at hentries
        exact ⟨entries, hentries⟩
  · intro place content _ hne _
    exact at?_makeDirectories h hne content

/-- To write a file lets a tree grow by its path. -/
theorem grown_put {cwd : Text} {parts : List Text} (hnames : AreNames parts)
    {files : FileTree} (hopen : tree.openFile cwd (ofComponents parts) = .ok (place, files))
    (new : Bytes) : Grown [ofComponents parts] tree (put (.file new) place files) := by
  obtain ⟨hlocate, hfree, -, hfiles⟩ := openFile_eq_ok hopen
  rw [locate_names cwd hnames] at hlocate
  obtain ⟨hplace, hway⟩ := follow_names hnames hlocate
  rw [List.nil_append] at hplace
  subst hplace
  refine ⟨fun other hdirectory => ?_, fun other hdirectory => .inl ?_, ?_⟩
  · obtain ⟨entries, hentries⟩ := hdirectory
    rw [hfiles, put_put]
    exact at?_put_directory _ hfree hentries
  · rw [hfiles, put_put] at hdirectory
    obtain ⟨entries, hentries⟩ := hdirectory
    by_cases hon : other <+: place
    · obtain ⟨rest, rfl⟩ := hon
      cases rest with
      | nil =>
        rw [List.append_nil, at?_put] at hentries
        cases hentries
      | cons name rest => exact hway other name rest rfl
    · by_cases hbehind : place <+: other
      · obtain ⟨more, rfl⟩ := hbehind
        rw [at?_append, at?_put] at hentries
        cases more with
        | nil => exact absurd (by simp) hon
        | cons first more => cases hentries
      · rw [at?_put_of_apart _ hon hbehind] at hentries
        exact ⟨entries, hentries⟩
  · intro other content hother hne hout
    have hne' : ofComponents place ≠ ofComponents other := fun heq => hout (by simp [heq])
    have hread := read_put_of_ne hother hne hnames hopen hne' new content
    rwa [read_names_iff cwd hother hne, read_names_iff cwd hother hne] at hread

/-- Once its directory is made, the file of a path can be opened unless a directory stands where
the path leads. -/
theorem openFile_makeDirectories_iff (cwd : Text) {path : Text} (hpath : IsEntry path)
    (hroot : tree.IsDirectoryAt [])
    (h : tree.makeDirectories (Path.parent path) = .ok made) :
    (∃ opened, made.openFile cwd path = .ok opened)
      ↔ ¬ tree.IsDirectoryAt (Path.components path) := by
  obtain ⟨front, last, hnames, rfl⟩ := hpath
  have hcomponents := Path.components_ofComponents hnames
  have hpath : AreNames (Path.components (ofComponents (front ++ [last]))) :=
    hcomponents.symm ▸ hnames
  have hparent : Path.components (Path.parent (ofComponents (front ++ [last]))) = front := by
    rw [(Path.exists_parent hpath).1, hcomponents, List.dropLast_concat]
  have hway : ∀ before name rest, front ++ [last] = before ++ name :: rest →
      made.IsDirectoryAt before := by
    intro before name rest hsplit
    have hbefore : Path.components (Path.parent (ofComponents (front ++ [last])))
        = before ++ (name :: rest).dropLast := by
      rw [hparent, ← List.dropLast_append_of_ne_nil (List.cons_ne_nil name rest), ← hsplit,
        List.dropLast_concat]
    exact isDirectoryAt_makeDirectory h hroot hbefore
  have hself : ∀ target ∈ [ofComponents (front ++ [last])],
      ¬ Path.IsAncestor (ofComponents (front ++ [last])) target := by
    intro target htarget hancestor
    rw [List.mem_singleton.1 htarget] at hancestor
    exact hancestor.2 rfl
  rw [← (grown_makeDirectories hpath h).isDirectoryAt_iff hself, hcomponents]
  exact openFile_ok_iff cwd hnames (by simp) hway

end FileTree

end PodLoom
