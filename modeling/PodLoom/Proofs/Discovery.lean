import PodLoom.Discovery
import PodLoom.Proofs.File.Path
import PodLoom.Proofs.File.Tree

set_option autoImplicit false

/-!
# What a search finds

In a tree whose entries have proper names, a search finds paths in normal form.  Each leads
below the directory that was searched, to a name with a wanted extension (`finds_of_mem_run`).
-/

namespace PodLoom

open Text
open PodLoom.Path (AreNames IsName ofComponents)

/-! ## Trees with proper names -/

namespace FileTree

mutual

/-- All entries below are called what an entry can be called. -/
def Named : FileTree → Prop
  | .file _ => True
  | .directory entries => EntriesNamed entries

/-- These entries and all below them are called what an entry can be called. -/
def EntriesNamed : List (Text × FileTree) → Prop
  | [] => True
  | (name, tree) :: rest => IsName name ∧ Named tree ∧ EntriesNamed rest

end

theorem EntriesNamed.find? {entries : List (Text × FileTree)} (h : EntriesNamed entries)
    {name : Text} {tree : FileTree} (hfind : Keyed.find? name entries = some tree) :
    tree.Named := by
  induction entries with
  | nil => cases hfind
  | cons entry rest ih =>
    obtain ⟨name', tree'⟩ := entry
    rw [EntriesNamed] at h
    rw [Keyed.find?_cons] at hfind
    split at hfind
    · exact Option.some.inj hfind ▸ h.2.1
    · exact ih h.2.2 hfind

theorem Named.at? {tree : FileTree} (h : tree.Named) {place : List Text} {sub : FileTree}
    (hat : tree.at? place = some sub) : sub.Named := by
  induction place generalizing tree with
  | nil => exact Option.some.inj hat ▸ h
  | cons name rest ih =>
    rw [at?_cons] at hat
    obtain ⟨entry, hentry, hrest⟩ := Option.bind_eq_some_iff.1 hat
    refine ih ?_ hrest
    cases tree with
    | file content => cases hentry
    | directory entries =>
      rw [Named] at h
      exact h.find? hentry

end FileTree

/-! ## The paths that are found -/

namespace Search

open FileTree (Named EntriesNamed)

/-- A path leads below a place, to a name that is wanted. -/
def Finds (s : Search) (place : List Text) (path : Text) : Prop :=
  ∃ below name, AreNames (place ++ below ++ [name]) ∧ s.wants name = true
    ∧ path = ofComponents (place ++ below ++ [name])

theorem Finds.isEntry {s : Search} {place : List Text} {path : Text} (h : s.Finds place path) :
    Path.IsEntry path := by
  obtain ⟨below, name, hnames, -, rfl⟩ := h
  exact ⟨place ++ below, name, hnames, rfl⟩

/-- What is found in a directory is found below where that stands. -/
theorem Finds.below {s : Search} {place : List Text} {name path : Text}
    (h : s.Finds (place ++ [name]) path) : s.Finds place path := by
  obtain ⟨below, last, hnames, hwants, rfl⟩ := h
  have hassoc : place ++ [name] ++ below = place ++ name :: below := by simp
  rw [hassoc] at hnames
  exact ⟨name :: below, last, hnames, hwants, by rw [hassoc]⟩

section

variable [GlobMatcher] (s : Search) {path : Text}

mutual

theorem finds_of_mem_entryPaths {place : List Text} {name : Text} {tree : FileTree}
    (hplace : AreNames place) (hname : IsName name) (h : tree.Named)
    (hpath : path ∈ s.entryPaths place name tree) :
    s.Finds place path := by
  have hnames : AreNames (place ++ [name]) :=
    Path.areNames_append.2 ⟨hplace, Path.areNames_singleton.2 hname⟩
  cases tree with
  | file content =>
    rw [entryPaths] at hpath
    split at hpath
    · rename_i hwants
      obtain rfl := List.mem_singleton.1 hpath
      rw [Bool.and_eq_true] at hwants
      exact ⟨[], name, by rwa [List.append_nil], hwants.2, by rw [List.append_nil]⟩
    · cases hpath
  | directory entries =>
    rw [entryPaths] at hpath
    split at hpath
    · cases hpath
    · rw [Named] at h
      exact (finds_of_mem_directoryPaths hnames h hpath).below

theorem finds_of_mem_directoryPaths {place : List Text} {entries : List (Text × FileTree)}
    (hplace : AreNames place) (h : EntriesNamed entries)
    (hpath : path ∈ s.directoryPaths place entries) :
    s.Finds place path := by
  cases entries with
  | nil =>
    rw [directoryPaths] at hpath
    cases hpath
  | cons entry rest =>
    obtain ⟨name, tree⟩ := entry
    rw [EntriesNamed] at h
    rw [directoryPaths] at hpath
    rcases List.mem_append.1 hpath with hpath | hpath
    · exact finds_of_mem_entryPaths hplace h.1 h.2.1 hpath
    · exact finds_of_mem_directoryPaths hplace h.2.2 hpath

end

/-- A search that finds anything was one of a directory, and there is nothing to be said. -/
theorem run_of_mem {tree : FileTree} {dir : Text} (hpath : path ∈ (s.run tree dir).1) :
    ∃ entries, tree.at? (Path.resolveComponents s.locale.cwd dir) = some (.directory entries)
      ∧ path ∈ s.directoryPaths (Path.resolveComponents s.locale.cwd dir) entries
      ∧ (s.run tree dir).2 = [] := by
  rw [run] at hpath ⊢
  dsimp only at hpath ⊢
  cases hfollow : tree.follow [] (Path.resolveComponents s.locale.cwd dir) with
  | error e =>
    rw [hfollow] at hpath
    cases hpath
  | ok target =>
    rw [hfollow] at hpath
    cases hat : tree.at? (Path.resolveComponents s.locale.cwd dir) with
    | none =>
      rw [hat] at hpath
      cases hpath
    | some t =>
      rw [hat] at hpath
      cases t with
      | file content => cases hpath
      | directory entries => exact ⟨entries, rfl, List.mem_mergeSort.1 hpath, rfl⟩

/-- Every path that is found leads below the directory, to a wanted name. -/
theorem finds_of_mem_run {tree : FileTree} {dir : Text} (h : tree.Named)
    (hpath : path ∈ (s.run tree dir).1) :
    s.Finds (Path.resolveComponents s.locale.cwd dir) path := by
  obtain ⟨entries, hat, hmem, -⟩ := s.run_of_mem hpath
  have hentries := h.at? hat
  rw [Named] at hentries
  exact s.finds_of_mem_directoryPaths (Path.areNames_resolveComponents _ _) hentries hmem

end

end Search

/-- A matcher for globs of a `*` and an ending, which stand for the paths that end so. -/
@[reducible] def endingMatcher : GlobMatcher where
  isMatch glob path := glob.head? == some (CodeUnit.ofChar '*') && endsWith path glob.tail

end PodLoom
