import Mathlib.Data.List.Nodup
import PodLoom.Proofs.Discovery
import PodLoom.Proofs.File.Frame
import PodLoom.Proofs.Text.Order

set_option autoImplicit false

/-!
# A search finds all it should

A search walks through a tree and passes over whole directories on the way, for one of two
reasons.  What it takes depends on nothing but the names on the way from the directory where it
starts (`Takes`): it finds every file that these names let it take and no other, each once and in
the order of the paths (`run_exact`).  The directory where it starts is taken whatever it is
called and whatever excludes it.

The walk is followed entry by entry: what is selected below a directory is what is selected
below each of its entries alone (`selects_cons`), which needs that no name is there twice.
-/

namespace PodLoom

open Text CodeUnit
open PodLoom.Path (AreNames IsName ofComponents)

/-! ## Trees that hold each name once -/

namespace FileTree

/-- No directory of a tree has two entries of one name. -/
def Distinct (tree : FileTree) : Prop :=
  ∀ place entries, tree.at? place = some (.directory entries) → (Keyed.keys entries).Nodup

theorem Distinct.at? {tree sub : FileTree} (h : tree.Distinct) {place : List Text}
    (hat : tree.at? place = some sub) : sub.Distinct := by
  intro below entries hbelow
  apply h (place ++ below)
  rw [at?_append, hat]
  exact hbelow

theorem distinct_file (content : Bytes) : Distinct (.file content) := by
  intro place entries hat
  cases place with
  | nil => cases hat
  | cons name rest =>
    rw [at?_file_cons] at hat
    cases hat

theorem distinct_directory_iff {entries : List (Text × FileTree)} :
    Distinct (.directory entries)
      ↔ (Keyed.keys entries).Nodup ∧ ∀ entry ∈ entries, entry.2.Distinct := by
  constructor
  · intro h
    have hnodup : (Keyed.keys entries).Nodup := h [] entries rfl
    refine ⟨hnodup, ?_⟩
    rintro ⟨name, tree⟩ hmem
    have hentry : entry? (.directory entries) name = some tree := Keyed.find?_of_mem hnodup hmem
    have hat : FileTree.at? (.directory entries) [name] = some tree := by
      rw [at?_cons, hentry]
      rfl
    exact h.at? hat
  · rintro ⟨hnodup, hentries⟩ place inner hat
    cases place with
    | nil =>
      cases hat
      exact hnodup
    | cons name rest =>
      rw [at?_cons] at hat
      obtain ⟨tree, htree, hrest⟩ := Option.bind_eq_some_iff.1 hat
      exact hentries (name, tree) (Keyed.mem_of_find? htree) rest inner hrest

/-- Behind its first name, a place in a directory is one in the entry of that name. -/
theorem at?_directory_cons (entry : Text × FileTree) (entries : List (Text × FileTree))
    (name : Text) (rest : List Text) :
    at? (.directory (entry :: entries)) (name :: rest)
      = if entry.1 = name then entry.2.at? rest else at? (.directory entries) (name :: rest) := by
  have hentry : entry? (.directory (entry :: entries)) name
      = if entry.1 = name then some entry.2 else entry? (.directory entries) name :=
    Keyed.find?_cons name entry entries
  rw [at?_cons, at?_cons, hentry]
  split
  · rfl
  · rfl

theorem EntriesNamed.isName {entries : List (Text × FileTree)} (h : EntriesNamed entries)
    {name : Text} (hmem : name ∈ Keyed.keys entries) : IsName name := by
  induction entries with
  | nil => cases hmem
  | cons entry rest ih =>
    rw [EntriesNamed] at h
    rcases List.mem_cons.1 hmem with rfl | hmem
    · exact h.1
    · exact ih h.2.2 hmem

/-- The names on the way to what stands in a tree are names. -/
theorem Named.areNames {tree sub : FileTree} (h : tree.Named) {place : List Text}
    (hat : tree.at? place = some sub) : AreNames place := by
  induction place generalizing tree with
  | nil => exact List.forall_mem_nil _
  | cons name rest ih =>
    rw [at?_cons] at hat
    obtain ⟨entry, hentry, hrest⟩ := Option.bind_eq_some_iff.1 hat
    cases tree with
    | file content => cases hentry
    | directory entries =>
      rw [Named] at h
      have hkey : name ∈ Keyed.keys entries :=
        List.mem_map_of_mem (f := (·.1)) (Keyed.mem_of_find? hentry)
      exact List.forall_mem_cons.2 ⟨h.isName hkey, ih (h.find? hentry) hrest⟩

end FileTree

/-! ## What is selected -/

namespace Search

open FileTree (Named EntriesNamed Distinct)

section

variable [GlobMatcher] (s : Search)

/-- The search takes the file that some names below a place lead to.  The directories on the way
are those called `below`, one in the other, and the file is called `name`. -/
structure Takes (place below : List Text) (name : Text) : Prop where
  /-- The extension of the file is in the list. -/
  wanted : Path.extension name ∈ s.extensions
  /-- No directory on the way is hidden. -/
  visible : ∀ directory ∈ below, directory.head? ≠ some dot
  /-- Neither the file nor a directory on the way is excluded. -/
  kept : ∀ front, front ≠ [] → front <+: below ++ [name] →
    s.locale.excludes s.exclude (ofComponents (place ++ front)) = false

variable {s}

theorem takes_nil {place : List Text} {name : Text} :
    s.Takes place [] name
      ↔ s.locale.excludes s.exclude (ofComponents (place ++ [name])) = false
        ∧ s.wants name = true := by
  have hwants : s.wants name = true ↔ Path.extension name ∈ s.extensions :=
    List.contains_iff_mem
  constructor
  · intro h
    exact ⟨h.kept [name] (List.cons_ne_nil name []) List.prefix_rfl, hwants.2 h.wanted⟩
  · rintro ⟨hkept, hwanted⟩
    refine ⟨hwants.1 hwanted, fun directory hmem => absurd hmem List.not_mem_nil, ?_⟩
    intro front hne hfront
    have hpositive := List.length_pos_iff.2 hne
    obtain rfl : front = [name] := hfront.eq_of_length_le (Nat.succ_le_of_lt hpositive)
    exact hkept

theorem takes_cons {place below : List Text} {first name : Text} :
    s.Takes place (first :: below) name
      ↔ (s.locale.excludes s.exclude (ofComponents (place ++ [first])) = false
          ∧ Path.isHidden first = false)
        ∧ s.Takes (place ++ [first]) below name := by
  have hhidden : Path.isHidden first = false ↔ first.head? ≠ some dot := by
    rw [Path.isHidden, beq_eq_false_iff_ne]
  have hassoc : ∀ front, place ++ first :: front = place ++ [first] ++ front := by simp
  constructor
  · intro h
    obtain ⟨hfirst, hbelow⟩ := List.forall_mem_cons.1 h.visible
    refine ⟨⟨?_, hhidden.2 hfirst⟩, h.wanted, hbelow, ?_⟩
    · exact h.kept [first] (List.cons_ne_nil first []) ⟨below ++ [name], rfl⟩
    · intro front _ hfront
      rw [← hassoc]
      exact h.kept (first :: front) (List.cons_ne_nil first front)
        (List.cons_prefix_cons.2 ⟨rfl, hfront⟩)
  · rintro ⟨⟨hkept, hfirst⟩, h⟩
    refine ⟨h.wanted, List.forall_mem_cons.2 ⟨hhidden.1 hfirst, h.visible⟩, ?_⟩
    intro front hne hfront
    obtain ⟨u, front, rfl⟩ := List.exists_cons_of_ne_nil hne
    obtain ⟨rfl, hrest⟩ := List.cons_prefix_cons.1 hfront
    by_cases hnil : front = []
    · rw [hnil]
      exact hkept
    · rw [hassoc]
      exact h.kept front hnil hrest

variable (s)

/-- A path leads to a file below the entries of a directory at `place`, and the search takes
that. -/
def Selects (place : List Text) (entries : List (Text × FileTree)) (path : Text) : Prop :=
  ∃ below name content, FileTree.at? (.directory entries) (below ++ [name]) = some (.file content)
    ∧ s.Takes place below name ∧ path = ofComponents (place ++ below ++ [name])

variable {s} {place : List Text} {path : Text}

theorem not_selects_nil : ¬ s.Selects place [] path := by
  rintro ⟨below, name, content, hat, -, -⟩
  cases below with
  | nil => cases hat
  | cons first below => cases hat

/-- The entries of a directory select each for itself. -/
theorem selects_cons {first : Text} {tree : FileTree} {entries : List (Text × FileTree)}
    (hfresh : first ∉ Keyed.keys entries) :
    s.Selects place ((first, tree) :: entries) path
      ↔ s.Selects place [(first, tree)] path ∨ s.Selects place entries path := by
  have hone : ∀ {name : Text} {rest : List Text}, first ≠ name →
      FileTree.at? (.directory [(first, tree)]) (name :: rest) = none := by
    intro name rest hne
    rw [FileTree.at?_directory_cons, if_neg hne]
    rfl
  have hnone : ∀ rest : List Text,
      FileTree.at? (.directory entries) (first :: rest) = none := by
    intro rest
    have hentry : FileTree.entry? (.directory entries) first = none :=
      Keyed.find?_eq_none_iff.2 hfresh
    rw [FileTree.at?_cons, hentry]
    rfl
  have hat : ∀ (rest : List Text) (content : Bytes), rest ≠ [] →
      (FileTree.at? (.directory ((first, tree) :: entries)) rest = some (.file content)
        ↔ FileTree.at? (.directory [(first, tree)]) rest = some (.file content)
          ∨ FileTree.at? (.directory entries) rest = some (.file content)) := by
    intro rest content hrest
    obtain ⟨name, rest, rfl⟩ := List.exists_cons_of_ne_nil hrest
    rw [FileTree.at?_directory_cons]
    by_cases hname : first = name
    · subst hname
      rw [if_pos rfl, FileTree.at?_directory_cons, if_pos rfl, hnone]
      simp
    · rw [if_neg hname, hone hname]
      simp
  constructor
  · rintro ⟨below, name, content, hfound, htakes, hpath⟩
    rcases (hat _ content (by simp)).1 hfound with hfound | hfound
    · exact .inl ⟨below, name, content, hfound, htakes, hpath⟩
    · exact .inr ⟨below, name, content, hfound, htakes, hpath⟩
  · rintro (⟨below, name, content, hfound, htakes, hpath⟩
      | ⟨below, name, content, hfound, htakes, hpath⟩)
    · exact ⟨below, name, content, (hat _ content (by simp)).2 (.inl hfound), htakes, hpath⟩
    · exact ⟨below, name, content, (hat _ content (by simp)).2 (.inr hfound), htakes, hpath⟩

theorem selects_file {name : Text} {content : Bytes} :
    s.Selects place [(name, .file content)] path
      ↔ s.Takes place [] name ∧ path = ofComponents (place ++ [name]) := by
  constructor
  · rintro ⟨below, last, found, hat, htakes, hpath⟩
    cases below with
    | nil =>
      rw [List.nil_append, FileTree.at?_directory_cons] at hat
      split at hat
      · rename_i hname
        dsimp only at hname
        subst hname
        rw [List.append_nil] at hpath
        exact ⟨htakes, hpath⟩
      · cases hat
    | cons first below =>
      rw [List.cons_append, FileTree.at?_directory_cons] at hat
      split at hat
      · cases below with
        | nil => cases hat
        | cons next below => cases hat
      · cases hat
  · rintro ⟨htakes, hpath⟩
    refine ⟨[], name, content, ?_, htakes, by rwa [List.append_nil]⟩
    rw [List.nil_append, FileTree.at?_directory_cons, if_pos rfl]
    rfl

theorem selects_directory {first : Text} {entries : List (Text × FileTree)} :
    s.Selects place [(first, .directory entries)] path
      ↔ (s.locale.excludes s.exclude (ofComponents (place ++ [first])) = false
          ∧ Path.isHidden first = false)
        ∧ s.Selects (place ++ [first]) entries path := by
  have hassoc : ∀ (below : List Text) (name : Text),
      place ++ first :: below ++ [name] = place ++ [first] ++ below ++ [name] := by simp
  constructor
  · rintro ⟨below, name, content, hat, htakes, hpath⟩
    cases below with
    | nil =>
      rw [List.nil_append, FileTree.at?_directory_cons] at hat
      split at hat
      · cases hat
      · cases hat
    | cons next below =>
      rw [List.cons_append, FileTree.at?_directory_cons] at hat
      split at hat
      · rename_i hname
        dsimp only at hname
        subst hname
        obtain ⟨hfirst, hrest⟩ := takes_cons.1 htakes
        rw [hassoc] at hpath
        exact ⟨hfirst, below, name, content, hat, hrest, hpath⟩
      · cases hat
  · rintro ⟨hfirst, below, name, content, hat, htakes, hpath⟩
    refine ⟨first :: below, name, content, ?_, takes_cons.2 ⟨hfirst, htakes⟩, ?_⟩
    · rw [List.cons_append, FileTree.at?_directory_cons, if_pos rfl]
      exact hat
    · rw [hassoc]
      exact hpath

/-! ## The walk -/

mutual

theorem mem_entryPaths {place : List Text} {name : Text} {tree : FileTree}
    (h : tree.Distinct) :
    path ∈ s.entryPaths place name tree ↔ s.Selects place [(name, tree)] path := by
  cases tree with
  | file content =>
    rw [entryPaths, selects_file, takes_nil]
    simp only [Bool.and_eq_true, Bool.not_eq_true']
    split
    · rename_i htaken
      rw [List.mem_singleton, and_iff_right htaken]
    · rename_i hleft
      exact iff_of_false List.not_mem_nil fun hboth => hleft hboth.1
  | directory entries =>
    obtain ⟨hnodup, hentries⟩ := FileTree.distinct_directory_iff.1 h
    rw [entryPaths, selects_directory]
    simp only [Bool.or_eq_true]
    split
    · rename_i hleft
      refine iff_of_false List.not_mem_nil fun hboth => ?_
      rcases hleft with hexcluded | hhidden
      · rw [hboth.1.1] at hexcluded
        cases hexcluded
      · rw [hboth.1.2] at hhidden
        cases hhidden
    · rename_i hentered
      simp only [not_or, Bool.not_eq_true] at hentered
      rw [and_iff_right hentered]
      exact mem_directoryPaths hnodup hentries

/-- The walk through a directory finds what its entries select. -/
theorem mem_directoryPaths {place : List Text} {entries : List (Text × FileTree)}
    (hnodup : (Keyed.keys entries).Nodup) (hentries : ∀ entry ∈ entries, entry.2.Distinct) :
    path ∈ s.directoryPaths place entries ↔ s.Selects place entries path := by
  cases entries with
  | nil =>
    rw [directoryPaths]
    exact iff_of_false List.not_mem_nil not_selects_nil
  | cons entry rest =>
    obtain ⟨name, tree⟩ := entry
    obtain ⟨hfresh, hnodup⟩ := List.nodup_cons.1 hnodup
    obtain ⟨htree, hentries⟩ := List.forall_mem_cons.1 hentries
    rw [directoryPaths, List.mem_append, selects_cons hfresh]
    exact or_congr (mem_entryPaths htree) (mem_directoryPaths hnodup hentries)

end

/-- What is selected leads through an entry. -/
theorem Selects.exists_entry {entries : List (Text × FileTree)} (h : s.Selects place entries path)
    (hplace : AreNames place) (hnamed : EntriesNamed entries) :
    ∃ first rest, first ∈ Keyed.keys entries ∧ AreNames (place ++ first :: rest)
      ∧ path = ofComponents (place ++ first :: rest) := by
  obtain ⟨below, name, content, hat, -, rfl⟩ := h
  have hdirectory : Named (.directory entries) := by rwa [Named]
  have hnames : AreNames (below ++ [name]) := hdirectory.areNames hat
  obtain ⟨first, rest, hcons⟩ := List.exists_cons_of_ne_nil (show below ++ [name] ≠ [] by simp)
  rw [hcons, FileTree.at?_cons] at hat
  obtain ⟨entry, hentry, -⟩ := Option.bind_eq_some_iff.1 hat
  refine ⟨first, rest, ?_, ?_, by rw [List.append_assoc, hcons]⟩
  · exact List.mem_map_of_mem (f := (·.1)) (Keyed.mem_of_find? hentry)
  · rw [← hcons]
    exact Path.areNames_append.2 ⟨hplace, hnames⟩

mutual

theorem nodup_entryPaths {place : List Text} {name : Text} {tree : FileTree}
    (hplace : AreNames place) (hname : IsName name) (hnamed : tree.Named) (h : tree.Distinct) :
    (s.entryPaths place name tree).Nodup := by
  cases tree with
  | file content =>
    rw [entryPaths]
    split
    · exact List.nodup_singleton _
    · exact List.nodup_nil
  | directory entries =>
    obtain ⟨hnodup, hentries⟩ := FileTree.distinct_directory_iff.1 h
    rw [Named] at hnamed
    rw [entryPaths]
    split
    · exact List.nodup_nil
    · exact nodup_directoryPaths
        (Path.areNames_append.2 ⟨hplace, Path.areNames_singleton.2 hname⟩) hnamed hnodup hentries

/-- The walk through a directory finds nothing twice, for different names lead to different
paths. -/
theorem nodup_directoryPaths {place : List Text} {entries : List (Text × FileTree)}
    (hplace : AreNames place) (hnamed : EntriesNamed entries)
    (hnodup : (Keyed.keys entries).Nodup) (hentries : ∀ entry ∈ entries, entry.2.Distinct) :
    (s.directoryPaths place entries).Nodup := by
  cases entries with
  | nil =>
    rw [directoryPaths]
    exact List.nodup_nil
  | cons entry rest =>
    obtain ⟨name, tree⟩ := entry
    obtain ⟨hfresh, hnodup⟩ := List.nodup_cons.1 hnodup
    obtain ⟨htree, hentries⟩ := List.forall_mem_cons.1 hentries
    rw [EntriesNamed] at hnamed
    obtain ⟨hname, htreeNamed, hrestNamed⟩ := hnamed
    rw [directoryPaths, List.nodup_append]
    refine ⟨nodup_entryPaths hplace hname htreeNamed htree,
      nodup_directoryPaths hplace hrestNamed hnodup hentries, ?_⟩
    rintro path hleft other hright rfl
    have hone : EntriesNamed [(name, tree)] := by
      rw [EntriesNamed, EntriesNamed]
      exact ⟨hname, htreeNamed, trivial⟩
    obtain ⟨first, below, hfirst, hnames, hpath⟩ :=
      ((mem_entryPaths htree).1 hleft).exists_entry hplace hone
    obtain ⟨second, below', hsecond, hnames', hpath'⟩ :=
      ((mem_directoryPaths hnodup hentries).1 hright).exists_entry hplace hrestNamed
    obtain rfl : first = name := List.mem_singleton.1 hfirst
    have hsame : place ++ first :: below = place ++ second :: below' :=
      (Path.ofComponents_inj hnames hnames').1 (hpath.symm.trans hpath')
    obtain ⟨rfl, -⟩ := List.cons.inj (List.append_cancel_left hsame)
    exact hfresh hsecond

end

/-! ## The whole search -/

/-- The paths that a search of a directory finds. -/
theorem run_of_at? {tree : FileTree} {dir : Text} {entries : List (Text × FileTree)}
    (hat : tree.at? (Path.resolveComponents s.locale.cwd dir) = some (.directory entries)) :
    s.run tree dir
      = (Text.sort (s.directoryPaths (Path.resolveComponents s.locale.cwd dir) entries), []) := by
  have hrooted : tree.at? ([] ++ Path.resolveComponents s.locale.cwd dir)
      = some (.directory entries) := hat
  have hfollow := FileTree.follow_of_at? (Path.areNames_resolveComponents _ _) hrooted
  rw [List.nil_append] at hfollow
  rw [run]
  dsimp only
  rw [hfollow]
  dsimp only
  rw [hat]

/-- A search of what is no directory finds nothing. -/
theorem run_of_no_directory {tree : FileTree} {dir : Text}
    (h : ∀ entries, tree.at? (Path.resolveComponents s.locale.cwd dir)
      ≠ some (.directory entries)) : (s.run tree dir).1 = [] := by
  refine List.eq_nil_iff_forall_not_mem.2 fun path hpath => ?_
  obtain ⟨entries, hat, -, -⟩ := s.run_of_mem hpath
  exact h entries hat

/-- A search finds each file below the directory that is searched which it takes, and it finds
nothing else: the file has a wanted extension, neither it nor a directory on the way to it is
excluded, and none of these directories is hidden.  It finds them by their absolute paths, in the
order of the code units and none twice. -/
theorem run_exact (s : Search) {tree : FileTree} (hnamed : tree.Named) (hdistinct : tree.Distinct)
    (dir : Text) :
    (s.run tree dir).1.Pairwise (· < ·)
      ∧ ∀ path, path ∈ (s.run tree dir).1
        ↔ ∃ below name content,
          tree.at? (Path.resolveComponents s.locale.cwd dir ++ below ++ [name])
              = some (.file content)
            ∧ s.Takes (Path.resolveComponents s.locale.cwd dir) below name
            ∧ path = ofComponents (Path.resolveComponents s.locale.cwd dir ++ below ++ [name]) := by
  have hplace : AreNames (Path.resolveComponents s.locale.cwd dir) :=
    Path.areNames_resolveComponents _ _
  by_cases hdirectory : ∃ entries,
      tree.at? (Path.resolveComponents s.locale.cwd dir) = some (.directory entries)
  · obtain ⟨entries, hat⟩ := hdirectory
    have hentriesNamed := hnamed.at? hat
    rw [Named] at hentriesNamed
    obtain ⟨hnodup, hentries⟩ := FileTree.distinct_directory_iff.1 (hdistinct.at? hat)
    rw [run_of_at? hat]
    refine ⟨pairwise_lt_sort (nodup_directoryPaths hplace hentriesNamed hnodup hentries), ?_⟩
    intro path
    have hbelow : ∀ below : List Text, ∀ name,
        tree.at? (Path.resolveComponents s.locale.cwd dir ++ below ++ [name])
          = FileTree.at? (.directory entries) (below ++ [name]) := by
      intro below name
      rw [List.append_assoc, FileTree.at?_append, hat]
      rfl
    simp only [hbelow]
    exact List.mem_mergeSort.trans (mem_directoryPaths hnodup hentries)
  · have hnone := run_of_no_directory fun entries hat => hdirectory ⟨entries, hat⟩
    rw [hnone]
    refine ⟨List.Pairwise.nil, fun path => iff_of_false List.not_mem_nil ?_⟩
    rintro ⟨below, name, content, hat, -, -⟩
    have hassoc : Path.resolveComponents s.locale.cwd dir ++ below ++ [name]
        = Path.resolveComponents s.locale.cwd dir ++ (below ++ [name]) := List.append_assoc ..
    obtain ⟨first, rest, hcons⟩ :=
      List.exists_cons_of_ne_nil (show below ++ [name] ≠ [] by simp)
    rw [hassoc, hcons] at hat
    exact hdirectory (FileTree.exists_directory_of_at? hat)

end

/-- What is in a library with a directory that is hidden, one that is not wanted, and a module
that is not wanted. -/
def libraryEntries : List (Text × FileTree) :=
  [("b.pm", .file []), ("a.pod", .file []), ("c.txt", .file []), ("b_old.pm", .file []),
    (".git", .directory [("d.pm", .file [])]), ("old", .directory [("e.pm", .file [])]),
    ("sub", .directory [(".f.pm", .file [])])]

def hiddenLibrary : FileTree := .directory [("lib", .directory libraryEntries)]

/-- A search that leaves out that directory and modules that are called like that one. -/
def librarySearch : Search := ⟨⟨"/", "/home"⟩, ["/lib/old", "*_old.pm"], [".pm", ".pod"]⟩

attribute [local instance] endingMatcher

/-- A hidden file is found where a hidden directory is passed over. -/
theorem run_exact_library :
    hiddenLibrary.Named ∧ hiddenLibrary.Distinct
      ∧ (librarySearch.run hiddenLibrary "lib").1
        = [ofString "/lib/a.pod", ofString "/lib/b.pm", ofString "/lib/sub/.f.pm"]
      ∧ (librarySearch.run hiddenLibrary "lib").1.Pairwise (· < ·)
      ∧ ∀ path, path ∈ (librarySearch.run hiddenLibrary "lib").1
        ↔ ∃ below name content,
          hiddenLibrary.at? (Path.resolveComponents librarySearch.locale.cwd "lib" ++ below
              ++ [name]) = some (.file content)
            ∧ librarySearch.Takes (Path.resolveComponents librarySearch.locale.cwd "lib") below name
            ∧ path = ofComponents
              (Path.resolveComponents librarySearch.locale.cwd "lib" ++ below ++ [name]) := by
  have hnamed : hiddenLibrary.Named := by
    simp only [hiddenLibrary, libraryEntries, Named, EntriesNamed]
    decide
  have hdistinct : hiddenLibrary.Distinct := by
    simp only [hiddenLibrary, libraryEntries, FileTree.distinct_directory_iff, List.forall_mem_cons,
      FileTree.distinct_file, List.not_mem_nil, false_implies, implies_true]
    decide
  have hat : hiddenLibrary.at? (Path.resolveComponents librarySearch.locale.cwd "lib")
      = some (.directory libraryEntries) := rfl
  have hwalk : librarySearch.directoryPaths
      (Path.resolveComponents librarySearch.locale.cwd "lib") libraryEntries
      = [ofString "/lib/b.pm", ofString "/lib/a.pod", ofString "/lib/sub/.f.pm"] := by
    simp only [libraryEntries, directoryPaths, entryPaths]
    decide +kernel
  obtain ⟨hsorted, hexact⟩ := run_exact librarySearch hnamed hdistinct "lib"
  have hfound : (librarySearch.run hiddenLibrary "lib").1
      = [ofString "/lib/a.pod", ofString "/lib/b.pm", ofString "/lib/sub/.f.pm"] := by
    have hperm : (librarySearch.run hiddenLibrary "lib").1.Perm
        [ofString "/lib/a.pod", ofString "/lib/b.pm", ofString "/lib/sub/.f.pm"] := by
      rw [run_of_at? hat, hwalk]
      exact (List.mergeSort_perm _ _).trans (.swap _ _ _)
    have hnever : ∀ a b : Text, a < b → b < a → a = b :=
      fun a b hab hba => absurd hba (List.lt_asymm hab)
    exact hperm.eq_of_pairwise (fun a b _ _ => hnever a b) hsorted (by decide)
  exact ⟨hnamed, hdistinct, hfound, hsorted, hexact⟩

end Search

end PodLoom
