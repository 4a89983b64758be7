import PodLoom.Proofs.File.Path
import PodLoom.Proofs.File.Tree

set_option autoImplicit false

/-!
# What writing a file leaves alone

To make directories changes no file (`read_makeDirectories`), and to write one file changes no
other (`read_put_of_ne`).  Both follow from one law: what is put at a place can be seen only on
the way to it and behind it (`at?_put_of_apart`).

They are stated of paths in normal form, where different paths lead to different places.
-/

namespace PodLoom

open Text
open PodLoom.Path (AreNames IsName ofComponents)

namespace FileTree

variable {tree : FileTree} {place other : List Text}

/-! ## Places on the way to others -/

theorem at?_append (tree : FileTree) (front back : List Text) :
    tree.at? (front ++ back) = (tree.at? front).bind (·.at? back) := by
  induction front generalizing tree with
  | nil => rfl
  | cons name rest ih =>
    rw [List.cons_append, at?_cons, at?_cons, Option.bind_assoc]
    exact congrArg _ (funext ih)

theorem at?_file_cons (content : Bytes) (name : Text) (rest : List Text) :
    at? (.file content) (name :: rest) = none := rfl

/-- Whatever stands at a place, what is before it on the way is a directory. -/
theorem exists_directory_of_at? {front rest : List Text} {name : Text} {t : FileTree}
    (h : tree.at? (front ++ name :: rest) = some t) :
    ∃ entries, tree.at? front = some (.directory entries) := by
  rw [at?_append] at h
  obtain ⟨sub, hsub, hrest⟩ := Option.bind_eq_some_iff.1 h
  cases sub with
  | file content => exact absurd hrest (by rw [at?_file_cons]; exact nofun)
  | directory entries => exact ⟨entries, hsub⟩

/-- A file is on the way to nothing but itself. -/
theorem eq_of_file_isPrefix {content : Bytes} (h : tree.at? place = some (.file content))
    {t : FileTree} (hother : tree.at? other = some t) (hle : place <+: other) : other = place := by
  obtain ⟨rest, rfl⟩ := hle
  cases rest with
  | nil => exact List.append_nil place
  | cons name rest =>
    obtain ⟨entries, hentries⟩ := exists_directory_of_at? hother
    cases h.symm.trans hentries

/-! ## Putting at a place -/

/-- What is put at a place is seen nowhere but on the way to it and behind it. -/
theorem at?_put_of_apart (new : FileTree) (hfront : ¬ other <+: place)
    (hback : ¬ place <+: other) : (put new place tree).at? other = tree.at? other := by
  induction place generalizing other tree with
  | nil => exact absurd List.nil_prefix hback
  | cons name rest ih =>
    cases other with
    | nil => exact absurd List.nil_prefix hfront
    | cons name' rest' =>
      rw [at?_cons, at?_cons]
      by_cases hname : name' = name
      · subst hname
        have hfront' : ¬ rest' <+: rest := fun h => hfront (List.cons_prefix_cons.2 ⟨rfl, h⟩)
        have hback' : ¬ rest <+: rest' := fun h => hback (List.cons_prefix_cons.2 ⟨rfl, h⟩)
        rw [entry?_put_self, Option.bind_some, ih hfront' hback']
        cases tree.entry? name' with
        | some sub => rfl
        | none =>
          cases rest' with
          | nil => exact absurd List.nil_prefix hfront'
          | cons name more => rfl
      · rw [entry?_put_of_ne new hname]

/-- The places on the way to a directory that is put somewhere are directories. -/
theorem at?_put_of_isPrefix (entries : List (Text × FileTree)) (h : other <+: place)
    (tree : FileTree) :
    ∃ entries', (put (.directory entries) place tree).at? other = some (.directory entries') := by
  obtain ⟨rest, rfl⟩ := h
  cases rest with
  | nil => exact ⟨entries, by rw [List.append_nil, at?_put]⟩
  | cons name rest => exact exists_directory_of_at? (at?_put _ _ tree)

/-! ## Making directories -/

/-- To make directories is to put an empty one where nothing is, behind a directory. -/
theorem makeDirectory_cases {made names : List Text} {tree' : FileTree}
    (h : tree.makeDirectory made names = .ok tree') :
    tree' = tree ∨ ∃ front name rest, made ++ names = front ++ name :: rest
      ∧ (front = made ∨ ∃ entries, tree.at? front = some (.directory entries))
      ∧ tree.at? (front ++ [name]) = none ∧ tree' = put empty (made ++ names) tree := by
  induction names generalizing made with
  | nil =>
    cases h
    exact .inl rfl
  | cons name rest ih =>
    rw [makeDirectory] at h
    cases hplace : tree.at? (made ++ [name]) with
    | none =>
      rw [hplace] at h
      cases h
      exact .inr ⟨made, name, rest, rfl, .inl rfl, hplace, by rw [List.append_assoc]; rfl⟩
    | some t =>
      rw [hplace] at h
      cases t with
      | file content => cases h
      | directory entries =>
        rcases ih h with rfl | ⟨front, name', rest', hnames, hfront, hnone, rfl⟩
        · exact .inl rfl
        · rw [List.append_assoc] at hnames
          refine .inr ⟨front, name', rest', hnames, .inr ?_, hnone, by rw [List.append_assoc]; rfl⟩
          rcases hfront with rfl | hfront
          · exact ⟨entries, hplace⟩
          · exact hfront

/-- To make directories makes no file, and takes none away. -/
theorem at?_makeDirectories {path : Text} {made : FileTree}
    (h : tree.makeDirectories path = .ok made) (hother : other ≠ []) (content : Bytes) :
    made.at? other = some (.file content) ↔ tree.at? other = some (.file content) := by
  rcases makeDirectory_cases h with rfl | ⟨front, name, rest, hplace, hfront, hnone, rfl⟩
  · exact Iff.rfl
  rw [List.nil_append] at hplace ⊢
  rw [hplace]
  have hunder : ∀ {t}, front ++ [name] <+: other → tree.at? other ≠ some t := by
    rintro t ⟨more, rfl⟩ hat
    rw [at?_append, hnone] at hat
    cases hat
  have hway : front ++ [name] <+: front ++ name :: rest := ⟨rest, List.append_assoc ..⟩
  by_cases hon : other <+: front ++ name :: rest
  · refine ⟨fun hat => ?_, fun hat => ?_⟩
    · obtain ⟨entries, hentries⟩ := at?_put_of_isPrefix [] hon tree
      cases hat.symm.trans hentries
    · exfalso
      rcases List.prefix_or_prefix_of_prefix hon hway with hle | hle
      · rcases List.prefix_concat_iff.1 hle with heq | hle
        · exact hunder (heq ▸ List.prefix_rfl) hat
        · rcases hfront with rfl | ⟨entries, hentries⟩
          · exact hother (List.prefix_nil.1 hle)
          · obtain rfl := eq_of_file_isPrefix hat hentries hle
            cases hat.symm.trans hentries
      · exact hunder hle hat
  · by_cases hbehind : front ++ name :: rest <+: other
    · refine ⟨fun hat => ?_, fun hat => absurd hat (hunder ?_)⟩
      · obtain ⟨more, rfl⟩ := hbehind
        rw [at?_append, at?_put] at hat
        cases more <;> cases hat
      · exact hway.trans hbehind
    · rw [at?_put_of_apart empty hon hbehind]

/-! ## Paths in normal form -/

/-- Names are followed as far as directories go. -/
theorem follow_names {start names : List Text} (h : AreNames names) {target : List Text}
    (hfollow : tree.follow start names = .ok target) :
    target = start ++ names ∧ ∀ front name rest, names = front ++ name :: rest →
      ∃ entries, tree.at? (start ++ front) = some (.directory entries) := by
  induction names generalizing start with
  | nil =>
    cases hfollow
    refine ⟨(List.append_nil _).symm, fun front name rest hnames => ?_⟩
    exact absurd hnames (by simp)
  | cons name rest ih =>
    have hname : IsName name := h name List.mem_cons_self
    unfold follow at hfollow
    cases hstart : tree.at? start with
    | none =>
      rw [hstart] at hfollow
      cases hfollow
    | some t =>
      rw [hstart] at hfollow
      cases t with
      | file content => cases hfollow
      | directory entries =>
        dsimp only at hfollow
        rw [if_neg hname.ne_here, if_neg hname.ne_above] at hfollow
        obtain ⟨rfl, hway⟩ := ih (fun p hp => h p (List.mem_cons_of_mem name hp)) hfollow
        refine ⟨by simp, fun front name' rest' hnames => ?_⟩
        cases front with
        | nil => exact ⟨entries, by rw [List.append_nil, hstart]⟩
        | cons first front =>
          obtain ⟨rfl, hrest⟩ := List.cons.inj hnames
          obtain ⟨entries', hentries'⟩ := hway front name' rest' hrest
          exact ⟨entries', by rw [← hentries', List.append_assoc]; rfl⟩

/-- Names lead to what stands at their place. -/
theorem follow_of_at? {start names : List Text} (h : AreNames names) {t : FileTree}
    (hat : tree.at? (start ++ names) = some t) : tree.follow start names = .ok (start ++ names) := by
  induction names generalizing start with
  | nil => rw [List.append_nil]; rfl
  | cons name rest ih =>
    have hname : IsName name := h name List.mem_cons_self
    obtain ⟨entries, hentries⟩ := exists_directory_of_at? hat
    have hassoc : start ++ name :: rest = start ++ [name] ++ rest := by simp
    unfold follow
    rw [hentries]
    dsimp only
    rw [if_neg hname.ne_here, if_neg hname.ne_above]
    rw [hassoc] at hat ⊢
    exact ih (fun p hp => h p (List.mem_cons_of_mem name hp)) hat

theorem locate_names (cwd : Text) {parts : List Text} (h : AreNames parts) :
    tree.locate cwd (ofComponents parts) = tree.follow [] parts := by
  rw [locate, Path.components_ofComponents h]
  rfl

/-- What is read by a path in normal form is the file at its place. -/
theorem read_names_iff (cwd : Text) {parts : List Text} (h : AreNames parts) (hne : parts ≠ [])
    {content : Bytes} :
    tree.read cwd (ofComponents parts) = .ok content ↔ tree.at? parts = some (.file content) := by
  have hend : Path.endsInSlash (ofComponents parts) = false := Path.endsInSlash_ofComponents h hne
  rw [read, locate_names cwd h]
  refine ⟨fun hread => ?_, fun hat => ?_⟩
  · cases hfollow : tree.follow [] parts with
    | error e =>
      rw [hfollow] at hread
      cases hread
    | ok target =>
      obtain rfl : parts = target := (follow_names h hfollow).1.symm
      rw [hfollow] at hread
      dsimp only [bind, Except.bind] at hread
      rw [hend] at hread
      cases hat : tree.at? parts with
      | none =>
        rw [hat] at hread
        cases hread
      | some t =>
        rw [hat] at hread
        cases t with
        | directory entries => cases hread
        | file found =>
          obtain rfl := Except.ok.inj hread
          rfl
  · rw [follow_of_at? h hat]
    dsimp only [bind, Except.bind]
    rw [List.nil_append, hat, hend]
    rfl

/-- To make directories changes nothing that can be read. -/
theorem read_makeDirectories {path : Text} {made : FileTree}
    (hmade : tree.makeDirectories path = .ok made) (cwd : Text) {parts : List Text}
    (h : AreNames parts) (hne : parts ≠ []) (content : Bytes) :
    made.read cwd (ofComponents parts) = .ok content
      ↔ tree.read cwd (ofComponents parts) = .ok content := by
  rw [read_names_iff cwd h hne, read_names_iff cwd h hne, at?_makeDirectories hmade hne]

/-- To write a file by one path changes nothing that is read by another. -/
theorem read_put_of_ne {cwd : Text} {parts parts' : List Text} {files : FileTree}
    (h : AreNames parts) (hne : parts ≠ []) (h' : AreNames parts')
    (hopen : tree.openFile cwd (ofComponents parts') = .ok (place, files))
    (hparts : ofComponents parts' ≠ ofComponents parts) (new content : Bytes) :
    (put (.file new) place files).read cwd (ofComponents parts) = .ok content
      ↔ tree.read cwd (ofComponents parts) = .ok content := by
  obtain ⟨hlocate, hplace, -, rfl⟩ := openFile_eq_ok hopen
  rw [locate_names cwd h'] at hlocate
  obtain ⟨hplaces, hway⟩ := follow_names h' hlocate
  obtain rfl : parts' = place := hplaces.symm
  rw [read_names_iff cwd h hne, read_names_iff cwd h hne, put_put]
  by_cases hon : parts <+: parts'
  · obtain ⟨rest, rfl⟩ := hon
    cases rest with
    | nil => exact absurd (by rw [List.append_nil]) hparts
    | cons name rest =>
      -- On the way to the file that is written there are directories, before and after.
      refine ⟨fun hat => ?_, fun hat => ?_⟩
      · obtain ⟨entries, hentries⟩ := exists_directory_of_at? (at?_put (.file new) _ tree)
        cases hat.symm.trans hentries
      · obtain ⟨entries, hentries⟩ := hway parts name rest rfl
        cases hat.symm.trans hentries
  · by_cases hbehind : parts' <+: parts
    · obtain ⟨rest, rfl⟩ := hbehind
      cases rest with
      | nil => exact absurd (by rw [List.append_nil]) hparts
      | cons name rest =>
        -- Behind a file there is nothing, and what was written to was no directory.
        refine ⟨fun hat => ?_, fun hat => ?_⟩
        · obtain ⟨entries, hentries⟩ := exists_directory_of_at? hat
          cases (at?_put _ _ _).symm.trans hentries
        · obtain ⟨entries, hentries⟩ := exists_directory_of_at? hat
          exact absurd hentries (hplace entries)
    · rw [at?_put_of_apart _ hon hbehind]

end FileTree

end PodLoom
