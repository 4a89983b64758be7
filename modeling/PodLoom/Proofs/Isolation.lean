import PodLoom.Proofs.Trouble

set_option autoImplicit false

/-!
# Batches isolate failures

The files of a batch are converted one after the other in one session, and each of them may fail
in its own way.  If the paths of their outputs keep apart (`Apart`), no conversion notices those
before it: it fails if it would fail alone, and its output is what it would be alone
(`convertOneUnder_reached`).  Nor is its output touched by those after it.

So the batch tells at its end how many files would be converted alone, and fails if one of them
would not be (`runBatch_isolates`).
-/

namespace PodLoom

open Text CodeUnit
open PodLoom.Path (IsEntry)

namespace Batch

variable (b : Batch) (troubles : Text → Trouble)

/-- The outputs of files keep apart: no two of them have the same path, none has that of one of the
files, and none is an ancestor of another. -/
structure Apart (cwd : Text) (files : List Text) : Prop where
  distinct : (files.map (b.outputPath cwd)).Nodup
  sources : ∀ file ∈ files, ∀ other ∈ files, b.outputPath cwd file ≠ other
  ancestors : ∀ file ∈ files, ∀ other ∈ files,
    ¬ Path.IsAncestor (b.outputPath cwd file) (b.outputPath cwd other)

variable {b} in
theorem Apart.notMem {cwd : Text} {before after : List Text} {file : Text}
    (h : b.Apart cwd (before ++ file :: after)) :
    b.outputPath cwd file ∉ before.map (b.outputPath cwd)
      ∧ b.outputPath cwd file ∉ after.map (b.outputPath cwd) := by
  have hdistinct := h.distinct
  rw [List.map_append, List.map_cons] at hdistinct
  obtain ⟨-, hrest, hdisjoint⟩ := List.nodup_append.1 hdistinct
  exact ⟨fun hbefore => hdisjoint _ hbefore _ List.mem_cons_self rfl, (List.nodup_cons.1 hrest).1⟩

section

variable [Decoders]

/-! ## Sessions along a batch -/

/-- The session after a file was converted and reported on. -/
def stepUnder (s : Session) (file : Text) : Session :=
  b.report (b.convertOneUnder (troubles file) s file).2 file
    (b.convertOneUnder (troubles file) s file).1

/-- The session after files were converted and reported on. -/
def reachedUnder (s : Session) (files : List Text) : Session :=
  (b.convertAllUnder troubles s files).2

theorem reachedUnder_cons (s : Session) (file : Text) (rest : List Text) :
    b.reachedUnder troubles s (file :: rest)
      = b.reachedUnder troubles (b.stepUnder troubles s file) rest := rfl

theorem reachedUnder_append (s : Session) (before after : List Text) :
    b.reachedUnder troubles s (before ++ after)
      = b.reachedUnder troubles (b.reachedUnder troubles s before) after := by
  induction before generalizing s with
  | nil => rfl
  | cons file rest ih => rw [List.cons_append, reachedUnder_cons, reachedUnder_cons, ih]

variable {s : Session}

theorem files_stepUnder (file : Text) :
    (b.stepUnder troubles s file).files = (b.convertOneUnder (troubles file) s file).2.files :=
  (b.report_files _ file _).1

theorem locale_stepUnder (file : Text) : (b.stepUnder troubles s file).locale = s.locale :=
  (b.report_files _ file _).2.trans (b.stays_convertOneUnder (troubles file) s file).1

theorem locale_reachedUnder (files : List Text) :
    (b.reachedUnder troubles s files).locale = s.locale := by
  induction files generalizing s with
  | nil => rfl
  | cons file rest ih => rw [reachedUnder_cons, ih, locale_stepUnder]

/-- To convert files lets the tree grow by the paths of their outputs. -/
theorem grown_reachedUnder {files : List Text} (hfiles : ∀ file ∈ files, IsEntry file)
    (hroot : s.files.IsDirectoryAt []) :
    FileTree.Grown (files.map (b.outputPath s.locale.cwd)) s.files
      (b.reachedUnder troubles s files).files := by
  induction files generalizing s with
  | nil => exact .refl _ _
  | cons file rest ih =>
    obtain ⟨hfile, hrest⟩ := List.forall_mem_cons.1 hfiles
    have hfirst := b.grown_convertOneUnder (troubles file) hfile hroot
    rw [← b.files_stepUnder troubles] at hfirst
    have hmore := ih (s := b.stepUnder troubles s file) hrest (hfirst.kept [] hroot)
    rw [b.locale_stepUnder] at hmore
    rw [reachedUnder_cons, List.map_cons]
    refine (hfirst.of_subset ?_).trans (hmore.of_subset (List.subset_cons_self _ _))
    exact List.cons_subset_cons _ (List.nil_subset _)

/-! ## Conversions along a batch -/

section

variable {before after : List Text} {file : Text}
  (hfiles : ∀ f ∈ before ++ file :: after, IsEntry f) (hroot : s.files.IsDirectoryAt [])
  (hapart : b.Apart s.locale.cwd (before ++ file :: after))

include hfiles hroot hapart

/-- A conversion that comes after others fails if it does so alone, and leaves the same output. -/
theorem convertOneUnder_reached (t : Trouble) :
    let target := b.outputPath s.locale.cwd file
    let reached := b.reachedUnder troubles s before
    ((b.convertOneUnder t reached file).1 = none ↔ (b.convertOneUnder t s file).1 = none)
      ∧ ∀ content,
        (b.convertOneUnder t reached file).2.files.read s.locale.cwd target = .ok content
          ↔ (b.convertOneUnder t s file).2.files.read s.locale.cwd target = .ok content := by
  intro target reached
  have hmem : file ∈ before ++ file :: after := by simp
  have hearlier : ∀ other ∈ before, other ∈ before ++ file :: after :=
    fun _ h => List.mem_append_left _ h
  have hgrown : FileTree.Grown (before.map (b.outputPath s.locale.cwd)) s.files reached.files :=
    b.grown_reachedUnder troubles (fun f hf => hfiles f (hearlier f hf)) hroot
  refine b.convertOneUnder_alone (hfiles file hmem) hroot
    (b.locale_reachedUnder troubles before) hgrown ?_ hapart.notMem.1 ?_ ?_
  · intro hsource
    obtain ⟨other, hother, heq⟩ := List.mem_map.1 hsource
    exact hapart.sources other (hearlier other hother) file hmem heq
  · intro path hpath
    obtain ⟨other, hother, rfl⟩ := List.mem_map.1 hpath
    exact hapart.ancestors other (hearlier other hother) file hmem
  · intro path hpath
    obtain ⟨other, hother, rfl⟩ := List.mem_map.1 hpath
    exact hapart.ancestors file hmem other (hearlier other hother)

/-- The output of a file is left as it is by the conversions that come after it. -/
theorem read_reachedUnder (content : Bytes) :
    let target := b.outputPath s.locale.cwd file
    (b.reachedUnder troubles s (before ++ file :: after)).files.read s.locale.cwd target
        = .ok content
      ↔ (b.convertOneUnder (troubles file) s file).2.files.read s.locale.cwd target
        = .ok content := by
  intro target
  -- Behind the file itself, the tree grows by the outputs of later files only.
  let step := b.stepUnder troubles (b.reachedUnder troubles s before) file
  have hfile : IsEntry file := hfiles file (by simp)
  have hlocale : step.locale = s.locale :=
    (b.locale_stepUnder troubles file).trans (b.locale_reachedUnder troubles before)
  have hreached : (b.reachedUnder troubles s before).files.IsDirectoryAt [] := by
    refine (b.grown_reachedUnder troubles (fun f hf => ?_) hroot).kept [] hroot
    exact hfiles f (List.mem_append_left _ hf)
  have hstep : step.files.IsDirectoryAt [] := by
    rw [b.files_stepUnder troubles]
    exact (b.grown_convertOneUnder (troubles file) hfile hreached).kept [] hreached
  have hgrown : FileTree.Grown (after.map (b.outputPath step.locale.cwd)) step.files
      (b.reachedUnder troubles step after).files := by
    refine b.grown_reachedUnder troubles (fun f hf => ?_) hstep
    exact hfiles f (List.mem_append_right _ (List.mem_cons_of_mem file hf))
  rw [hlocale] at hgrown
  rw [b.reachedUnder_append, b.reachedUnder_cons]
  have halone := (b.convertOneUnder_reached troubles hfiles hroot hapart (troubles file)).2 content
  rw [← b.files_stepUnder troubles] at halone
  refine Iff.trans ?_ halone
  refine b.read_outputPath_iff s.locale.cwd hfile fun htarget => ?_
  exact hgrown.read s.locale.cwd htarget hapart.notMem.2 content

end

/-! ## What a batch tells -/

/-- The line about a file that was converted. -/
def convertedLine (cwd file : Text) : Bytes :=
  Utf8.encode (b.reportName cwd file ++ ofString " -> " ++ b.outputPath cwd file ++ [newline])

/-- The line that sums up. -/
def summaryLine (converted all : Nat) : Bytes :=
  Utf8.encode (ofString "Converted " ++ ofNat converted ++ ofString " of " ++ ofNat all
    ++ ofString " files" ++ [newline])

theorem output_stepUnder (file : Text) :
    (b.stepUnder troubles s file).output = s.output
      ++ if (b.convertOneUnder (troubles file) s file).1.isSome then []
        else b.convertedLine s.locale.cwd file := by
  obtain ⟨hlocale, houtput⟩ := b.stays_convertOneUnder (troubles file) s file
  rw [stepUnder]
  cases (b.convertOneUnder (troubles file) s file).1 with
  | none =>
    rw [report, Session.print, Session.write, houtput, hlocale]
    rfl
  | some e =>
    rw [report, Session.say, houtput]
    exact (List.append_nil _).symm

/-- A batch counts the files that fail and tells of the others, if each of them fails as
foreseen when its turn comes. -/
theorem convertAllUnder_foreseen {fails : Text → Bool} {files : List Text}
    (h : ∀ before file after, files = before ++ file :: after →
      (b.convertOneUnder (troubles file) (b.reachedUnder troubles s before) file).1.isSome
        = fails file) :
    (b.convertAllUnder troubles s files).1 = files.countP fails
      ∧ (b.reachedUnder troubles s files).output = s.output
        ++ (files.filter (!fails ·)).flatMap (b.convertedLine s.locale.cwd) := by
  induction files generalizing s with
  | nil => exact ⟨rfl, (List.append_nil _).symm⟩
  | cons file rest ih =>
    have hfirst : (b.convertOneUnder (troubles file) s file).1.isSome = fails file :=
      h [] file rest rfl
    obtain ⟨hcount, houtput⟩ := ih (s := b.stepUnder troubles s file)
      fun before other after hrest => h (file :: before) other after (congrArg _ hrest)
    have hfails : (b.convertAllUnder troubles s (file :: rest)).1
        = (if fails file then 1 else 0)
          + (b.convertAllUnder troubles (b.stepUnder troubles s file) rest).1 := by
      rw [← hfirst]
      rfl
    refine ⟨?_, ?_⟩
    · rw [hfails, hcount, List.countP_cons, Nat.add_comm]
    · rw [reachedUnder_cons, houtput, b.locale_stepUnder, b.output_stepUnder, hfirst,
        List.append_assoc]
      cases hfile : fails file with
      | true => rw [List.filter_cons_of_neg (by simp [hfile])]; rfl
      | false => rw [List.filter_cons_of_pos (by simp [hfile]), List.flatMap_cons]; rfl

theorem files_runUnder (files : List Text) :
    (b.runUnder troubles s files).2.files = (b.reachedUnder troubles s files).files := rfl

/-- What a batch comes to, and what it tells, if each file fails as foreseen when its turn
comes. -/
theorem runUnder_foreseen {fails : Text → Bool} {files : List Text}
    (h : ∀ before file after, files = before ++ file :: after →
      (b.convertOneUnder (troubles file) (b.reachedUnder troubles s before) file).1.isSome
        = fails file) :
    (b.runUnder troubles s files).1 = (if files.any fails then 1 else 0)
      ∧ (b.runUnder troubles s files).2.output = s.output
        ++ (files.filter (!fails ·)).flatMap (b.convertedLine s.locale.cwd)
        ++ summaryLine (files.countP (!fails ·)) files.length := by
  obtain ⟨hcount, houtput⟩ := b.convertAllUnder_foreseen troubles h
  have hrun : b.runUnder troubles s files
      = (if (b.convertAllUnder troubles s files).1 > 0 then 1 else 0,
        (b.reachedUnder troubles s files).write
          (summaryLine (files.length - (b.convertAllUnder troubles s files).1) files.length)) := rfl
  have hconverted : files.length - files.countP fails = files.countP (!fails ·) := by
    have hlength : files.length = files.countP fails + files.countP (!fails ·) := by
      rw [List.length_eq_countP_add_countP fails]
      simp
    omega
  rw [hrun, hcount, hconverted]
  refine ⟨if_congr ?_ rfl rfl, congrArg (· ++ _) houtput⟩
  rw [gt_iff_lt, List.countP_pos_iff, List.any_eq_true]

end

end Batch

/-! ## Batches on the command line -/

namespace Session

/-- Where a directory stands, there is one at the root too. -/
theorem isDirectoryAt_root {s : Session} {path : Text}
    (h : (s.files.at? (Path.components path)).any FileTree.isDirectory = true) :
    s.files.IsDirectoryAt [] := by
  cases hat : s.files.at? (Path.components path) with
  | none =>
    rw [hat] at h
    cases h
  | some t =>
    rw [hat] at h
    cases t with
    | file content => cases h
    | directory entries =>
      cases hplace : Path.components path with
      | nil => exact ⟨entries, hplace ▸ hat⟩
      | cons name rest =>
        have hbelow : s.files.at? ([] ++ name :: rest) = some (.directory entries) := hplace ▸ hat
        exact FileTree.exists_directory_of_at? hbelow

/-- A batch isolates failures.  A command line that asks for one converts the files that are
found, if there are any.  Let each of these be in whatever trouble.  Given that the paths of the
outputs keep apart, the conversion of each comes to what it comes to alone, in the session at
the start: whatever became of the files before it, it fails if and only if it fails alone, and
whatever becomes of those after it, its output is in the end what it is alone.  The batch
fails if and only if one of the conversions does, tells of each file that was converted, and
tells at its end how many they are. -/
theorem runBatch_isolates [Decoders] [GlobMatcher] (s : Session) {c : CommandLine}
    (settings : Settings) {directory : Text} (troubles : Text → Trouble)
    (hdirectory : c.arguments.head? = some directory) (hne : directory ≠ [])
    (hroot : (s.files.at? (Path.components (Path.resolve s.locale.cwd directory))).any
      FileTree.isDirectory = true)
    (hnamed : s.files.Named)
    (hapart : (s.batchOf c settings directory).Apart s.locale.cwd
      (s.batchFiles settings directory)) :
    let b := s.batchOf c settings directory
    let found := s.batchFiles settings directory
    let target := b.outputPath s.locale.cwd
    let alone (file : Text) := b.convertOneUnder (troubles file) s file
    let fails (file : Text) := (alone file).1.isSome
    let left := b.runUnder troubles s found
    (s.runBatch c settings
        = if found = [] then
            (0, s.print (ofString "No POD files found in " ++ Path.resolve s.locale.cwd directory))
          else b.runUnder (fun _ => .none) s found)
      ∧ (∀ before file after, found = before ++ file :: after →
          (b.convertOneUnder (troubles file) (b.reachedUnder troubles s before) file).1.isSome
              = fails file
            ∧ ∀ content, left.2.files.read s.locale.cwd (target file) = .ok content
              ↔ (alone file).2.files.read s.locale.cwd (target file) = .ok content)
      ∧ left.1 = (if found.any fails then 1 else 0)
      ∧ left.2.output = s.output
        ++ (found.filter (!fails ·)).flatMap (b.convertedLine s.locale.cwd)
        ++ Batch.summaryLine (found.countP (!fails ·)) found.length := by
  intro b found target alone fails left
  have hentries : ∀ file ∈ found, IsEntry file :=
    fun _ hfile => (s.finds_of_mem_batchFiles settings hnamed hfile).isEntry
  have htop : s.files.IsDirectoryAt [] := s.isDirectoryAt_root hroot
  have hcourse : ∀ before file after, found = before ++ file :: after →
      (b.convertOneUnder (troubles file) (b.reachedUnder troubles s before) file).1.isSome
        = fails file := by
    intro before file after hfound
    rw [hfound] at hentries
    have hapart' : b.Apart s.locale.cwd (before ++ file :: after) := hfound ▸ hapart
    have hsame := (b.convertOneUnder_reached troubles hentries htop hapart' (troubles file)).1
    rw [Bool.eq_iff_iff, Option.isSome_iff_ne_none, Option.isSome_iff_ne_none]
    exact not_congr hsame
  obtain ⟨hstatus, houtput⟩ := b.runUnder_foreseen troubles hcourse
  refine ⟨?_, ?_, hstatus, houtput⟩
  · rw [b.runUnder_none]
    exact s.runBatch_eq settings hdirectory hne hroot
  · intro before file after hfound
    refine ⟨hcourse before file after hfound, ?_⟩
    rw [hfound] at hentries
    have hapart' : b.Apart s.locale.cwd (before ++ file :: after) := hfound ▸ hapart
    have hfiles : left.2.files = _ := b.files_runUnder troubles found
    rw [hfiles, hfound]
    exact b.read_reachedUnder troubles hentries htop hapart'

/-- Three files: one with a list that is not ended, one that may not be read, and one that is
converted.  Another is passed over. -/
def mixed : Session :=
  libraryWith [("a.pod", .file (Utf8.encode "=over\n\n=for thread A\n")), ("b.pod", rawFile "B"),
    ("b_old.pm", rawFile "B"), ("c.pod", .file accentBytes)]

/-- The trouble with the second of them. -/
def mixedTroubles (file : Text) : Trouble :=
  if file = ofString "/lib/b.pod" then { Trouble.none with source := some "EACCES" } else .none

attribute [local instance] endingMatcher latin1Decoders

/-- The third is converted all the same, and counted. -/
theorem runBatch_isolates_mixed :
    let b := mixed.batchOf manualLine manualSettings "lib"
    let left := b.runUnder mixedTroubles mixed (mixed.batchFiles manualSettings "lib")
    b.Apart mixed.locale.cwd (mixed.batchFiles manualSettings "lib")
      ∧ left.2.files.read "/" "/out/c.th" = .ok (Utf8.encode "é\n\n\\signature\n")
      ∧ left.1 = 1
      ∧ left.2.output = Utf8.encode "c.pod -> /out/c.th\nConverted 1 of 3 files\n" := by
  intro b left
  have hdirectory : manualLine.arguments.head? = some (ofString "lib") := by decide +kernel
  have hnamed : mixed.files.Named := by
    simp only [mixed, libraryWith, rawFile, FileTree.Named, FileTree.EntriesNamed]
    decide
  have hfound : mixed.batchFiles manualSettings "lib"
      = [ofString "/lib/a.pod", ofString "/lib/b.pod"] ++ ofString "/lib/c.pod" :: [] := by
    cbv
  have hapart : b.Apart mixed.locale.cwd (mixed.batchFiles manualSettings "lib") := by
    rw [hfound]
    refine ⟨?_, ?_, ?_⟩
    · decide +kernel
    · decide +kernel
    · decide +kernel
  obtain ⟨-, hcourse, hstatus, houtput⟩ :=
    runBatch_isolates mixed manualSettings mixedTroubles hdirectory (by decide) (by decide +kernel)
      hnamed hapart
  refine ⟨hapart, ?_, ?_, ?_⟩
  · refine ((hcourse _ _ _ hfound).2 _).2 ?_
    decide +kernel
  · refine hstatus.trans ?_
    rw [hfound]
    decide +kernel
  · refine houtput.trans ?_
    rw [hfound]
    decide +kernel

end Session

end PodLoom
