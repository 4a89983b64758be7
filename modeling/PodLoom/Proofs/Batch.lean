import Mathlib
import PodLoom.Proofs.Discovery
import PodLoom.Proofs.File.Frame
import PodLoom.Proofs.FileConversion
import PodLoom.Program

set_option autoImplicit false

/-!
# What a batch leaves

A batch writes each output beside its source, or to the same place below another directory,
under the name of the source with the extension of outputs for its own.  So two sources share
an output exactly if their paths are the same but for the extension (`outputPath_eq_iff`), and
no output takes the place of a source as long as the extension of outputs is not a wanted one
(`outputPath_ne`).

To convert a file changes nothing that is read by a path other than that of its output
(`read_convertOne`).  Along a batch, this keeps every output until a later source that shares
it overwrites it, and every source until it is read (`runBatch_outputs`).  Nothing prevents
that sources share an output: of `a.pm` and `a.pod`, only the second is left
(`runBatch_overwrites`).
-/

namespace PodLoom

open Text CodeUnit
open PodLoom.Path (AreNames IsEntry IsName ofComponents)

/-! ## Where the outputs go -/

/-- Two paths are the same but for the extension. -/
def Path.SameButExtension (path path' : Text) : Prop :=
  (parse path).directory = (parse path').directory ∧ (parse path).name = (parse path').name

instance (path path' : Text) : Decidable (Path.SameButExtension path path') :=
  inferInstanceAs (Decidable (_ ∧ _))

namespace Batch

variable (b : Batch) (cwd : Text)

/-- What the output of a file is called. -/
def outputName (file : Text) : Text := (Path.parse file).name ++ b.outputExtension

/-- Where the outputs of the files in the root itself go. -/
def outputPlace : List Text :=
  let directory := b.outputDirectory.getD []
  if directory.isEmpty then Path.components b.root else Path.resolveComponents cwd directory

theorem outputName_names {parts : List Text} {name : Text} (h : IsName name) :
    b.outputName (ofComponents (parts ++ [name]))
      = (Path.splitExtension name).1 ++ b.outputExtension := by
  rw [outputName, Path.parse_names parts h]

/-- The output of a file goes to the place among the outputs that the file has below the root. -/
theorem outputPath_names {place below : List Text} {name : Text}
    (hroot : b.root = ofComponents place) (h : AreNames (place ++ below ++ [name]))
    (hnew : IsName (b.outputName (ofComponents (place ++ below ++ [name])))) :
    b.outputPath cwd (ofComponents (place ++ below ++ [name]))
        = ofComponents (b.outputPlace cwd ++ below
          ++ [b.outputName (ofComponents (place ++ below ++ [name]))])
      ∧ AreNames (b.outputPlace cwd ++ below
          ++ [b.outputName (ofComponents (place ++ below ++ [name]))]) := by
  obtain ⟨hfront, hname⟩ := Path.areNames_append.1 h
  obtain ⟨hplace, hbelow⟩ := Path.areNames_append.1 hfront
  rw [Path.areNames_singleton] at hname
  rw [outputName_names b hname] at hnew ⊢
  let new := (Path.splitExtension name).1 ++ b.outputExtension
  have hnews : AreNames [new] := Path.areNames_singleton.2 hnew
  have hrenamed : Path.join (ofComponents (place ++ below)) new
      = ofComponents (place ++ below ++ [new]) := by
    have hjoin : Text.join [slash] [new] = new := by simp [Text.join]
    rw [← Path.join_names hfront hnews (List.cons_ne_nil _ _), hjoin]
  rw [outputPath, Path.parse_names _ hname]
  dsimp only
  rw [hrenamed, outputPlace]
  split
  · rw [hroot, Path.components_ofComponents hplace]
    exact ⟨rfl, Path.areNames_append.2 ⟨hfront, hnews⟩⟩
  · have hout := Path.areNames_resolveComponents cwd (b.outputDirectory.getD [])
    have hnewBelow : AreNames (below ++ [new]) := Path.areNames_append.2 ⟨hbelow, hnews⟩
    have hnewNames : AreNames (place ++ (below ++ [new])) :=
      Path.areNames_append.2 ⟨hplace, hnewBelow⟩
    rw [hroot, Path.resolve, List.append_assoc place, Path.relative_names cwd hnewNames,
      Path.join_names hout hnewBelow (by simp), List.append_assoc]
    exact ⟨rfl, Path.areNames_append.2 ⟨hout, hnewBelow⟩⟩

/-- What is found below a place has the same output path as another file that is found there if
and only if the two paths are the same but for the extension. -/
theorem outputPath_eq_iff {search : Search} {place : List Text} {file other : Text}
    (hroot : b.root = ofComponents place) (hfile : search.Finds place file)
    (hother : search.Finds place other) (hnew : IsName (b.outputName file))
    (hnew' : IsName (b.outputName other)) :
    b.outputPath cwd file = b.outputPath cwd other ↔ Path.SameButExtension file other := by
  obtain ⟨below, name, hnames, -, rfl⟩ := hfile
  obtain ⟨below', name', hnames', -, rfl⟩ := hother
  obtain ⟨hpath, hparts⟩ := b.outputPath_names cwd hroot hnames hnew
  obtain ⟨hpath', hparts'⟩ := b.outputPath_names cwd hroot hnames' hnew'
  obtain ⟨hfront, hname⟩ := Path.areNames_append.1 hnames
  obtain ⟨hfront', hname'⟩ := Path.areNames_append.1 hnames'
  rw [Path.areNames_singleton] at hname hname'
  rw [hpath, hpath', Path.ofComponents_inj hparts hparts', List.append_singleton_inj,
    List.append_cancel_left_eq, outputName_names b hname, outputName_names b hname',
    List.append_cancel_right_eq, Path.SameButExtension, Path.parse_names _ hname,
    Path.parse_names _ hname']
  dsimp only
  rw [Path.ofComponents_inj hfront hfront', List.append_cancel_left_eq]

/-- An output that has no wanted extension takes the place of no file that is found. -/
theorem outputPath_ne {search : Search} {place : List Text} {file other : Text}
    (hroot : b.root = ofComponents place) (hfile : search.Finds place file)
    (hother : search.Finds place other) (hnew : IsName (b.outputName other))
    (hwants : search.wants (b.outputName other) = false) : b.outputPath cwd other ≠ file := by
  obtain ⟨below, name, hnames, hname, rfl⟩ := hfile
  obtain ⟨below', name', hnames', -, rfl⟩ := hother
  obtain ⟨hpath, hparts⟩ := b.outputPath_names cwd hroot hnames' hnew
  rw [hpath, Ne, Path.ofComponents_inj hparts hnames, List.append_singleton_inj]
  rintro ⟨-, heq⟩
  rw [heq] at hwants
  exact Bool.false_ne_true (hwants.symm.trans hname)

/-- The output of a file has the extension of outputs. -/
theorem extension_outputName {file rest : Text} (hfile : IsEntry file)
    (hrest : b.outputExtension = dot :: rest) (hdot : dot ∉ rest)
    (hnew : IsName (b.outputName file)) :
    Path.extension (b.outputName file) = b.outputExtension := by
  obtain ⟨parts, name, hnames, rfl⟩ := hfile
  have hname : IsName name := Path.areNames_singleton.1 (Path.areNames_append.1 hnames).2
  rw [outputName_names b hname, hrest] at hnew ⊢
  exact Path.extension_append (Path.stem_ne_nil hname.ne_nil) hdot hnew.ne_above

/-- Whatever the extension, the path of an output is in normal form, up to a slash at the end. -/
theorem exists_outputPath {file : Text} (hfile : IsEntry file) :
    ∃ parts, AreNames parts ∧ (b.outputPath cwd file = ofComponents parts
      ∨ b.outputPath cwd file = ofComponents parts ++ [slash]) := by
  obtain ⟨front, name, hnames, rfl⟩ := hfile
  have hname : IsName name := Path.areNames_singleton.1 (Path.areNames_append.1 hnames).2
  rw [outputPath, Path.parse_names _ hname]
  dsimp only
  split
  · exact Path.exists_join rfl _
  · exact Path.exists_join rfl _

/-- The path of an output is that of an entry, unless it ends in a slash. -/
theorem isEntry_outputPath_of_endsInSlash {file : Text} (hfile : IsEntry file)
    (hslash : Path.endsInSlash (b.outputPath cwd file) = false) :
    IsEntry (b.outputPath cwd file) := by
  obtain ⟨parts, hparts, heq | heq⟩ := b.exists_outputPath cwd hfile
  · rw [heq] at hslash ⊢
    refine Path.isEntry_ofComponents hparts ?_
    rintro rfl
    cases hslash
  · rw [heq, Path.endsInSlash, List.getLast?_concat] at hslash
    cases hslash

/-- An output that can be opened is called by a path in normal form. -/
theorem isEntry_outputPath {file : Text} (hfile : IsEntry file) {tree files : FileTree}
    {place : List Text} (hopen : tree.openFile cwd (b.outputPath cwd file) = .ok (place, files)) :
    IsEntry (b.outputPath cwd file) :=
  b.isEntry_outputPath_of_endsInSlash cwd hfile (FileTree.openFile_eq_ok hopen).2.2.1

theorem report_files (s : Session) (file : Text) (failure : Option Failure) :
    (b.report s file failure).files = s.files ∧ (b.report s file failure).locale = s.locale := by
  cases failure <;> exact ⟨rfl, rfl⟩

section

variable [Decoders]

/-! ## What converting a file changes -/

/-- To convert a file is to make the directory of its output and to convert it there. -/
theorem convertOne_cases (s : Session) (file : Text) :
    let target := b.outputPath s.locale.cwd file
    (∃ e, b.convertOne s file = (some e, s)) ∨ ∃ made,
      s.files.makeDirectories (Path.parent target) = .ok made
        ∧ b.convertOne s file = Session.convertFile { s with files := made } (.path file)
          (.path target) (some (b.reportName s.locale.cwd file)) b.options := by
  intro target
  cases hmade : s.files.makeDirectories (Path.parent target) with
  | error e => exact .inl ⟨.noDirectory e.code, by simp only [convertOne, prepare, target, hmade]⟩
  | ok made => exact .inr ⟨made, rfl, by simp only [convertOne, prepare, target, hmade]⟩

theorem locale_convertOne (s : Session) (file : Text) :
    (b.convertOne s file).2.locale = s.locale := by
  rcases b.convertOne_cases s file with ⟨e, heq⟩ | ⟨made, -, heq⟩
  · rw [heq]
  · rw [heq, Session.locale_convertFile]

/-- To convert one file changes nothing that is read by a path other than that of its output. -/
theorem read_convertOne {s : Session} {file path : Text} (hfile : IsEntry file)
    (hpath : IsEntry path) (htarget : b.outputPath s.locale.cwd file ≠ path) (content : Bytes) :
    (b.convertOne s file).2.files.read s.locale.cwd path = .ok content
      ↔ s.files.read s.locale.cwd path = .ok content := by
  obtain ⟨front, name, hparts, rfl⟩ := hpath
  have hne : front ++ [name] ≠ [] := by simp
  rcases b.convertOne_cases s file with ⟨e, heq⟩ | ⟨made, hmade, heq⟩
  · rw [heq]
  rw [heq, ← FileTree.read_makeDirectories hmade s.locale.cwd hparts hne]
  rcases Session.convertFile_cases { s with files := made } file (b.outputPath s.locale.cwd file)
    (some (b.reportName s.locale.cwd file)) b.options with
    ⟨-, hfiles⟩ | ⟨bytes, place, files, hread, hopen⟩
  · rw [hfiles]
  obtain ⟨front', name', hparts', htarget'⟩ := b.isEntry_outputPath s.locale.cwd hfile hopen
  rw [(Session.convertFile_files hread hopen _ _).2]
  rw [htarget'] at htarget hopen
  exact FileTree.read_put_of_ne hparts hne hparts' hopen htarget _ _

/-- What a file that is converted holds, and what its output holds then. -/
theorem convertOne_eq_none {s : Session} {file : Text} (hfile : IsEntry file)
    (h : (b.convertOne s file).1 = none) :
    let target := b.outputPath s.locale.cwd file
    let name := b.reportName s.locale.cwd file
    IsEntry target ∧ ∃ bytes, s.files.read s.locale.cwd file = .ok bytes
      ∧ (b.convertOne s file).2.files.read s.locale.cwd target
        = .ok (Utf8.encode (convert name (decodeSource name bytes).1 b.options).output) := by
  intro target name
  rcases b.convertOne_cases s file with ⟨e, heq⟩ | ⟨made, hmade, heq⟩
  · rw [heq] at h
    cases h
  rw [heq] at h ⊢
  rcases Session.convertFile_cases { s with files := made } file target (some name) b.options with
    ⟨hfailure, -⟩ | ⟨bytes, place, files, hread, hopen⟩
  · exact absurd h hfailure
  refine ⟨b.isEntry_outputPath s.locale.cwd hfile hopen, bytes, ?_, ?_⟩
  · obtain ⟨front, last, hparts, rfl⟩ := hfile
    exact (FileTree.read_makeDirectories hmade s.locale.cwd hparts (by simp) bytes).1 hread
  · exact (Session.convertFile_decodeSource hread hopen (some name) b.options).2.2

/-! ## What a batch changes -/

/-- The session after a file was converted and reported on. -/
def step (s : Session) (file : Text) : Session :=
  b.report (b.convertOne s file).2 file (b.convertOne s file).1

theorem convertAll_cons (s : Session) (file : Text) (rest : List Text) :
    (b.convertAll s (file :: rest)).2 = (b.convertAll (b.step s file) rest).2 := rfl

theorem convertAll_append (s : Session) (before after : List Text) :
    (b.convertAll s (before ++ after)).2 = (b.convertAll (b.convertAll s before).2 after).2 := by
  induction before generalizing s with
  | nil => rfl
  | cons file rest ih => rw [List.cons_append, convertAll_cons, convertAll_cons, ih]

theorem locale_step (s : Session) (file : Text) : (b.step s file).locale = s.locale :=
  (b.report_files _ file _).2.trans (b.locale_convertOne s file)

theorem locale_convertAll (s : Session) (files : List Text) :
    (b.convertAll s files).2.locale = s.locale := by
  induction files generalizing s with
  | nil => rfl
  | cons file rest ih => rw [convertAll_cons, ih, locale_step]

/-- To convert files changes nothing that is read by a path that is none of an output. -/
theorem read_convertAll {s : Session} {files : List Text} {path : Text}
    (hfiles : ∀ file ∈ files, IsEntry file) (hpath : IsEntry path)
    (htarget : ∀ file ∈ files, b.outputPath s.locale.cwd file ≠ path) (content : Bytes) :
    (b.convertAll s files).2.files.read s.locale.cwd path = .ok content
      ↔ s.files.read s.locale.cwd path = .ok content := by
  induction files generalizing s with
  | nil => exact Iff.rfl
  | cons file rest ih =>
    have hlocale : (b.step s file).locale = s.locale := b.locale_step s file
    have hrest := ih (s := b.step s file)
      (fun f hf => hfiles f (List.mem_cons_of_mem file hf))
      (fun f hf => by rw [hlocale]; exact htarget f (List.mem_cons_of_mem file hf))
    rw [hlocale] at hrest
    rw [convertAll_cons, hrest, step, (b.report_files _ file _).1]
    exact b.read_convertOne (hfiles file List.mem_cons_self) hpath
      (htarget file List.mem_cons_self) content

/-- The output of a file that is converted in a batch is kept, unless that of a later file takes
its place. -/
theorem convertAll_keeps {s : Session} {before after : List Text} {file : Text}
    (hfiles : ∀ f ∈ before ++ file :: after, IsEntry f)
    (hsuccess : (b.convertOne (b.convertAll s before).2 file).1 = none)
    (hlater : ∀ other ∈ after,
      b.outputPath s.locale.cwd other ≠ b.outputPath s.locale.cwd file) :
    let name := b.reportName s.locale.cwd file
    ∃ bytes, (b.convertAll s before).2.files.read s.locale.cwd file = .ok bytes
      ∧ ((∀ other ∈ before, b.outputPath s.locale.cwd other ≠ file) →
          s.files.read s.locale.cwd file = .ok bytes)
      ∧ (b.convertAll s (before ++ file :: after)).2.files.read s.locale.cwd
            (b.outputPath s.locale.cwd file)
          = .ok (Utf8.encode (convert name (decodeSource name bytes).1 b.options).output) := by
  intro name
  obtain ⟨hbefore, hrest⟩ := List.forall_mem_append.1 hfiles
  obtain ⟨hfile, hafter⟩ := List.forall_mem_cons.1 hrest
  let reached := (b.convertAll s before).2
  have hlocale : reached.locale = s.locale := b.locale_convertAll s before
  have hstep : (b.step reached file).locale = s.locale := (b.locale_step reached file).trans hlocale
  obtain ⟨htarget, bytes, hread, hwritten⟩ := b.convertOne_eq_none hfile hsuccess
  rw [hlocale] at htarget hread hwritten
  refine ⟨bytes, hread, fun hearlier => ?_, ?_⟩
  · exact (b.read_convertAll hbefore hfile hearlier bytes).1 hread
  have hkept := b.read_convertAll (s := b.step reached file) hafter htarget
    (by rw [hstep]; exact hlater)
    (Utf8.encode (convert name (decodeSource name bytes).1 b.options).output)
  rw [hstep] at hkept
  rw [b.convertAll_append, b.convertAll_cons]
  refine hkept.2 ?_
  rw [step, (b.report_files _ file _).1]
  exact hwritten

end

end Batch

/-! ## Batches on the command line -/

namespace Session

variable (s : Session) (c : CommandLine) (settings : Settings) (directory : Text)

/-- The batch that a command line asks for. -/
def batchOf : Batch :=
  ⟨Path.resolve s.locale.cwd directory, c.value? "output", settings.outputExtension,
    c.options settings⟩

/-- What finds the files of a batch. -/
def batchSearch : Search := ⟨s.locale, settings.exclude, settings.extensions⟩

theorem say_nil : s.say [] = s := by
  have herrors : s.errors ++ Log.lines s.threshold [] = s.errors := List.append_nil _
  rw [say, herrors]

section

variable [GlobMatcher]

/-- The files of a batch. -/
def batchFiles : List Text :=
  ((s.batchSearch settings).run s.files (Path.resolve s.locale.cwd directory)).1

variable {c directory}

/-- The files of a batch lie below its directory. -/
theorem finds_of_mem_batchFiles {file : Text} (hnamed : s.files.Named)
    (hfile : file ∈ s.batchFiles settings directory) :
    (s.batchSearch settings).Finds (Path.resolveComponents s.locale.cwd directory) file := by
  have hfinds := (s.batchSearch settings).finds_of_mem_run hnamed hfile
  have hresolved : Path.resolveComponents (s.batchSearch settings).locale.cwd
      (Path.resolve s.locale.cwd directory) = Path.resolveComponents s.locale.cwd directory :=
    Path.resolveComponents_resolve _ _
  rwa [hresolved] at hfinds

variable [Decoders]

/-- A batch of a directory converts what it finds there, and says so if that is nothing. -/
theorem runBatch_eq (hdirectory : c.arguments.head? = some directory) (hne : directory ≠ [])
    (hroot : (s.files.at? (Path.components (Path.resolve s.locale.cwd directory))).any
      FileTree.isDirectory = true) :
    s.runBatch c settings
      = if s.batchFiles settings directory = [] then
          (0, s.print (ofString "No POD files found in " ++ Path.resolve s.locale.cwd directory))
        else (s.batchOf c settings directory).run s (s.batchFiles settings directory) := by
  have hnames := Path.areNames_resolveComponents s.locale.cwd directory
  rw [Path.components_resolve] at hroot
  have hrun : Search.run ⟨s.locale, settings.exclude, settings.extensions⟩ s.files
      (Path.resolve s.locale.cwd directory) = (s.batchFiles settings directory, []) := by
    refine Prod.ext rfl ?_
    rw [Search.run]
    dsimp only
    rw [Path.resolveComponents_resolve]
    cases hat : s.files.at? (Path.resolveComponents s.locale.cwd directory) with
    | none =>
      rw [hat] at hroot
      cases hroot
    | some t =>
      have hfollow : s.files.follow [] (Path.resolveComponents s.locale.cwd directory) = _ :=
        FileTree.follow_of_at? hnames hat
      rw [hat] at hroot
      rw [hfollow]
      cases t with
      | file content => cases hroot
      | directory entries => rfl
  rw [runBatch, hdirectory, Option.getD_some, if_neg (by simpa using hne)]
  dsimp only
  rw [Path.components_resolve, hroot, if_neg (by simp), hrun]
  dsimp only
  rw [say_nil]
  cases s.batchFiles settings directory with
  | nil => rfl
  | cons file rest => rfl

/-- A batch that finds anything converts what it finds. -/
theorem runBatch_files {file : Text} (hdirectory : c.arguments.head? = some directory)
    (hne : directory ≠ []) (hfile : file ∈ s.batchFiles settings directory) :
    (s.runBatch c settings).2.files
      = ((s.batchOf c settings directory).convertAll s
          (s.batchFiles settings directory)).2.files := by
  obtain ⟨entries, hat, -, -⟩ := (s.batchSearch settings).run_of_mem hfile
  have hroot : (s.files.at? (Path.components (Path.resolve s.locale.cwd directory))).any
      FileTree.isDirectory = true := by
    rw [Path.components_resolve, ← Path.resolveComponents_resolve]
    exact (congrArg (Option.any _) hat).trans rfl
  rw [s.runBatch_eq settings hdirectory hne hroot, if_neg (List.ne_nil_of_mem hfile)]
  rfl

/-- Two files of a batch have the same output path if and only if their paths are the same but
for the extension, as long as that makes proper names of both.  If the extension of outputs is
not wanted, no output takes the place of a file of the batch.  And when the batch is done, the
output of every file that was converted is still there, unless a file that came later has the
same output path; it is that of what the file held at first, unless a file that came before has
the file itself for its output path. -/
theorem runBatch_outputs (hdirectory : c.arguments.head? = some directory) (hne : directory ≠ [])
    (hnamed : s.files.Named) :
    let b := s.batchOf c settings directory
    let found := s.batchFiles settings directory
    let target := b.outputPath s.locale.cwd
    (∀ file ∈ found, ∀ other ∈ found, IsName (b.outputName file) → IsName (b.outputName other) →
        (target file = target other ↔ Path.SameButExtension file other))
      ∧ (∀ rest, settings.outputExtension = dot :: rest → dot ∉ rest →
          settings.outputExtension ∉ settings.extensions →
          ∀ file ∈ found, ∀ other ∈ found, IsName (b.outputName other) → target other ≠ file)
      ∧ ∀ before file after, found = before ++ file :: after →
          (b.convertOne (b.convertAll s before).2 file).1 = none →
          (∀ other ∈ after, target other ≠ target file) →
          let name := b.reportName s.locale.cwd file
          ∃ bytes, (b.convertAll s before).2.files.read s.locale.cwd file = .ok bytes
            ∧ ((∀ other ∈ before, target other ≠ file) →
                s.files.read s.locale.cwd file = .ok bytes)
            ∧ (s.runBatch c settings).2.files.read s.locale.cwd (target file)
              = .ok (Utf8.encode (convert name (decodeSource name bytes).1 b.options).output) := by
  intro b found target
  have hfinds : ∀ file ∈ found,
      (s.batchSearch settings).Finds (Path.resolveComponents s.locale.cwd directory) file :=
    fun _ hfile => s.finds_of_mem_batchFiles settings hnamed hfile
  have hroot : b.root = ofComponents (Path.resolveComponents s.locale.cwd directory) := rfl
  refine ⟨?_, ?_, ?_⟩
  · intro file hfile other hother hnew hnew'
    exact b.outputPath_eq_iff s.locale.cwd hroot (hfinds file hfile) (hfinds other hother) hnew
      hnew'
  · intro rest hrest hdot hextension file hfile other hother hnew
    have hwants : (s.batchSearch settings).wants (b.outputName other) = false := by
      rw [Search.wants, b.extension_outputName (hfinds other hother).isEntry hrest hdot hnew,
        ← Bool.not_eq_true, List.contains_iff_mem]
      exact hextension
    exact b.outputPath_ne s.locale.cwd hroot (hfinds file hfile) (hfinds other hother) hnew hwants
  · intro before file after hfound hsuccess hlater name
    have hentries : ∀ f ∈ before ++ file :: after, IsEntry f :=
      fun f hf => (hfinds f (hfound ▸ hf)).isEntry
    have hfile : file ∈ found := by simp [hfound]
    have hfinal : (s.runBatch c settings).2.files
        = (b.convertAll s (before ++ file :: after)).2.files :=
      (s.runBatch_files settings hdirectory hne hfile).trans (by rw [← hfound])
    rw [hfinal]
    exact b.convertAll_keeps hentries hsuccess hlater

end

/-- The contents of a source file that is raw thread. -/
def rawFile (text : String) : FileTree :=
  .file (Utf8.encode (ofString "=for thread " ++ ofString text ++ [newline]))

/-- A session at the root, with files in one directory. -/
def libraryWith (entries : List (Text × FileTree)) : Session where
  locale := ⟨"/", "/"⟩
  files := .directory [("lib", .directory entries)]
  input := []
  output := []
  errors := []
  threshold := Log.defaultThreshold

/-- Settings that pass over modules by the endings of their names. -/
def manualSettings : Settings := { Settings.default with exclude := ["*_old.pm"] }

/-- A source file that is raw thread in another encoding: a letter with an accent. -/
def accentBytes : Bytes := Utf8.encode "=encoding latin1\n\n=for thread " ++ [0xE9, 10]

/-- Three files that are converted, two of them of one name in two directories, and one that is
passed over. -/
def manual : Session :=
  libraryWith [("a.pod", rawFile "A"), ("b.pm", .file accentBytes), ("b_old.pm", rawFile "B"),
    ("sub", .directory [("a.pm", rawFile "C")])]

/-- The command line that converts them to another directory. -/
def manualLine : CommandLine := CommandLine.read ["batch", "lib", "--output", "out"]

attribute [local instance] endingMatcher latin1Decoders

/-- The output of the second of them is kept. -/
theorem runBatch_outputs_manual :
    manualLine.arguments.head? = some (ofString "lib") ∧ manual.files.Named
      ∧ (manual.runBatch manualLine manualSettings).2.files.read "/" "/out/b.th"
        = .ok (Utf8.encode "é\n\n\\signature\n") := by
  have hdirectory : manualLine.arguments.head? = some (ofString "lib") := by decide +kernel
  have hnamed : manual.files.Named := by
    simp only [manual, libraryWith, rawFile, FileTree.Named, FileTree.EntriesNamed]
    decide
  have hfound : manual.batchFiles manualSettings "lib"
      = [ofString "/lib/a.pod"] ++ ofString "/lib/b.pm" :: [ofString "/lib/sub/a.pm"] := by
    cbv
  obtain ⟨-, -, hkept⟩ :=
    runBatch_outputs manual manualSettings hdirectory (by decide) hnamed
  obtain ⟨bytes, -, horiginal, hfinal⟩ := hkept _ _ _ hfound (by decide +kernel) (by decide +kernel)
  obtain rfl : bytes = accentBytes :=
    (Except.ok.inj (horiginal (by decide +kernel))).symm
  refine ⟨hdirectory, hnamed, hfinal.trans ?_⟩
  decide +kernel

/-- Two files whose names are the same but for the extension. -/
def twins : Session := libraryWith [("a.pm", rawFile "A"), ("a.pod", rawFile "B")]

/-- The command line that converts them in place. -/
def twinsLine : CommandLine := CommandLine.read ["batch", "lib"]

/-- The first of them is converted, but its output is not there when the batch is done.  If the
extension of outputs has slashes in it, files of different names can share an output too. -/
theorem runBatch_overwrites :
    twins.files.Named ∧ manualSettings.outputExtension ∉ manualSettings.extensions
      ∧ ¬ ((twins.batchFiles manualSettings "lib").map
          ((twins.batchOf twinsLine manualSettings "lib").outputPath "/")).Nodup
      ∧ ((twins.batchOf twinsLine manualSettings "lib").convertOne twins "/lib/a.pm").1 = none
      ∧ (twins.runBatch twinsLine manualSettings).2.files.read "/" "/lib/a.th"
          ≠ .ok (Utf8.encode "A\n\n\\signature\n")
      ∧ let b : Batch := { twins.batchOf twinsLine manualSettings "lib" with
          outputExtension := "/../c" }
        b.outputPath "/" "/lib/a.pm" = b.outputPath "/" "/lib/b.pm"
          ∧ ¬ Path.SameButExtension "/lib/a.pm" "/lib/b.pm" := by
  have hnamed : twins.files.Named := by
    simp only [twins, libraryWith, rawFile, FileTree.Named, FileTree.EntriesNamed]
    decide
  have hfound : twins.batchFiles manualSettings "lib"
      = [ofString "/lib/a.pm", ofString "/lib/a.pod"] := by
    cbv
  have hmem : ofString "/lib/a.pm" ∈ twins.batchFiles manualSettings "lib" := by simp [hfound]
  have hleft : (twins.runBatch twinsLine manualSettings).2.files.read "/" "/lib/a.th"
      = .ok (Utf8.encode "B\n\n\\signature\n") := by
    rw [twins.runBatch_files manualSettings (by decide +kernel) (by decide) hmem, hfound]
    decide +kernel
  refine ⟨hnamed, by decide, ?_, by decide +kernel, ?_, by decide +kernel⟩
  · rw [hfound]
    decide +kernel
  · rw [hleft]
    intro heq
    exact absurd (Except.ok.inj heq) (by decide +kernel)

end Session

end PodLoom
