import PodLoom.Proofs.Batch
import PodLoom.Proofs.File.Growth

set_option autoImplicit false

/-!
# Files in trouble

A tree of files refuses what does not fit its shape, but a disk refuses more: a file may not be
read, a directory or a file may not be made, and writing may fail in the middle.  `Trouble` is
what a disk refuses of the conversion of one file, and a batch is run under the troubles of its
files (`runUnder`).  Where there are none, that is a batch as it is (`runUnder_none`).

Under any trouble, to convert a file lets the tree grow by the path of its output
(`grown_convertOneUnder`).  A conversion writes if nothing stands in its way (`Writes`), and then
its failure and its output come of what the file holds (`convertOneUnder_of_writes`); if it does
not write, it fails, and its output is what it was (`convertOneUnder_of_idle`).

So it comes to the same in two sessions, if one has grown out of the other by paths that the
conversion has nothing to do with (`convertOneUnder_alone`).
-/

namespace PodLoom

open Text
open PodLoom.Path (AreNames IsEntry ofComponents)
open PodLoom.Thread (Options)

/-- What is refused of the conversion of a file, with the reasons. -/
structure Trouble where
  /-- The directory for the output may not be made. -/
  directory : Option Text
  /-- The source may not be read. -/
  source : Option Text
  /-- The output may not be opened. -/
  output : Option Text
  /-- After some pieces of the output, the next cannot be written. -/
  piece : Option (Nat × Text)
  deriving DecidableEq, Repr, Inhabited

/-- Nothing is refused. -/
def Trouble.none : Trouble := ⟨.none, .none, .none, .none⟩

/-! ## Conversions and batches under trouble -/

namespace Session

variable (t : Trouble) (s : Session)

/-- The bytes of a source, unless it may not be read. -/
def readUnder (path : Text) : Except Failure Bytes :=
  match t.source with
  | some reason => .error (.unreadable path reason)
  | none => s.readSource (.path path)

/-- Open a file, unless it may not be opened. -/
def openUnder (path : Text) : Except Failure (Destination × Session) :=
  match t.output with
  | some reason => .error (.cannotOpen path reason)
  | none => s.openDestination (.path path)

variable [Decoders]

/-- Convert a file to another under a name for diagnostics. -/
def convertFileUnder (source destination name : Text) (options : Options) :
    Option Failure × Session :=
  match s.readUnder t source with
  | .error e => (some e, s)
  | .ok bytes =>
      let m := Manuscript.ofBytes name bytes options
      let s := s.say m.journal
      match s.openUnder t destination with
      | .error e => (some e, s)
      | .ok (opened, s) =>
          let c := m.convertInto ⟨[], t.piece⟩
          (c.failure, (s.deliver (piecesEncoded c.target) opened).say c.journal)

/-- What a conversion comes to, and what it leaves of the session: it writes what comes of its
source, or it fails and leaves the files as they are. -/
theorem convertFileUnder_cases (source destination name : Text) (options : Options) :
    let left := s.convertFileUnder t source destination name options
    (left.2.locale = s.locale ∧ left.2.output = s.output)
      ∧ ((∃ bytes place files, t.source = none ∧ t.output = none
            ∧ s.files.read s.locale.cwd source = .ok bytes
            ∧ s.files.openFile s.locale.cwd destination = .ok (place, files)
            ∧ let c := (Manuscript.ofBytes name bytes options).convertInto ⟨[], t.piece⟩
              left.1 = c.failure
                ∧ left.2.files = FileTree.put (.file (piecesEncoded c.target)) place files)
        ∨ ((t.source = none → t.output = none → ∀ bytes opened,
              s.files.read s.locale.cwd source = .ok bytes →
              s.files.openFile s.locale.cwd destination ≠ .ok opened)
            ∧ left.1 ≠ none ∧ left.2.files = s.files)) := by
  intro left
  cases hsource : t.source with
  | some reason =>
    have hleft : left = (some (.unreadable source reason), s) := by
      simp only [left, convertFileUnder, readUnder, hsource]
    rw [hleft]
    refine ⟨⟨rfl, rfl⟩, .inr ⟨fun h => ?_, Option.some_ne_none _, rfl⟩⟩
    cases h
  | none =>
    cases hread : s.files.read s.locale.cwd source with
    | error e =>
      have hleft : left = (some (.unreadable source e.code), s) := by
        simp only [left, convertFileUnder, readUnder, hsource, readSource, hread]
      rw [hleft]
      refine ⟨⟨rfl, rfl⟩, .inr ⟨fun _ _ _ _ h => ?_, Option.some_ne_none _, rfl⟩⟩
      cases h
    | ok bytes =>
      let m := Manuscript.ofBytes name bytes options
      cases houtput : t.output with
      | some reason =>
        have hleft : left = (some (.cannotOpen destination reason), s.say m.journal) := by
          simp only [left, m, convertFileUnder, readUnder, hsource, readSource, hread, openUnder,
            houtput]
        rw [hleft]
        refine ⟨⟨rfl, rfl⟩, .inr ⟨fun _ h => ?_, Option.some_ne_none _, rfl⟩⟩
        cases h
      | none =>
        cases hopen : s.files.openFile s.locale.cwd destination with
        | error e =>
          have hleft : left = (some (.cannotOpen destination e.code), s.say m.journal) := by
            simp only [left, m, convertFileUnder, readUnder, hsource, readSource, hread, openUnder,
              houtput, openDestination, say, hopen]
          rw [hleft]
          refine ⟨⟨rfl, rfl⟩, .inr ⟨fun _ _ _ _ _ h => ?_, Option.some_ne_none _, rfl⟩⟩
          cases h
        | ok opened =>
          obtain ⟨place, files⟩ := opened
          let c := m.convertInto ⟨[], t.piece⟩
          have hleft : left = (c.failure, (({ s.say m.journal with files }).deliver
              (piecesEncoded c.target) (.file place)).say c.journal) := by
            simp only [left, m, c, convertFileUnder, readUnder, hsource, readSource, hread,
              openUnder, houtput, openDestination, say, hopen]
          rw [hleft]
          exact ⟨⟨rfl, rfl⟩, .inl ⟨bytes, place, files, rfl, rfl, rfl, rfl, rfl, rfl⟩⟩

end Session

namespace Batch

variable (b : Batch) (troubles : Text → Trouble)

/-- Make the directory for an output, unless it may not be made. -/
def prepareUnder (t : Trouble) (s : Session) (target : Text) : Except Failure Session :=
  match t.directory with
  | some reason => .error (.noDirectory reason)
  | none => prepare s target

section

variable [Decoders]

/-- Convert a file of a batch: make the directory for its output, and convert it there under the
name that it has below the root. -/
def convertOneUnder (t : Trouble) (s : Session) (file : Text) : Option Failure × Session :=
  let cwd := s.locale.cwd
  let target := b.outputPath cwd file
  match prepareUnder t s target with
  | .error e => (some e, s)
  | .ok s => s.convertFileUnder t file target (b.reportName cwd file) b.options

/-- Convert files one by one, each under its own trouble, and report on each: how many failed,
and the session after them. -/
def convertAllUnder : Session → List Text → Nat × Session
  | s, [] => (0, s)
  | s, file :: rest =>
      let (failure, s) := b.convertOneUnder (troubles file) s file
      let (failures, s) := convertAllUnder (b.report s file failure) rest
      ((if failure.isSome then 1 else 0) + failures, s)

/-- Convert files, each under its own trouble, and sum up. -/
def runUnder (s : Session) (files : List Text) : Nat × Session :=
  let (failures, s) := b.convertAllUnder troubles s files
  (if failures > 0 then 1 else 0,
    s.print (ofString "Converted " ++ ofNat (files.length - failures) ++ ofString " of "
      ++ ofNat files.length ++ ofString " files"))

theorem convertOneUnder_none (s : Session) (file : Text) :
    b.convertOneUnder .none s file = b.convertOne s file := rfl

/-- Where nothing is refused, a batch goes as it does. -/
theorem runUnder_none (s : Session) (files : List Text) :
    b.runUnder (fun _ => .none) s files = b.run s files := by
  have hall : ∀ s, b.convertAllUnder (fun _ => .none) s files = b.convertAll s files := by
    induction files with
    | nil => exact fun _ => rfl
    | cons file rest ih =>
      intro s
      rw [convertAllUnder, convertAll, convertOneUnder_none]
      simp only [ih]
  rw [runUnder, run, hall]

end

/-! ## What a conversion comes to -/

variable {t : Trouble} {s : Session} {file : Text}

/-- Nothing stands in the way of a conversion before it writes: nothing is refused, the file can
be read, the directory of its output can be made, and no directory is where the output goes. -/
structure Writes (t : Trouble) (s : Session) (file : Text) (bytes : Bytes) : Prop where
  directory : t.directory = none
  source : t.source = none
  output : t.output = none
  read : s.files.read s.locale.cwd file = .ok bytes
  way : ∃ made, s.files.makeDirectories (Path.parent (b.outputPath s.locale.cwd file)) = .ok made
  isFile : Path.endsInSlash (b.outputPath s.locale.cwd file) = false
  free : ¬ s.files.IsDirectoryAt (Path.components (b.outputPath s.locale.cwd file))

theorem areNames_outputPath (cwd : Text) (hfile : IsEntry file) :
    AreNames (Path.components (b.outputPath cwd file)) := by
  obtain ⟨parts, hparts, heq | heq⟩ := b.exists_outputPath cwd hfile
  · rw [heq, Path.components_ofComponents hparts]
    exact hparts
  · rw [heq, Path.components_append_slash, Path.components_ofComponents hparts]
    exact Path.areNames_append.2 ⟨hparts, nofun⟩

/-- Nothing is read by the path of an output unless it is that of an entry. -/
theorem read_outputPath_iff (cwd : Text) (hfile : IsEntry file) {tree tree' : FileTree}
    {content : Bytes}
    (h : IsEntry (b.outputPath cwd file) →
      (tree.read cwd (b.outputPath cwd file) = .ok content
        ↔ tree'.read cwd (b.outputPath cwd file) = .ok content)) :
    tree.read cwd (b.outputPath cwd file) = .ok content
      ↔ tree'.read cwd (b.outputPath cwd file) = .ok content := by
  cases hslash : Path.endsInSlash (b.outputPath cwd file) with
  | true =>
    exact iff_of_false (FileTree.read_ne_ok_of_endsInSlash hslash content)
      (FileTree.read_ne_ok_of_endsInSlash hslash content)
  | false => exact h (b.isEntry_outputPath_of_endsInSlash cwd hfile hslash)

/-- Whether a conversion writes, and what, does not depend on what was written by paths that are
neither that of its file nor that of its output, and no ancestors of that or the other way
round. -/
theorem writes_iff {s₀ : Session} {targets : List Text} (hfile : IsEntry file)
    (hlocale : s.locale = s₀.locale) (hgrown : FileTree.Grown targets s₀.files s.files)
    (hsource : file ∉ targets)
    (hbefore : ∀ other ∈ targets, ¬ Path.IsAncestor other (b.outputPath s₀.locale.cwd file))
    (hbehind : ∀ other ∈ targets, ¬ Path.IsAncestor (b.outputPath s₀.locale.cwd file) other)
    (bytes : Bytes) : b.Writes t s file bytes ↔ b.Writes t s₀ file bytes := by
  have hread := hgrown.read s₀.locale.cwd hfile hsource bytes
  have hway := hgrown.makeDirectories_iff (b.areNames_outputPath s₀.locale.cwd hfile) hbefore
  have hfree := hgrown.isDirectoryAt_iff hbehind
  constructor
  · rintro ⟨hdirectory, hsourced, houtput, hbytes, hmade, hslash, hnone⟩
    rw [hlocale] at hbytes hmade hslash hnone
    exact ⟨hdirectory, hsourced, houtput, hread.1 hbytes, hway.1 hmade, hslash,
      fun hdirectory => hnone (hfree.2 hdirectory)⟩
  · rintro ⟨hdirectory, hsourced, houtput, hbytes, hmade, hslash, hnone⟩
    rw [← hlocale] at hread hway hfree hbytes hmade hslash hnone
    exact ⟨hdirectory, hsourced, houtput, hread.2 hbytes, hway.2 hmade, hslash,
      fun hdirectory => hnone (hfree.1 hdirectory)⟩

section

variable [Decoders]

/-- What comes of the bytes of a file, as far as it can be written. -/
def conversion (t : Trouble) (cwd file : Text) (bytes : Bytes) : Conversion :=
  (Manuscript.ofBytes (b.reportName cwd file) bytes b.options).convertInto ⟨[], t.piece⟩

/-- Where a conversion stays, and what is on standard output. -/
theorem stays_convertOneUnder (t : Trouble) (s : Session) (file : Text) :
    (b.convertOneUnder t s file).2.locale = s.locale
      ∧ (b.convertOneUnder t s file).2.output = s.output := by
  unfold convertOneUnder
  dsimp only
  cases hprepared : prepareUnder t s (b.outputPath s.locale.cwd file) with
  | error e => exact ⟨rfl, rfl⟩
  | ok prepared =>
    have hstays : prepared.locale = s.locale ∧ prepared.output = s.output := by
      unfold prepareUnder prepare at hprepared
      split at hprepared
      · cases hprepared
      · split at hprepared
        · cases hprepared
          exact ⟨rfl, rfl⟩
        · cases hprepared
    obtain ⟨hlocale, houtput⟩ := (Session.convertFileUnder_cases t prepared file
      (b.outputPath s.locale.cwd file) (b.reportName s.locale.cwd file) b.options).1
    exact ⟨hlocale.trans hstays.1, houtput.trans hstays.2⟩

/-- A conversion writes what comes of its file, or it fails and leaves the files as they are, but
for directories. -/
theorem convertOneUnder_cases (t : Trouble) (hfile : IsEntry file)
    (hroot : s.files.IsDirectoryAt []) :
    let target := b.outputPath s.locale.cwd file
    let left := b.convertOneUnder t s file
    (∃ bytes made place files, b.Writes t s file bytes
        ∧ s.files.makeDirectories (Path.parent target) = .ok made
        ∧ made.openFile s.locale.cwd target = .ok (place, files)
        ∧ left.1 = (b.conversion t s.locale.cwd file bytes).failure
        ∧ left.2.files = FileTree.put
          (.file (Session.piecesEncoded (b.conversion t s.locale.cwd file bytes).target)) place
          files)
      ∨ ((∀ bytes, ¬ b.Writes t s file bytes) ∧ left.1 ≠ none
        ∧ (left.2.files = s.files
          ∨ s.files.makeDirectories (Path.parent target) = .ok left.2.files)) := by
  intro target left
  cases hdirectory : t.directory with
  | some reason =>
    have hleft : left = (some (.noDirectory reason), s) := by
      simp only [left, convertOneUnder, prepareUnder, hdirectory]
    refine .inr ⟨fun bytes hwrites => ?_, ?_, .inl ?_⟩
    · cases hdirectory.symm.trans hwrites.directory
    · rw [hleft]
      exact Option.some_ne_none _
    · rw [hleft]
  | none =>
    cases hmade : s.files.makeDirectories (Path.parent target) with
    | error e =>
      have hleft : left = (some (.noDirectory e.code), s) := by
        simp only [left, target, convertOneUnder, prepareUnder, hdirectory, prepare, hmade]
      refine .inr ⟨fun bytes hwrites => ?_, ?_, .inl ?_⟩
      · obtain ⟨made, hway⟩ := hwrites.way
        cases hmade.symm.trans hway
      · rw [hleft]
        exact Option.some_ne_none _
      · rw [hleft]
    | ok made =>
      have hleft : left = Session.convertFileUnder t { s with files := made } file target
          (b.reportName s.locale.cwd file) b.options := by
        simp only [left, target, convertOneUnder, prepareUnder, hdirectory, prepare, hmade]
      -- Making the directory changes nothing that is read, so the source is what it was.
      have hread : ∀ bytes, made.read s.locale.cwd file = .ok bytes
          ↔ s.files.read s.locale.cwd file = .ok bytes := by
        obtain ⟨front, name, hnames, rfl⟩ := hfile
        exact FileTree.read_makeDirectories hmade s.locale.cwd hnames (by simp)
      have hopens : Path.endsInSlash target = false →
          ((∃ opened, made.openFile s.locale.cwd target = .ok opened)
            ↔ ¬ s.files.IsDirectoryAt (Path.components target)) := by
        intro hslash
        have htarget := b.isEntry_outputPath_of_endsInSlash s.locale.cwd hfile hslash
        exact FileTree.openFile_makeDirectories_iff s.locale.cwd htarget hroot hmade
      rw [hleft]
      rcases (Session.convertFileUnder_cases t { s with files := made } file target
        (b.reportName s.locale.cwd file) b.options).2 with
        ⟨bytes, place, files, hsource, houtput, hbytes, hopen, hfailure, hfiles⟩
        | ⟨hidle, hfailure, hfiles⟩
      · refine .inl ⟨bytes, made, place, files, ?_, rfl, hopen, hfailure, hfiles⟩
        have hslash := (FileTree.openFile_eq_ok hopen).2.2.1
        exact ⟨hdirectory, hsource, houtput, (hread bytes).1 hbytes, ⟨made, hmade⟩, hslash,
          (hopens hslash).1 ⟨_, hopen⟩⟩
      · refine .inr ⟨?_, hfailure, .inr (hfiles ▸ rfl)⟩
        intro bytes hwrites
        obtain ⟨opened, hopen⟩ := (hopens hwrites.isFile).2 hwrites.free
        exact hidle hwrites.source hwrites.output bytes opened ((hread bytes).2 hwrites.read) hopen

/-- To convert a file lets the tree grow by the path of its output. -/
theorem grown_convertOneUnder (t : Trouble) (hfile : IsEntry file)
    (hroot : s.files.IsDirectoryAt []) :
    FileTree.Grown [b.outputPath s.locale.cwd file] s.files
      (b.convertOneUnder t s file).2.files := by
  have hnames := b.areNames_outputPath s.locale.cwd hfile
  rcases b.convertOneUnder_cases t hfile hroot with
    ⟨bytes, made, place, files, hwrites, hmade, hopen, -, hfiles⟩ | ⟨-, -, hfiles | hmade⟩
  · have hgrown := FileTree.grown_makeDirectories hnames hmade
    have htarget := b.isEntry_outputPath_of_endsInSlash s.locale.cwd hfile hwrites.isFile
    obtain ⟨front, name, hparts, heq⟩ := htarget
    rw [heq] at hopen
    have hput := FileTree.grown_put hparts hopen
      (Session.piecesEncoded (b.conversion t s.locale.cwd file bytes).target)
    rw [hfiles]
    exact hgrown.trans (heq ▸ hput)
  · rw [hfiles]
    exact .refl _ _
  · exact FileTree.grown_makeDirectories hnames hmade

/-- A conversion that does not write fails, and changes nothing that is read by the path of its
output. -/
theorem convertOneUnder_of_idle (hfile : IsEntry file) (hroot : s.files.IsDirectoryAt [])
    (hidle : ∀ bytes, ¬ b.Writes t s file bytes) :
    (b.convertOneUnder t s file).1 ≠ none ∧ ∀ content,
      ((b.convertOneUnder t s file).2.files.read s.locale.cwd (b.outputPath s.locale.cwd file)
          = .ok content
        ↔ s.files.read s.locale.cwd (b.outputPath s.locale.cwd file) = .ok content) := by
  rcases b.convertOneUnder_cases t hfile hroot with
    ⟨bytes, made, place, files, hwrites, -⟩ | ⟨-, hfailure, hfiles | hmade⟩
  · exact absurd hwrites (hidle bytes)
  · refine ⟨hfailure, fun content => ?_⟩
    rw [hfiles]
  · refine ⟨hfailure, fun content => b.read_outputPath_iff s.locale.cwd hfile fun htarget => ?_⟩
    obtain ⟨front, name, hnames, heq⟩ := htarget
    have hread := FileTree.read_makeDirectories hmade s.locale.cwd hnames (by simp) content
    rwa [← heq] at hread

/-- A conversion that writes fails as what it converts does, and its output holds that. -/
theorem convertOneUnder_of_writes (hfile : IsEntry file) (hroot : s.files.IsDirectoryAt [])
    {bytes : Bytes} (h : b.Writes t s file bytes) :
    let target := b.outputPath s.locale.cwd file
    let c := b.conversion t s.locale.cwd file bytes
    (b.convertOneUnder t s file).1 = c.failure
      ∧ (b.convertOneUnder t s file).2.files.read s.locale.cwd target
        = .ok (Session.piecesEncoded c.target) := by
  intro target c
  rcases b.convertOneUnder_cases t hfile hroot with
    ⟨bytes', made, place, files, hwrites, hmade, hopen, hfailure, hfiles⟩ | ⟨hidle, -⟩
  · obtain rfl : bytes' = bytes := Except.ok.inj (hwrites.read.symm.trans h.read)
    rw [hfailure, hfiles]
    exact ⟨rfl, FileTree.read_put_of_openFile hopen _⟩
  · exact absurd h (hidle bytes)

/-! ## Conversions in two sessions -/

/-- A conversion after others comes to what it comes to alone, and leaves the same output. -/
theorem convertOneUnder_alone {s₀ : Session} {targets : List Text} (hfile : IsEntry file)
    (hroot : s₀.files.IsDirectoryAt []) (hlocale : s.locale = s₀.locale)
    (hgrown : FileTree.Grown targets s₀.files s.files) (hsource : file ∉ targets)
    (htarget : b.outputPath s₀.locale.cwd file ∉ targets)
    (hbefore : ∀ other ∈ targets, ¬ Path.IsAncestor other (b.outputPath s₀.locale.cwd file))
    (hbehind : ∀ other ∈ targets, ¬ Path.IsAncestor (b.outputPath s₀.locale.cwd file) other) :
    let target := b.outputPath s₀.locale.cwd file
    ((b.convertOneUnder t s file).1 = none ↔ (b.convertOneUnder t s₀ file).1 = none)
      ∧ ∀ content,
        (b.convertOneUnder t s file).2.files.read s₀.locale.cwd target = .ok content
          ↔ (b.convertOneUnder t s₀ file).2.files.read s₀.locale.cwd target = .ok content := by
  intro target
  have hwrites := b.writes_iff (t := t) hfile hlocale hgrown hsource hbefore hbehind
  have hroot' : s.files.IsDirectoryAt [] := hgrown.kept [] hroot
  -- It writes in both sessions, and then the same, or in neither.
  by_cases hany : ∃ bytes, b.Writes t s₀ file bytes
  · obtain ⟨bytes, halone⟩ := hany
    obtain ⟨hfailure₀, hread₀⟩ := b.convertOneUnder_of_writes hfile hroot halone
    obtain ⟨hfailure, hread⟩ :=
      b.convertOneUnder_of_writes hfile hroot' ((hwrites bytes).2 halone)
    rw [hlocale] at hfailure hread
    rw [hfailure, hfailure₀]
    refine ⟨Iff.rfl, fun content => ?_⟩
    rw [hread, hread₀]
  · have hidle₀ : ∀ bytes, ¬ b.Writes t s₀ file bytes := fun bytes h => hany ⟨bytes, h⟩
    have hidle : ∀ bytes, ¬ b.Writes t s file bytes :=
      fun bytes h => hidle₀ bytes ((hwrites bytes).1 h)
    obtain ⟨hfailure₀, hread₀⟩ := b.convertOneUnder_of_idle hfile hroot hidle₀
    obtain ⟨hfailure, hread⟩ := b.convertOneUnder_of_idle hfile hroot' hidle
    refine ⟨iff_of_false hfailure hfailure₀, fun content => ?_⟩
    rw [hlocale] at hread
    rw [hread, hread₀]
    refine b.read_outputPath_iff s₀.locale.cwd hfile fun hentry => ?_
    exact hgrown.read s₀.locale.cwd hentry htarget content

end

end Batch

end PodLoom
