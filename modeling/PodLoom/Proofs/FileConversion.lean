import PodLoom.Proofs.File.Tree
import PodLoom.Proofs.SourceBytes
import PodLoom.Proofs.SourceCourse
import PodLoom.Proofs.Thread.Registry
import PodLoom.Proofs.Thread.Seams
import PodLoom.Session

set_option autoImplicit false

/-!
# From file to file

To convert a file is to convert its text: the failure is the same, and what is written to the
destination is the output in UTF-8 (`convertFile_convert`).  Though the output is written in
pieces and each is encoded by itself, halves of a surrogate pair that meet in it are written as
one character, because no piece ends between them.
-/

namespace PodLoom

open Text
open PodLoom.Thread (Options Registry Target Writer)

/-! ## Failures -/

/-- A failure that holds a given output, if it holds one. -/
def Failure.withOutput (output : Text) : Failure → Failure
  | .syntaxErrors file errata _ => .syntaxErrors file errata output
  | e => e

/-- A supplied anchor that is none is the only thing that can be said against supplied anchors. -/
theorem exists_of_create_error {anchors : List (Text × Text)} {e : Failure}
    (h : Registry.create anchors = .error e) :
    ∃ anchor heading, (heading, anchor) ∈ anchors ∧ Thread.isAnchor anchor = false
      ∧ e = .invalidAnchor anchor heading := by
  rcases Registry.create_cases anchors with ⟨heading, anchor, hmem, hnone, herror⟩ | ⟨-, hok⟩
  · rw [herror] at h
    exact ⟨anchor, heading, Keyed.mem_of_mem_inOrder hmem, hnone, (Except.error.inj h).symm⟩
  · rw [hok] at h
    cases h

theorem convertInto_eq (target : Target) (file source : Text) (o : Options) :
    convertInto target file source o
      = concluded (receiveSource file source (Writer.on target o)) := rfl

/-- A conversion into a target does not collect what it writes. -/
theorem withOutput_failure (file source : Text) (o : Options) :
    (convertInto .fresh file source o).failure.map (.withOutput [])
      = (convertInto .fresh file source o).failure := by
  rw [convertInto_eq, receiveSource_eq]
  cases hcreate : Registry.create (o.anchors.getD []) with
  | error e =>
    obtain ⟨anchor, heading, -, -, rfl⟩ := exists_of_create_error hcreate
    rw [sourceEvents_eq, receiveAll_unstarted _ _ hcreate]
    rfl
  | ok sections =>
    obtain ⟨w', hrun, -⟩ := receiveAll_sourceEvents_run (w := startWriter file source o) rfl hcreate
      file source
    rw [hrun]
    unfold Thread.Desk.outcome
    cases sourceErrata source with
    | nil => rfl
    | cons e rest => rfl

theorem failure_convert (file source : Text) (o : Options) :
    (convert file source o).failure
      = (convertInto .fresh file source (resolvedOptions file source o)).failure.map
        (.withOutput (convert file source o).output) := by
  refine congrArg (fun complete => Option.map complete _) (funext fun e => ?_)
  cases e <;> rfl

/-! ## Pieces -/

/-- A conversion cuts its output between characters. -/
theorem intact_convertInto (file source : Text) (o : Options) :
    (convertInto .fresh file source o).target.Intact := by
  have hstart : (startWriter file source o).Intact := by
    refine ⟨?_, ?_⟩
    · exact fun _ h => nomatch h
    · exact fun _ h => nomatch h
  exact (Writer.intact_receiveAll (Pod.sourceEvents file source) _ hstart).target

namespace Session

/-- Encoded piece by piece or as a whole, the output of a conversion has the same bytes. -/
theorem piecesEncoded_convertInto (file source : Text) (o : Options) :
    piecesEncoded (convertInto .fresh file source o).target
      = Utf8.encode (convertInto .fresh file source o).output :=
  Utf8.flatMap_encode (intact_convertInto file source o)

/-! ## Files -/

section

variable {s : Session} {source destination : Text} {bytes : Bytes} {place : List Text}
  {files : FileTree}

/-- The failure of a conversion whose files can be read and opened, and the files after it. -/
theorem convertFile_files [Decoders] (hread : s.files.read s.locale.cwd source = .ok bytes)
    (hopen : s.files.openFile s.locale.cwd destination = .ok (place, files))
    (name : Option Text) (o : Options) :
    let c := (Manuscript.ofBytes (name.getD source) bytes o).convertInto .fresh
    (s.convertFile (.path source) (.path destination) name o).1 = c.failure
      ∧ (s.convertFile (.path source) (.path destination) name o).2.files
        = FileTree.put (.file (piecesEncoded c.target)) place files := by
  have hsource : s.readSource (.path source) = .ok bytes := by
    rw [readSource, hread]
  have hdestination : ∀ journal, (s.say journal).openDestination (.path destination)
      = .ok (.file place, { s.say journal with files }) := by
    intro journal
    have hopen' : (s.say journal).files.openFile (s.say journal).locale.cwd destination
      = .ok (place, files) := hopen
    rw [openDestination, hopen']
  unfold convertFile
  rw [hsource]
  dsimp only
  rw [hdestination]
  exact ⟨rfl, rfl⟩

/-- A conversion that cannot read its source or open its destination changes no file. -/
theorem convertFile_cases [Decoders] (s : Session) (source destination : Text) (name : Option Text)
    (o : Options) :
    let left := s.convertFile (.path source) (.path destination) name o
    (left.1 ≠ none ∧ left.2.files = s.files) ∨ ∃ bytes place files,
      s.files.read s.locale.cwd source = .ok bytes
        ∧ s.files.openFile s.locale.cwd destination = .ok (place, files) := by
  intro left
  cases hread : s.files.read s.locale.cwd source with
  | error e =>
    have hleft : left = (some (.unreadable source e.code), s) := by
      simp only [left, convertFile, readSource, hread]
    exact .inl (by rw [hleft]; exact ⟨Option.some_ne_none _, rfl⟩)
  | ok bytes =>
    cases hopen : s.files.openFile s.locale.cwd destination with
    | error e =>
      have hleft : left = (some (.cannotOpen destination e.code),
          s.say (Manuscript.ofBytes (name.getD source) bytes o).journal) := by
        simp only [left, convertFile, readSource, hread, openDestination, say, hopen,
          Endpoint.sourceName]
      exact .inl (by rw [hleft]; exact ⟨Option.some_ne_none _, rfl⟩)
    | ok opened => exact .inr ⟨bytes, opened.1, opened.2, rfl, rfl⟩

theorem locale_deliver (s : Session) (bytes : Bytes) (opened : Destination) :
    (s.deliver bytes opened).locale = s.locale := by
  cases opened <;> rfl

theorem locale_openDestination {s s' : Session} {destination : Endpoint} {opened : Destination}
    (h : s.openDestination destination = .ok (opened, s')) : s'.locale = s.locale := by
  unfold openDestination at h
  split at h
  · cases h
    rfl
  · split at h
    · cases h
      rfl
    · cases h

/-- A conversion stays where it is. -/
theorem locale_convertFile [Decoders] (s : Session) (source destination : Endpoint)
    (name : Option Text) (o : Options) :
    (s.convertFile source destination name o).2.locale = s.locale := by
  unfold convertFile
  split
  · rfl
  · dsimp only
    split
    · rfl
    · rename_i hopen
      have hlocale := locale_openDestination hopen
      exact (locale_deliver _ _ _).trans hlocale

/-- Whatever its encoding, a file is converted as its text is. -/
theorem convertFile_decodeSource [Decoders] (hread : s.files.read s.locale.cwd source = .ok bytes)
    (hopen : s.files.openFile s.locale.cwd destination = .ok (place, files))
    (name : Option Text) (o : Options) :
    let c := convert (name.getD source) (decodeSource (name.getD source) bytes).1 o
    let left := s.convertFile (.path source) (.path destination) name o
    left.1 = c.failure.map (.withOutput [])
      ∧ c.failure = left.1.map (.withOutput c.output)
      ∧ left.2.files.read s.locale.cwd destination = .ok (Utf8.encode c.output) := by
  intro c left
  let t := (decodeSource (name.getD source) bytes).1
  let written := convertInto .fresh (name.getD source) t (resolvedOptions (name.getD source) t o)
  obtain ⟨hfailure, hfiles⟩ := convertFile_files hread hopen name o
  replace hfailure : left.1 = written.failure := hfailure
  replace hfiles : left.2.files
      = FileTree.put (.file (piecesEncoded written.target)) place files := hfiles
  have hconvert : c.failure = written.failure.map (.withOutput c.output) := failure_convert _ _ _
  have hforget : (Failure.withOutput [] ∘ Failure.withOutput c.output) = Failure.withOutput [] := by
    funext e
    cases e <;> rfl
  have hwritten : written.failure.map (.withOutput []) = written.failure := withOutput_failure _ _ _
  refine ⟨?_, ?_, ?_⟩
  · rw [hfailure, hconvert, Option.map_map, hforget, hwritten]
  · rw [hfailure, hconvert]
  · rw [hfiles, FileTree.read_put_of_openFile hopen, piecesEncoded_convertInto]
    rfl

end

/-- A file with the UTF-8 bytes of a text that names no other encoding is converted as the text
is.  The same failure is reported, except that it holds no output, and either way the
destination holds the bytes of the whole output. -/
theorem convertFile_convert [Decoders] {s : Session} {source destination t : Text}
    {place : List Text} {files : FileTree}
    (hread : s.files.read s.locale.cwd source = .ok (Utf8.encode t))
    (hopen : s.files.openFile s.locale.cwd destination = .ok (place, files))
    (ht : Utf8.WellFormed t) (hmark : t.head? ≠ some 0xFEFF) (hencoding : NamesUtf8 t)
    (name : Option Text) (o : Options) :
    let c := convert (name.getD source) t o
    let left := s.convertFile (.path source) (.path destination) name o
    left.1 = c.failure.map (.withOutput [])
      ∧ c.failure = left.1.map (.withOutput c.output)
      ∧ left.2.files.read s.locale.cwd destination = .ok (Utf8.encode c.output) := by
  have hconverted := convertFile_decodeSource hread hopen name o
  rwa [decodeSource_encode ht hmark hencoding (name.getD source)] at hconverted

/-- Decoders for one encoding besides UTF-8, in which every byte is the unit of its number. -/
@[reducible] def latin1Decoders : Decoders where
  ofLabel? label := if label = ofString "latin1" then some (·.map UInt8.toUInt16) else none
  ascii label decode h := by
    obtain ⟨rfl, -⟩ := Option.ite_none_right_eq_some.1 h
    have hall : (ofString "latin1").all (·.toNat < 0x80) = true := by decide
    exact fun u hu => of_decide_eq_true (List.all_eq_true.1 hall u hu)

/-- The halves of a surrogate pair, each in an escape of its own, in a list that is not ended. -/
def halvesSource : Text := "=encoding utf8\n\n=over\n\nE<0xD83D>E<0xDE00>\n"

/-- A session where it is the only file. -/
def halvesSession : Session where
  locale := ⟨"/", "/"⟩
  files := .directory [("halves.pod", .file (Utf8.encode halvesSource))]
  input := []
  output := []
  errors := []
  threshold := Log.defaultThreshold

section

attribute [local instance] latin1Decoders

/-- Its output is in another file in the end. -/
theorem convertFile_convert_halves :
    ∃ place files,
      halvesSession.files.read halvesSession.locale.cwd "halves.pod"
        = .ok (Utf8.encode halvesSource)
        ∧ halvesSession.files.openFile halvesSession.locale.cwd "halves.th" = .ok (place, files)
        ∧ Utf8.WellFormed halvesSource ∧ halvesSource.head? ≠ some 0xFEFF
        ∧ NamesUtf8 halvesSource
        ∧ (halvesSession.convertFile (.path "halves.pod") (.path "halves.th") none
            .plain).2.files.read halvesSession.locale.cwd "halves.th"
          = .ok (Utf8.encode (convert "halves.pod" halvesSource .plain).output) := by
  have hread : halvesSession.files.read halvesSession.locale.cwd "halves.pod"
      = .ok (Utf8.encode halvesSource) := by rfl
  have hopen : halvesSession.files.openFile halvesSession.locale.cwd "halves.th"
      = .ok (["halves.th"], FileTree.put (.file []) ["halves.th"] halvesSession.files) := by rfl
  have ht : Utf8.WellFormed halvesSource := by decide +kernel
  have hmark : halvesSource.head? ≠ some 0xFEFF := by decide
  have hencoding : NamesUtf8 halvesSource := by decide +kernel
  have hconverted := convertFile_convert hread hopen ht hmark hencoding none .plain
  exact ⟨_, _, hread, hopen, ht, hmark, hencoding, hconverted.2.2⟩

end

end Session

end PodLoom
