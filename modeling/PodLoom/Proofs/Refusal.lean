import PodLoom.Manuscript
import PodLoom.Proofs.SourceCourse

set_option autoImplicit false

/-!
# Targets that refuse a piece

A conversion into a target that refuses a piece is compared with the conversion of the
same manuscript into a target that takes everything.  If the whole conversion comes to
the piece, the other ends there: it fails because of it and of nothing else, the target
has the pieces before it, and what was warned of before was warned of in the whole
conversion too, first and in the same order.  If not, the two are the same
(`convertInto_refusing`).
-/

namespace PodLoom

open Text
open PodLoom.Thread (Options Registry Target Writer warnings)

namespace Thread.Target

/-- A target that takes a number of pieces and refuses the one after them. -/
def refusing (n : Nat) (reason : Text) : Target := ⟨[], some (n, reason)⟩

end Thread.Target

/-- Receiving a source on a target that refuses a piece, beside receiving it on a target
that takes everything. -/
theorem receiveSource_refusing (file source : Text) (o : Options) (n : Nat) (reason : Text) :
    let whole := receiveSource file source (Writer.on .fresh o)
    let cut := receiveSource file source (Writer.on (.refusing n reason) o)
    if n < whole.2.target.taken.length then
      cut.1 = .error (.refused reason)
        ∧ cut.2.target.taken = whole.2.target.taken.take n
        ∧ cut.2.diagnostics <+: whole.2.diagnostics
        ∧ warnings cut.2.journal = warnings whole.2.journal
    else cut.1 = whole.1 ∧ ∃ t, t.taken = whole.2.target.taken ∧ cut.2 = onto whole.2 t := by
  intro whole cut
  cases hsections : Registry.create (o.anchors.getD []) with
  | error e =>
    have hwhole : whole = _ := receiveSource_unstarted (w := Writer.on .fresh o) hsections
      file source
    have hcut : cut = _ := receiveSource_unstarted (w := Writer.on (.refusing n reason) o)
      hsections file source
    have hnone : ¬ n < whole.2.target.taken.length := by
      rw [hwhole]
      exact Nat.not_lt_zero n
    rw [if_neg hnone, hwhole, hcut]
    exact ⟨rfl, .refusing n reason, rfl, rfl⟩
  | ok sections =>
    obtain ⟨r, w, pieces, hcourse⟩ := streams_receiveSource file source
      ((announced file source (Writer.on .fresh o)).started (sourceInfo file source) sections)
    have hwhole : whole = (r, onto w ⟨pieces, none⟩) :=
      (receiveSource_started (w := Writer.on .fresh o) hsections file source).trans
        (hcourse.taken (t := .fresh) (Target.takeAll_willing rfl pieces))
    have hstart : cut = _ := receiveSource_started (w := Writer.on (.refusing n reason) o)
      hsections file source
    have hfault := Target.takeAll_fault [] n reason pieces
    have hpieces : whole.2.target.taken = pieces := by
      rw [hwhole]
      rfl
    by_cases hn : n < pieces.length
    · obtain ⟨w', hleads, hrun⟩ := hcourse.refused (hfault.trans (if_pos hn))
      have hcut : cut = (.error (.refused reason), onto w' ⟨pieces.take n, none⟩) :=
        hstart.trans hrun
      rw [hpieces, if_pos hn, hcut, hwhole]
      exact ⟨rfl, rfl, hleads.diagnostics, hleads.warnings.symm⟩
    · have hcut : cut = (r, onto w ⟨pieces, some (n - pieces.length, reason)⟩) :=
        hstart.trans (hcourse.taken (hfault.trans (if_neg hn)))
      rw [hpieces, if_neg hn, hcut, hwhole]
      exact ⟨rfl, ⟨pieces, some (n - pieces.length, reason)⟩, rfl, rfl⟩

/-- All that is warned of among diagnostics is among the warnings in the log. -/
theorem warnings_warningEntries (diagnostics : List Thread.Diagnostic) :
    warnings (Conversion.warningEntries diagnostics) = Conversion.warningEntries diagnostics := by
  refine List.filter_eq_self.2 ?_
  intro entry hentry
  obtain ⟨d, -, rfl⟩ := List.mem_map.1 hentry
  rfl

theorem warningEntries_mono {diagnostics more : List Thread.Diagnostic}
    (h : diagnostics <+: more) :
    Conversion.warningEntries diagnostics <+: Conversion.warningEntries more :=
  (h.filter _).map _

/-- The warnings that converting a manuscript leaves in the log. -/
theorem warnings_convertInto (m : Manuscript) (t : Target) :
    warnings (m.convertInto t).journal
      = warnings (receiveSource m.file m.text (Writer.on t m.options)).2.journal
        ++ Conversion.warningEntries (m.convertInto t).diagnostics := by
  have hsuccess : warnings (if (m.convertInto t).failure.isNone then
      [Manuscript.convertedEntry m.file (m.convertInto t).diagnostics.length] else []) = [] := by
    split <;> rfl
  show warnings (_ ++ Conversion.warningEntries (m.convertInto t).diagnostics ++ _) = _
  rw [warnings, List.filter_append, List.filter_append]
  refine (congrArg _ hsuccess).trans ?_
  rw [List.append_nil]
  exact congrArg _ (warnings_warningEntries _)

/-- A conversion into a target that refuses a piece.  If the conversion that no piece is
refused of has that piece, the other fails because of it, whatever the errors of the
source; the target has the pieces before it; and the warnings in the log are the first of
those of the whole conversion.  If the conversion ends before that piece, nothing is
refused, and the outcome is the same. -/
theorem convertInto_refusing [Decoders] (file : Text) (bytes : Bytes) (o : Options) (n : Nat)
    (reason : Text) :
    let m := Manuscript.ofBytes file bytes o
    let whole := m.convertInto .fresh
    let cut := m.convertInto (.refusing n reason)
    if n < whole.target.taken.length then
      cut.failure = some (.refused reason)
        ∧ cut.target.taken = whole.target.taken.take n
        ∧ warnings (m.journal ++ cut.journal) <+: warnings (m.journal ++ whole.journal)
    else
      cut.target.taken = whole.target.taken
        ∧ cut.diagnostics = whole.diagnostics
        ∧ cut.failure = whole.failure := by
  intro m whole cut
  let received (t : Target) := receiveSource m.file m.text (Writer.on t m.options)
  have hreceived : if n < (received .fresh).2.target.taken.length then _ else _ :=
    receiveSource_refusing m.file m.text m.options n reason
  have htarget : ∀ t, (m.convertInto t).target = (received t).2.target := fun _ => rfl
  have hreported : ∀ t, (m.convertInto t).diagnostics = (received t).2.diagnostics := fun _ => rfl
  have hfailure : ∀ t, (m.convertInto t).failure = (concluded (received t)).failure :=
    fun _ => rfl
  rw [htarget, htarget, hreported, hreported, hfailure, hfailure]
  by_cases hn : n < (received .fresh).2.target.taken.length
  · rw [if_pos hn] at hreceived ⊢
    obtain ⟨hresult, htaken, hdiagnostics, hjournal⟩ := hreceived
    refine ⟨?_, htaken, ?_⟩
    · rw [concluded, hresult]
    · rw [warnings, warnings, List.filter_append, List.filter_append]
      refine (List.prefix_append_right_inj _).2 ?_
      show warnings cut.journal <+: warnings whole.journal
      rw [warnings_convertInto, warnings_convertInto, hjournal]
      exact (List.prefix_append_right_inj _).2 (warningEntries_mono hdiagnostics)
  · rw [if_neg hn] at hreceived ⊢
    obtain ⟨hresult, t, htaken, hwriter⟩ := hreceived
    refine ⟨?_, ?_, ?_⟩
    · rw [hwriter]
      exact htaken
    · rw [hwriter]
      rfl
    · rw [concluded, concluded, hresult]

end PodLoom
