import PodLoom.Pod.Inline
import PodLoom.Proofs.Text.Splitting
import PodLoom.Proofs.Text.Utf8
import PodLoom.Source

set_option autoImplicit false

/-!
# The encoding of a source in UTF-8

An `=encoding` line is looked for in the bytes of a source, one unit a byte.  In UTF-8 the
bytes of a line are the line itself as far as it is ASCII, and no other character has an
ASCII byte.  So a label that is known is found in the bytes only if it stands in the text
(`encodingLabel?_of_units`), and a text that names no other encoding is read from its bytes
as it is (`decodeSource_encode`).
-/

namespace PodLoom

open Text CodeUnit

namespace Text

/-! ## Lines -/

/-- A carriage return as a line feed. -/
def feed (u : CodeUnit) : CodeUnit := if u = carriageReturn then newline else u

/-- The lines of a text, split at line feeds and carriage returns. -/
def looseLines (t : Text) : List Text := lines (t.map feed)

namespace Utf8

theorem units_join {sep : CodeUnit} (hsep : sep.toNat < 0x80) (ts : List Text) :
    units (join [sep] ts) = join [sep] (ts.map units) := by
  induction ts with
  | nil => rfl
  | cons s rest ih =>
    cases rest with
    | nil => simp [join]
    | cons t rest =>
      rw [join_cons_cons, List.singleton_append, units_append_cons_ascii s hsep, ih, List.map_cons,
        List.map_cons, List.map_cons, join_cons_cons]
      rfl

end Utf8

/-- A separator in ASCII stands in no encoded piece. -/
theorem notMem_of_mem_map_units {sep : CodeUnit} (hsep : sep.toNat < 0x80) {t s : Text}
    (h : s ∈ (splitOn sep t).map Utf8.units) : sep ∉ s := by
  obtain ⟨piece, hpiece, rfl⟩ := List.mem_map.1 h
  exact fun hmem => notMem_of_mem_splitOn hpiece (Utf8.mem_of_mem_units hmem hsep)

theorem map_feed_of_notMem {t : Text} (h : carriageReturn ∉ t) : t.map feed = t := by
  have heach : ∀ u ∈ t, feed u = u := fun u hu =>
    if_neg fun heq : u = carriageReturn => h (heq ▸ hu)
  exact (List.map_congr_left heach).trans (List.map_id t)

theorem map_feed_join {ts : List Text} (h : ∀ t ∈ ts, carriageReturn ∉ t) :
    (join [carriageReturn] ts).map feed = join [newline] ts := by
  induction ts with
  | nil => rfl
  | cons s rest ih =>
    have hs := map_feed_of_notMem (h s List.mem_cons_self)
    cases rest with
    | nil => simpa [join] using hs
    | cons t rest =>
      have hrest := ih fun t ht => h t (List.mem_cons_of_mem s ht)
      rw [join_cons_cons, join_cons_cons, List.map_append, List.map_append, hs, hrest]
      rfl

theorem map_feed_eq (t : Text) : t.map feed = join [newline] (splitOn carriageReturn t) := by
  have h := map_feed_join fun s (hs : s ∈ splitOn carriageReturn t) => notMem_of_mem_splitOn hs
  rwa [join_splitOn] at h

end Text

/-! ## The lines of a source -/

/-- Read one unit a byte, carriage returns read as line feeds. -/
theorem map_encode_feed (t : Text) :
    (Utf8.encode t).map (fun b => if b = 13 then newline else b.toUInt16)
      = Utf8.units (t.map feed) := by
  have hfeed : ∀ b : UInt8, (if b = 13 then newline else b.toUInt16) = feed b.toUInt16 := by
    intro b
    rw [feed]
    by_cases hb : b = 13
    · rw [if_pos hb, hb]
      rfl
    · have hunit : b.toUInt16 ≠ carriageReturn := fun h =>
        hb (UInt8.toNat_inj.1 ((UInt8.toNat_toUInt16 b).symm.trans (congrArg UInt16.toNat h)))
      rw [if_neg hb, if_neg hunit]
  calc (Utf8.encode t).map (fun b => if b = 13 then newline else b.toUInt16)
      = (Utf8.units t).map feed := by
        rw [Utf8.units, List.map_map]
        exact List.map_congr_left fun b _ => hfeed b
    _ = (join [carriageReturn] ((splitOn carriageReturn t).map Utf8.units)).map feed := by
        rw [← Utf8.units_join (by decide), join_splitOn]
    _ = join [newline] ((splitOn carriageReturn t).map Utf8.units) :=
        map_feed_join fun _ h => notMem_of_mem_map_units (by decide) h
    _ = Utf8.units (t.map feed) := by
        rw [map_feed_eq, Utf8.units_join (by decide)]

/-- The lines in the bytes of a text are the bytes of its lines. -/
theorem rawLines_encode (t : Text) : rawLines (Utf8.encode t) = (looseLines t).map Utf8.units := by
  have hne : (looseLines t).map Utf8.units ≠ [] := by
    rw [Ne, List.map_eq_nil_iff]
    exact splitOn_ne_nil newline _
  have hjoin := join_splitOn newline (t.map feed)
  rw [rawLines, map_encode_feed, ← hjoin, Utf8.units_join (by decide)]
  exact splitOn_join (fun _ h => notMem_of_mem_map_units (by decide) h) hne

/-! ## Labels -/

theorem afterFront?_append (front rest : Text) : afterFront? front (front ++ rest) = some rest := by
  rw [afterFront?, if_pos (List.isPrefixOf_iff_prefix.2 (List.prefix_append front rest)),
    List.drop_left]

/-- A line that names an encoding: the command, a gap, the label, and what is behind it. -/
structure EncodingLine (line gap label rest : Text) : Prop where
  eq : line = ofString "=encoding" ++ (gap ++ (label ++ rest))
  isSpaceOrTab_gap : ∀ u ∈ gap, u.isSpaceOrTab = true
  gap_ne_nil : gap ≠ []
  isBlank_label : ∀ u ∈ label, u.isBlank = false
  label_ne_nil : label ≠ []
  isBlank_rest : ∀ u ∈ rest.head?, u.isBlank = true

theorem exists_encodingLine {line label : Text} (h : encodingLabel? line = some label) :
    ∃ gap rest, EncodingLine line gap label rest := by
  obtain ⟨after, hafter, h⟩ := Option.bind_eq_some_iff.1 h
  dsimp only at h
  obtain ⟨⟨hshorter, hne⟩, hlabel⟩ := Option.ite_none_right_eq_some.1 h
  rw [← Option.some.inj hlabel]
  generalize hargument : after.dropWhile CodeUnit.isSpaceOrTab = argument at hshorter hne ⊢
  have hsplit := List.takeWhile_append_dropWhile (p := CodeUnit.isSpaceOrTab) (l := after)
  rw [hargument] at hsplit
  refine ⟨after.takeWhile CodeUnit.isSpaceOrTab, (spanWord argument).2, ?_, ?_, ?_, ?_, hne, ?_⟩
  · rw [spanWord, List.takeWhile_append_dropWhile, hsplit]
    exact Pod.afterFront?_eq_some hafter
  · exact fun u hu => List.all_eq_true.1 List.all_takeWhile u hu
  · intro hnil
    rw [hnil, List.nil_append] at hsplit
    rw [hsplit] at hshorter
    exact Nat.lt_irrefl _ hshorter
  · intro u hu
    simpa using List.all_eq_true.1 List.all_takeWhile u hu
  · intro u hu
    have hhead := List.head?_dropWhile_not (fun u : CodeUnit => !u.isBlank) argument
    rw [show (argument.dropWhile fun u : CodeUnit => !u.isBlank).head? = some u from hu] at hhead
    simpa using hhead

namespace EncodingLine

variable {line gap label rest : Text}

theorem argument (h : EncodingLine line gap label rest) :
    (gap ++ (label ++ rest)).dropWhile CodeUnit.isSpaceOrTab = label ++ rest := by
  obtain ⟨u, more, rfl⟩ := List.exists_cons_of_ne_nil h.label_ne_nil
  have hu : ¬u.isSpaceOrTab = true := fun hspace =>
    Bool.false_ne_true
      ((h.isBlank_label u List.mem_cons_self).symm.trans (isBlank_of_isSpaceOrTab hspace))
  rw [List.dropWhile_append_of_pos h.isSpaceOrTab_gap, List.cons_append,
    List.dropWhile_cons_of_neg hu]

theorem word (h : EncodingLine line gap label rest) : (spanWord (label ++ rest)).1 = label := by
  rw [spanWord, List.takeWhile_append_of_pos fun v hv => by rw [h.isBlank_label v hv]; rfl]
  cases rest with
  | nil => exact List.append_nil _
  | cons v rest =>
    rw [List.takeWhile_cons_of_neg (by rw [h.isBlank_rest v rfl]; exact Bool.false_ne_true),
      List.append_nil]

theorem encodingLabel?_eq (h : EncodingLine line gap label rest) :
    encodingLabel? line = some label := by
  have hshorter : (label ++ rest).length < (gap ++ (label ++ rest)).length := by
    have hgap := List.length_pos_iff.2 h.gap_ne_nil
    simp only [List.length_append]
    omega
  rw [h.eq, encodingLabel?, afterFront?_append]
  show (if _ then _ else _) = _
  rw [h.argument, h.word, if_pos ⟨hshorter, h.label_ne_nil⟩]

/-- An `=encoding` line is in ASCII up to its label, if its label is. -/
theorem ascii (h : EncodingLine line gap label rest) (hlabel : ∀ u ∈ label, u.toNat < 0x80) :
    ∀ u ∈ ofString "=encoding" ++ (gap ++ label), u.toNat < 0x80 := by
  intro u hu
  rcases List.mem_append.1 hu with hu | hu
  · have hall : (ofString "=encoding").all (·.toNat < 0x80) = true := by decide
    simpa using List.all_eq_true.1 hall u hu
  · rcases List.mem_append.1 hu with hu | hu
    · have hspace := h.isSpaceOrTab_gap u hu
      simp only [isSpaceOrTab, Bool.or_eq_true, beq_iff_eq] at hspace
      rcases hspace with rfl | rfl <;> decide
    · exact hlabel u hu

end EncodingLine

/-- The labels that are known are ASCII. -/
theorem ascii_of_decoder? [Decoders] {label : Text} {decode : Bytes → Text}
    (h : decoder? label = some decode) : ∀ u ∈ label, u.toNat < 0x80 := by
  unfold decoder? at h
  split at h
  · rename_i hlabel
    exact ascii_of_any_lower (by decide +kernel) hlabel
  · exact Decoders.ascii label decode h

/-- White space at the front of what is written is at the front of the text: a byte that is white
space is ASCII, or it continues a character, and no text starts with such a byte. -/
theorem isBlank_head_of_units {t : Text} (h : ∀ u ∈ (Utf8.units t).head?, u.isBlank = true) :
    ∀ u ∈ t.head?, u.isBlank = true := by
  cases t with
  | nil => exact fun u hu => nomatch hu
  | cons u more =>
    intro v hv
    obtain rfl : u = v := Option.some.inj hv
    by_cases hascii : u.toNat < 0x80
    · rw [Utf8.units_cons_ascii hascii] at h
      exact h u rfl
    · obtain ⟨w, bytes, hbytes, hfirst, hlast⟩ := Utf8.exists_units_cons (Nat.not_lt.1 hascii) more
      have hall : ∀ n < 0x100, 0xC2 ≤ n → CodeUnit.isBlank (UInt16.ofNat n) = false := by
        decide +kernel
      have hfalse : w.isBlank = false := by simpa using hall w.toNat hlast hfirst
      have htrue : w.isBlank = true := h w (by rw [hbytes]; rfl)
      rw [hfalse] at htrue
      cases htrue

/-- A label in ASCII is named by the bytes of a line only if it is named by the line. -/
theorem encodingLabel?_of_units {line label : Text} (hlabel : ∀ u ∈ label, u.toNat < 0x80)
    (h : encodingLabel? (Utf8.units line) = some label) : encodingLabel? line = some label := by
  obtain ⟨gap, rest, hbytes⟩ := exists_encodingLine h
  have hfront : Utf8.units line = (ofString "=encoding" ++ (gap ++ label)) ++ rest := by
    rw [hbytes.eq]
    simp only [List.append_assoc]
  obtain ⟨after, rfl, rfl⟩ := Utf8.exists_of_units_eq (hbytes.ascii hlabel) hfront
  have hline : EncodingLine ((ofString "=encoding" ++ (gap ++ label)) ++ after) gap label after :=
    { hbytes with
      eq := by simp only [List.append_assoc]
      isBlank_rest := isBlank_head_of_units hbytes.isBlank_rest }
  exact hline.encodingLabel?_eq

section

variable [Decoders]

/-- No line of a text names an encoding that is known and not UTF-8. -/
def NamesUtf8 (t : Text) : Prop :=
  ∀ line ∈ looseLines t, ∀ label ∈ encodingLabel? line,
    (Decoders.ofLabel? label).isSome = true → isUtf8Label label = true

instance (t : Text) : Decidable (NamesUtf8 t) :=
  inferInstanceAs (Decidable (∀ line ∈ looseLines t, ∀ label ∈ encodingLabel? line,
    (Decoders.ofLabel? label).isSome = true → isUtf8Label label = true))

/-- A text without lone surrogates and without a byte order mark at its start, which names no
encoding but UTF-8, is read from its bytes in UTF-8 as it is. -/
theorem decodeSource_encode {t : Text} (ht : Utf8.WellFormed t) (hmark : t.head? ≠ some 0xFEFF)
    (hencoding : NamesUtf8 t) (file : Text) : (decodeSource file (Utf8.encode t)).1 = t := by
  have hread : Utf8.read (Utf8.encode t) = t := by
    rw [Utf8.read, Utf8.decode_encode ht, Utf8.dropMark, if_neg hmark]
  unfold decodeSource
  split
  · exact hread
  · rename_i label hlabel
    split
    · rename_i decode hdecode
      obtain ⟨units, hunits, hlabel⟩ := List.exists_of_findSome?_eq_some hlabel
      rw [rawLines_encode] at hunits
      obtain ⟨line, hline, rfl⟩ := List.mem_map.1 hunits
      have hnamed := encodingLabel?_of_units (ascii_of_decoder? hdecode) hlabel
      rw [decoder?] at hdecode
      split at hdecode
      · rw [← Option.some.inj hdecode]
        exact hread
      · rename_i hother
        have hsome : (Decoders.ofLabel? label).isSome = true := by rw [hdecode]; rfl
        exact absurd (hencoding line hline label hnamed hsome) hother
    · exact hread

end

end PodLoom
