import PodLoom.Text.Utf8

set_option autoImplicit false

/-!
# UTF-8 keeps text

A text without lone surrogates is read back from its bytes as it was written
(`decode_encode`).  And a text may be written in pieces, as long as no piece but the last ends
with the first half of a surrogate pair (`flatMap_encode`).
-/

namespace PodLoom.Text

open CodeUnit

/-! ## Texts that end with a whole character -/

/-- A text that does not end with the first half of a surrogate pair. -/
def Whole (t : Text) : Prop := ∀ u ∈ t.getLast?, u.isHighSurrogate = false

theorem whole_iff {t : Text} : t.getLast?.any CodeUnit.isHighSurrogate = false ↔ Whole t := by
  unfold Whole
  cases t.getLast? <;> simp

instance (t : Text) : Decidable (Whole t) := decidable_of_iff _ whole_iff

namespace Whole

theorem nil : Whole [] := by simp [Whole]

theorem concat (t : Text) {u : CodeUnit} (hu : u.isHighSurrogate = false) : Whole (t ++ [u]) := by
  intro v hv
  obtain rfl : u = v := by simpa using hv
  exact hu

/-- What stands before the end of a text makes no difference. -/
theorem of_append (s : Text) {t : Text} (h : Whole t) (hne : t ≠ []) : Whole (s ++ t) := by
  intro u hu
  rw [List.getLast?_append, List.getLast?_eq_some_getLast hne] at hu
  exact h u ((List.getLast?_eq_some_getLast hne).trans hu)

theorem append {s t : Text} (hs : Whole s) (ht : Whole t) : Whole (s ++ t) := by
  intro u hu
  rw [List.getLast?_append] at hu
  cases hlast : t.getLast? with
  | none =>
    rw [hlast] at hu
    exact hs u hu
  | some v =>
    rw [hlast] at hu
    exact ht u (hlast ▸ hu)

/-- The end of a text that ends with a whole character does so too. -/
theorem of_suffix {s t : Text} (h : Whole t) (hs : s <:+ t) : Whole s := by
  obtain ⟨front, rfl⟩ := hs
  intro u hu
  refine h u ?_
  rw [List.getLast?_append]
  rw [Option.mem_def] at hu
  rw [hu]
  rfl

end Whole

/-! ## Code points -/

theorem isHighSurrogate_iff {u : CodeUnit} :
    u.isHighSurrogate = true ↔ 0xD800 ≤ u.toNat ∧ u.toNat ≤ 0xDBFF := by
  simp [isHighSurrogate, UInt16.le_iff_toNat_le]

theorem isLowSurrogate_iff {u : CodeUnit} :
    u.isLowSurrogate = true ↔ 0xDC00 ≤ u.toNat ∧ u.toNat ≤ 0xDFFF := by
  simp [isLowSurrogate, UInt16.le_iff_toNat_le]

theorem ofCodePoint_toNat (u : CodeUnit) : ofCodePoint u.toNat = [u] := by
  rw [ofCodePoint, if_pos u.toNat_lt]
  simp

theorem ofCodePoint_pair {u v : CodeUnit} (hu : u.isHighSurrogate = true)
    (hv : v.isLowSurrogate = true) : ofCodePoint (pairCodePoint u v) = [u, v] := by
  rw [isHighSurrogate_iff] at hu
  rw [isLowSurrogate_iff] at hv
  have hhigh : 0xD800 + (pairCodePoint u v - 0x10000) / 0x400 = u.toNat := by
    unfold pairCodePoint
    omega
  have hlow : 0xDC00 + (pairCodePoint u v - 0x10000) % 0x400 = v.toNat := by
    unfold pairCodePoint
    omega
  rw [ofCodePoint, if_neg (by unfold pairCodePoint; omega), hhigh, hlow]
  simp

/-- The code points of a text make up the text. -/
theorem flatMap_ofCodePoint (t : Text) : t.codePoints.flatMap ofCodePoint = t := by
  fun_induction codePoints t with
  | case1 => rfl
  | case2 u => rw [List.flatMap_singleton, ofCodePoint_toNat]
  | case3 u v rest h ih =>
    rw [Bool.and_eq_true] at h
    rw [List.flatMap_cons, ih, ofCodePoint_pair h.1 h.2]
    rfl
  | case4 u v rest h ih =>
    rw [List.flatMap_cons, ih, ofCodePoint_toNat]
    rfl

theorem le_of_mem_codePoints {t : Text} {n : Nat} (h : n ∈ t.codePoints) : n ≤ 0x10FFFF := by
  fun_induction codePoints t with
  | case1 => cases h
  | case2 u =>
    obtain rfl := List.mem_singleton.1 h
    have hu := u.toNat_lt
    omega
  | case3 u v rest hpair ih =>
    rcases List.mem_cons.1 h with hn | h
    · rw [Bool.and_eq_true, isHighSurrogate_iff, isLowSurrogate_iff] at hpair
      unfold pairCodePoint at hn
      omega
    · exact ih h
  | case4 u v rest hpair ih =>
    rcases List.mem_cons.1 h with rfl | h
    · have hu := u.toNat_lt
      omega
    · exact ih h

/-- No surrogate pair has its first half at the end of `s` and its second at the start of `t`. -/
def Apart (s t : Text) : Prop :=
  ∀ u ∈ s.getLast?, ∀ v ∈ t.head?, (u.isHighSurrogate && v.isLowSurrogate) = false

namespace Apart

theorem of_whole {s : Text} (h : Whole s) (t : Text) : Apart s t := by
  intro u hu v _
  rw [h u hu]
  rfl

theorem of_cons (s : Text) {v : CodeUnit} (hv : v.isLowSurrogate = false) (t : Text) :
    Apart s (v :: t) := by
  intro u _ w hw
  obtain rfl : v = w := Option.some.inj hw
  rw [hv, Bool.and_false]

theorem of_suffix {s s' t : Text} (h : Apart s t) (hs : s' <:+ s) : Apart s' t := by
  intro u hu
  refine h u ?_
  obtain ⟨front, rfl⟩ := hs
  rw [Option.mem_def] at hu
  rw [List.getLast?_append, hu]
  rfl

end Apart

theorem codePoints_append {s t : Text} (h : Apart s t) :
    codePoints (s ++ t) = codePoints s ++ codePoints t := by
  fun_induction codePoints s with
  | case1 => rfl
  | case2 u =>
    cases t with
    | nil => rfl
    | cons v rest =>
      show codePoints (u :: v :: rest) = _
      rw [codePoints, h u (by simp) v (by simp)]
      rfl
  | case3 u v rest hpair ih =>
    show codePoints (u :: v :: (rest ++ t)) = _
    rw [codePoints, if_pos hpair, ih (h.of_suffix (List.suffix_append [u, v] rest))]
    rfl
  | case4 u v rest hpair ih =>
    show codePoints (u :: v :: (rest ++ t)) = _
    rw [codePoints, if_neg hpair]
    exact congrArg _ (ih (h.of_suffix (List.suffix_cons u (v :: rest))))

namespace Utf8

/-! ## Writing in pieces -/

theorem encode_append {s t : Text} (h : Apart s t) : encode (s ++ t) = encode s ++ encode t := by
  rw [encode, codePoints_append h, List.flatMap_append]
  rfl

/-- Text that is written in pieces is written as a whole, if the pieces end with whole
characters. -/
theorem flatMap_encode {ts : List Text} (h : ∀ t ∈ ts, Whole t) :
    ts.flatMap encode = encode ts.flatten := by
  induction ts with
  | nil => rfl
  | cons t rest ih =>
    rw [List.flatMap_cons, List.flatten_cons, encode_append (.of_whole (h t List.mem_cons_self) _),
      ih fun s hs => h s (List.mem_cons_of_mem t hs)]

/-! ## Reading back what was written -/

/-- A text without lone surrogates. -/
def WellFormed (t : Text) : Prop := ∀ n ∈ t.codePoints, isSurrogate n = false

instance (t : Text) : Decidable (WellFormed t) :=
  inferInstanceAs (Decidable (∀ n ∈ t.codePoints, isSurrogate n = false))

theorem encode_of_wellFormed {t : Text} (h : WellFormed t) :
    encode t = t.codePoints.flatMap encodePoint := by
  refine congrArg List.flatten (List.map_congr_left fun n hn => ?_)
  rw [h n hn]
  rfl

theorem toNat_toUInt8 {n : Nat} (h : n < 256) : n.toUInt8.toNat = n := by
  simpa using h

theorem toUInt16_toUInt8 {n : Nat} (h : n < 256) : n.toUInt8.toUInt16 = n.toUInt16 := by
  apply UInt16.toNat_inj.1
  have hn : n < 65536 := by omega
  simpa [Nat.mod_eq_of_lt hn] using h

section

variable {b : UInt8}

theorem step_first_one (h : b.toNat < 0x80) : step none b = ([b.toUInt16], none) := by
  have hb : b < 0x80 := UInt8.lt_iff_toNat_lt.2 h
  rw [step, begin, if_pos hb]

theorem step_first_two (h : 0xC2 ≤ b.toNat) (h' : b.toNat < 0xE0) :
    step none b = ([], some ⟨1, 0x80, 0xBF, b.toNat - 0xC0⟩) := by
  have hb : ¬b < 0x80 ∧ ¬b < 0xC2 ∧ b < 0xE0 := by
    simp only [UInt8.lt_iff_toNat_lt, UInt8.reduceToNat]
    omega
  rw [step, begin, if_neg hb.1, if_neg hb.2.1, if_pos hb.2.2]

theorem step_first_three (h : 0xE0 ≤ b.toNat) (h' : b.toNat < 0xF0) :
    step none b = ([], some ⟨2, if b = 0xE0 then 0xA0 else 0x80, if b = 0xED then 0x9F else 0xBF,
      b.toNat - 0xE0⟩) := by
  have hb : ¬b < 0x80 ∧ ¬b < 0xC2 ∧ ¬b < 0xE0 ∧ b < 0xF0 := by
    simp only [UInt8.lt_iff_toNat_lt, UInt8.reduceToNat]
    omega
  rw [step, begin, if_neg hb.1, if_neg hb.2.1, if_neg hb.2.2.1, if_pos hb.2.2.2]

theorem step_first_four (h : 0xF0 ≤ b.toNat) (h' : b.toNat < 0xF5) :
    step none b = ([], some ⟨3, if b = 0xF0 then 0x90 else 0x80, if b = 0xF4 then 0x8F else 0xBF,
      b.toNat - 0xF0⟩) := by
  have hb : ¬b < 0x80 ∧ ¬b < 0xC2 ∧ ¬b < 0xE0 ∧ ¬b < 0xF0 ∧ b < 0xF5 := by
    simp only [UInt8.lt_iff_toNat_lt, UInt8.reduceToNat]
    omega
  rw [step, begin, if_neg hb.1, if_neg hb.2.1, if_neg hb.2.2.1, if_neg hb.2.2.2.1, if_pos hb.2.2.2.2]

variable {c : Begun}

/-- A byte that continues a character but does not complete it. -/
theorem step_more (hlacking : 1 < c.lacking) (hleast : c.least.toNat ≤ b.toNat)
    (hgreatest : b.toNat ≤ c.greatest.toNat) :
    step (some c) b
      = ([], some ⟨c.lacking - 1, 0x80, 0xBF, c.value * 0x40 + (b.toNat - 0x80)⟩) := by
  have hrange : (c.least ≤ b && b ≤ c.greatest) = true := by
    simpa [UInt8.le_iff_toNat_le] using ⟨hleast, hgreatest⟩
  rw [step]
  dsimp only
  rw [if_pos hrange, if_neg (Nat.not_le.2 hlacking)]

/-- A byte that completes a character. -/
theorem step_last (hlacking : c.lacking = 1) (hleast : c.least.toNat ≤ b.toNat)
    (hgreatest : b.toNat ≤ c.greatest.toNat) :
    step (some c) b = (ofCodePoint (c.value * 0x40 + (b.toNat - 0x80)), none) := by
  have hrange : (c.least ≤ b && b ≤ c.greatest) = true := by
    simpa [UInt8.le_iff_toNat_le] using ⟨hleast, hgreatest⟩
  rw [step]
  dsimp only
  rw [if_pos hrange, if_pos (Nat.le_of_eq hlacking)]

end

theorem decodeFrom_cons {begun next : Option Begun} {b : UInt8} {units : Text}
    (h : step begun b = (units, next)) (rest : List UInt8) :
    decodeFrom begun (b :: rest) = units ++ decodeFrom next rest := by
  rw [decodeFrom, h]

/-! Each length of a character: its first byte says how many follow, and the range of the second
one is never left. -/

section

variable {n : Nat} (rest : List UInt8)

theorem decodeFrom_one (h : n < 0x80) :
    decodeFrom none (n.toUInt8 :: rest) = ofCodePoint n ++ decodeFrom none rest := by
  have hbyte := toNat_toUInt8 (n := n) (by omega)
  rw [decodeFrom_cons (step_first_one (by omega)), toUInt16_toUInt8 (by omega), ofCodePoint,
    if_pos (by omega)]

/-- The last byte of a character. -/
theorem decodeFrom_last {c : Begun} (hlacking : c.lacking = 1)
    (hleast : c.least.toNat ≤ 0x80 + n % 0x40) (hgreatest : 0x80 + n % 0x40 ≤ c.greatest.toNat)
    (hvalue : c.value = n / 0x40) :
    decodeFrom (some c) ((0x80 + n % 0x40).toUInt8 :: rest)
      = ofCodePoint n ++ decodeFrom none rest := by
  have hbyte := toNat_toUInt8 (n := 0x80 + n % 0x40) (by omega)
  have hcomplete : c.value * 0x40 + (0x80 + n % 0x40 - 0x80) = n := by omega
  rw [decodeFrom_cons (step_last hlacking (by omega) (by omega)), hbyte, hcomplete]

/-- A byte inside a character, of which `n` is what it completes. -/
theorem decodeFrom_more {c : Begun} (hlacking : 1 < c.lacking)
    (hleast : c.least.toNat ≤ 0x80 + n % 0x40) (hgreatest : 0x80 + n % 0x40 ≤ c.greatest.toNat)
    (hvalue : c.value = n / 0x40) :
    decodeFrom (some c) ((0x80 + n % 0x40).toUInt8 :: rest)
      = decodeFrom (some ⟨c.lacking - 1, 0x80, 0xBF, n⟩) rest := by
  have hbyte := toNat_toUInt8 (n := 0x80 + n % 0x40) (by omega)
  have hcomplete : c.value * 0x40 + (0x80 + n % 0x40 - 0x80) = n := by omega
  rw [decodeFrom_cons (step_more hlacking (by omega) (by omega)), hbyte, hcomplete,
    List.nil_append]

theorem decodeFrom_two (h : 0x80 ≤ n) (h' : n < 0x800) :
    decodeFrom none ((0xC0 + n / 0x40).toUInt8 :: (0x80 + n % 0x40).toUInt8 :: rest)
      = ofCodePoint n ++ decodeFrom none rest := by
  have hfirst := toNat_toUInt8 (n := 0xC0 + n / 0x40) (by omega)
  rw [decodeFrom_cons (step_first_two (by omega) (by omega)), List.nil_append, hfirst,
    decodeFrom_last rest rfl]
  · exact Nat.le_add_right 0x80 _
  · show 0x80 + n % 0x40 ≤ 0xBF
    omega
  · exact Nat.add_sub_cancel_left 0xC0 _

theorem decodeFrom_three (h : 0x800 ≤ n) (h' : n < 0x10000) (hsurrogate : isSurrogate n = false) :
    decodeFrom none ((0xE0 + n / 0x1000).toUInt8 :: (0x80 + n / 0x40 % 0x40).toUInt8
        :: (0x80 + n % 0x40).toUInt8 :: rest)
      = ofCodePoint n ++ decodeFrom none rest := by
  have hfirst := toNat_toUInt8 (n := 0xE0 + n / 0x1000) (by omega)
  generalize (0xE0 + n / 0x1000).toUInt8 = b at hfirst ⊢
  have hleast : (if b = 0xE0 then 0xA0 else 0x80 : UInt8).toNat ≤ 0x80 + n / 0x40 % 0x40 := by
    split
    · rename_i hb
      have hb' : b.toNat = 0xE0 := congrArg UInt8.toNat hb
      show 0xA0 ≤ _
      omega
    · exact Nat.le_add_right 0x80 _
  -- Behind `ED` the range ends before the surrogates.
  have hgreatest : 0x80 + n / 0x40 % 0x40 ≤ (if b = 0xED then 0x9F else 0xBF : UInt8).toNat := by
    split
    · rename_i hb
      have hb' : b.toNat = 0xED := congrArg UInt8.toNat hb
      have hn : ¬(0xD800 ≤ n ∧ n ≤ 0xDFFF) := by simpa [isSurrogate] using hsurrogate
      show _ ≤ 0x9F
      omega
    · show _ ≤ 0xBF
      omega
  rw [decodeFrom_cons (step_first_three (by omega) (by omega)), List.nil_append,
    decodeFrom_more _ (Nat.lt_succ_self 1) hleast hgreatest (by dsimp only; omega),
    decodeFrom_last rest rfl (Nat.le_add_right 0x80 _) ?_ rfl]
  show _ ≤ 0xBF
  omega

theorem decodeFrom_four (h : 0x10000 ≤ n) (h' : n ≤ 0x10FFFF) :
    decodeFrom none ((0xF0 + n / 0x40000).toUInt8 :: (0x80 + n / 0x1000 % 0x40).toUInt8
        :: (0x80 + n / 0x40 % 0x40).toUInt8 :: (0x80 + n % 0x40).toUInt8 :: rest)
      = ofCodePoint n ++ decodeFrom none rest := by
  have hfirst := toNat_toUInt8 (n := 0xF0 + n / 0x40000) (by omega)
  generalize (0xF0 + n / 0x40000).toUInt8 = b at hfirst ⊢
  have hleast : (if b = 0xF0 then 0x90 else 0x80 : UInt8).toNat ≤ 0x80 + n / 0x1000 % 0x40 := by
    split
    · rename_i hb
      have hb' : b.toNat = 0xF0 := congrArg UInt8.toNat hb
      show 0x90 ≤ _
      omega
    · exact Nat.le_add_right 0x80 _
  have hgreatest : 0x80 + n / 0x1000 % 0x40 ≤ (if b = 0xF4 then 0x8F else 0xBF : UInt8).toNat := by
    split
    · rename_i hb
      have hb' : b.toNat = 0xF4 := congrArg UInt8.toNat hb
      show _ ≤ 0x8F
      omega
    · show _ ≤ 0xBF
      omega
  have hmiddle : 0x80 + n / 0x40 % 0x40 ≤ 0xBF := by omega
  have hlast : 0x80 + n % 0x40 ≤ 0xBF := by omega
  have hvalue : b.toNat - 0xF0 = n / 0x1000 / 0x40 := by omega
  have hvalue' : n / 0x1000 = n / 0x40 / 0x40 := by omega
  rw [decodeFrom_cons (step_first_four (by omega) (by omega)), List.nil_append]
  generalize (if b = 0xF0 then 0x90 else 0x80 : UInt8) = least at hleast ⊢
  generalize (if b = 0xF4 then 0x8F else 0xBF : UInt8) = greatest at hgreatest ⊢
  rw [decodeFrom_more (c := ⟨3, least, greatest, _⟩) _ (Nat.le_add_left 2 1) hleast hgreatest hvalue,
    decodeFrom_more _ (Nat.lt_succ_self 1) (Nat.le_add_right 0x80 _) hmiddle hvalue',
    decodeFrom_last rest rfl (Nat.le_add_right 0x80 _) hlast rfl]

end

theorem decodeFrom_encodePoint {n : Nat} (hn : n ≤ 0x10FFFF) (hsurrogate : isSurrogate n = false)
    (rest : List UInt8) :
    decodeFrom none (encodePoint n ++ rest) = ofCodePoint n ++ decodeFrom none rest := by
  unfold encodePoint
  split
  · exact decodeFrom_one rest ‹_›
  · split
    · exact decodeFrom_two rest (by omega) ‹_›
    · split
      · exact decodeFrom_three rest (by omega) ‹_› hsurrogate
      · exact decodeFrom_four rest (by omega) hn

/-- A text without lone surrogates is read back as it was written. -/
theorem decode_encode {t : Text} (h : WellFormed t) : decode (encode t) = t := by
  have hpoints : ∀ ns : List Nat, (∀ n ∈ ns, n ≤ 0x10FFFF ∧ isSurrogate n = false) →
      decodeFrom none (ns.flatMap encodePoint) = ns.flatMap ofCodePoint := by
    intro ns hns
    induction ns with
    | nil => rfl
    | cons n rest ih =>
      obtain ⟨hle, hsurrogate⟩ := hns n List.mem_cons_self
      rw [List.flatMap_cons, List.flatMap_cons, decodeFrom_encodePoint hle hsurrogate,
        ih fun m hm => hns m (List.mem_cons_of_mem n hm)]
  rw [decode, encode_of_wellFormed h, hpoints _ fun n hn => ⟨le_of_mem_codePoints hn, h n hn⟩,
    flatMap_ofCodePoint]

/-! ## Bytes as units -/

/-- The bytes of a text, one unit a byte. -/
def units (t : Text) : Text := (encode t).map UInt8.toUInt16

/-- The bytes of a code point, one unit a byte. -/
def pointUnits (n : Nat) : Text :=
  (encodePoint (if isSurrogate n then 0xFFFD else n)).map UInt8.toUInt16

theorem units_eq (t : Text) : units t = t.codePoints.flatMap pointUnits := by
  rw [units, encode, List.map_flatMap]
  rfl

theorem pointUnits_ascii {n : Nat} (h : n < 0x80) : pointUnits n = [n.toUInt16] := by
  have hsurrogate : isSurrogate n = false := by
    simp only [isSurrogate, Bool.and_eq_false_iff, decide_eq_false_iff_not]
    omega
  rw [pointUnits, hsurrogate, if_neg Bool.false_ne_true, encodePoint, if_pos h]
  exact congrArg (fun u => [u]) (toUInt16_toUInt8 (by omega))

/-- No byte of a character outside ASCII is ASCII, and its first byte continues none. -/
theorem exists_encodePoint {n : Nat} (h : 0x80 ≤ n) (h' : n ≤ 0x10FFFF) :
    ∃ b more, encodePoint n = b :: more ∧ 0xC2 ≤ b.toNat ∧ ∀ c ∈ more, 0x80 ≤ c.toNat := by
  have hmore : ∀ ms : List Nat, ∀ c ∈ ms.map fun m => (0x80 + m % 0x40).toUInt8,
      0x80 ≤ c.toNat := by
    intro ms c hc
    obtain ⟨m, -, rfl⟩ := List.mem_map.1 hc
    rw [toNat_toUInt8 (by omega)]
    exact Nat.le_add_right 0x80 _
  rw [encodePoint, if_neg (Nat.not_lt.2 h)]
  split
  · refine ⟨_, _, rfl, ?_, hmore [n]⟩
    rw [toNat_toUInt8 (by omega)]
    omega
  · split
    · refine ⟨_, _, rfl, ?_, hmore [n / 0x40, n]⟩
      rw [toNat_toUInt8 (by omega)]
      omega
    · refine ⟨_, _, rfl, ?_, hmore [n / 0x1000, n / 0x40, n]⟩
      rw [toNat_toUInt8 (by omega)]
      omega

theorem exists_pointUnits {n : Nat} (h : 0x80 ≤ n) (h' : n ≤ 0x10FFFF) :
    ∃ v more, pointUnits n = v :: more ∧ 0xC2 ≤ v.toNat ∧ v.toNat < 0x100
      ∧ ∀ w ∈ more, 0x80 ≤ w.toNat := by
  have hpoint : 0x80 ≤ (if isSurrogate n then 0xFFFD else n)
      ∧ (if isSurrogate n then 0xFFFD else n) ≤ 0x10FFFF := by
    split
    · decide
    · exact ⟨h, h'⟩
  obtain ⟨b, more, heq, hb, hmore⟩ := exists_encodePoint hpoint.1 hpoint.2
  refine ⟨b.toUInt16, more.map UInt8.toUInt16, by rw [pointUnits, heq]; rfl, ?_, ?_, ?_⟩
  · rwa [UInt8.toNat_toUInt16]
  · rw [UInt8.toNat_toUInt16]
    exact b.toNat_lt
  · intro w hw
    obtain ⟨c, hc, rfl⟩ := List.mem_map.1 hw
    rw [UInt8.toNat_toUInt16]
    exact hmore c hc

/-! ASCII is written as it is, wherever it stands. -/

theorem units_append {s t : Text} (h : Apart s t) : units (s ++ t) = units s ++ units t := by
  rw [units, encode_append h, List.map_append]
  rfl

theorem not_surrogate_of_ascii {u : CodeUnit} (hu : u.toNat < 0x80) :
    u.isHighSurrogate = false ∧ u.isLowSurrogate = false := by
  constructor
  · rw [Bool.eq_false_iff, Ne, isHighSurrogate_iff]
    omega
  · rw [Bool.eq_false_iff, Ne, isLowSurrogate_iff]
    omega

theorem units_cons_ascii {u : CodeUnit} (hu : u.toNat < 0x80) (t : Text) :
    units (u :: t) = u :: units t := by
  have hwhole : Whole [u] := Whole.nil.append (Whole.concat [] (not_surrogate_of_ascii hu).1)
  have hunit : units [u] = [u] := by
    rw [units_eq, codePoints, List.flatMap_singleton, pointUnits_ascii hu]
    simp
  rw [← List.singleton_append, units_append (.of_whole hwhole t), hunit]
  rfl

theorem units_append_cons_ascii (s : Text) {u : CodeUnit} (hu : u.toNat < 0x80) (t : Text) :
    units (s ++ u :: t) = units s ++ u :: units t := by
  rw [units_append (.of_cons s (not_surrogate_of_ascii hu).2 t), units_cons_ascii hu]

/-- What starts with a unit outside ASCII starts with the first byte of a character. -/
theorem exists_units_cons {u : CodeUnit} (hu : 0x80 ≤ u.toNat) (t : Text) :
    ∃ v more, units (u :: t) = v :: more ∧ 0xC2 ≤ v.toNat ∧ v.toNat < 0x100 := by
  obtain ⟨n, rest, hpoints, hn⟩ : ∃ n rest, codePoints (u :: t) = n :: rest ∧ 0x80 ≤ n := by
    cases t with
    | nil => exact ⟨_, [], rfl, hu⟩
    | cons v t =>
      rw [codePoints]
      split
      · refine ⟨_, _, rfl, ?_⟩
        unfold pairCodePoint
        omega
      · exact ⟨_, _, rfl, hu⟩
  have hmem : n ∈ codePoints (u :: t) := hpoints ▸ List.mem_cons_self
  obtain ⟨v, more, hv, hfirst, hlast, -⟩ := exists_pointUnits hn (le_of_mem_codePoints hmem)
  refine ⟨v, more ++ rest.flatMap pointUnits, ?_, hfirst, hlast⟩
  rw [units_eq, hpoints, List.flatMap_cons, hv, List.cons_append]

/-- ASCII at the front of what is written is at the front of the text. -/
theorem exists_of_units_eq {front rest t : Text} (hfront : ∀ u ∈ front, u.toNat < 0x80)
    (h : units t = front ++ rest) : ∃ after, t = front ++ after ∧ units after = rest := by
  induction front generalizing t with
  | nil => exact ⟨t, rfl, h⟩
  | cons u front ih =>
    have hu := hfront u List.mem_cons_self
    cases t with
    | nil => cases h
    | cons v t =>
      by_cases hv : v.toNat < 0x80
      · rw [units_cons_ascii hv, List.cons_append] at h
        obtain ⟨rfl, hrest⟩ := List.cons.inj h
        obtain ⟨after, rfl, hafter⟩ := ih (fun u hu => hfront u (List.mem_cons_of_mem v hu)) hrest
        exact ⟨after, rfl, hafter⟩
      · obtain ⟨w, more, hw, hfirst, -⟩ := exists_units_cons (Nat.not_lt.1 hv) t
        rw [hw] at h
        obtain ⟨rfl, -⟩ := List.cons.inj h
        omega

theorem mem_of_mem_codePoints {t : Text} {n : Nat} (h : n ∈ t.codePoints) (hn : n < 0x80) :
    n.toUInt16 ∈ t := by
  fun_induction codePoints t with
  | case1 => cases h
  | case2 u =>
    obtain rfl := List.mem_singleton.1 h
    simp
  | case3 u v rest hpair ih =>
    rcases List.mem_cons.1 h with h | h
    · unfold pairCodePoint at h
      omega
    · exact List.mem_cons_of_mem u (List.mem_cons_of_mem v (ih h))
  | case4 u v rest hpair ih =>
    rcases List.mem_cons.1 h with rfl | h
    · simp
    · exact List.mem_cons_of_mem u (ih h)

/-- There is no ASCII in the bytes of a text but what is in the text. -/
theorem mem_of_mem_units {t : Text} {u : CodeUnit} (h : u ∈ units t) (hu : u.toNat < 0x80) :
    u ∈ t := by
  rw [units_eq] at h
  obtain ⟨n, hn, hmem⟩ := List.mem_flatMap.1 h
  by_cases hascii : n < 0x80
  · rw [pointUnits_ascii hascii, List.mem_singleton] at hmem
    rw [hmem]
    exact mem_of_mem_codePoints hn hascii
  · obtain ⟨v, more, heq, hv, -, hmore⟩ :=
      exists_pointUnits (Nat.not_lt.1 hascii) (le_of_mem_codePoints hn)
    rw [heq] at hmem
    rcases List.mem_cons.1 hmem with rfl | hmem
    · omega
    · exact absurd (hmore u hmem) (Nat.not_le.2 hu)

end Utf8

end PodLoom.Text
