import Mathlib

set_option autoImplicit false

/-!
# Natural numbers as doubles

`Double.nearest n` is the double that rounding gives for the natural number `n`: the nearest one,
to even on a tie, and infinity from where there is none.  A number of at most 53 bits is itself a
double, and that is all a bounds check needs: against such a bound, the double of a number of any
size compares as the number does (`nearest_le_nearest_iff`).  And a number of 32 bits is read back
from its double (`toUInt32_nearest`).

Both go through the unpacked form, a sign, a mantissa and an exponent.  A double of a positive
number has a mantissa of exactly 53 bits, its leading bit at the place the exponent says, so of
two doubles the one with the higher exponent is greater, whatever the mantissas are.
-/

namespace PodLoom.Double

open Float.Model (Format UnpackedFloat totalExponent)
open Float.Model.UnpackedFloat

/-! ## Rounding a natural number -/

theorem mantissa_shiftRight (em : ExtendedMantissa) (k : Nat) :
    (em >>> k).mantissa = em.mantissa / 2 ^ k := by
  induction k with
  | zero => simp [HShiftRight.hShiftRight, Nat.repeat]
  | succ k ih =>
    show (em >>> k).mantissa / 2 = _
    rw [ih, Nat.div_div_eq_div_mul, Nat.pow_succ]

theorem roundedMantissa_bounds (em : ExtendedMantissa) :
    em.mantissa ≤ em.roundedMantissa ∧ em.roundedMantissa ≤ em.mantissa + 1 := by
  obtain ⟨m, round, sticky⟩ := em
  cases round <;> cases sticky <;>
    simp only [ExtendedMantissa.roundedMantissa, ExtendedMantissa.accuracy,
      Accuracy.roundToNearestEven] <;> omega

theorem targetExponent_eq {m : Nat} {e : Int} (h : -1074 ≤ (m.log2 : Int) + e - 52) :
    Format.binary64.targetExponent (totalExponent m e) = m.log2 + e - 52 := by
  simp only [Format.targetExponent, totalExponent, Format.mantissaBits, Format.minExponent]
  norm_num
  omega

/-- A mantissa of 53 bits is kept as it is. -/
theorem shiftToTargetExponent_of_fits {m : Nat} {e : Int} (hm : m.log2 = 52) (he : -1074 ≤ e) :
    shiftToTargetExponent Format.binary64 m e .exact = (⟨m, false, false⟩, e) := by
  have htarget := targetExponent_eq (m := m) (e := e) (by omega)
  rw [shiftToTargetExponent, htarget, shiftToExponent]
  have hzero : (((m.log2 : Int) + e - 52) - e).toNat = 0 := by omega
  rw [hzero]
  simp [ExtendedMantissa.ofMantissaAndAccuracy, HShiftRight.hShiftRight, Nat.repeat]

/-- A mantissa that rounding has made a bit too long gives up its last bit. -/
theorem shiftToTargetExponent_overflow {e : Int} (he : -1074 ≤ e) :
    shiftToTargetExponent Format.binary64 (2 ^ 53) e .exact = (⟨2 ^ 52, false, false⟩, e + 1) := by
  have htarget := targetExponent_eq (m := 2 ^ 53) (e := e) (by rw [Nat.log2_two_pow]; omega)
  rw [Nat.log2_two_pow] at htarget
  rw [shiftToTargetExponent, htarget, shiftToExponent]
  have hone : (((53 : Nat) : Int) + e - 52 - e).toNat = 1 := by omega
  rw [hone]
  rfl

theorem roundWithAccuracy_of_fits {m : Nat} {e : Int} (hm : m.log2 = 52) (he : -1074 ≤ e)
    (hpos : 0 < m) :
    roundWithAccuracy Format.binary64 .positive m e .exact = .finite .positive m e hpos := by
  have hrounded : (⟨m, false, false⟩ : ExtendedMantissa).roundedMantissa = m := rfl
  rw [roundWithAccuracy, shiftToTargetExponent_of_fits hm he]
  dsimp only
  rw [hrounded, shiftToTargetExponent_of_fits hm he]
  exact dif_neg (Nat.ne_of_gt hpos)

theorem ofNat_eq_round {n : Nat} (hpos : 0 < n) :
    UnpackedFloat.ofNat Format.binary64 n = UnpackedFloat.round Format.binary64 .positive n 0 := by
  have hcompare : compare (n : Int) 0 = .gt := by
    rw [compare_gt_iff_gt]
    omega
  rw [UnpackedFloat.ofNat, UnpackedFloat.ofInt, UnpackedFloat.normalize, hcompare]
  rfl

theorem log2_le_of_lt {n : Nat} (hpos : 0 < n) (hn : n < 2 ^ 53) : n.log2 ≤ 52 :=
  Nat.le_of_lt_succ ((Nat.log2_lt (Nat.ne_of_gt hpos)).2 hn)

theorem log2_shiftLeft_fits {n : Nat} (hpos : 0 < n) (hlog : n.log2 ≤ 52) :
    (n <<< (52 - n.log2)).log2 = 52 := by
  have hlow := Nat.log2_self_le (Nat.ne_of_gt hpos)
  have hhigh := Nat.lt_log2_self (n := n)
  have hpow : ∀ k, 2 ^ (n.log2 + k) * 2 ^ (52 - n.log2) = 2 ^ (52 + k) := by
    intro k
    rw [← Nat.pow_add]
    congr 1
    omega
  have hshifted : n <<< (52 - n.log2) ≠ 0 := by
    rw [Nat.shiftLeft_eq]
    positivity
  rw [Nat.log2_eq_iff hshifted, Nat.shiftLeft_eq, ← hpow 0, ← hpow 1]
  exact ⟨Nat.mul_le_mul_right _ hlow, Nat.mul_lt_mul_of_pos_right hhigh (by positivity)⟩

/-- A natural number of at most 53 bits is a double. -/
theorem ofNat_of_lt {n : Nat} (hpos : 0 < n) (hn : n < 2 ^ 53) :
    ∃ h, UnpackedFloat.ofNat Format.binary64 n
      = .finite .positive (n <<< (52 - n.log2)) (n.log2 - 52) h := by
  have hlog : n.log2 ≤ 52 := log2_le_of_lt hpos hn
  have hmantissa : 0 < n <<< (52 - n.log2) := by
    rw [Nat.shiftLeft_eq]
    positivity
  refine ⟨hmantissa, ?_⟩
  have htarget := targetExponent_eq (m := n) (e := 0) (by omega)
  have hamount : (0 - ((n.log2 : Int) + 0 - 52)).toNat = 52 - n.log2 := by omega
  have hexponent : (0 : Int) - ((52 - n.log2 : Nat) : Int) = n.log2 - 52 := by omega
  rw [ofNat_eq_round hpos, UnpackedFloat.round, htarget, decreaseExponent]
  dsimp only
  rw [hamount, hexponent]
  exact roundWithAccuracy_of_fits (log2_shiftLeft_fits hpos hlog) (by omega) hmantissa

/-- A longer natural number is rounded to 53 bits and a positive exponent. -/
theorem ofNat_of_le {n : Nat} (hn : 2 ^ 53 ≤ n) :
    ∃ m e h, UnpackedFloat.ofNat Format.binary64 n = .finite .positive m e h
      ∧ m.log2 = 52 ∧ 1 ≤ e := by
  have hpos : 0 < n := Nat.lt_of_lt_of_le (by decide) hn
  have hlog : 53 ≤ n.log2 := (Nat.le_log2 (Nat.ne_of_gt hpos)).2 hn
  obtain ⟨k, hk⟩ : ∃ k, n.log2 = 52 + k := ⟨n.log2 - 52, by omega⟩
  have htarget := targetExponent_eq (m := n) (e := 0) (by omega)
  have hamount : (0 - ((n.log2 : Int) + 0 - 52)).toNat = 0 := by omega
  have hshift : ((n.log2 : Int) + 0 - 52 - 0).toNat = k := by omega
  have hmantissa : (ExtendedMantissa.ofMantissaAndAccuracy n .exact >>> k).mantissa = n / 2 ^ k :=
    mantissa_shiftRight _ k
  generalize hem : ExtendedMantissa.ofMantissaAndAccuracy n .exact >>> k = em at hmantissa
  have hrounded := roundedMantissa_bounds em
  have hlow : 2 ^ 52 ≤ n / 2 ^ k := by
    rw [Nat.le_div_iff_mul_le (by positivity), ← Nat.pow_add, ← hk]
    exact Nat.log2_self_le (Nat.ne_of_gt hpos)
  have hhigh : n / 2 ^ k < 2 ^ 53 := by
    have hself := Nat.lt_log2_self (n := n)
    rw [Nat.div_lt_iff_lt_mul (by positivity), ← Nat.pow_add]
    rwa [hk, show 52 + k + 1 = 53 + k by omega] at hself
  have hfirst : shiftToTargetExponent Format.binary64 n 0 .exact = (em, (k : Int)) := by
    rw [shiftToTargetExponent, htarget, shiftToExponent, hshift, hem, Int.zero_add]
  rw [ofNat_eq_round hpos, UnpackedFloat.round, htarget, decreaseExponent]
  dsimp only
  rw [hamount, Nat.shiftLeft_zero, Int.natCast_zero, Int.sub_zero, roundWithAccuracy, hfirst]
  dsimp only
  -- Rounding up may carry through every digit; then one more bit is given up.
  rcases Nat.lt_or_ge em.roundedMantissa (2 ^ 53) with hfits | hlong
  · have hlog : em.roundedMantissa.log2 = 52 :=
      (Nat.log2_eq_iff (by omega)).2 ⟨by omega, hfits⟩
    rw [shiftToTargetExponent_of_fits hlog (by omega)]
    have hrounded : 0 < em.roundedMantissa := by omega
    exact ⟨em.roundedMantissa, k, hrounded, dif_neg (Nat.ne_of_gt hrounded), hlog, by omega⟩
  · have hmax : em.roundedMantissa = 2 ^ 53 := by omega
    rw [hmax, shiftToTargetExponent_overflow (by omega)]
    have hpower : (2 : Nat) ^ 52 ≠ 0 := by decide
    exact ⟨2 ^ 52, k + 1, by decide, dif_neg hpower, Nat.log2_two_pow, by omega⟩

/-! ## Packing -/

theorem unpack_packedInfinity :
    UnpackedFloat.unpack Format.binary64 (packedInfinity Format.binary64 .positive)
      = .infinity .positive := by
  simp only [UnpackedFloat.unpack, packedInfinity, unpackExponent_packComponents,
    unpackMantissa_packComponents, unpackSign_packComponents]
  rfl

/-- A full mantissa with an exponent in range is unpacked as it was packed. -/
theorem unpack_packComponents {m : Nat} (hm : m.log2 = 52) {biased : Nat} (hpos : 0 < biased)
    (hle : biased + 1 < 2 ^ 11) (h : 0 < m) :
    UnpackedFloat.unpack Format.binary64
        (packComponents Format.binary64 .positive (BitVec.ofNat _ biased) (BitVec.ofNat _ m))
      = .finite .positive m (biased - 1075) h := by
  obtain ⟨hlow, hhigh⟩ := (Nat.log2_eq_iff (Nat.ne_of_gt h)).1 hm
  have hexponent : (BitVec.ofNat 11 biased).toNat = biased := by
    rw [BitVec.toNat_ofNat, Nat.mod_eq_of_lt (by omega)]
  have hother : ∀ b : BitVec 11, b.toNat ≠ biased → BitVec.ofNat 11 biased ≠ b := by
    rintro b hb rfl
    exact hb hexponent
  have hones : BitVec.ofNat 11 biased ≠ -1#11 := by
    have hvalue : (-1#11).toNat = 2047 := rfl
    exact hother _ (by omega)
  have hzero : BitVec.ofNat 11 biased ≠ 0#11 := by
    have hvalue : (0#11).toNat = 0 := rfl
    exact hother _ (by omega)
  have hmantissa : (1#1 ++ BitVec.ofNat 52 m).toNat = m := by
    have hone : (1#1).toNat = 1 := rfl
    have hrest : (BitVec.ofNat 52 m).toNat = m % 2 ^ 52 := BitVec.toNat_ofNat ..
    rw [BitVec.toNat_append, ← Nat.shiftLeft_add_eq_or_of_lt (BitVec.isLt _), Nat.shiftLeft_eq,
      hone, hrest]
    omega
  unfold UnpackedFloat.unpack
  simp only [unpackExponent_packComponents, unpackMantissa_packComponents,
    unpackSign_packComponents]
  rw [if_neg hones, if_neg hzero]
  simp only [hmantissa, hexponent]
  rfl

/-- What is packed with a full mantissa is unpacked as it was, or is infinite. -/
theorem unpack_pack {m : Nat} {e : Int} {hpos : 0 < m} (hm : m.log2 = 52) (he : -1074 ≤ e) :
    (Float.Model.pack (.finite .positive m e hpos)).unpack
      = if 972 ≤ e then .infinity .positive else .finite .positive m e hpos := by
  show UnpackedFloat.unpack Format.binary64 (UnpackedFloat.pack Format.binary64 _) = _
  have hbiased : (e + Format.binary64.exponentBias
      + Format.binary64.mantissaBitsWithoutImplicit).toNat = (e + 1075).toNat := by
    show (e + 1023 + 52).toNat = _
    congr 1
    omega
  rw [UnpackedFloat.pack]
  dsimp only
  rw [hbiased]
  split
  · rename_i hlarge
    have hlarge : 2048 ≤ (e + 1075).toNat + 1 := hlarge
    rw [if_pos (by omega)]
    exact unpack_packedInfinity
  · rename_i hsmall
    have hsmall : ¬ 2048 ≤ (e + 1075).toNat + 1 := hsmall
    have hfull : m.log2 + 1 = Format.binary64.mantissaBits := by rw [hm]; rfl
    have hfinite : ¬ 972 ≤ e := by omega
    have hexponent : (((e + 1075).toNat : Nat) : Int) - 1075 = e := by omega
    rw [if_pos hfull, if_neg hfinite, unpack_packComponents hm (by omega) (by omega) hpos]
    congr 1

/-! ## The double of a natural number -/

theorem unpack_ofNat_of_lt {n : Nat} (hpos : 0 < n) (hn : n < 2 ^ 53) :
    ∃ h, (Float.Model.ofNat n).unpack
      = .finite .positive (n <<< (52 - n.log2)) (n.log2 - 52) h := by
  obtain ⟨h, heq⟩ := ofNat_of_lt hpos hn
  have hlog : n.log2 ≤ 52 := log2_le_of_lt hpos hn
  refine ⟨h, ?_⟩
  rw [Float.Model.ofNat, heq, unpack_pack (log2_shiftLeft_fits hpos hlog) (by omega),
    if_neg (by omega)]

theorem unpack_ofNat_of_le {n : Nat} (hn : 2 ^ 53 ≤ n) :
    (Float.Model.ofNat n).unpack = .infinity .positive
      ∨ ∃ m e h, (Float.Model.ofNat n).unpack = .finite .positive m e h ∧ 1 ≤ e := by
  obtain ⟨m, e, h, heq, hm, he⟩ := ofNat_of_le hn
  rw [Float.Model.ofNat, heq, unpack_pack hm (by omega)]
  split
  · exact .inl rfl
  · exact .inr ⟨m, e, h, rfl, he⟩

/-- The double nearest to a natural number, or infinity from where there is none. -/
def nearest (n : Nat) : Float := .ofModel (.ofNat n)

theorem nearest_le_nearest_iff_compare (n k : Nat) :
    nearest n ≤ nearest k
      ↔ ((Float.Model.ofNat n).unpack.compare (Float.Model.ofNat k).unpack).any (·.isLE) = true :=
  decide_eq_true_iff

/-- Doubles of whole numbers are compared by their leading digits, and only between numbers of
the same length by the others. -/
theorem isLE_compare_iff {n k : Nat} (hn : 0 < n) (hk : 0 < k) :
    ((compare ((n.log2 : Int) - 52) (k.log2 - 52)).then
        (compare (n <<< (52 - n.log2)) (k <<< (52 - k.log2)))).isLE = true ↔ n ≤ k := by
  have hnself := Nat.lt_log2_self (n := n)
  have hkself := Nat.log2_self_le (Nat.ne_of_gt hk)
  rcases Nat.lt_trichotomy n.log2 k.log2 with hlt | heq | hgt
  · have hpow : 2 ^ (n.log2 + 1) ≤ 2 ^ k.log2 := Nat.pow_le_pow_right (by decide) hlt
    have hcompare : compare ((n.log2 : Int) - 52) (k.log2 - 52) = .lt := by
      rw [compare_lt_iff_lt]
      omega
    rw [hcompare]
    exact ⟨fun _ => by omega, fun _ => rfl⟩
  · have hcompare : compare ((n.log2 : Int) - 52) (k.log2 - 52) = .eq := by
      rw [heq]
      exact compare_eq_iff_eq.2 rfl
    rw [hcompare, heq, Nat.shiftLeft_eq, Nat.shiftLeft_eq]
    show (compare _ _).isLE = true ↔ _
    rw [Nat.isLE_compare]
    exact Nat.mul_le_mul_right_iff (by positivity)
  · have hcompare : compare ((n.log2 : Int) - 52) (k.log2 - 52) = .gt := by
      rw [compare_gt_iff_gt]
      omega
    have hpow : 2 ^ (k.log2 + 1) ≤ 2 ^ n.log2 := Nat.pow_le_pow_right (by decide) hgt
    have hnlow := Nat.log2_self_le (Nat.ne_of_gt hn)
    have hkhigh := Nat.lt_log2_self (n := k)
    rw [hcompare]
    exact ⟨nofun, fun h => by omega⟩

/-- Rounding takes no number past one that is a double itself. -/
theorem nearest_le_nearest_iff {n k : Nat} (hpos : 0 < k) (hk : k < 2 ^ 53) :
    nearest n ≤ nearest k ↔ n ≤ k := by
  obtain ⟨h, hunpack⟩ := unpack_ofNat_of_lt hpos hk
  rw [nearest_le_nearest_iff_compare, hunpack]
  rcases Nat.eq_zero_or_pos n with rfl | hn
  · exact ⟨fun _ => Nat.zero_le k, fun _ => rfl⟩
  · rcases Nat.lt_or_ge n (2 ^ 53) with hlt | hge
    · obtain ⟨h', hunpack'⟩ := unpack_ofNat_of_lt hn hlt
      rw [hunpack']
      exact isLE_compare_iff hn hpos
    · have hlog : k.log2 ≤ 52 := log2_le_of_lt hpos hk
      rcases unpack_ofNat_of_le hge with hinfinite | ⟨m, e, h', hfinite, he⟩
      · rw [hinfinite]
        exact ⟨nofun, fun hle => by omega⟩
      · have hcompare : compare e ((k.log2 : Int) - 52) = .gt := by
          rw [compare_gt_iff_gt]
          omega
        rw [hfinite]
        show (((compare e ((k.log2 : Int) - 52)).then _).isLE = true) ↔ _
        rw [hcompare]
        exact ⟨nofun, fun hle => by omega⟩

/-- A number of 32 bits is read back from its double. -/
theorem toUInt32_nearest {n : Nat} (hn : n < 2 ^ 32) : (nearest n).toUInt32.toNat = n := by
  rcases Nat.eq_zero_or_pos n with rfl | hpos
  · rfl
  · obtain ⟨h, hunpack⟩ := unpack_ofNat_of_lt hpos (Nat.lt_trans hn (by decide))
    have hlog : n.log2 < 32 := (Nat.log2_lt (Nat.ne_of_gt hpos)).2 hn
    show (UnpackedFloat.toUInt32 (Float.Model.ofNat n).unpack).toNat = n
    have hround : roundToInt .positive (n <<< (52 - n.log2)) (n.log2 - 52) = n := by
      have hdecrease : ((n.log2 : Int) - 52 - 0).toNat = 0 := by omega
      have hincrease : (0 - ((n.log2 : Int) - 52 - 0)).toNat = 52 - n.log2 := by omega
      have hmantissa := mantissa_shiftRight
        (.ofMantissaAndAccuracy (n <<< (52 - n.log2)) .exact) (52 - n.log2)
      rw [roundToInt, decreaseExponent, hdecrease]
      dsimp only
      rw [shiftToExponent, Nat.shiftLeft_zero, Int.natCast_zero, hincrease]
      show ((_ : Nat) : Int) = n
      rw [hmantissa]
      show (((n <<< (52 - n.log2)) / 2 ^ (52 - n.log2) : Nat) : Int) = n
      rw [Nat.shiftLeft_eq, Nat.mul_div_cancel _ (by positivity)]
    rw [hunpack, UnpackedFloat.toUInt32, UnpackedFloat.toInt, hround, Int.toNat_natCast]
    exact UInt32.toNat_ofNatClamp_of_lt hn

end PodLoom.Double
