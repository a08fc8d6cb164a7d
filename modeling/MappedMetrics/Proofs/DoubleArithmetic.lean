import Mathlib
import MappedMetrics.Proofs.BinaryRounding

namespace MappedMetrics.Proofs.DoubleArithmetic

open MappedMetrics.Decimal
open MappedMetrics.Proofs.BinaryRounding
open Float.Model
open Float.Model.UnpackedFloat

section Residues

variable {n d : Nat}

/-- A quotient rounded down, with the bits that tell how to round it. -/
def extended (n d : Nat) : ExtendedMantissa where
  mantissa := n / d
  roundBit := d ≤ 2 * (n % d)
  stickyBit := n % d ≠ 0 ∧ 2 * (n % d) ≠ d

theorem ofMantissaAndAccuracy_eq (n : Nat) (hd : 0 < d) :
    ExtendedMantissa.ofMantissaAndAccuracy (n / d) (accuracyOfFraction (n % d) d) =
      extended n d := by
  rw [accuracyOfFraction, extended]
  split
  · rename_i hzero
    simp [hzero, ExtendedMantissa.ofMantissaAndAccuracy, hd.ne']
  · rename_i hpos
    rcases Nat.lt_trichotomy (2 * (n % d)) d with hlt | heq | hgt
    · rw [Nat.compare_eq_lt.mpr hlt]
      simp [ExtendedMantissa.ofMantissaAndAccuracy, hpos, hlt, hlt.ne]
    · rw [Nat.compare_eq_eq.mpr heq]
      simp [ExtendedMantissa.ofMantissaAndAccuracy, heq]
    · rw [Nat.compare_eq_gt.mpr hgt]
      simp [ExtendedMantissa.ofMantissaAndAccuracy, hpos, hgt.le, hgt.ne']

theorem shiftRightOne_extended (n : Nat) (hd : 0 < d) :
    (extended n d).shiftRightOne = extended n (d * 2) := by
  have hrest := Nat.mod_lt n hd
  simp only [extended, ExtendedMantissa.shiftRightOne, Nat.div_div_eq_div_mul,
    Nat.mod_mul (a := d) (b := 2)]
  generalize n % d = rest at hrest
  congr 1
  · rcases Nat.mod_two_eq_zero_or_one (n / d) with heven | hodd
    · simp [heven]
      omega
    · simp [hodd]
      omega
  · rw [Bool.eq_iff_iff]
    rcases Nat.mod_two_eq_zero_or_one (n / d) with heven | hodd
    · simp [heven]
      omega
    · simp [hodd]
      omega

theorem shiftRight_extended (n : Nat) (hd : 0 < d) (k : Nat) :
    extended n d >>> k = extended n (d * 2 ^ k) := by
  induction k with
  | zero => simp [HShiftRight.hShiftRight, Nat.repeat]
  | succ k ih =>
      have hstep : extended n d >>> (k + 1) = (extended n d >>> k).shiftRightOne := rfl
      rw [hstep, ih, shiftRightOne_extended n (by positivity), pow_succ, Nat.mul_assoc]

theorem roundedMantissa_extended (n : Nat) {d : Nat} (hd : 0 < d) :
    (extended n d).roundedMantissa = roundDiv n d := by
  rw [ExtendedMantissa.roundedMantissa, extended, roundDiv]
  rcases Nat.lt_trichotomy (2 * (n % d)) d with hlt | heq | hgt
  · have hround : ¬ d ≤ 2 * (n % d) := by omega
    by_cases hzero : n % d = 0 <;>
      simp [ExtendedMantissa.accuracy, Accuracy.roundToNearestEven, hlt, hround, hzero, hlt.ne,
        hd.ne']
  · simp [ExtendedMantissa.accuracy, Accuracy.roundToNearestEven, heq]
  · have hzero : n % d ≠ 0 := by omega
    simp [ExtendedMantissa.accuracy, Accuracy.roundToNearestEven, hgt, hgt.le, hgt.ne', hgt.not_gt,
      hzero]

end Residues

section Packing

theorem packComponents_eq (exponent mantissa : Nat) (hexponent : exponent < 2 ^ 11)
    (hmantissa : mantissa < 2 ^ 52) :
    packComponents Format.binary64 .positive (BitVec.ofNat _ exponent) (BitVec.ofNat _ mantissa) =
      BitVec.ofNat 64 (exponent * 2 ^ 52 + mantissa) := by
  apply BitVec.eq_of_toNat_eq
  have hshift : exponent <<< 52 ||| mantissa = exponent * 2 ^ 52 + mantissa := by
    rw [← Nat.shiftLeft_add_eq_or_of_lt hmantissa, Nat.shiftLeft_eq]
  have hcode : (BitVec.ofNat 64 (exponent * 2 ^ 52 + mantissa)).toNat =
      exponent * 2 ^ 52 + mantissa := by
    rw [BitVec.toNat_ofNat, Nat.mod_eq_of_lt (by omega)]
  simp only [packComponents, BitVec.toNat_append, Sign.toBitVec, BitVec.toNat_ofNat]
  rw [Nat.mod_eq_of_lt hexponent, Nat.mod_eq_of_lt hmantissa]
  refine Eq.trans ?_ hcode.symm
  simpa using hshift

theorem minExponent_binary64 : binary64.minExponent = -1074 :=
  rfl

theorem infinityCode_binary64 : binary64.infinityCode = 2047 * 2 ^ 52 :=
  rfl

variable {m : Nat} {q : ℤ}

theorem pack_finite (hm : 0 < m) (hplaced : Placed binary64 q m) (hbound : m < 2 ^ 53) :
    pack Format.binary64 (.finite .positive m q hm) =
      BitVec.ofNat 64 (min binary64.infinityCode (codeOf binary64 q m)) := by
  have hleast := hplaced.least
  have hfull := hplaced.full
  rw [minExponent_binary64] at hleast hfull
  have hcode : codeOf binary64 q m = (q + 1074).toNat * 2 ^ 52 + m := by
    rw [codeOf, minExponent_binary64]
    simp [binary64]
  have hbiased : q + (Format.binary64.exponentBias : ℤ) +
      (Format.binary64.mantissaBitsWithoutImplicit : ℤ) = q + 1075 := by
    have hbias : Format.binary64.exponentBias = 1023 := rfl
    rw [hbias]
    norm_num
    ring
  have hbits : Format.binary64.mantissaBits = 53 := rfl
  have hpower : (2 : Nat) ^ binary64.fractionBits = 2 ^ 52 := rfl
  rw [hpower] at hfull
  simp only [UnpackedFloat.pack, hbiased, infinityCode_binary64, hcode, hbits]
  split
  · rename_i hoverflow
    -- An exponent that is too great is packed as infinity.
    rw [Nat.min_eq_left (by omega)]
    rfl
  · rename_i hfits
    split
    · rename_i hlog
      -- The leading digit is dropped, and the next exponent makes up for it.
      have hlow : 2 ^ 52 ≤ m := (Nat.le_log2 hm.ne').mp (by omega)
      have hmantissa : BitVec.ofNat 52 m = BitVec.ofNat 52 (m - 2 ^ 52) := by
        apply BitVec.eq_of_toNat_eq
        simp only [BitVec.toNat_ofNat]
        omega
      have hfields : (q + 1074).toNat * 2 ^ 52 + m = (q + 1075).toNat * 2 ^ 52 + (m - 2 ^ 52) := by
        omega
      have hexponent : (q + 1075).toNat < 2 ^ 11 := by omega
      rw [Nat.min_eq_right (by omega), hfields, hmantissa]
      exact packComponents_eq _ _ hexponent (by omega)
    · rename_i hlog
      -- With fewer digits the unit is the least one.
      have hlow : m < 2 ^ 52 := by
        have hlog' := (Nat.log2_lt hm.ne').mpr hbound
        exact (Nat.log2_lt hm.ne').mp (by omega)
      obtain rfl : q = -1074 := hfull.resolve_right (by omega)
      have hunits : ((-1074 : ℤ) + 1074).toNat = 0 := rfl
      have hcomponents := packComponents_eq 0 m (by decide) hlow
      rw [Nat.zero_mul, Nat.zero_add] at hcomponents
      rw [Nat.min_eq_right (by omega), hunits, Nat.zero_mul, Nat.zero_add]
      exact hcomponents

end Packing

section Rounding

variable {n d m : Nat} {e q : ℤ}

theorem targetExponent_eq (m : Nat) (e : ℤ) :
    Format.binary64.targetExponent (totalExponent m e) = max (m.log2 + e - 52) (-1074) := by
  have hbits : Format.binary64.mantissaBits = 53 := rfl
  have hleast : Format.binary64.minExponent = -1074 := rfl
  rw [Format.targetExponent, totalExponent, hbits, hleast]
  congr 1
  push_cast
  ring

theorem targetExponent_div (hn : 0 < n) (hd : 0 < d) (hroom : 2 ^ 52 ≤ n / d ∨ e ≤ -1074) :
    Format.binary64.targetExponent (totalExponent (n / d) e) =
      unitExponent binary64 (n / d * 2 ^ e) := by
  have hd' : (0 : ℚ) < d := by exact_mod_cast hd
  have hn' : (0 : ℚ) < n := by exact_mod_cast hn
  have hunit := two_zpow_pos e
  have hbits : (binary64.fractionBits : ℤ) = 52 := rfl
  have hfloor : ((n / d : Nat) : ℚ) ≤ (n : ℚ) / d := Nat.cast_div_le
  have hceil : (n : ℚ) / d < ((n / d : Nat) : ℚ) + 1 := by
    rw [div_lt_iff₀ hd']
    rw [mul_comm]
    exact_mod_cast Nat.lt_mul_div_succ n hd
  rw [targetExponent_eq, unitExponent, minExponent_binary64, hbits, max_comm]
  rcases Nat.eq_zero_or_pos (n / d) with hzero | hpos
  · have hsmall : e ≤ -1074 := hroom.resolve_left (by omega)
    have hlog : Int.log 2 ((n : ℚ) / d * 2 ^ e) < e := by
      refine (Int.lt_zpow_iff_log_lt (b := 2) (by decide) (by positivity)).mp ?_
      rw [hzero] at hceil
      push_cast at hceil ⊢
      nlinarith
    rw [hzero, Nat.log2_zero]
    omega
  · have hlog : Int.log 2 ((n : ℚ) / d * 2 ^ e) = (n / d).log2 + e := by
      have hlt : ((n / d : Nat) : ℚ) + 1 ≤ 2 ^ (((n / d).log2 : ℤ) + 1) := by
        have hlog2 : n / d < 2 ^ ((n / d).log2 + 1) := Nat.lt_log2_self
        exact_mod_cast hlog2
      refine log_eq ?_ ?_
      · rw [two_zpow_add]
        exact mul_le_mul_of_nonneg_right ((two_zpow_log2_le hpos).trans hfloor) hunit.le
      · rw [add_right_comm, two_zpow_add]
        exact mul_lt_mul_of_pos_right (hceil.trans_le hlt) hunit
    rw [hlog]

theorem shiftToTargetExponent_eq (hd : 0 < d)
    (htarget : Format.binary64.targetExponent (totalExponent (n / d) e) = q) (hle : e ≤ q) :
    shiftToTargetExponent Format.binary64 (n / d) e (accuracyOfFraction (n % d) d) =
      (extended n (d * 2 ^ (q - e).toNat), q) := by
  have hsum : e + ((q - e).toNat : ℤ) = q := by omega
  simp only [shiftToTargetExponent, shiftToExponent, htarget, hsum, ofMantissaAndAccuracy_eq n hd,
    shiftRight_extended n hd]

theorem shiftToTargetExponent_exact (hle : e ≤ max (m.log2 + e - 52) (-1074)) :
    shiftToTargetExponent Format.binary64 m e .exact =
      (extended m (2 ^ (max (m.log2 + e - 52) (-1074) - e).toNat),
        max (m.log2 + e - 52) (-1074)) := by
  have hshift := shiftToTargetExponent_eq (n := m) (d := 1) (e := e) (by decide)
    (by rw [Nat.div_one]; exact targetExponent_eq m e) hle
  rwa [Nat.div_one, Nat.mod_one, Nat.one_mul] at hshift

theorem pack_shifted (hplaced : Placed binary64 q m) :
    ∀ final : ExtendedMantissa × ℤ, final = shiftToTargetExponent Format.binary64 m q .exact →
      UnpackedFloat.pack Format.binary64
          (if h : final.1.mantissa = 0 then .zero .positive
            else .finite .positive final.1.mantissa final.2 (Nat.pos_of_ne_zero h)) =
        BitVec.ofNat 64 (min binary64.infinityCode (codeOf binary64 q m)) := by
  rintro final rfl
  have hleast : -1074 ≤ q := hplaced.least
  have hfull : q = -1074 ∨ 2 ^ 52 ≤ m := hplaced.full
  have hbound : m ≤ 2 ^ 53 := hplaced.bound
  have hlog : q = -1074 ∨ 52 ≤ m.log2 := by
    refine hfull.imp_right fun hlow => (Nat.le_log2 ?_).mpr hlow
    omega
  rw [shiftToTargetExponent_exact (by omega)]
  rcases Nat.eq_zero_or_pos m with rfl | hpos
  · obtain rfl : q = -1074 := hfull.resolve_right (by decide)
    rfl
  rcases hbound.lt_or_eq with hlt | rfl
  · have hlog' := (Nat.log2_lt hpos.ne').mpr hlt
    have htarget : max ((m.log2 : ℤ) + q - 52) (-1074) = q := by omega
    simp only [htarget, Int.sub_self, Int.toNat_zero, pow_zero, extended, Nat.div_one,
      dif_neg hpos.ne']
    exact pack_finite hpos hplaced hlt
  · have hnext : Placed binary64 (q + 1) (2 ^ 52) :=
      ⟨Int.le_add_one hleast, .inr le_rfl, by decide⟩
    have htarget : max (((2 ^ 53 : Nat).log2 : ℤ) + q - 52) (-1074) = q + 1 := by
      rw [Nat.log2_two_pow]
      omega
    have hcode : codeOf binary64 q (2 ^ 53) = codeOf binary64 (q + 1) (2 ^ 52) :=
      codeOf_next hleast
    rw [hcode, ← pack_finite (by decide) hnext (by decide)]
    simp only [htarget, add_sub_cancel_left]
    rfl

/-- Where the digits of a quotient rounded down suffice, it is packed as the exact quotient rounded
once. -/
theorem pack_roundWithAccuracy (hn : 0 < n) (hd : 0 < d) (hroom : 2 ^ 52 ≤ n / d ∨ e ≤ -1074) :
    UnpackedFloat.pack Format.binary64 (roundWithAccuracy Format.binary64 .positive (n / d) e
      (accuracyOfFraction (n % d) d)) = BitVec.ofNat 64 (nearest binary64 (n / d * 2 ^ e)) := by
  have hd' : (0 : ℚ) < d := by exact_mod_cast hd
  have hn' : (0 : ℚ) < n := by exact_mod_cast hn
  have hv : (0 : ℚ) < n / d * 2 ^ e := mul_pos (div_pos hn' hd') (two_zpow_pos e)
  have htarget := targetExponent_div hn hd hroom
  have hle : e ≤ unitExponent binary64 (n / d * 2 ^ e) := by
    rw [← htarget, targetExponent_eq]
    rcases hroom with hlarge | hsmall
    · have hlog := (Nat.le_log2 (by omega)).mpr hlarge
      omega
    · omega
  rw [nearest_of_pos hv, rounded]
  have hplaced := placed_nearestNat (f := binary64) hv
  generalize unitExponent binary64 (n / d * 2 ^ e) = q at *
  have hrounded : roundDiv n (d * 2 ^ (q - e).toNat) = nearestNat (n / d * 2 ^ e / 2 ^ q) := by
    rw [roundDiv_eq _ (by positivity)]
    congr 1
    have hsplit : (2 : ℚ) ^ q = 2 ^ e * 2 ^ (q - e).toNat := by
      rw [← zpow_natCast, ← two_zpow_add]
      congr 1
      omega
    rw [hsplit]
    push_cast
    field_simp
  rw [← hrounded] at hplaced ⊢
  rw [← pack_shifted hplaced _ rfl]
  simp only [roundWithAccuracy, shiftToTargetExponent_eq hd htarget hle,
    roundedMantissa_extended n (show 0 < d * 2 ^ (q - e).toNat by positivity)]

end Rounding

section Codes

variable {code : Nat}

theorem decode_pos (hcode : code ≠ 0) : 0 < (binary64.decode code).1 := by
  rw [BinaryFormat.decode]
  split
  · exact Nat.pos_of_ne_zero hcode
  · exact Nat.add_pos_left (Nat.two_pow_pos _) _

/-- The number of a code that is not above the one of infinity. -/
def unpacked (code : Nat) : UnpackedFloat :=
  if hcode : code = 0 then .zero .positive
  else if code < binary64.infinityCode then
    .finite .positive (binary64.decode code).1 (binary64.decode code).2 (decode_pos hcode)
  else .infinity .positive

theorem pack_unpacked (hcode : code ≤ binary64.infinityCode) :
    UnpackedFloat.pack Format.binary64 (unpacked code) = BitVec.ofNat 64 code := by
  rw [unpacked]
  split
  · rename_i hzero
    subst hzero
    rfl
  · split
    · rename_i hpos hfinite
      obtain ⟨q, m, hplaced, hm, hcodeOf, hdecode⟩ := exists_codeOf binary64 code
      simp only [hdecode]
      rw [pack_finite _ hplaced hm, ← hcodeOf, Nat.min_eq_right hcode]
    · rename_i hpos hfinite
      obtain rfl : code = binary64.infinityCode := by omega
      rfl

theorem unpackSign_packComponents {spec : Format} {sign exponent mantissa} :
    unpackSign (packComponents spec sign exponent mantissa) = sign.toBitVec := by
  ext i hi
  obtain rfl : i = 0 := by omega
  simp [unpackSign, packComponents, BitVec.getLsbD_eq_getElem, BitVec.getLsbD_append,
    BitVec.getElem_append]

theorem finite_congr {m n : Nat} {e q : ℤ} {hm : 0 < m} {hn : 0 < n} (hmn : m = n) (heq : e = q) :
    UnpackedFloat.finite .positive m e hm = .finite .positive n q hn := by
  subst hmn heq
  rfl

theorem toNat_implicit {r : Nat} (hr : r < 2 ^ 52) :
    (1#1 ++ BitVec.ofNat 52 r).toNat = 2 ^ 52 + r := by
  have hshift : 1 <<< 52 ||| r = 2 ^ 52 + r := by
    rw [← Nat.shiftLeft_add_eq_or_of_lt hr, Nat.shiftLeft_eq, Nat.one_mul]
  rw [BitVec.toNat_append, BitVec.toNat_ofNat, BitVec.toNat_ofNat, Nat.mod_eq_of_lt hr]
  exact hshift

theorem ofNat_eq_iff {w m n : Nat} (hm : m < 2 ^ w) (hn : n < 2 ^ w) :
    BitVec.ofNat w m = BitVec.ofNat w n ↔ m = n := by
  rw [← BitVec.toNat_inj, BitVec.toNat_ofNat, BitVec.toNat_ofNat, Nat.mod_eq_of_lt hm,
    Nat.mod_eq_of_lt hn]

theorem decode_subnormal (hlow : code / 2 ^ 52 = 0) : binary64.decode code = (code, -1074) := by
  rw [BinaryFormat.decode]
  exact if_pos hlow

theorem decode_normal (hhigh : code / 2 ^ 52 ≠ 0) : binary64.decode code =
    (2 ^ 52 + code % 2 ^ 52, -1074 + ((code / 2 ^ 52 - 1 : Nat) : ℤ)) := by
  rw [BinaryFormat.decode]
  exact if_neg hhigh

theorem unpack_ofNat (hcode : code ≤ binary64.infinityCode) :
    UnpackedFloat.unpack Format.binary64 (BitVec.ofNat 64 code) = unpacked code := by
  have htop := infinityCode_binary64
  have hshift : code / 2 ^ 52 < 2 ^ 11 := by omega
  have hrest : code % 2 ^ 52 < 2 ^ 52 := Nat.mod_lt _ (by decide)
  have hpacked := packComponents_eq (code / 2 ^ 52) (code % 2 ^ 52) hshift hrest
  rw [Nat.div_add_mod'] at hpacked
  have hbias : (Format.binary64.exponentBias : ℤ) +
      (Format.binary64.mantissaBitsWithoutImplicit : ℤ) = 1075 := rfl
  rw [← hpacked, UnpackedFloat.unpack, unpacked]
  simp only [unpackSign_packComponents, unpackExponent_packComponents,
    unpackMantissa_packComponents, hbias]
  have hexponent : (BitVec.ofNat 11 (code / 2 ^ 52)).toNat = code / 2 ^ 52 := by
    rw [BitVec.toNat_ofNat, Nat.mod_eq_of_lt hshift]
  have hmantissa : (BitVec.ofNat 52 (code % 2 ^ 52)).toNat = code % 2 ^ 52 := by
    rw [BitVec.toNat_ofNat, Nat.mod_eq_of_lt hrest]
  have hsign : Sign.ofBitVec Sign.positive.toBitVec = .positive := rfl
  have hones : BitVec.ofNat 11 (code / 2 ^ 52) = -1#11 ↔ code / 2 ^ 52 = 2047 :=
    ofNat_eq_iff hshift (by decide)
  have hzeros : BitVec.ofNat 11 (code / 2 ^ 52) = 0#11 ↔ code / 2 ^ 52 = 0 :=
    ofNat_eq_iff hshift (by decide)
  have hblank : BitVec.ofNat 52 (code % 2 ^ 52) = 0#52 ↔ code % 2 ^ 52 = 0 :=
    ofNat_eq_iff hrest (by decide)
  simp only [hones, hzeros, hblank, hexponent, hmantissa, hsign]
  clear hbias
  by_cases hhigh : code / 2 ^ 52 = 2047
  · rw [if_pos hhigh, if_pos (by omega), dif_neg (by omega), if_neg (by omega)]
  by_cases hlow : code / 2 ^ 52 = 0
  · rw [if_neg hhigh, if_pos hlow]
    by_cases hzero : code = 0
    · rw [dif_pos (by omega), dif_pos hzero]
    · rw [dif_neg (by omega), dif_neg hzero, if_pos (by omega)]
      refine finite_congr ?_ ?_ <;> rw [decode_subnormal hlow]
      · exact Nat.mod_eq_of_lt (by omega)
      · rw [hlow]
        rfl
  · rw [if_neg hhigh, if_neg hlow, dif_neg (by omega), if_pos (by omega)]
    refine finite_congr ?_ ?_ <;> rw [decode_normal hlow]
    · exact toNat_implicit hrest
    · omega

end Codes

section Doubles

variable {a b code : Nat} {x : UnpackedFloat}

/-- The double of a code. -/
def double (code : Nat) : Float :=
  Float.ofBits (UInt64.ofNat code)

theorem ofModel_pack (hcode : code ≤ binary64.infinityCode)
    (hpack : UnpackedFloat.pack Format.binary64 x = BitVec.ofNat 64 code) :
    Float.ofModel (Float.Model.pack x) = double code := by
  have hmodel : Float.Model.pack x = Float.Model.pack (unpacked code) := by
    simp only [Float.Model.pack, hpack, pack_unpacked hcode]
  have hdouble : double code = Float.ofModel (Float.Model.pack
      (UnpackedFloat.unpack Format.binary64 (BitVec.ofNat 64 code))) := rfl
  rw [hdouble, unpack_ofNat hcode, hmodel]

theorem toModel_double (hcode : code ≤ binary64.infinityCode) :
    (double code).toModel = Float.Model.pack (unpacked code) := by
  rw [← ofModel_pack hcode (pack_unpacked hcode)]

theorem unpack_double (hcode : code ≤ binary64.infinityCode) :
    (double code).toModel.unpack = unpacked code := by
  rw [toModel_double hcode]
  exact (congrArg (UnpackedFloat.unpack Format.binary64) (pack_unpacked hcode)).trans
    (unpack_ofNat hcode)

theorem toBits_double (hcode : code ≤ binary64.infinityCode) :
    (double code).toBits = UInt64.ofNat code := by
  have hbits : (double code).toBits =
      UInt64.ofBitVec (UnpackedFloat.pack Format.binary64 (unpacked code)) := by
    rw [Float.toBits, toModel_double hcode]
    rfl
  rw [hbits, pack_unpacked hcode]
  rfl

theorem unpacked_zero : unpacked 0 = .zero .positive :=
  rfl

theorem exists_unpacked (hpos : 0 < code) (hfinite : code < binary64.infinityCode) :
    ∃ m q, ∃ hm : 0 < m, unpacked code = .finite .positive m q hm ∧ Placed binary64 q m ∧
      magnitude binary64 code = m * 2 ^ q := by
  obtain ⟨q, m, hplaced, hm, hcode, hdecode⟩ := exists_codeOf binary64 code
  have hdigits := decode_pos hpos.ne'
  rw [hdecode] at hdigits
  refine ⟨m, q, hdigits, ?_, hplaced, by rw [magnitude, hdecode]⟩
  rw [unpacked, dif_neg hpos.ne', if_pos hfinite]
  exact finite_congr (by rw [hdecode]) (by rw [hdecode])

theorem pack_round_product {m : Nat} {e : ℤ} (hm : 0 < m) (hroom : 2 ^ 52 ≤ m ∨ e ≤ -1074) :
    UnpackedFloat.pack Format.binary64 (roundWithAccuracy Format.binary64 .positive m e .exact) =
      BitVec.ofNat 64 (nearest binary64 (m * 2 ^ e)) := by
  have hpack := pack_roundWithAccuracy (n := m) (d := 1) (e := e) hm (by decide)
    (by rwa [Nat.div_one])
  rwa [Nat.div_one, Nat.mod_one, Nat.cast_one, div_one] at hpack

theorem pack_div {m n : Nat} {e q : ℤ} (hm : 0 < m) (hn : 0 < n) :
    UnpackedFloat.pack Format.binary64 (UnpackedFloat.div Format.binary64 (.finite .positive m e hm)
        (.finite .positive n q hn)) =
      BitVec.ofNat 64 (nearest binary64 (m * 2 ^ e / (n * 2 ^ q))) := by
  obtain ⟨t, ht⟩ : ∃ t, t = min (e - q)
    (Format.binary64.targetExponent (totalExponent m e - totalExponent n q)) := ⟨_, rfl⟩
  have hdiv : UnpackedFloat.div Format.binary64 (.finite .positive m e hm)
        (.finite .positive n q hn) =
      roundWithAccuracy Format.binary64 .positive (m <<< (e - q - t).toNat / n) t
        (accuracyOfFraction (m <<< (e - q - t).toNat % n) n) := by
    rw [ht]
    rfl
  have htotal : Format.binary64.targetExponent (totalExponent m e - totalExponent n q) =
      max (m.log2 + e - n.log2 - q - 53) (-1074) := by
    have hbits : Format.binary64.mantissaBits = 53 := rfl
    have hleast : Format.binary64.minExponent = -1074 := rfl
    rw [Format.targetExponent, totalExponent, totalExponent, hbits, hleast]
    congr 1
    push_cast
    ring
  -- The dividend is shifted until the quotient has all its digits or has come to the least unit.
  have hroom : 2 ^ 52 ≤ m * 2 ^ (e - q - t).toNat / n ∨ t ≤ -1074 := by
    refine or_iff_not_imp_right.mpr fun hlarge => (Nat.le_div_iff_mul_le hn).mpr ?_
    have hlog : 52 + (n.log2 + 1) ≤ m.log2 + (e - q - t).toNat := by omega
    calc 2 ^ 52 * n ≤ 2 ^ 52 * 2 ^ (n.log2 + 1) :=
          Nat.mul_le_mul_left _ Nat.lt_log2_self.le
      _ = 2 ^ (52 + (n.log2 + 1)) := (pow_add ..).symm
      _ ≤ 2 ^ (m.log2 + (e - q - t).toNat) := Nat.pow_le_pow_right (by decide) hlog
      _ = 2 ^ m.log2 * 2 ^ (e - q - t).toNat := pow_add ..
      _ ≤ m * 2 ^ (e - q - t).toNat := Nat.mul_le_mul_right _ (Nat.log2_self_le hm.ne')
  have hsplit : (2 : ℚ) ^ e = 2 ^ (e - q - t).toNat * 2 ^ t * 2 ^ q := by
    rw [← zpow_natCast, ← two_zpow_add, ← two_zpow_add]
    congr 1
    omega
  rw [hdiv, Nat.shiftLeft_eq, pack_roundWithAccuracy (by positivity) hn hroom, hsplit]
  congr 2
  have hunit := two_zpow_pos q
  push_cast
  field_simp

theorem pack_zero : UnpackedFloat.pack Format.binary64 (.zero .positive) =
    BitVec.ofNat 64 (nearest binary64 0) :=
  rfl

theorem mul_double (ha : a < binary64.infinityCode) (hb : b < binary64.infinityCode) :
    double a * double b =
      double (nearest binary64 (magnitude binary64 a * magnitude binary64 b)) := by
  have hmul : double a * double b = Float.ofModel (Float.Model.pack
      (UnpackedFloat.mul Format.binary64 (double a).toModel.unpack (double b).toModel.unpack)) :=
    rfl
  rw [hmul, unpack_double ha.le, unpack_double hb.le]
  refine ofModel_pack (nearest_le_infinityCode _) ?_
  rcases Nat.eq_zero_or_pos a with rfl | hapos
  · rw [magnitude_zero, zero_mul, ← pack_zero, unpacked_zero]
    rcases Nat.eq_zero_or_pos b with rfl | hbpos
    · rfl
    · obtain ⟨n, q, hn, hunpacked, -, -⟩ := exists_unpacked hbpos hb
      rw [hunpacked]
      rfl
  obtain ⟨m, e, hm, hunpacked, hplaced, hmagnitude⟩ := exists_unpacked hapos ha
  rcases Nat.eq_zero_or_pos b with rfl | hbpos
  · rw [magnitude_zero, mul_zero, ← pack_zero, hunpacked]
    rfl
  obtain ⟨n, q, hn, hunpacked', hplaced', hmagnitude'⟩ := exists_unpacked hbpos hb
  have hexact : ((m : ℚ) * 2 ^ e) * (n * 2 ^ q) = (m * n : Nat) * 2 ^ (e + q) := by
    rw [two_zpow_add]
    push_cast
    ring
  have hroom : 2 ^ 52 ≤ m * n ∨ e + q ≤ -1074 := by
    have hfull : e = -1074 ∨ 2 ^ 52 ≤ m := hplaced.full
    have hfull' : q = -1074 ∨ 2 ^ 52 ≤ n := hplaced'.full
    rcases hfull with rfl | hlarge
    · rcases hfull' with rfl | hlarge'
      · exact .inr (by decide)
      · exact .inl (le_trans hlarge' (Nat.le_mul_of_pos_left n hm))
    · exact .inl (le_trans hlarge (Nat.le_mul_of_pos_right m hn))
  rw [hunpacked, hunpacked', hmagnitude, hmagnitude', hexact,
    ← pack_round_product (Nat.mul_pos hm hn) hroom]
  rfl

theorem div_double (ha : a < binary64.infinityCode) (hbpos : 0 < b)
    (hb : b < binary64.infinityCode) :
    double a / double b =
      double (nearest binary64 (magnitude binary64 a / magnitude binary64 b)) := by
  have hdiv : double a / double b = Float.ofModel (Float.Model.pack
      (UnpackedFloat.div Format.binary64 (double a).toModel.unpack (double b).toModel.unpack)) :=
    rfl
  rw [hdiv, unpack_double ha.le, unpack_double hb.le]
  refine ofModel_pack (nearest_le_infinityCode _) ?_
  obtain ⟨n, q, hn, hunpacked', hplaced', hmagnitude'⟩ := exists_unpacked hbpos hb
  rcases Nat.eq_zero_or_pos a with rfl | hapos
  · rw [magnitude_zero, zero_div, ← pack_zero, unpacked_zero, hunpacked']
    rfl
  obtain ⟨m, e, hm, hunpacked, hplaced, hmagnitude⟩ := exists_unpacked hapos ha
  rw [hunpacked, hunpacked', hmagnitude, hmagnitude', pack_div hm hn]

theorem pack_round {m : Nat} (hm : 0 < m) (e : ℤ) :
    UnpackedFloat.pack Format.binary64 (round Format.binary64 .positive m e) =
      BitVec.ofNat 64 (nearest binary64 (m * 2 ^ e)) := by
  obtain ⟨t, ht⟩ : ∃ t, t = Format.binary64.targetExponent (totalExponent m e) := ⟨_, rfl⟩
  have hround : round Format.binary64 .positive m e =
      roundWithAccuracy Format.binary64 .positive (m <<< (e - t).toNat) (e - (e - t).toNat)
        .exact := by
    rw [ht]
    rfl
  rw [targetExponent_eq] at ht
  have hroom : 2 ^ 52 ≤ m * 2 ^ (e - t).toNat ∨ e - (e - t).toNat ≤ -1074 := by
    refine or_iff_not_imp_right.mpr fun hlarge => ?_
    have hlog : 52 ≤ m.log2 + (e - t).toNat := by omega
    calc 2 ^ 52 ≤ 2 ^ (m.log2 + (e - t).toNat) := Nat.pow_le_pow_right (by decide) hlog
      _ = 2 ^ m.log2 * 2 ^ (e - t).toNat := pow_add ..
      _ ≤ m * 2 ^ (e - t).toNat := Nat.mul_le_mul_right _ (Nat.log2_self_le hm.ne')
  have hsplit : (2 : ℚ) ^ e = 2 ^ (e - t).toNat * 2 ^ (e - (e - t).toNat) := by
    rw [← zpow_natCast, ← two_zpow_add]
    congr 1
    ring
  rw [hround, Nat.shiftLeft_eq, pack_round_product (by positivity) hroom, hsplit]
  congr 2
  push_cast
  ring

theorem pack_normalize (m : Nat) (e : ℤ) :
    UnpackedFloat.pack Format.binary64 (UnpackedFloat.normalize Format.binary64 m e .positive) =
      BitVec.ofNat 64 (nearest binary64 (m * 2 ^ e)) := by
  rcases Nat.eq_zero_or_pos m with rfl | hm
  · push_cast
    rw [zero_mul, ← pack_zero]
    rfl
  · have hcompare : compare (m : ℤ) 0 = .gt := Int.compare_eq_gt.mpr (by omega)
    rw [UnpackedFloat.normalize, hcompare, ← pack_round hm]
    rfl

theorem toFloat_eq (n : UInt64) : n.toFloat = double (nearest binary64 n.toNat) := by
  have hpack := pack_normalize n.toNat 0
  rw [zpow_zero, mul_one] at hpack
  exact ofModel_pack (nearest_le_infinityCode _) hpack

theorem add_double (ha : a < binary64.infinityCode) (hb : b < binary64.infinityCode) :
    double a + double b =
      double (nearest binary64 (magnitude binary64 a + magnitude binary64 b)) := by
  have hadd : double a + double b = Float.ofModel (Float.Model.pack
      (UnpackedFloat.add Format.binary64 (double a).toModel.unpack (double b).toModel.unpack)) :=
    rfl
  rw [hadd, unpack_double ha.le, unpack_double hb.le]
  refine ofModel_pack (nearest_le_infinityCode _) ?_
  rcases Nat.eq_zero_or_pos a with rfl | hapos
  · rw [magnitude_zero, zero_add, nearest_magnitude hb.le, ← pack_unpacked hb.le, unpacked_zero]
    rcases Nat.eq_zero_or_pos b with rfl | hbpos
    · rfl
    · obtain ⟨n, q, hn, hunpacked, -, -⟩ := exists_unpacked hbpos hb
      rw [hunpacked]
      rfl
  obtain ⟨m, e, hm, hunpacked, -, hmagnitude⟩ := exists_unpacked hapos ha
  rcases Nat.eq_zero_or_pos b with rfl | hbpos
  · rw [magnitude_zero, add_zero, nearest_magnitude ha.le, ← pack_unpacked ha.le, unpacked_zero,
      hunpacked]
    rfl
  obtain ⟨n, q, hn, hunpacked', -, hmagnitude'⟩ := exists_unpacked hbpos hb
  -- Both numbers are brought to the smaller of their units.
  have hsum : UnpackedFloat.add Format.binary64 (.finite .positive m e hm)
        (.finite .positive n q hn) =
      normalize Format.binary64
        ((m <<< (e - min e q).toNat + n <<< (q - min e q).toNat : Nat) : ℤ) (min e q) .positive :=
    rfl
  have hfirst : (2 : ℚ) ^ e = 2 ^ (e - min e q).toNat * 2 ^ min e q := by
    rw [← zpow_natCast, ← two_zpow_add]
    congr 1
    omega
  have hsecond : (2 : ℚ) ^ q = 2 ^ (q - min e q).toNat * 2 ^ min e q := by
    rw [← zpow_natCast, ← two_zpow_add]
    congr 1
    omega
  rw [hunpacked, hunpacked', hmagnitude, hmagnitude', hsum, pack_normalize, hfirst, hsecond]
  congr 2
  rw [Nat.shiftLeft_eq, Nat.shiftLeft_eq]
  push_cast
  ring

theorem isInf_double (hcode : code ≤ binary64.infinityCode) :
    (double code).isInf = (code == binary64.infinityCode) := by
  have hunpack : (double code).isInf = (double code).toModel.unpack.isInf := rfl
  rw [hunpack, unpack_double hcode, unpacked]
  split
  · rename_i hzero
    subst hzero
    rfl
  · split
    · rename_i hfinite
      simp [UnpackedFloat.isInf, hfinite.ne]
    · rename_i hfinite
      simp [UnpackedFloat.isInf, Nat.le_antisymm hcode (Nat.le_of_not_lt hfinite)]

theorem beq_zero_double (hcode : code ≤ binary64.infinityCode) :
    (double code == 0) = (code == 0) := by
  have hzero : (0 : Float) = double 0 := by decide +kernel
  have hbeq : (double code == double 0) =
      ((double code).toModel.unpack.compare (double 0).toModel.unpack == some .eq) := rfl
  rw [hzero, hbeq, unpack_double hcode, unpack_double (Nat.zero_le _), unpacked_zero, unpacked]
  split
  · rename_i hcode'
    subst hcode'
    rfl
  · rename_i hpos
    rw [beq_false_of_ne hpos]
    split <;> rfl

theorem packComponents_negative (exponent : BitVec 11) (mantissa : BitVec 52) :
    packComponents Format.binary64 .negative exponent mantissa =
      BitVec.ofNat 64 (2 ^ 63) + packComponents Format.binary64 .positive exponent mantissa := by
  have hpositive := packComponents_eq exponent.toNat mantissa.toNat exponent.isLt mantissa.isLt
  rw [BitVec.ofNat_toNat, BitVec.ofNat_toNat, BitVec.setWidth_eq, BitVec.setWidth_eq] at hpositive
  have hexponent := exponent.isLt
  have hmantissa := mantissa.isLt
  have hfields : (1 <<< 11 ||| exponent.toNat) <<< 52 ||| mantissa.toNat =
      2 ^ 63 + (exponent.toNat * 2 ^ 52 + mantissa.toNat) := by
    rw [← Nat.shiftLeft_add_eq_or_of_lt hmantissa, ← Nat.shiftLeft_add_eq_or_of_lt hexponent,
      Nat.shiftLeft_eq, Nat.shiftLeft_eq]
    ring
  have hcode : (BitVec.ofNat 64 (2 ^ 63 + (exponent.toNat * 2 ^ 52 + mantissa.toNat))).toNat =
      2 ^ 63 + (exponent.toNat * 2 ^ 52 + mantissa.toNat) := by
    rw [BitVec.toNat_ofNat, Nat.mod_eq_of_lt (by omega)]
  rw [hpositive, ← BitVec.ofNat_add]
  apply BitVec.eq_of_toNat_eq
  refine Eq.trans ?_ (hfields.trans hcode.symm)
  simp only [packComponents, BitVec.toNat_append, Sign.toBitVec, BitVec.toNat_ofNat]

theorem pack_neg_unpacked (hcode : code ≤ binary64.infinityCode) :
    UnpackedFloat.pack Format.binary64 (unpacked code).neg = BitVec.ofNat 64 (2 ^ 63 + code) := by
  rw [BitVec.ofNat_add, ← pack_unpacked hcode, unpacked]
  split
  · rfl
  · split
    · simp only [UnpackedFloat.neg, UnpackedFloat.pack]
      split
      · rfl
      · split
        · exact packComponents_negative _ _
        · exact packComponents_negative _ _
    · rfl

theorem toBits_neg_double (hcode : code ≤ binary64.infinityCode) :
    (-double code).toBits = UInt64.ofNat (2 ^ 63 + code) := by
  have hbits : (-double code).toBits = UInt64.ofBitVec
      (UnpackedFloat.pack Format.binary64 (double code).toModel.unpack.neg) := rfl
  rw [hbits, unpack_double hcode, pack_neg_unpacked hcode]
  rfl

end Doubles

end MappedMetrics.Proofs.DoubleArithmetic
