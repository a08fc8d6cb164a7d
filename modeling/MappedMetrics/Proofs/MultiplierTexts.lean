import MappedMetrics.PhysicalUnit.Parser
import MappedMetrics.Proofs.LiteralReading

namespace MappedMetrics.Proofs.MultiplierTexts

open MappedMetrics
open MappedMetrics.Decimal
open MappedMetrics.Proofs.BinaryRounding
open MappedMetrics.Proofs.DoubleArithmetic
open MappedMetrics.Proofs.JsonText
open MappedMetrics.Proofs.JsonNumbers
open MappedMetrics.Proofs.JsonFloats
open MappedMetrics.Proofs.LiteralReading
open MappedMetrics.Proofs.ShortestDigits
open Float.Model
open Float.Model.UnpackedFloat

section Decimals

variable {text whole fraction : List Char} {c : Char} {n : Nat} {e : ℤ}

theorem decimal?_whole (hwhole : Run whole) : decimal? whole = some (digitsValue whole, 0) := by
  have htake := takeWhile_run hwhole.digits stops_nil
  have hdrop := dropWhile_run hwhole.digits stops_nil
  rw [List.append_nil] at htake hdrop
  have hsome : (whole.isEmpty && ([] : List Char).isEmpty) = false := by
    simp [hwhole.nonempty]
  simp only [decimal?, htake, hdrop, hsome]
  simp [exponent?]

theorem decimal?_point (hwhole : Run whole) (hfraction : ∀ c ∈ fraction, isDigit c = true) :
    decimal? (whole ++ '.' :: fraction) =
      some (digitsValue (whole ++ fraction), -(fraction.length : ℤ)) := by
  have htake : (whole ++ '.' :: fraction).takeWhile isDigit = whole :=
    takeWhile_run hwhole.digits (stops_cons rfl)
  have hdrop : (whole ++ '.' :: fraction).dropWhile isDigit = '.' :: fraction :=
    dropWhile_run hwhole.digits (stops_cons rfl)
  have htake' := takeWhile_run hfraction stops_nil
  have hdrop' := dropWhile_run hfraction stops_nil
  rw [List.append_nil] at htake' hdrop'
  have hsome : (whole.isEmpty && fraction.isEmpty) = false := by
    simp [hwhole.nonempty]
  simp only [decimal?, htake, hdrop, htake', hdrop', hsome]
  simp [exponent?]

theorem positionalText_cases {style : DecimalStyle} (hstyle : style.pointZero = false) (n : Nat)
    (e : ℤ) :
    (0 ≤ e ∧ Run (style.positionalText (digitChars n) e) ∧
      digitsValue (style.positionalText (digitChars n) e) = n * 10 ^ e.toNat) ∨
    ∃ whole fraction, style.positionalText (digitChars n) e = whole ++ '.' :: fraction ∧
      Run whole ∧ (∀ c ∈ fraction, isDigit c = true) ∧ digitsValue (whole ++ fraction) = n ∧
      e = -fraction.length := by
  have hrun := run_digitChars n
  rw [DecimalStyle.positionalText]
  split
  · rename_i hwhole
    rw [DecimalStyle.wholeEnd, hstyle, if_neg (by decide), List.append_nil]
    refine .inl ⟨hwhole, ⟨fun c hmem => ?_, by simp [hrun.nonempty]⟩, ?_⟩
    · rcases List.mem_append.mp hmem with hdigit | hzero
      · exact hrun.digits c hdigit
      · exact List.eq_of_mem_replicate hzero ▸ rfl
    · calc digitsValue (digitChars n ++ List.replicate e.toNat '0')
          = valueFrom (valueFrom 0 (digitChars n)) (List.replicate e.toNat '0') :=
            valueFrom_append ..
        _ = n * 10 ^ e.toNat := by rw [valueFrom_zeros, valueFrom_digitChars]
  · rename_i hfraction
    obtain ⟨places, rfl⟩ : ∃ places : Nat, e = -places := ⟨(-e).toNat, by omega⟩
    have hplaces : (- -(places : ℤ)).toNat = places := by omega
    simp only [hplaces]
    right
    split
    · rename_i hshort
      refine ⟨['0'], _, rfl, run_zero, (run_replicate_append hrun _).digits, ?_, ?_⟩
      · calc digitsValue (['0'] ++ (List.replicate (places - (digitChars n).length) '0' ++
              digitChars n))
            = valueFrom (valueFrom 0 (List.replicate (places - (digitChars n).length) '0'))
                (digitChars n) := valueFrom_append 0 (List.replicate _ '0') (digitChars n)
          _ = n := by rw [valueFrom_zeros, Nat.zero_mul, valueFrom_digitChars]
      · rw [List.length_append, List.length_replicate, Nat.sub_add_cancel hshort]
    · rename_i hlong
      refine ⟨_, _, rfl, run_of_mem hrun (fun c => List.mem_of_mem_take) ?_,
        fun c hmem => hrun.digits c (List.mem_of_mem_drop hmem), ?_, ?_⟩
      · simp only [ne_eq, List.take_eq_nil_iff, hrun.nonempty, or_false]
        omega
      · rw [List.take_append_drop, digitsValue_digitChars]
      · rw [List.length_drop, Nat.sub_sub_self (by omega)]

theorem decimal?_positionalText {style : DecimalStyle} (hstyle : style.pointZero = false)
    (n : Nat) (e : ℤ) :
    decimal? (style.positionalText (digitChars n) e) = some (n * 10 ^ e.toNat, min e 0) := by
  rcases positionalText_cases hstyle n e with
    ⟨hwhole, hrun, hvalue⟩ | ⟨whole, fraction, htext, hrun, hdigits, hvalue, rfl⟩
  · rw [decimal?_whole hrun, hvalue, min_eq_right hwhole]
  · have hnone : (-(fraction.length : ℤ)).toNat = 0 := by omega
    rw [htext, decimal?_point hrun hdigits, hvalue, hnone, pow_zero, mul_one,
      min_eq_left (by omega)]

/-- The characters of a number without sign and exponent. -/
def isPlain (c : Char) : Bool :=
  isDigit c || c == '.'

theorem isPlain_of_mem_positionalText {style : DecimalStyle} (hstyle : style.pointZero = false)
    (hmem : c ∈ style.positionalText (digitChars n) e) : isPlain c = true := by
  rw [isPlain, Bool.or_eq_true, beq_iff_eq]
  rcases positionalText_cases hstyle n e with
    ⟨-, hrun, -⟩ | ⟨whole, fraction, htext, hrun, hdigits, -⟩
  · exact .inl (hrun.digits c hmem)
  · rw [htext] at hmem
    rcases List.mem_append.mp hmem with hwhole | hrest
    · exact .inl (hrun.digits c hwhole)
    · exact (List.mem_cons.mp hrest).elim .inr fun hfraction => .inl (hdigits c hfraction)

theorem exists_head_positionalText {style : DecimalStyle} (hstyle : style.pointZero = false)
    (n : Nat) (e : ℤ) : ∃ c rest, style.positionalText (digitChars n) e = c :: rest ∧
      isDigit c = true := by
  rcases positionalText_cases hstyle n e with
    ⟨-, hrun, -⟩ | ⟨whole, fraction, htext, hrun, -⟩
  · obtain ⟨c, rest, hcons⟩ := List.exists_cons_of_ne_nil hrun.nonempty
    exact ⟨c, rest, hcons, hrun.digits c (hcons ▸ List.mem_cons_self)⟩
  · obtain ⟨c, rest, hcons⟩ := List.exists_cons_of_ne_nil hrun.nonempty
    exact ⟨c, rest ++ '.' :: fraction, by rw [htext, hcons, List.cons_append],
      hrun.digits c (hcons ▸ List.mem_cons_self)⟩

theorem double?_of_head (hc : isDigit c = true) :
    double? (c :: text) = (decimal? (c :: text)).map fun number =>
      UInt64.ofNat (binary64.ofDecimal number.1 number.2) := by
  rw [isDigit_eq, Char.isDigit_iff_toNat] at hc
  have hother : ∀ other : Char, '9'.toNat < other.toNat ∨ other.toNat < '0'.toNat → c ≠ other := by
    rintro other hfar rfl
    omega
  have hlower : c.toLower = c := by
    rw [Char.toLower, dif_neg]
    exact fun hletter => absurd (Nat.le_trans hletter.1 hc.2) (by decide)
  have hsign : splitSign (c :: text) = (false, c :: text) := by
    rw [splitSign]
    · rintro rest ⟨⟩
      exact hother '-' (by decide) rfl
    · rintro rest ⟨⟩
      exact hother '+' (by decide) rfl
  have hnamed : ∀ first rest, '9'.toNat < first.toNat → lower (c :: text) ≠ first :: rest := by
    intro first rest hletter heq
    refine hother first (.inl hletter) ?_
    rw [← hlower]
    exact (List.cons.inj heq).1
  have hinf : lower (c :: text) ≠ "inf".toList := hnamed 'i' _ (by decide)
  have hinfinity : lower (c :: text) ≠ "infinity".toList := hnamed 'i' _ (by decide)
  have hnan : lower (c :: text) ≠ "nan".toList := hnamed 'n' _ (by decide)
  simp only [double?, hsign, hinf, hinfinity, hnan, or_self, if_false]
  cases decimal? (c :: text) <;> simp

end Decimals

section Positive

/-- A finite number above zero. -/
def Positive (x : UnpackedFloat) : Prop :=
  ∃ m e, ∃ hm : 0 < m, x = .finite .positive m e hm

theorem positive_iff {x : UnpackedFloat} :
    (x.isFinite = true ∧ (UnpackedFloat.zero .positive).lt x = true) ↔ Positive x := by
  constructor
  · rintro ⟨hfinite, hpositive⟩
    cases x with
    | notANumber => cases hfinite
    | infinity sign => cases hfinite
    | zero sign => cases hpositive
    | finite sign m e hm =>
        cases sign with
        | negative => cases hpositive
        | positive => exact ⟨m, e, hm, rfl⟩
  · rintro ⟨m, e, hm, rfl⟩
    exact ⟨rfl, rfl⟩

theorem positive_unpacked_iff {code : Nat} :
    Positive (unpacked code) ↔ 0 < code ∧ code < binary64.infinityCode := by
  rw [unpacked]
  split
  · rename_i hzero
    subst hzero
    simp [Positive]
  · rename_i hpos
    split
    · rename_i hfinite
      exact iff_of_true ⟨_, _, _, rfl⟩ ⟨Nat.pos_of_ne_zero hpos, hfinite⟩
    · rename_i hfinite
      simp [Positive, hfinite]

/-- The sign of a number, where what is no number has a positive one. -/
def signOf : UnpackedFloat → Sign
  | .notANumber => .positive
  | .infinity sign => sign
  | .zero sign => sign
  | .finite sign _ _ _ => sign

theorem unpackSign_pack (x : UnpackedFloat) :
    unpackSign (pack Format.binary64 x) = (signOf x).toBitVec := by
  fun_cases pack Format.binary64 x <;> exact unpackSign_packComponents

theorem signOf_unpack {b : BitVec 64}
    (hnumber : UnpackedFloat.unpack Format.binary64 b ≠ .notANumber) :
    signOf (UnpackedFloat.unpack Format.binary64 b) =
      Sign.ofBitVec (@unpackSign Format.binary64 b) := by
  revert hnumber
  fun_cases UnpackedFloat.unpack Format.binary64 b <;> intro hnumber
  · rfl
  · exact absurd rfl hnumber
  · rfl
  · rfl
  · rfl

theorem unpack_pack_notANumber :
    UnpackedFloat.unpack Format.binary64 (pack Format.binary64 .notANumber) = .notANumber :=
  rfl

theorem toNat_le_of_unpack {b : BitVec 64}
    (hnumber : UnpackedFloat.unpack Format.binary64 b ≠ .notANumber)
    (hsign : signOf (UnpackedFloat.unpack Format.binary64 b) = .positive) :
    b.toNat ≤ binary64.infinityCode := by
  have hbound := b.isLt
  rw [signOf_unpack hnumber, Sign.ofBitVec] at hsign
  have htop : b.toNat / 2 ^ 63 % 2 = 0 := by
    split at hsign
    · rename_i hzero
      have hvalue := congrArg BitVec.toNat hzero
      simpa [unpackSign, BitVec.extractLsb_toNat, Nat.shiftRight_eq_div_pow] using hvalue
    · cases hsign
  rw [infinityCode_binary64]
  by_contra! habove
  refine hnumber ?_
  have hexponent : @unpackExponent Format.binary64 b = -1#11 := by
    have hones : (-1#11).toNat = 2047 := rfl
    rw [← BitVec.toNat_inj, hones]
    simp only [unpackExponent, BitVec.toNat_cast, BitVec.extractLsb_toNat,
      Nat.shiftRight_eq_div_pow]
    omega
  have hmantissa : @unpackMantissa Format.binary64 b ≠ 0#52 := by
    have hzero : (0#52).toNat = 0 := rfl
    rw [Ne, ← BitVec.toNat_inj, hzero]
    simp only [unpackMantissa, BitVec.toNat_cast, BitVec.extractLsb_toNat,
      Nat.shiftRight_eq_div_pow]
    omega
  rw [UnpackedFloat.unpack]
  simp only [hexponent]
  rw [if_pos trivial, if_neg hmantissa]

theorem isFinite_and_pos_iff (x : Float) :
    (x.isFinite && decide (0 < x)) = true ↔ Positive x.toModel.unpack := by
  have hzero : (0 : Float) = double 0 := by decide +kernel
  have hless : double 0 < x ↔ (double 0).toModel.unpack.lt x.toModel.unpack = true :=
    decide_eq_true_iff
  rw [← positive_iff, Bool.and_eq_true, decide_eq_true_eq, hzero, hless,
    unpack_double (Nat.zero_le _), unpacked_zero]
  exact Iff.rfl

theorem toNat_le_of_positive {bits : UInt64}
    (hpositive : Positive (Float.ofBits bits).toModel.unpack) :
    bits.toNat ≤ binary64.infinityCode := by
  have hpacked : (Float.ofBits bits).toModel.unpack = UnpackedFloat.unpack Format.binary64
      (pack Format.binary64 (UnpackedFloat.unpack Format.binary64 bits.toBitVec)) := rfl
  obtain ⟨m, e, hm, hfinite⟩ := hpositive
  rw [hpacked] at hfinite
  have hnumber : UnpackedFloat.unpack Format.binary64 bits.toBitVec ≠ .notANumber := by
    intro hnone
    rw [hnone, unpack_pack_notANumber] at hfinite
    cases hfinite
  refine toNat_le_of_unpack hnumber ?_
  have hsign := signOf_unpack (b := pack Format.binary64
    (UnpackedFloat.unpack Format.binary64 bits.toBitVec)) fun hnone => by
      rw [hfinite] at hnone
      cases hnone
  rw [hfinite, unpackSign_pack] at hsign
  generalize signOf (UnpackedFloat.unpack Format.binary64 bits.toBitVec) = sign at hsign
  cases sign with
  | negative => cases hsign
  | positive => rfl

theorem positive_ofBits_iff {bits : UInt64} :
    ((Float.ofBits bits).isFinite && decide (0 < Float.ofBits bits)) = true ↔
      0 < bits.toNat ∧ bits.toNat < binary64.infinityCode := by
  have hofNat : Float.ofBits bits = double bits.toNat := by rw [double, UInt64.ofNat_toNat]
  have hcode : bits.toNat ≤ binary64.infinityCode →
      (Positive (Float.ofBits bits).toModel.unpack ↔
        0 < bits.toNat ∧ bits.toNat < binary64.infinityCode) := by
    intro hle
    rw [hofNat, unpack_double hle, positive_unpacked_iff]
  rw [isFinite_and_pos_iff]
  constructor
  · intro hpositive
    exact (hcode (toNat_le_of_positive hpositive)).mp hpositive
  · intro hcodes
    exact (hcode hcodes.2.le).mpr hcodes

end Positive

section Multipliers

variable {code : Nat} {text : List Char} {k : Float}

theorem pointZero_multiplierStyle : PhysicalUnit.multiplierStyle.pointZero = false :=
  rfl

theorem exists_multiplierText (hpos : 0 < code) (hfinite : code < binary64.infinityCode) :
    ∃ n e, (PhysicalUnit.multiplierText (double code)).toList =
        PhysicalUnit.multiplierStyle.positionalText (digitChars n) e ∧
      nearest binary64 (n * 10 ^ e) = code ∧ n < 10 ^ 18 ∧ -340 ≤ e ∧ e ≤ 308 := by
  have htop := infinityCode_binary64
  obtain ⟨n, e, hshortest, hnearest, -, hbound, hlow, hhigh⟩ :=
    exists_shortest .up (ordinary_binary64 hpos hfinite)
  refine ⟨n, e, ?_, hnearest, hbound, hlow, hhigh⟩
  have hnumber : BinaryNumber.ofDouble (double code).toBits = ⟨binary64, false, code⟩ := by
    have hword : code < UInt64.size := by
      rw [UInt64.size]
      omega
    rw [toBits_double hfinite.le, BinaryNumber.ofDouble, UInt64.toNat_ofNat_of_lt' hword,
      Nat.div_eq_of_lt (by omega), Nat.mod_eq_of_lt (by omega)]
    rfl
  rw [PhysicalUnit.multiplierText, hnumber, String.toList_ofList, DecimalStyle.render]
  have htie : PhysicalUnit.multiplierStyle.tie = .up := rfl
  simp only [htie, hshortest, hfinite.not_gt, hfinite.ne', hpos.ne', if_false]
  rfl

theorem double?_multiplierText (hpos : 0 < code) (hfinite : code < binary64.infinityCode) :
    double? (PhysicalUnit.multiplierText (double code)).toList = some (UInt64.ofNat code) := by
  obtain ⟨n, e, htext, hnearest, hbound, hlow, hhigh⟩ := exists_multiplierText hpos hfinite
  obtain ⟨c, rest, hhead, hc⟩ := exists_head_positionalText pointZero_multiplierStyle n e
  have hdigits : (n * 10 ^ e.toNat).log2 ≤ 1083 := by
    have htwo : n * 10 ^ e.toNat < 2 ^ 1083 := by
      calc n * 10 ^ e.toNat < 10 ^ 18 * 10 ^ e.toNat :=
            Nat.mul_lt_mul_of_pos_right hbound (by positivity)
        _ = 10 ^ (18 + e.toNat) := (pow_add ..).symm
        _ ≤ 2 ^ 1083 := ten_pow_le_two_pow (by omega)
    rcases Nat.eq_zero_or_pos (n * 10 ^ e.toNat) with hzero | hpos
    · rw [hzero]
      decide
    · exact ((Nat.log2_lt hpos.ne').mpr htwo).le
  have hexact : ((n * 10 ^ e.toNat : Nat) : ℚ) * 10 ^ min e 0 = n * 10 ^ e := by
    have hsplit : (10 : ℚ) ^ e = 10 ^ e.toNat * 10 ^ min e 0 := by
      rw [← zpow_natCast, ← ten_zpow_add]
      congr 1
      omega
    rw [hsplit]
    push_cast
    ring
  have hread : binary64.ofDecimal (n * 10 ^ e.toNat) (min e 0) = code := by
    rw [ofDecimal_eq (by omega) (by omega), hexact, hnearest]
  rw [htext, hhead, double?_of_head hc, ← hhead, decimal?_positionalText pointZero_multiplierStyle,
    Option.map_some, hread]

theorem isPlain_of_mem_multiplierText {c : Char} (hpos : 0 < code)
    (hfinite : code < binary64.infinityCode)
    (hmem : c ∈ (PhysicalUnit.multiplierText (double code)).toList) : isPlain c = true := by
  obtain ⟨n, e, htext, -⟩ := exists_multiplierText hpos hfinite
  rw [htext] at hmem
  exact isPlain_of_mem_positionalText pointZero_multiplierStyle hmem

/-- The multipliers are the texts of the finite numbers above zero. -/
theorem multiplier_eq_ok_iff : PhysicalUnit.multiplier text = .ok k ↔
    ∃ bits, double? text = some bits ∧ 0 < bits.toNat ∧ bits.toNat < binary64.infinityCode ∧
      k = Float.ofBits bits := by
  rw [PhysicalUnit.multiplier]
  cases hread : double? text with
  | none => simp
  | some bits =>
      simp only [Option.some.injEq, exists_eq_left']
      by_cases hpositive : ((Float.ofBits bits).isFinite && decide (0 < Float.ofBits bits)) = true
      · obtain ⟨hpos, hfinite⟩ := positive_ofBits_iff.mp hpositive
        rw [if_pos hpositive, Except.ok.injEq]
        exact ⟨fun heq => ⟨hpos, hfinite, heq.symm⟩, fun h => h.2.2.symm⟩
      · rw [if_neg hpositive]
        refine iff_of_false (fun h => by cases h) fun h => hpositive ?_
        exact positive_ofBits_iff.mpr ⟨h.1, h.2.1⟩

end Multipliers

end MappedMetrics.Proofs.MultiplierTexts
