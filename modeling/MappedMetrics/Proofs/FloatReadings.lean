import MappedMetrics.Proofs.LiteralReading

namespace MappedMetrics.Proofs.FloatReadings

open MappedMetrics
open MappedMetrics.Json
open MappedMetrics.Decimal
open MappedMetrics.Proofs.BinaryRounding
open MappedMetrics.Proofs.DoubleArithmetic
open MappedMetrics.Proofs.JsonNumbers
open MappedMetrics.Proofs.JsonFloats
open MappedMetrics.Proofs.LiteralReading
open MappedMetrics.Proofs.RoundingErrors
open MappedMetrics.Proofs.ShortestDigits

section Written

/-- The digits of the literal of a magnitude as one number, and the exponent of ten that belongs
to them. One digit of a whole number is the zero after its point. -/
def written (style : DecimalStyle) (f : BinaryFormat) (code : Nat) : Nat × ℤ :=
  let (digits, exponent) := shortest f style.tie code
  if 0 ≤ exponent ∧ style.positional (exponent + (digitChars digits).length - 1) then
    (digits * 10 ^ (exponent.toNat + 1), -1)
  else (digits, exponent)

/-- Numbers with more digits before the point than a limit have an exponent. -/
def Compact (limit : Nat) (style : DecimalStyle) : Prop :=
  ∀ scale, style.positional scale = true → scale < limit

variable {limit : Nat} {style : DecimalStyle} {f : BinaryFormat} {code : Nat}

theorem compact_doubleStyle : Compact 16 doubleStyle := by
  intro scale hscale
  simp only [doubleStyle, Bool.and_eq_true, decide_eq_true_eq] at hscale
  exact hscale.2

theorem compact_singleStyle : Compact 13 singleStyle := by
  intro scale hscale
  simp only [singleStyle, Bool.and_eq_true, decide_eq_true_eq] at hscale
  exact hscale.2

theorem whole_eq {n : Nat} {e : ℤ} (he : 0 ≤ e) :
    ((n * 10 ^ (e.toNat + 1) : Nat) : ℚ) * 10 ^ (-1 : ℤ) = n * 10 ^ e := by
  have hexponent : e = (e.toNat + 1 : Nat) + -1 := by omega
  have hsplit : (10 : ℚ) ^ e = 10 ^ (e.toNat + 1) * 10 ^ (-1 : ℤ) := by
    conv_lhs => rw [hexponent]
    rw [ten_zpow_add, zpow_natCast]
  rw [hsplit]
  push_cast
  ring

theorem written_value (style : DecimalStyle) (f : BinaryFormat) (code : Nat) :
    ((written style f code).1 : ℚ) * 10 ^ (written style f code).2 =
      (shortest f style.tie code).1 * 10 ^ (shortest f style.tie code).2 := by
  rcases hshortest : shortest f style.tie code with ⟨n, e⟩
  simp only [written, hshortest]
  split
  · rename_i hwhole
    exact whole_eq hwhole.1
  · rfl

theorem written_cases (hstyle : Compact limit style) (f : BinaryFormat) (code : Nat) :
    written style f code = shortest f style.tie code ∨
      (written style f code).1 ≤ 10 ^ (limit + 1) ∧ (written style f code).2 = -1 := by
  rcases hshortest : shortest f style.tie code with ⟨n, e⟩
  simp only [written, hshortest]
  split
  · rename_i hwhole
    exact .inr ⟨whole_le hwhole.1 (hstyle _ hwhole.2), rfl⟩
  · exact .inl rfl

theorem written_spec (hstyle : Compact limit style) (hlimit : limit ≤ 16)
    (hordinary : Ordinary f code) :
    ∃ digits e, written style f code = (digits, e) ∧ nearest f (digits * 10 ^ e) = code ∧
      0 < digits ∧ digits < 10 ^ 18 ∧ -340 ≤ e ∧ e ≤ 308 ∧
      ∀ negative, (numeralOf style ⟨f, negative, code⟩).magnitude? =
        scaled? (UInt64.ofNat digits).toFloat e := by
  obtain ⟨n, e, hshortest, hnearest, hpos, hbound, hlow, hhigh⟩ :=
    exists_shortest style.tie hordinary
  have hnumeral : ∀ negative, numeralOf style ⟨f, negative, code⟩ =
      if style.positional (e + (digitChars n).length - 1) then positional negative (digitChars n) e
      else scientific negative (digitChars n) (e + (digitChars n).length - 1) := by
    intro negative
    simp only [numeralOf, if_neg hordinary.pos.ne', hshortest]
  simp only [written, hshortest, hnumeral]
  by_cases hpositional : style.positional (e + (digitChars n).length - 1) = true
  · rcases le_or_gt 0 e with he | he
    · have hscale : e + (digitChars n).length - 1 < (16 : Nat) :=
        (hstyle _ hpositional).trans_le (by exact_mod_cast hlimit)
      have hbound' : n * 10 ^ (e.toNat + 1) < 10 ^ 18 :=
        (whole_le he hscale).trans_lt (by decide)
      refine ⟨n * 10 ^ (e.toNat + 1), -1, if_pos ⟨he, hpositional⟩, ?_, ?_, hbound', by decide,
        by decide, fun negative => ?_⟩
      · rw [whole_eq he, hnearest]
      · exact Nat.mul_pos hpos (Nat.pow_pos (by decide))
      · rw [if_pos hpositional, magnitude?_whole he hscale]
    · refine ⟨n, e, if_neg fun hwhole => by omega, hnearest, hpos, hbound, hlow, hhigh,
        fun negative => ?_⟩
      rw [if_pos hpositional, magnitude?_fraction hbound he]
  · refine ⟨n, e, if_neg fun hwhole => hpositional hwhole.2, hnearest, hpos, hbound, hlow, hhigh,
      fun negative => ?_⟩
    rw [if_neg hpositional, magnitude?_scientific hbound hlow hhigh]

theorem magnitude?_zero (negative : Bool) :
    (numeralOf style ⟨f, negative, 0⟩).magnitude? = some (double 0) := by
  have hnumeral : numeralOf style ⟨f, negative, 0⟩ = ⟨negative, ['0'], some ['0'], none⟩ := rfl
  have hread : (Numeral.mk negative ['0'] (some ['0']) none).magnitude? =
      scaled? (UInt64.ofNat 0).toFloat (-1) := rfl
  have hzero : (UInt64.ofNat 0).toFloat = double 0 := by
    rw [toFloat_ofNat (by decide), Nat.cast_zero, nearest_zero]
  have hdiv := scaled?_of_neg (a := 0) (k := 1) (by decide) (by decide) (by decide)
  rw [magnitude_zero, zero_div, nearest_zero, Nat.cast_one] at hdiv
  rw [hnumeral, hread, hzero, hdiv]

end Written

section Signs

/-- The magnitude that is read where a magnitude was written. -/
structure Reads (style : DecimalStyle) (f : BinaryFormat) (code read : Nat) : Prop where
  finite : read < binary64.infinityCode
  read : ∀ negative, (numeralOf style ⟨f, negative, code⟩).magnitude? = some (double read)

variable {style : DecimalStyle} {f : BinaryFormat} {code read : Nat}

theorem ofLiteral?_numeralOf (style : DecimalStyle) (x : BinaryNumber) :
    Number.ofLiteral? (String.ofList (spelled (numeralOf style x))) =
      (numeralOf style x).double? := by
  have hmarked : ((numeralOf style x).fraction.isSome || (numeralOf style x).exponent.isSome) =
      true := by
    simp only [numeralOf]
    split
    · rfl
    · split
      · simp only [positional]
        split
        · rfl
        · split <;> rfl
      · exact Bool.or_true _
  simp only [Number.ofLiteral?, ofLiteral_spelled (spellable_numeralOf style x), if_pos hmarked]

theorem negative_numeralOf (style : DecimalStyle) (x : BinaryNumber) :
    (numeralOf style x).negative = x.negative := by
  simp only [numeralOf, positional, scientific]
  split
  · rfl
  · split
    · split
      · rfl
      · split <;> rfl
    · rfl

theorem Reads.ofLiteral? (hreads : Reads style f code read) (hstyle : Signed style)
    (hfinite : code < f.infinityCode) {sign : Nat} (hsign : sign < 2) :
    Number.ofLiteral? (String.ofList (style.render ⟨f, sign == 1, code⟩)) =
      some (.double (UInt64.ofNat (sign * 2 ^ 63 + read))) := by
  have hnegative : (numeralOf style ⟨f, sign == 1, code⟩).negative = (sign == 1) :=
    negative_numeralOf _ _
  rw [render_eq hstyle hfinite, ofLiteral?_numeralOf, Numeral.double?, hreads.read,
    Option.map_some, hnegative]
  obtain rfl | rfl : sign = 0 ∨ sign = 1 := by omega
  · rw [if_neg (by decide), toBits_double hreads.finite.le, Nat.zero_mul, Nat.zero_add]
  · rw [if_pos (beq_self_eq_true 1), toBits_neg_double hreads.finite.le, Nat.one_mul]

theorem Reads.numberValue?_ofDouble {bits : UInt64}
    (hreads : Reads doubleStyle binary64 (bits.toNat % 2 ^ 63) read)
    (hfinite : bits.toNat % 2 ^ 63 < binary64.infinityCode) :
    (Json.ofDouble bits).numberValue? =
      some (.double (UInt64.ofNat (bits.toNat / 2 ^ 63 * 2 ^ 63 + read))) := by
  have hsign : bits.toNat / 2 ^ 63 < 2 := by
    have hlt := bits.toNat_lt
    omega
  have hnumber : Json.ofDouble bits =
      .number (String.ofList (doubleStyle.render (BinaryNumber.ofDouble bits))) := if_pos hfinite
  rw [hnumber]
  exact hreads.ofLiteral? signed_doubleStyle hfinite hsign

theorem Reads.numberValue?_ofSingle {bits : UInt32}
    (hreads : Reads singleStyle binary32 (bits.toNat % 2 ^ 31) read)
    (hfinite : bits.toNat % 2 ^ 31 < binary32.infinityCode) :
    (Json.ofSingle bits).numberValue? =
      some (.double (UInt64.ofNat (bits.toNat / 2 ^ 31 * 2 ^ 63 + read))) := by
  have hsign : bits.toNat / 2 ^ 31 < 2 := by
    have hlt := bits.toNat_lt
    omega
  have hnumber : Json.ofSingle bits =
      .number (String.ofList (singleStyle.render (BinaryNumber.ofSingle bits))) := if_pos hfinite
  rw [hnumber]
  exact hreads.ofLiteral? signed_singleStyle hfinite hsign

end Signs

section Doubles

/-- The literal of a double has few digits and an exponent of ten that is not great. -/
def Brief (code : Nat) : Prop :=
  code = 0 ∨ (written doubleStyle binary64 code).1 < 2 ^ 53 ∧
    -22 ≤ (written doubleStyle binary64 code).2 ∧ (written doubleStyle binary64 code).2 ≤ 22

instance : DecidablePred Brief :=
  fun _ => inferInstanceAs (Decidable (_ ∨ _ ∧ _ ∧ _))

/-- A double is a few units of its last place away from another one. -/
def Close (read code : Nat) : Prop :=
  |magnitude binary64 read - magnitude binary64 code| ≤
    magnitude binary64 code / 2 ^ 50 + 2 ^ (-1073 : ℤ)

variable {code w : Nat} {e : ℤ} {r : ℚ}

theorem Close.refl (code : Nat) : Close code code := by
  rw [Close, sub_self, abs_zero]
  exact add_nonneg (div_nonneg (magnitude_nonneg _ _) (by positivity)) (two_zpow_pos _).le

theorem close_of_near (hfinite : code < binary64.infinityCode)
    (hnearest : nearest binary64 (w * 10 ^ e) = code) (hr : 0 ≤ r)
    (hnear : |r - w * 10 ^ e| ≤
      43 / (10 * 2 ^ 53) * (w * 10 ^ e) + 1 / 8 * 2 ^ (-1075 : ℤ))
    (hrounded : nearest binary64 r < binary64.infinityCode) : Close (nearest binary64 r) code := by
  have hv : (0 : ℚ) ≤ w * 10 ^ e := mul_nonneg (by positivity) (ten_zpow_pos e).le
  have hread := abs_nearest_sub_le_of_near hr hv hnear hrounded (c := 6 / 2 ^ 53) (l := 2)
    (by norm_num) (by norm_num)
  have hcode := abs_nearest_sub_le hv (hnearest ▸ hfinite)
  rw [hnearest] at hcode
  have hunit : (2 : ℚ) ^ (-1073 : ℤ) = 4 * 2 ^ (-1075 : ℤ) := by
    have hsum : (-1073 : ℤ) = 2 + -1075 := by norm_num
    rw [hsum, two_zpow_add]
    norm_num
  rw [Close, hunit]
  exact abs_sub_le_of_near hread hcode

theorem close_succ (hnormal : 2 ^ 52 ≤ code) : Close (code + 1) code := by
  have hshift : ¬ code / 2 ^ 52 = 0 := by omega
  have hdigits : 2 ^ 52 ≤ (binary64.decode code).1 := by
    have hdecode : binary64.decode code = _ := if_neg hshift
    rw [hdecode]
    exact Nat.le_add_right _ _
  have hdigits' : (2 : ℚ) ^ 52 ≤ (binary64.decode code).1 := by exact_mod_cast hdigits
  have hunit := two_zpow_pos (binary64.decode code).2
  have hleast := two_zpow_pos (-1073)
  rw [Close, magnitude_succ, add_sub_cancel_left, abs_of_pos hunit, magnitude]
  nlinarith

theorem nearest_lt_of_near (hcode : code + 4 < binary64.infinityCode)
    (hnearest : nearest binary64 (w * 10 ^ e) = code) (hr : 0 ≤ r)
    (hnear : Near (21 / (10 * 2 ^ 53)) r (w * 10 ^ e)) :
    nearest binary64 r < binary64.infinityCode := by
  have hfourth : magnitude binary64 (binary64.infinityCode - 4) =
      (2 ^ 53 - 4) * 2 ^ (971 : ℤ) := by
    have hdecode : binary64.decode (binary64.infinityCode - 4) = (2 ^ 53 - 4, 971) := by
      decide +kernel
    rw [magnitude, hdecode]
    norm_num
  have hfirst : magnitude binary64 (binary64.infinityCode - 1) = (2 ^ 53 - 1) * 2 ^ (971 : ℤ) := by
    have hdecode : binary64.decode (binary64.infinityCode - 1) = (2 ^ 53 - 1, 971) := by
      decide +kernel
    rw [magnitude, hdecode]
    norm_num
  have hv : (w : ℚ) * 10 ^ e ≤ magnitude binary64 (binary64.infinityCode - 4) := by
    by_contra! hgt
    have hle := le_nearest (f := binary64) (Nat.sub_le _ _) hgt.le
    omega
  have hle : nearest binary64 r ≤ binary64.infinityCode - 1 := by
    refine nearest_le hr ?_
    have hunit := two_zpow_pos 971
    have hhigh := hnear.high
    rw [hfourth] at hv
    rw [hfirst]
    generalize (2 : ℚ) ^ (971 : ℤ) = unit at *
    linarith
  have htop := infinityCode_binary64
  omega

theorem exists_reads_top (hlow : binary64.infinityCode ≤ code + 4)
    (hhigh : code < binary64.infinityCode) :
    ∃ read, Reads doubleStyle binary64 code read ∧ Close read code := by
  have htop := infinityCode_binary64
  have hcases : code = binary64.infinityCode - 4 ∨ code = binary64.infinityCode - 3 ∨
      code = binary64.infinityCode - 2 ∨ code = binary64.infinityCode - 1 := by omega
  rcases hcases with rfl | rfl | rfl | rfl
  · exact ⟨_, ⟨by decide, by decide +kernel⟩, close_succ (by decide)⟩
  · exact ⟨_, ⟨by decide, by decide +kernel⟩, Close.refl _⟩
  · exact ⟨_, ⟨by decide, by decide +kernel⟩, close_succ (by decide)⟩
  · exact ⟨_, ⟨by decide, by decide +kernel⟩, Close.refl _⟩

theorem exists_reads_double (hfinite : code < binary64.infinityCode) :
    ∃ read, Reads doubleStyle binary64 code read ∧ Close read code ∧
      (Brief code → read = code) := by
  rcases Nat.eq_zero_or_pos code with rfl | hpos
  · exact ⟨0, ⟨by decide, magnitude?_zero⟩, Close.refl 0, fun _ => rfl⟩
  obtain ⟨w, e, hwritten, hnearest, hw, hbound, hlow, hhigh, hread⟩ :=
    written_spec compact_doubleStyle le_rfl (ordinary_binary64 hpos hfinite)
  have hword : w < 2 ^ 64 := hbound.trans (by decide)
  by_cases hbrief : Brief code
  · refine ⟨code, ⟨hfinite, fun negative => ?_⟩, Close.refl code, fun _ => rfl⟩
    obtain ⟨hdigits, hleast, hmost⟩ := hbrief.resolve_left hpos.ne'
    rw [hwritten] at hdigits hleast hmost
    rw [hread, scaled?_exact hw hdigits hleast hmost (hnearest ▸ hfinite), hnearest]
  suffices hclose : ∃ read, Reads doubleStyle binary64 code read ∧ Close read code by
    obtain ⟨read, hreads, hclose⟩ := hclose
    exact ⟨read, hreads, hclose, fun hbrief' => absurd hbrief' hbrief⟩
  -- Below the powers of ten the digits are divided twice. Anywhere else there is one product or
  -- quotient, and only next to infinity it matters where its rounding goes.
  rcases lt_or_ge e (-308) with hfar | hnear
  · obtain ⟨r, hr, hclose, hscaled⟩ := exists_scaled_far hw hword (by omega) hfar
    have hrounded : nearest binary64 r < binary64.infinityCode := by
      have hv : (w : ℚ) * 10 ^ e ≤ 2 ^ 64 := by
        have hten : (10 : ℚ) ^ e ≤ 1 := zpow_le_one_of_nonpos₀ (by norm_num) (by omega)
        have hw' : (w : ℚ) ≤ 2 ^ 64 := by exact_mod_cast hword.le
        nlinarith
      refine nearest_lt_infinityCode hr ?_
      have hhalf : (2 : ℚ) ^ (-1075 : ℤ) ≤ 1 := zpow_le_one_of_nonpos₀ (by norm_num) (by norm_num)
      calc r ≤ 2 ^ (65 : ℤ) := by
            norm_num at hv ⊢
            linarith [(abs_le.mp hclose).2]
        _ ≤ 2 ^ (1023 : ℤ) := zpow_le_zpow_right₀ (by norm_num) (by norm_num)
    exact ⟨nearest binary64 r, ⟨hrounded, fun negative => by rw [hread, hscaled]⟩,
      close_of_near hfinite hnearest hr hclose hrounded⟩
  · rcases lt_or_ge (code + 4) binary64.infinityCode with hbelow | htop
    · obtain ⟨r, hclose, hscaled⟩ := exists_scaled_nearest hw hword hnear hhigh
      have hv : (0 : ℚ) ≤ w * 10 ^ e := mul_nonneg (by positivity) (ten_zpow_pos e).le
      have hr : 0 ≤ r := hclose.nonneg (by norm_num) hv
      have hrounded := nearest_lt_of_near hbelow hnearest hr hclose
      refine ⟨nearest binary64 r, ⟨hrounded, fun negative => by rw [hread, hscaled hrounded]⟩,
        close_of_near hfinite hnearest hr ?_ hrounded⟩
      have hhalf := two_zpow_pos (-1075)
      rw [abs_le]
      constructor <;> linarith [hclose.low, hclose.high]
    · exact exists_reads_top htop hfinite

theorem le_exponent (hbound : w < 10 ^ 18) (hlow : 2 ^ (-901 : ℤ) ≤ (w : ℚ) * 10 ^ e) :
    -308 ≤ e := by
  by_contra! hfar
  have hw : (w : ℚ) < 10 ^ (18 : ℤ) := by exact_mod_cast hbound
  refine absurd hlow (not_le.mpr ?_)
  calc (w : ℚ) * 10 ^ e < 10 ^ (18 : ℤ) * 10 ^ e := mul_lt_mul_of_pos_right hw (ten_zpow_pos e)
    _ = 10 ^ (18 + e) := (ten_zpow_add ..).symm
    _ ≤ 10 ^ (-291 : ℤ) := zpow_le_zpow_right₀ (by norm_num) (by omega)
    _ ≤ 2 ^ (-901 : ℤ) := ten_zpow_le_two_zpow (by norm_num) (by norm_num)

/-- A double in the middle of the range is read with the errors of four roundings. -/
theorem exists_reads_near (hlow : 2 ^ (-900 : ℤ) ≤ magnitude binary64 code)
    (hhigh : magnitude binary64 code ≤ 2 ^ (900 : ℤ)) :
    ∃ read, Reads doubleStyle binary64 code read ∧
      Near (43 / (10 * 2 ^ 53)) (magnitude binary64 read) (magnitude binary64 code) := by
  have hpos : 0 < code := magnitude_pos_iff.mp ((two_zpow_pos _).trans_le hlow)
  have hfinite : code < binary64.infinityCode := by
    rw [← strictMono_magnitude.lt_iff_lt, magnitude_infinityCode]
    exact hhigh.trans_lt (zpow_lt_zpow_right₀ (by norm_num) (by norm_num))
  obtain ⟨w, e, -, hnearest, hw, hbound, -, hmost, hread⟩ :=
    written_spec compact_doubleStyle le_rfl (ordinary_binary64 hpos hfinite)
  have hv : (0 : ℚ) ≤ w * 10 ^ e := mul_nonneg (by positivity) (ten_zpow_pos e).le
  have hcode := abs_nearest_sub_le hv (hnearest ▸ hfinite)
  rw [hnearest] at hcode
  have hhalf : (2 : ℚ) ^ (-1075 : ℤ) ≤ 1 / 4 * 2 ^ (-901 : ℤ) := by
    have hquarter : (1 : ℚ) / 4 = 2 ^ (-2 : ℤ) := by norm_num
    rw [hquarter, ← two_zpow_add]
    exact zpow_le_zpow_right₀ (by norm_num) (by norm_num)
  obtain ⟨hvlow, hvhigh⟩ := between_of_near hcode hhalf
    (zpow_le_zpow_right₀ (by norm_num) (by norm_num))
    ((two_zpow_succ (-901)).symm.le.trans hlow) hhigh
  rw [← two_zpow_succ] at hvhigh
  have hnormal : (2 : ℚ) ^ (-1022 : ℤ) ≤ w * 10 ^ e :=
    le_trans (zpow_le_zpow_right₀ (by norm_num) (by norm_num)) hvlow
  have hnear := near_nearest hnormal (hnearest ▸ hfinite)
  rw [hnearest] at hnear
  obtain ⟨read, hscaled, hreadFinite, hreadNear⟩ := exists_scaled hw
    (hbound.trans (by decide)) (le_exponent hbound hvlow) hmost
    (le_trans (zpow_le_zpow_right₀ (by norm_num) (by norm_num)) hvlow)
    (hvhigh.trans (zpow_le_zpow_right₀ (by norm_num) (by norm_num)))
  refine ⟨read, ⟨hreadFinite, fun negative => by rw [hread, hscaled]⟩, ?_⟩
  exact hreadNear.trans (hnear.symm hv (c := 105 / (100 * 2 ^ 53)) (by norm_num) (by norm_num)
    (by norm_num) (by norm_num)) (magnitude_nonneg _ _) (by norm_num) (by norm_num) (by norm_num)
    (by norm_num)

end Doubles

end MappedMetrics.Proofs.FloatReadings
