import MappedMetrics.Config.Json
import MappedMetrics.Proofs.FloatReadings

namespace MappedMetrics.Proofs.SpanReadings

open MappedMetrics
open MappedMetrics.Json
open MappedMetrics.Decimal
open MappedMetrics.Proofs.BinaryRounding
open MappedMetrics.Proofs.DoubleArithmetic
open MappedMetrics.Proofs.LiteralReading
open MappedMetrics.Proofs.RoundingErrors
open MappedMetrics.Proofs.ShortestDigits
open MappedMetrics.Proofs.FloatReadings

section Seconds

variable {w : Nat}

theorem near_natCast (hw : w < 2 ^ 64) :
    nearest binary64 w < binary64.infinityCode ∧
      Near (1 / 2 ^ 53) (magnitude binary64 (nearest binary64 w)) w := by
  rcases Nat.eq_zero_or_pos w with rfl | hpos
  · rw [Nat.cast_zero, nearest_zero, magnitude_zero]
    exact ⟨by decide, Near.refl le_rfl (by norm_num)⟩
  · exact near_value hpos hw

theorem near_billionths (hw : w < 10 ^ 9) :
    nearest binary64 (w / 10 ^ 9) < binary64.infinityCode ∧
      Near (1 / 2 ^ 53) (magnitude binary64 (nearest binary64 (w / 10 ^ 9))) (w / 10 ^ 9) := by
  rcases Nat.eq_zero_or_pos w with rfl | hpos
  · rw [Nat.cast_zero, zero_div, nearest_zero, magnitude_zero]
    exact ⟨by decide, Near.refl le_rfl (by norm_num)⟩
  · exact near_places hpos (hw.trans (by decide)) (by decide)

/-- The whole seconds and the fraction of a span, rounded on their own. -/
def roundedParts (span : Duration) : ℚ :=
  magnitude binary64 (nearest binary64 span.seconds) +
    magnitude binary64 (nearest binary64 (span.fraction / 10 ^ 9))

theorem seconds_lt (span : Duration) : span.seconds < 2 ^ 64 :=
  Nat.div_lt_of_lt_mul (Nat.mul_comm (2 ^ 64) (10 ^ 9) ▸ span.nanoseconds_lt)

theorem fraction_lt (span : Duration) : span.fraction < 10 ^ 9 :=
  Nat.mod_lt _ (by decide)

theorem toDouble_eq (span : Duration) :
    span.toDouble = UInt64.ofNat (nearest binary64 (roundedParts span)) := by
  have hfraction := fraction_lt span
  have hbillion : (1e9 : Float) = double (power 9) := by
    rw [← powerOfTen_eq (by decide)]
    decide +kernel
  have hexact : magnitude binary64 (nearest binary64 span.fraction) = span.fraction := by
    rcases Nat.eq_zero_or_pos span.fraction with hzero | hpos
    · rw [hzero, Nat.cast_zero, nearest_zero, magnitude_zero]
    · exact (nearest_natCast hpos (hfraction.trans (by decide))).1
  rw [Duration.toDouble, toFloat_ofNat (seconds_lt span),
    toFloat_ofNat (hfraction.trans (by decide)), hbillion,
    div_double (near_natCast (hfraction.trans (by decide))).1 (power_pos 9) (power_lt (by decide)),
    hexact, magnitude_power (by decide),
    add_double (near_natCast (seconds_lt span)).1 (near_billionths hfraction).1,
    toBits_double (nearest_le_infinityCode _), roundedParts]

theorem near_roundedParts (span : Duration) :
    Near (1 / 2 ^ 53) (roundedParts span) (span.nanoseconds / 10 ^ 9) := by
  have hsplit : (span.nanoseconds : ℚ) / 10 ^ 9 = span.seconds + span.fraction / 10 ^ 9 := by
    have hparts : (span.nanoseconds : ℚ) = 10 ^ 9 * span.seconds + span.fraction := by
      exact_mod_cast (Nat.div_add_mod span.nanoseconds (10 ^ 9)).symm
    rw [hparts]
    field_simp
  rw [hsplit]
  exact (near_natCast (seconds_lt span)).2.add (near_billionths (fraction_lt span)).2

theorem near_seconds {span : Duration} (hpos : 0 < span.nanoseconds) :
    nearest binary64 (roundedParts span) < binary64.infinityCode ∧
      Near (21 / (10 * 2 ^ 53)) (magnitude binary64 (nearest binary64 (roundedParts span)))
        (span.nanoseconds / 10 ^ 9) := by
  have hparts := near_roundedParts span
  have hone : (1 : ℚ) ≤ span.nanoseconds := by exact_mod_cast hpos
  have hmost : (span.nanoseconds : ℚ) ≤ 2 ^ 64 * 10 ^ 9 := by
    exact_mod_cast span.nanoseconds_lt.le
  have hnonneg : (0 : ℚ) ≤ span.nanoseconds / 10 ^ 9 := by positivity
  have hfinite : nearest binary64 (roundedParts span) < binary64.infinityCode := by
    refine nearest_lt_infinityCode (hparts.nonneg (by norm_num) hnonneg) ?_
    calc roundedParts span ≤ 2 ^ 65 := by linarith [hparts.high]
      _ = 2 ^ (65 : ℤ) := rfl
      _ ≤ 2 ^ (1023 : ℤ) := zpow_le_zpow_right₀ (by norm_num) (by norm_num)
  refine ⟨hfinite, (near_nearest ?_ hfinite).trans hparts hnonneg (by norm_num) (by norm_num)
    (by norm_num) (by norm_num)⟩
  calc (2 : ℚ) ^ (-1022 : ℤ) ≤ 2 ^ (-31 : ℤ) := zpow_le_zpow_right₀ (by norm_num) (by norm_num)
    _ ≤ roundedParts span := by
        norm_num
        linarith [hparts.low]

end Seconds

section Spans

variable {span : Duration} {read : Nat}

/-- The span that is written as a number of seconds and read again. -/
def reread? (span : Duration) : Option Duration :=
  Duration.ofJson? (Json.ofDouble span.toDouble)

theorem ofDouble?_ofNat (hread : read < binary64.infinityCode)
    (hfits : nearestNat (magnitude binary64 read * 10 ^ 9) < 2 ^ 64 * 10 ^ 9) :
    Duration.ofDouble? (UInt64.ofNat read) =
      some ⟨nearestNat (magnitude binary64 read * 10 ^ 9), hfits⟩ := by
  have htop := infinityCode_binary64
  have hbits : (UInt64.ofNat read).toNat = read :=
    UInt64.toNat_ofNat_of_lt' (hread.trans (by decide))
  have hcode : read % 2 ^ 63 = read := Nat.mod_eq_of_lt (by omega)
  have hround : roundDiv ((binary64.quotient read).1 * 10 ^ 9) (binary64.quotient read).2 =
      nearestNat (magnitude binary64 read * 10 ^ 9) := by
    have hdenominator : 0 < (binary64.quotient read).2 := Nat.two_pow_pos _
    rw [roundDiv_eq _ hdenominator, ← quotient_eq]
    push_cast
    congr 1
    ring
  simp only [Duration.ofDouble?, hbits, hcode, hround]
  rw [if_neg (by omega), if_neg (by omega), dif_pos hfits]

theorem reread?_zero (hzero : span.nanoseconds = 0) : reread? span = some span := by
  have hspan : span = Duration.ofSeconds 0 := by
    obtain ⟨nanoseconds, hlt⟩ := span
    subst hzero
    rfl
  rw [hspan]
  decide +kernel

theorem exists_reread (hpos : 0 < span.nanoseconds) :
    ∃ v : ℚ, Near (65 / (10 * 2 ^ 53)) v span.nanoseconds ∧
      ∀ hfits : nearestNat v < 2 ^ 64 * 10 ^ 9, reread? span = some ⟨nearestNat v, hfits⟩ := by
  obtain ⟨hfinite, hnear⟩ := near_seconds hpos
  have hseconds := toDouble_eq span
  generalize nearest binary64 (roundedParts span) = code at *
  have hone : (1 : ℚ) ≤ span.nanoseconds := by exact_mod_cast hpos
  have hmost : (span.nanoseconds : ℚ) ≤ 2 ^ 64 * 10 ^ 9 := by
    exact_mod_cast span.nanoseconds_lt.le
  have hlow : (2 : ℚ) ^ (-900 : ℤ) ≤ magnitude binary64 code :=
    calc (2 : ℚ) ^ (-900 : ℤ) ≤ 2 ^ (-31 : ℤ) := zpow_le_zpow_right₀ (by norm_num) (by norm_num)
      _ ≤ magnitude binary64 code := by
          norm_num
          linarith [hnear.low]
  have hhigh : magnitude binary64 code ≤ 2 ^ (900 : ℤ) :=
    calc magnitude binary64 code ≤ 2 ^ 65 := by linarith [hnear.high]
      _ = 2 ^ (65 : ℤ) := rfl
      _ ≤ 2 ^ (900 : ℤ) := zpow_le_zpow_right₀ (by norm_num) (by norm_num)
  obtain ⟨read, hreads, hreadNear⟩ := exists_reads_near hlow hhigh
  refine ⟨magnitude binary64 read * 10 ^ 9, ?_, fun hfits => ?_⟩
  · have hsum := hreadNear.trans hnear (by positivity) (c := 65 / (10 * 2 ^ 53)) (by norm_num)
      (by norm_num) (by norm_num) (by norm_num)
    have hscaled := hsum.scale (c := 10 ^ 9) (by norm_num)
    rwa [mul_div_cancel₀ _ (by norm_num), mul_comm (10 ^ 9 : ℚ)] at hscaled
  · have htop := infinityCode_binary64
    have hbits : (UInt64.ofNat code).toNat = code :=
      UInt64.toNat_ofNat_of_lt' (hfinite.trans (by decide))
    have hcode : (UInt64.ofNat code).toNat % 2 ^ 63 = code := by omega
    have hsign : (UInt64.ofNat code).toNat / 2 ^ 63 * 2 ^ 63 = 0 := by omega
    rw [reread?, Duration.ofJson?, hseconds,
      Reads.numberValue?_ofDouble (hcode.symm ▸ hreads) (hcode.symm ▸ hfinite), hsign, Nat.zero_add]
    exact ofDouble?_ofNat hreads.finite hfits

/-- A span that is not next to the longest one is read, and up to a week it is read as it was. -/
theorem exists_reread_near (hlong : span.nanoseconds ≤ (2 ^ 64 - 2 ^ 14) * 10 ^ 9) :
    ∃ read, reread? span = some read ∧
      |(read.nanoseconds : ℚ) - span.nanoseconds| ≤ span.nanoseconds / 2 ^ 50 + 1 / 2 ∧
      (span.nanoseconds ≤ 7 * 24 * 3600 * 10 ^ 9 → read = span) := by
  rcases Nat.eq_zero_or_pos span.nanoseconds with hzero | hpos
  · refine ⟨span, reread?_zero hzero, ?_, fun _ => rfl⟩
    rw [hzero, sub_self, abs_zero]
    norm_num
  obtain ⟨v, hnear, hread⟩ := exists_reread hpos
  have hlong' : (span.nanoseconds : ℚ) + 2 ^ 14 * 10 ^ 9 ≤ 2 ^ 64 * 10 ^ 9 := by
    have hsum : span.nanoseconds + 2 ^ 14 * 10 ^ 9 ≤ 2 ^ 64 * 10 ^ 9 := by omega
    exact_mod_cast hsum
  have hnonneg := hnear.nonneg (by norm_num) (by positivity)
  have hrounded := abs_le.mp (abs_nearestNat_sub_le hnonneg)
  have hpos' : (0 : ℚ) < span.nanoseconds := by exact_mod_cast hpos
  have hfits : nearestNat v < 2 ^ 64 * 10 ^ 9 := by
    have hlt : (nearestNat v : ℚ) < 2 ^ 64 * 10 ^ 9 := by
      linarith only [hnear.high, hrounded.2, hlong']
    exact_mod_cast hlt
  refine ⟨_, hread hfits, ?_, fun hweek => ?_⟩
  · rw [abs_le]
    constructor <;> linarith [hnear.low, hnear.high, hrounded.1, hrounded.2]
  · have hweek' : (span.nanoseconds : ℚ) ≤ 7 * 24 * 3600 * 10 ^ 9 := by exact_mod_cast hweek
    have hexact : nearestNat v = span.nanoseconds := by
      refine nearestNat_of_close hnonneg ?_
      rw [abs_lt]
      constructor <;> linarith [hnear.low, hnear.high]
    obtain ⟨nanoseconds, hlt⟩ := span
    simp only [hexact]

end Spans

end MappedMetrics.Proofs.SpanReadings
