import MappedMetrics.Proofs.BinaryRounding
import MappedMetrics.Proofs.TextSlots

namespace MappedMetrics.Proofs.NumberSlots

open MappedMetrics
open MappedMetrics.Decimal
open MappedMetrics.Proofs.BinaryRounding
open MappedMetrics.Proofs.HandlerEncodings
open MappedMetrics.Proofs.TextSlots (slotAfter putBytes_otherWidth putBytes_otherKind
  slotAfter_of_refused patch_otherKind)

section Widening

variable {code : Nat}

/-- A double that stands for a single: it has its sign, and its magnitude is the same number,
infinite if that was infinite, and none if that was none. -/
structure Widens (bits : UInt32) (wide : UInt64) : Prop where
  sign : wide.toNat / 2 ^ 63 = bits.toNat / 2 ^ 31
  finite : bits.toNat % 2 ^ 31 < binary32.infinityCode →
    wide.toNat % 2 ^ 63 < binary64.infinityCode ∧
      magnitude binary64 (wide.toNat % 2 ^ 63) = magnitude binary32 (bits.toNat % 2 ^ 31)
  infinite : bits.toNat % 2 ^ 31 = binary32.infinityCode →
    wide.toNat % 2 ^ 63 = binary64.infinityCode
  isNaN_eq : isNaN wide = isNaN32 bits
  /-- The single is the one nearest to it. -/
  narrow_eq : isNaN32 bits = false → narrow wide = bits

theorem infinityCode_eq : binary32.infinityCode = 255 * 2 ^ 23 ∧
    binary64.infinityCode = 2047 * 2 ^ 52 :=
  ⟨rfl, rfl⟩

theorem widenCode_subnormal (hpos : 0 < code) (hsmall : code < 2 ^ 23) :
    widenCode code = codeOf binary64 (code.log2 - 201) (code * 2 ^ (52 - code.log2)) ∧
      Placed binary64 (code.log2 - 201) (code * 2 ^ (52 - code.log2)) ∧ code.log2 < 23 := by
  have hlog : code.log2 < 23 := (Nat.log2_lt hpos.ne').mpr hsmall
  have hshift : code / 2 ^ 23 = 0 := Nat.div_eq_of_lt hsmall
  have hleast : binary64.minExponent = -1074 := rfl
  have hbits : binary64.fractionBits = 52 := rfl
  refine ⟨?_, ⟨by omega, .inr ?_, ?_⟩, hlog⟩
  · have hunits : ((code.log2 : ℤ) - 201 + 1074).toNat = code.log2 + 873 := by omega
    simp only [widenCode, if_neg hpos.ne', hshift, if_true, codeOf, hleast, hbits, sub_neg_eq_add,
      hunits]
  · calc 2 ^ 52 = 2 ^ code.log2 * 2 ^ (52 - code.log2) := by rw [← pow_add]; congr 1; omega
      _ ≤ code * 2 ^ (52 - code.log2) := Nat.mul_le_mul_right _ (Nat.log2_self_le hpos.ne')
  · calc code * 2 ^ (52 - code.log2) ≤ 2 ^ (code.log2 + 1) * 2 ^ (52 - code.log2) :=
          Nat.mul_le_mul_right _ Nat.lt_log2_self.le
      _ = 2 ^ (52 + 1) := by rw [← pow_add]; congr 1; omega

theorem widenCode_normal (hlarge : 2 ^ 23 ≤ code) (hfinite : code < binary32.infinityCode) :
    widenCode code =
      codeOf binary64 (code / 2 ^ 23 - 179 : ℤ) ((2 ^ 23 + code % 2 ^ 23) * 2 ^ 29) ∧
        Placed binary64 (code / 2 ^ 23 - 179 : ℤ) ((2 ^ 23 + code % 2 ^ 23) * 2 ^ 29) := by
  have hleast : binary64.minExponent = -1074 := rfl
  have hbits : binary64.fractionBits = 52 := rfl
  rw [infinityCode_eq.1] at hfinite
  have hshift : code / 2 ^ 23 ≠ 0 := by omega
  have hbound : code / 2 ^ 23 < 255 := by omega
  have hcode : code ≠ 0 := by omega
  refine ⟨?_, ⟨by omega, .inr (by rw [hbits]; omega), by rw [hbits]; omega⟩⟩
  simp only [widenCode, if_neg hcode, if_neg hshift, if_pos hbound, codeOf, hleast, hbits]
  omega

theorem magnitude_widenCode (hfinite : code < binary32.infinityCode) :
    magnitude binary64 (widenCode code) = magnitude binary32 code := by
  rcases Nat.eq_zero_or_pos code with rfl | hpos
  · rw [show widenCode 0 = 0 from rfl, magnitude_zero, magnitude_zero]
  rcases Nat.lt_or_ge code (2 ^ 23) with hsmall | hlarge
  · obtain ⟨hcode, hplaced, hlog⟩ := widenCode_subnormal hpos hsmall
    have hshift : code / 2 ^ 23 = 0 := Nat.div_eq_of_lt hsmall
    have hdecode : binary32.decode code = (code, -149) := by
      rw [BinaryFormat.decode]
      exact if_pos hshift
    have hexponent : (((52 - code.log2 : Nat) : ℤ) + (code.log2 - 201)) = -149 := by omega
    rw [hcode, magnitude_codeOf hplaced, magnitude, hdecode, Nat.cast_mul, mul_assoc, Nat.cast_pow,
      Nat.cast_two, ← zpow_natCast, ← two_zpow_add, hexponent]
  · obtain ⟨hcode, hplaced⟩ := widenCode_normal hlarge hfinite
    have hshift : ¬ code / 2 ^ 23 = 0 := by omega
    have hdecode : binary32.decode code =
        (2 ^ 23 + code % 2 ^ 23, (-149 : ℤ) + (code / 2 ^ 23 - 1 : Nat)) := by
      rw [BinaryFormat.decode]
      exact if_neg hshift
    have hexponent : ((29 : Nat) : ℤ) + ((code / 2 ^ 23 : Nat) - 179) =
        -149 + (code / 2 ^ 23 - 1 : Nat) := by omega
    rw [hcode, magnitude_codeOf hplaced, magnitude, hdecode, ← hexponent, two_zpow_add]
    push_cast
    ring

theorem codeOf_lt {q : ℤ} {m : Nat} (hplaced : Placed binary64 q m) (hq : q ≤ 76) :
    codeOf binary64 q m < binary64.infinityCode := by
  have hbound := hplaced.bound
  have hleast : binary64.minExponent = -1074 := rfl
  have hbits : binary64.fractionBits = 52 := rfl
  rw [hbits] at hbound
  rw [codeOf, hleast, hbits, infinityCode_eq.2]
  omega

theorem widenCode_lt (hfinite : code < binary32.infinityCode) :
    widenCode code < binary64.infinityCode := by
  rcases Nat.eq_zero_or_pos code with rfl | hpos
  · decide
  rcases Nat.lt_or_ge code (2 ^ 23) with hsmall | hlarge
  · obtain ⟨hcode, hplaced, hlog⟩ := widenCode_subnormal hpos hsmall
    rw [hcode]
    exact codeOf_lt hplaced (by omega)
  · obtain ⟨hcode, hplaced⟩ := widenCode_normal hlarge hfinite
    rw [infinityCode_eq.1] at hfinite
    rw [hcode]
    exact codeOf_lt hplaced (by omega)

theorem widenCode_infinityCode : widenCode binary32.infinityCode = binary64.infinityCode :=
  rfl

theorem widenCode_nan (hnan : binary32.infinityCode < code) (hcode : code < 2 ^ 31) :
    binary64.infinityCode < widenCode code ∧ widenCode code < 2 ^ 63 := by
  rw [infinityCode_eq.1] at hnan
  have hzero : code ≠ 0 := by omega
  have hshift : code / 2 ^ 23 ≠ 0 := by omega
  have hlarge : ¬ code / 2 ^ 23 < 255 := by omega
  have hfraction : code % 2 ^ 23 ≠ 0 := by omega
  simp only [widenCode, if_neg hzero, if_neg hshift, if_neg hlarge, if_neg hfraction,
    infinityCode_eq.2]
  omega

theorem widenCode_lt_sign (hcode : code < 2 ^ 31) : widenCode code < 2 ^ 63 := by
  have hinfinity : binary64.infinityCode < 2 ^ 63 := by decide
  rcases Nat.lt_trichotomy code binary32.infinityCode with hfinite | rfl | hnan
  · exact (widenCode_lt hfinite).trans hinfinity
  · exact hinfinity
  · exact (widenCode_nan hnan hcode).2

theorem widen_fields (bits : UInt32) : (widen bits).toNat / 2 ^ 63 = bits.toNat / 2 ^ 31 ∧
    (widen bits).toNat % 2 ^ 63 = widenCode (bits.toNat % 2 ^ 31) := by
  have hsign := bits.toNat_lt
  have hcode := widenCode_lt_sign (Nat.mod_lt bits.toNat (Nat.two_pow_pos 31))
  have htoNat : (widen bits).toNat =
      bits.toNat / 2 ^ 31 * 2 ^ 63 + widenCode (bits.toNat % 2 ^ 31) := by
    rw [widen, UInt64.toNat_ofNat', Nat.mod_eq_of_lt (by omega)]
  rw [htoNat]
  omega

theorem isNaN_widen (bits : UInt32) : isNaN (widen bits) = isNaN32 bits := by
  rw [isNaN, isNaN32, (widen_fields bits).2, decide_eq_decide]
  have hcode := Nat.mod_lt bits.toNat (Nat.two_pow_pos 31)
  rcases Nat.lt_trichotomy (bits.toNat % 2 ^ 31) binary32.infinityCode with hfinite | heq | hnan
  · exact iff_of_false (widenCode_lt hfinite).not_gt hfinite.not_gt
  · rw [heq, widenCode_infinityCode]
    exact iff_of_false (lt_irrefl _) (lt_irrefl _)
  · exact iff_of_true (widenCode_nan hnan hcode).1 hnan

theorem narrow_eq (bits : UInt64) : narrow bits = UInt32.ofNat (bits.toNat / 2 ^ 63 * 2 ^ 31 +
    if bits.toNat % 2 ^ 63 < binary64.infinityCode then
      nearest binary32 (magnitude binary64 (bits.toNat % 2 ^ 63))
    else binary32.infinityCode) := by
  have hdenominator : 0 < (binary64.quotient (bits.toNat % 2 ^ 63)).2 := Nat.two_pow_pos _
  rw [← quotient_eq, ← roundQuotient_eq _ hdenominator]
  rfl

/-- Of a single that is a number nothing is lost. -/
theorem narrow_widen {bits : UInt32} (hnumber : isNaN32 bits = false) :
    narrow (widen bits) = bits := by
  obtain ⟨hsign, hcode⟩ := widen_fields bits
  have hle : bits.toNat % 2 ^ 31 ≤ binary32.infinityCode := by
    simpa [isNaN32] using hnumber
  rw [narrow_eq, hsign, hcode]
  rcases hle.lt_or_eq with hfinite | heq
  · rw [if_pos (widenCode_lt hfinite), magnitude_widenCode hfinite, nearest_magnitude hle,
      Nat.div_add_mod', UInt32.ofNat_toNat]
  · rw [heq, widenCode_infinityCode, if_neg (lt_irrefl _), ← heq, Nat.div_add_mod',
      UInt32.ofNat_toNat]

theorem widens_widen (bits : UInt32) : Widens bits (widen bits) where
  sign := (widen_fields bits).1
  finite hfinite := by
    rw [(widen_fields bits).2]
    exact ⟨widenCode_lt hfinite, magnitude_widenCode hfinite⟩
  infinite hinfinite := by rw [(widen_fields bits).2, hinfinite, widenCode_infinityCode]
  isNaN_eq := isNaN_widen bits
  narrow_eq := narrow_widen

end Widening

section Words

variable {kind : Kind} {value : MetricValue} {bytes : Bytes}

/-- The number that the bytes of a value spell: a whole number of either sign, 0 and 1 for the
booleans, and the bits of a double for a floating-point number. Texts spell none. -/
def number? : MetricValue → Option ℤ
  | .bool b => some b.toNat
  | .i32 n => some n.toInt
  | .u32 n => some n.toNat
  | .i64 n => some n.toInt
  | .u64 n => some n.toNat
  | .f32 bits => some (widen bits).toNat
  | .f64 bits => some bits.toNat
  | .str _ => none

/-- The value of a kind in a slot. Whole numbers with a sign are read in two's complement, and both
sorts of floating-point numbers as doubles. -/
def readAs (kind : Kind) (slot : Bytes) : Option MetricValue :=
  match kind with
  | .bool =>
      if Bytes.toNat slot = 0 then some (.bool false)
      else if Bytes.toNat slot = 1 then some (.bool true)
      else none
  | .i32 => some (.i32 (Int32.ofInt ((Bytes.toNat slot : ℤ).bmod (2 ^ 32))))
  | .u32 => some (.u32 (UInt32.ofNat (Bytes.toNat slot)))
  | .i64 => some (.i64 (Int64.ofInt ((Bytes.toNat slot : ℤ).bmod (2 ^ 64))))
  | .u64 => some (.u64 (UInt64.ofNat (Bytes.toNat slot)))
  | .f32 | .f64 => some (.f64 (UInt64.ofNat (Bytes.toNat slot)))
  | .str => none

/-- A value as it is read back: singles have become doubles. -/
def inDouble : MetricValue → MetricValue
  | .f32 bits => .f64 (widen bits)
  | value => value

/-- A slot that a number fills. -/
structure Filled (value : MetricValue) (slot : Bytes) : Prop where
  /-- Its bytes spell the number, least significant byte first, negative numbers in two's
  complement. -/
  spelt : ∃ n, number? value = some n ∧ (Bytes.toNat slot : ℤ) = n % 256 ^ slot.length
  recovered : readAs value.kind slot = some (inDouble value)
  widened : ∀ bits, value = .f32 bits → ∃ wide, inDouble value = .f64 wide ∧ Widens bits wide

theorem toNat_ofNat_of_lt {width w : Nat} (hbound : w < 256 ^ width) :
    Bytes.toNat (Bytes.ofNat width w) = w := by
  rw [Bytes.toNat_ofNat, Nat.mod_eq_of_lt hbound]

theorem bmod_int32 (n : Int32) : (n.toUInt32.toNat : ℤ).bmod (2 ^ 32) = n.toInt :=
  (BitVec.toInt_eq_toNat_bmod n.toBitVec).symm

theorem bmod_int64 (n : Int64) : (n.toUInt64.toNat : ℤ).bmod (2 ^ 64) = n.toInt :=
  (BitVec.toInt_eq_toNat_bmod n.toBitVec).symm

theorem eq_emod_of_bmod {w m : Nat} {n : ℤ} (hbound : w < m) (hbmod : (w : ℤ).bmod m = n) :
    (w : ℤ) = n % m := by
  rw [← hbmod, Int.bmod_emod, Int.emod_eq_of_lt (Int.natCast_nonneg w) (Int.ofNat_lt.mpr hbound)]

theorem filled_ofNat {width w : Nat} {n : ℤ} (hbound : w < 256 ^ width)
    (hnumber : number? value = some n) (hword : (w : ℤ) = n % (256 ^ width : Nat))
    (hread : ∀ slot, Bytes.toNat slot = w → readAs value.kind slot = some (inDouble value)) :
    Filled value (Bytes.ofNat width w) where
  spelt := ⟨n, hnumber, by
    rw [toNat_ofNat_of_lt hbound, Bytes.length_ofNat, hword]
    norm_cast⟩
  recovered := hread _ (toNat_ofNat_of_lt hbound)
  widened := by
    rintro bits rfl
    exact ⟨widen bits, rfl, widens_widen bits⟩

theorem filled_natCast {width w : Nat} (hbound : w < 256 ^ width)
    (hnumber : number? value = some (w : ℤ))
    (hread : ∀ slot, Bytes.toNat slot = w → readAs value.kind slot = some (inDouble value)) :
    Filled value (Bytes.ofNat width w) :=
  filled_ofNat hbound hnumber
    (Int.emod_eq_of_lt (Int.natCast_nonneg w) (Int.ofNat_lt.mpr hbound)).symm hread

theorem filled_of_numericBytes (h : Handler.numericBytes? value = some bytes) :
    Filled value bytes := by
  cases value with
  | bool b =>
      cases h
      refine filled_natCast (by cases b <;> decide) rfl fun slot hslot => ?_
      cases b <;> simp [readAs, MetricValue.kind, hslot, inDouble]
  | i32 n =>
      cases h
      have hbound := n.toUInt32.toNat_lt
      refine filled_ofNat hbound rfl (eq_emod_of_bmod hbound (bmod_int32 n)) fun slot hslot => ?_
      simp only [readAs, MetricValue.kind, hslot, bmod_int32, Int32.ofInt_toInt, inDouble]
  | u32 n =>
      cases h
      refine filled_natCast n.toNat_lt rfl fun slot hslot => ?_
      simp only [readAs, MetricValue.kind, hslot, UInt32.ofNat_toNat, inDouble]
  | i64 n =>
      cases h
      have hbound := n.toUInt64.toNat_lt
      refine filled_ofNat hbound rfl (eq_emod_of_bmod hbound (bmod_int64 n)) fun slot hslot => ?_
      simp only [readAs, MetricValue.kind, hslot, bmod_int64, Int64.ofInt_toInt, inDouble]
  | u64 n =>
      cases h
      refine filled_natCast n.toNat_lt rfl fun slot hslot => ?_
      simp only [readAs, MetricValue.kind, hslot, UInt64.ofNat_toNat, inDouble]
  | f32 bits =>
      cases h
      refine filled_natCast (widen bits).toNat_lt rfl fun slot hslot => ?_
      simp only [readAs, MetricValue.kind, hslot, UInt64.ofNat_toNat, inDouble]
  | f64 bits =>
      cases h
      refine filled_natCast bits.toNat_lt rfl fun slot hslot => ?_
      simp only [readAs, MetricValue.kind, hslot, UInt64.ofNat_toNat, inDouble]
  | str text => cases h

end Words

section Slots

variable {kind : Kind} {handler : Handler} {value : MetricValue} {length : Nat}

/-- The handler of a kind of numbers fills its slot with each number of the kind, and refuses all
else. -/
structure StoresNumbers (kind : Kind) (handler : Handler) : Prop where
  /-- The width is that of the type in descriptors, and the bytes of every number of the kind are
  as many. -/
  fits : handler.dataLength = Handler.widthOf (Handler.wireTypeOf kind) ∧
    ∀ value, value.kind = kind → ∃ bytes, Handler.numericBytes? value = some bytes ∧
      bytes.length = handler.dataLength.toNat
  ok_iff : ∀ value (length : Nat) (held : Fin length → UInt8),
    (∃ patch, handler.putBytes length held value = .ok patch) ↔
      length = handler.dataLength.toNat ∧ value.kind = kind
  filled : ∀ value (held : Fin handler.dataLength.toNat → UInt8), value.kind = kind →
    (slotAfter handler held value).length = handler.dataLength.toNat ∧
      Filled value (slotAfter handler held value)
  /-- Bytes are never copied between ranges of different lengths: what is not stored was found to
  be in the wrong slot or of the wrong kind before, and leaves the slot as it was. -/
  refused : ∀ value (length : Nat) (held : Fin length → UInt8) fault,
    handler.putBytes length held value = .error fault →
      fault = .refused (.configuration (if length = handler.dataLength.toNat
        then .typeMismatch kind value.kind else .slotSize handler.dataLength.toNat length)) ∧
      slotAfter handler held value = List.ofFn held
  /-- A value of another kind changes nothing in an image, wherever the slot stands. -/
  untouched : ∀ value (image : Image) (offset : Nat), value.kind ≠ kind →
    (Write.run image [.slot offset handler value]).1 = image

theorem putBytes_cases (hkind : kind ≠ .str) (held : Fin length → UInt8) (value : MetricValue) :
    (length = (Handler.numeric kind).dataLength.toNat ∧ value.kind = kind ∧
      ∃ patch, (Handler.numeric kind).putBytes length held value = .ok patch) ∨
    (length = (Handler.numeric kind).dataLength.toNat ∧ value.kind ≠ kind ∧
      (Handler.numeric kind).putBytes length held value =
        (ConfigurationError.typeMismatch kind value.kind).refuse) ∨
    (length ≠ (Handler.numeric kind).dataLength.toNat ∧
      (Handler.numeric kind).putBytes length held value =
        (ConfigurationError.slotSize (Handler.numeric kind).dataLength.toNat length).refuse) := by
  by_cases hlength : length = (Handler.numeric kind).dataLength.toNat
  · subst hlength
    by_cases hvalue : value.kind = kind
    · obtain ⟨bytes, -, -, hput⟩ := putBytes_numeric hvalue.symm hkind
      exact .inl ⟨rfl, hvalue, _, hput held⟩
    · exact .inr (.inl ⟨rfl, hvalue, putBytes_otherKind held value hvalue⟩)
  · exact .inr (.inr ⟨hlength, putBytes_otherWidth held value hlength⟩)

theorem numeric_of_numeric? (hhandler : Handler.numeric? kind = some handler) :
    kind ≠ .str ∧ handler = Handler.numeric kind := by
  rw [Handler.numeric?] at hhandler
  split at hhandler
  · cases hhandler
  · cases hhandler
    exact ⟨‹_›, rfl⟩

theorem exists_patch_iff (hkind : kind ≠ .str) (held : Fin length → UInt8) (value : MetricValue) :
    (∃ patch, (Handler.numeric kind).putBytes length held value = .ok patch) ↔
      length = (Handler.numeric kind).dataLength.toNat ∧ value.kind = kind := by
  obtain ⟨hlength, hvalue, hput⟩ | ⟨-, hvalue, hput⟩ | ⟨hlength, hput⟩ :=
    putBytes_cases hkind held value
  · exact iff_of_true hput ⟨hlength, hvalue⟩
  · rw [hput]
    refine iff_of_false ?_ fun h => hvalue h.2
    rintro ⟨patch, hok⟩
    cases hok
  · rw [hput]
    refine iff_of_false ?_ fun h => hlength h.1
    rintro ⟨patch, hok⟩
    cases hok

theorem slotAfter_of_error {held : Fin length → UInt8} {fault : Fault} (hkind : kind ≠ .str)
    (hfault : (Handler.numeric kind).putBytes length held value = .error fault) :
    fault = .refused (.configuration (if length = (Handler.numeric kind).dataLength.toNat
      then .typeMismatch kind value.kind
      else .slotSize (Handler.numeric kind).dataLength.toNat length)) ∧
    slotAfter (Handler.numeric kind) held value = List.ofFn held := by
  obtain ⟨-, -, patch, hput⟩ | ⟨hlength, -, hput⟩ | ⟨hlength, hput⟩ :=
    putBytes_cases hkind held value
  · rw [hput] at hfault
    cases hfault
  · refine ⟨?_, slotAfter_of_refused hput⟩
    rw [hput] at hfault
    cases hfault
    rw [if_pos hlength]
  · refine ⟨?_, slotAfter_of_refused hput⟩
    rw [hput] at hfault
    cases hfault
    rw [if_neg hlength]

/-- Every kind of numbers has a handler that stores its numbers. -/
theorem storesNumbers (hhandler : Handler.numeric? kind = some handler) :
    StoresNumbers kind handler := by
  obtain ⟨hkind, rfl⟩ := numeric_of_numeric? hhandler
  refine
    { fits := ⟨rfl, fun value hvalue => ?_⟩
      ok_iff := fun value length held => exists_patch_iff hkind held value
      filled := fun value held hvalue => ?_
      refused := fun value length held fault => slotAfter_of_error hkind
      untouched := fun value image offset hvalue => ?_ }
  · obtain ⟨bytes, hbytes, hlength, -⟩ := putBytes_numeric hvalue.symm hkind
    exact ⟨bytes, hbytes, hlength⟩
  · obtain ⟨bytes, hbytes, hlength, hput⟩ := putBytes_numeric hvalue.symm hkind
    rw [slotAfter, hput held]
    simp only [Patch.bytes_ofBytes]
    exact ⟨hlength, filled_of_numericBytes hbytes⟩
  · obtain ⟨fault, hpatch⟩ := patch_otherKind (Handler.numeric kind) hvalue
    rw [Write.run_cons, hpatch]

/-- A negative number fills its slot with the bytes of its two's complement. -/
theorem storesNumbers_i64 : Handler.numeric? .i64 = some (Handler.numeric .i64) ∧
    StoresNumbers .i64 (Handler.numeric .i64) ∧
    slotAfter (Handler.numeric .i64) (fun _ : Fin 8 => 0xAA) (.i64 (-2)) =
      [0xFE, 0xFF, 0xFF, 0xFF, 0xFF, 0xFF, 0xFF, 0xFF] :=
  ⟨rfl, storesNumbers rfl, rfl⟩

end Slots

end MappedMetrics.Proofs.NumberSlots
