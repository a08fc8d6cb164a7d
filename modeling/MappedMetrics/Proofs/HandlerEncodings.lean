import MappedMetrics.Handler

namespace MappedMetrics.Proofs.HandlerEncodings

open MappedMetrics

/-- The handlers that are not made by a program. -/
inductive BuiltIn : Handler → Prop where
  | numeric {kind : Kind} : kind ≠ .str → BuiltIn (.numeric kind)
  | text (width : UInt64) : BuiltIn (.text width)

/-- The bytes that a value leaves in zeros. -/
def encoding (handler : Handler) (value : MetricValue) : Bytes :=
  match handler.putBytes handler.dataLength.toNat (fun _ => 0) value with
  | .ok laid => laid.bytes
  | .error _ => []

theorem encoding_of_putBytes {handler : Handler} {value : MetricValue} {laid : Patch}
    (hput : handler.putBytes handler.dataLength.toNat (fun _ => 0) value = .ok laid) :
    encoding handler value = laid.bytes := by
  rw [encoding, hput]

theorem putBytes_of_kind {handler : Handler} {value : MetricValue}
    (hkind : handler.kind = value.kind) (held : Fin handler.dataLength.toNat → UInt8) :
    handler.putBytes handler.dataLength.toNat held value =
      handler.encode value handler.dataLength.toNat held := by
  rw [Handler.putBytes, if_neg (fun hne => hne rfl), if_neg (fun hne => hne hkind.symm)]

theorem exists_numericBytes {value : MetricValue} (hvalue : value.kind ≠ .str) :
    ∃ bytes, Handler.numericBytes? value = some bytes ∧
      bytes.length = (Handler.widthOf (Handler.wireTypeOf value.kind)).toNat := by
  cases value with
  | str text => exact absurd rfl hvalue
  | _ => exact ⟨_, rfl, Bytes.length_ofNat _ _⟩

theorem putBytes_numeric {kind : Kind} {value : MetricValue} (hkind : kind = value.kind)
    (hvalue : kind ≠ .str) : ∃ bytes, Handler.numericBytes? value = some bytes ∧
      bytes.length = (Handler.numeric kind).dataLength.toNat ∧
      ∀ held, (Handler.numeric kind).putBytes (Handler.numeric kind).dataLength.toNat held value =
        .ok (.ofBytes bytes) := by
  subst hkind
  obtain ⟨bytes, hbytes, hlength⟩ := exists_numericBytes hvalue
  refine ⟨bytes, hbytes, hlength, fun held => ?_⟩
  rw [putBytes_of_kind rfl]
  change Handler.encodeNumeric value.kind value _ = _
  rw [Handler.encodeNumeric, hbytes]
  exact if_pos hlength

theorem one_le_max (width : UInt64) : 0 < (max width 1).toNat := by
  have hmax : max width 1 = if width ≤ 1 then 1 else width := rfl
  rw [hmax]
  split
  · decide
  · rename_i hlt
    exact Nat.lt_of_lt_of_le Nat.one_pos (Nat.le_of_lt (UInt64.lt_iff_toNat_lt.mp
      (UInt64.not_le.mp hlt)))

theorem length_fittingBytes_lt {width : Nat} (hwidth : 0 < width) (text : String) :
    (Handler.fittingBytes width text).length < width := by
  have hle := Text.length_fitting_le (width - 1) text.toList
  rw [Handler.fittingBytes_eq]
  omega

theorem encode_text (width : UInt64) (value : MetricValue) (slot : Nat)
    (held : Fin slot → UInt8) : (Handler.text width).encode value slot held =
      Handler.encodeText (max width 1).toNat value slot := rfl

theorem dataLength_text (width : UInt64) : (Handler.text width).dataLength = max width 1 := rfl

theorem encodeText_of_fits {room width : Nat} {text : String}
    (hfits : (Handler.fittingBytes room text).length ≤ width) :
    Handler.encodeText room (.str text) width =
      .ok ⟨Handler.fittingBytes room text, 0, width, hfits⟩ := by
  simp only [Handler.encodeText]
  exact dif_pos hfits

theorem putBytes_text (width : UInt64) (text : String) :
    ∃ hfits, ∀ held,
      (Handler.text width).putBytes (Handler.text width).dataLength.toNat held (.str text) =
        .ok ⟨Handler.fittingBytes (max width 1).toNat text, 0, (max width 1).toNat, hfits⟩ := by
  have hfits := Nat.le_of_lt (length_fittingBytes_lt (one_le_max width) text)
  refine ⟨hfits, fun held => ?_⟩
  rw [putBytes_of_kind rfl, encode_text, dataLength_text, encodeText_of_fits]

theorem putBytes_builtIn {handler : Handler} {value : MetricValue} (hbuiltIn : BuiltIn handler)
    (hkind : handler.kind = value.kind) (held : Fin handler.dataLength.toNat → UInt8) :
    ∃ laid, handler.putBytes handler.dataLength.toNat held value = .ok laid ∧
      laid.bytes = encoding handler value := by
  cases hbuiltIn with
  | numeric hnumber =>
      obtain ⟨bytes, _, _, hput⟩ := putBytes_numeric hkind hnumber
      exact ⟨.ofBytes bytes, hput held, (encoding_of_putBytes (hput _)).symm⟩
  | text width =>
      cases value with
      | str text =>
          obtain ⟨fits, hput⟩ := putBytes_text width text
          exact ⟨_, hput held, (encoding_of_putBytes (hput _)).symm⟩
      | _ => cases hkind

theorem encode_ne_mapping {handler : Handler} (hbuiltIn : BuiltIn handler) (value : MetricValue)
    (width : Nat) (held : Fin width → UInt8) (cause : MappingError) :
    handler.encode value width held ≠ cause.refuse := by
  intro hencode
  cases hbuiltIn with
  | numeric =>
      change Handler.encodeNumeric _ value width = _ at hencode
      rw [Handler.encodeNumeric] at hencode
      split at hencode
      · split at hencode <;> cases hencode
      · cases hencode
  | text room =>
      rw [encode_text] at hencode
      cases value with
      | str text =>
          simp only [Handler.encodeText] at hencode
          split at hencode <;> cases hencode
      | _ => cases hencode

theorem encoding_text (width : UInt64) (text : String) :
    encoding (.text width) (.str text) = Handler.fittingBytes (max width 1).toNat text ++
      List.replicate ((max width 1).toNat - (Handler.fittingBytes (max width 1).toNat text).length)
        0 := by
  obtain ⟨hfits, hput⟩ := putBytes_text width text
  rw [encoding_of_putBytes (hput _), Patch.bytes_mk]

end MappedMetrics.Proofs.HandlerEncodings
