import Mathlib.Data.List.Infix
import MappedMetrics.Proofs.SelfDescription

namespace MappedMetrics.Proofs.TextSlots

open MappedMetrics
open MappedMetrics.Text
open MappedMetrics.Proofs.HandlerEncodings
open MappedMetrics.Proofs.SelfDescription

section Boundaries

variable {text : String} {chars before : List Char} {bytes : Bytes} {place limit : Nat} {c : Char}

/-- A place in the UTF-8 form of a text that lies behind a run of whole characters. -/
def Boundary (text : String) (place : Nat) : Prop :=
  ∃ before, before <+: text.toList ∧ (before.flatMap String.utf8EncodeChar).length = place

/-- Whether a byte is one of those after the first byte of a character. -/
def continues (byte : UInt8) : Bool :=
  128 ≤ byte.toNat && byte.toNat < 192

/-- Whether bytes end at a place, begin there, or have a byte there that begins a character. -/
def isBoundary (bytes : Bytes) (place : Nat) : Bool :=
  place == 0 || bytes[place]?.elim (place == bytes.length) fun byte => !continues byte

theorem continues_ofNat {n : Nat} (h : n < 256) :
    continues (UInt8.ofNat n) = (128 ≤ n && n < 192) := by
  rw [continues, UInt8.toNat_ofNat_of_lt' h]

theorem exists_encoded (c : Char) : ∃ first rest, String.utf8EncodeChar c = first :: rest ∧
    continues first = false ∧ ∀ byte ∈ rest, continues byte = true := by
  have hcontinues : ∀ n, continues (UInt8.ofNat (n % 64 + 128)) = true := by
    intro n
    rw [continues_ofNat (by omega)]
    simp only [Bool.and_eq_true, decide_eq_true_eq]
    omega
  have hbegins : ∀ n, n < 256 → n < 128 ∨ 192 ≤ n → continues (UInt8.ofNat n) = false := by
    intro n hbound hbegins
    rw [continues_ofNat hbound]
    simp only [Bool.and_eq_false_iff, decide_eq_false_iff_not]
    omega
  simp only [String.utf8EncodeChar]
  split
  · exact ⟨_, _, rfl, hbegins _ (by omega) (by omega), List.forall_mem_nil _⟩
  · split
    · exact ⟨_, _, rfl, hbegins _ (by omega) (by omega),
        List.forall_mem_singleton.mpr (hcontinues _)⟩
    · split
      · exact ⟨_, _, rfl, hbegins _ (by omega) (by omega), List.forall_mem_cons.mpr
          ⟨hcontinues _, List.forall_mem_singleton.mpr (hcontinues _)⟩⟩
      · exact ⟨_, _, rfl, hbegins _ (by omega) (by omega), List.forall_mem_cons.mpr
          ⟨hcontinues _, List.forall_mem_cons.mpr
            ⟨hcontinues _, List.forall_mem_singleton.mpr (hcontinues _)⟩⟩⟩

theorem continues_head? {byte : UInt8}
    (h : (chars.flatMap String.utf8EncodeChar).head? = some byte) : continues byte = false := by
  cases chars with
  | nil => cases h
  | cons c rest =>
      obtain ⟨first, others, hencoded, hfirst, -⟩ := exists_encoded c
      rw [List.flatMap_cons, hencoded] at h
      cases h
      exact hfirst

theorem isBoundary_of_lt {later : Bytes} (hpos : 0 < place) (hlt : place < c.utf8Size) :
    isBoundary (String.utf8EncodeChar c ++ later) place = false := by
  obtain ⟨first, rest, hencoded, -, hrest⟩ := exists_encoded c
  have hsize := String.length_utf8EncodeChar c
  obtain ⟨i, rfl⟩ : ∃ i, place = i + 1 := ⟨place - 1, by omega⟩
  rw [hencoded, List.length_cons] at hsize
  have hi : i < rest.length := by omega
  have hbyte : (String.utf8EncodeChar c ++ later)[i + 1]? = some rest[i] := by
    rw [hencoded, List.cons_append, List.getElem?_cons_succ, List.getElem?_append_left hi,
      List.getElem?_eq_getElem hi]
  rw [isBoundary, hbyte, Option.elim_some, hrest _ (List.getElem_mem hi)]
  rfl

theorem isBoundary_add {later : Bytes}
    (hlater : ∀ byte, later.head? = some byte → continues byte = false) :
    isBoundary (String.utf8EncodeChar c ++ later) (c.utf8Size + place) =
      isBoundary later place := by
  have hsize := String.length_utf8EncodeChar c
  have hpos := c.utf8Size_pos
  have hbyte : (String.utf8EncodeChar c ++ later)[c.utf8Size + place]? = later[place]? := by
    rw [List.getElem?_append_right (by omega), hsize, Nat.add_sub_cancel_left]
  have hnone : (c.utf8Size + place == 0) = false := beq_false_of_ne (by omega)
  have hend : (c.utf8Size + place == (String.utf8EncodeChar c ++ later).length) =
      (place == later.length) := by
    rw [List.length_append, hsize, Bool.eq_iff_iff, beq_iff_eq, beq_iff_eq]
    omega
  rw [isBoundary, isBoundary, hbyte, hnone, hend, Bool.false_or]
  rcases Nat.eq_zero_or_pos place with rfl | hplace
  · cases later with
    | nil => rfl
    | cons byte rest => simp [hlater byte rfl]
  · rw [beq_false_of_ne (Nat.ne_of_gt hplace), Bool.false_or]

theorem isBoundary_flatMap_iff : isBoundary (chars.flatMap String.utf8EncodeChar) place = true ↔
    ∃ before, before <+: chars ∧ (before.flatMap String.utf8EncodeChar).length = place := by
  induction chars generalizing place with
  | nil =>
      simp only [List.prefix_nil, exists_eq_left, List.flatMap_nil, List.length_nil]
      cases place <;> simp [isBoundary]
  | cons c rest ih =>
      rw [List.flatMap_cons]
      -- The place is before the first character, inside it or behind it.
      rcases Nat.eq_zero_or_pos place with rfl | hpos
      · exact iff_of_true rfl ⟨[], List.nil_prefix, rfl⟩
      rcases Nat.lt_or_ge place c.utf8Size with hlt | hle
      · rw [isBoundary_of_lt hpos hlt]
        refine iff_of_false (by decide) ?_
        rintro ⟨before, hfront, rfl⟩
        cases before with
        | nil => exact Nat.lt_irrefl 0 hpos
        | cons first others =>
            obtain rfl := (List.cons_prefix_cons.mp hfront).1
            rw [List.flatMap_cons, List.length_append, String.length_utf8EncodeChar] at hlt
            omega
      · obtain ⟨i, rfl⟩ := Nat.exists_eq_add_of_le hle
        rw [isBoundary_add fun _ => continues_head?, ih]
        constructor
        · rintro ⟨before, hfront, rfl⟩
          refine ⟨c :: before, (List.prefix_cons_inj c).mpr hfront, ?_⟩
          rw [List.flatMap_cons, List.length_append, String.length_utf8EncodeChar]
        · rintro ⟨before, hfront, hlength⟩
          cases before with
          | nil => exact absurd hlength (Nat.ne_of_lt hpos)
          | cons first others =>
              obtain ⟨rfl, hothers⟩ := List.cons_prefix_cons.mp hfront
              rw [List.flatMap_cons, List.length_append, String.length_utf8EncodeChar] at hlength
              exact ⟨others, hothers, Nat.add_left_cancel hlength⟩

theorem isBoundary_iff : isBoundary (utf8 text) place = true ↔ Boundary text place :=
  isBoundary_flatMap_iff

theorem Boundary.le (h : Boundary text place) : place ≤ (utf8 text).length := by
  obtain ⟨before, hfront, rfl⟩ := h
  exact (hfront.flatMap String.utf8EncodeChar).length_le

end Boundaries

section Cuts

variable {text : String} {chars before : List Char} {limit place stop : Nat}

/-- The last boundary of a text up to a limit. -/
structure LastBoundary (text : String) (limit stop : Nat) : Prop where
  boundary : Boundary text stop
  le : stop ≤ limit
  last : ∀ place, Boundary text place → place ≤ limit → place ≤ stop

theorem LastBoundary.unique {other : Nat} (h : LastBoundary text limit stop)
    (hother : LastBoundary text limit other) : other = stop :=
  Nat.le_antisymm (h.last other hother.boundary hother.le) (hother.last stop h.boundary h.le)

/-- A loop that goes back to a boundary, and has no answer if it leaves the bytes. -/
def backOff (bytes : Bytes) : Nat → Option Nat
  | 0 => if isBoundary bytes 0 then some 0 else none
  | place + 1 => if isBoundary bytes (place + 1) then some (place + 1) else backOff bytes place

/-- The loop stops at the last boundary, and at the beginning at the latest. -/
theorem exists_backOff (bytes : Bytes) (start : Nat) : ∃ stop, backOff bytes start = some stop ∧
    isBoundary bytes stop = true ∧ stop ≤ start ∧
      ∀ place, isBoundary bytes place = true → place ≤ start → place ≤ stop := by
  -- Down from the start: the loop stops at once, or no boundary is lost by one place.
  induction start with
  | zero => exact ⟨0, rfl, rfl, Nat.le_refl 0, fun place _ hle => hle⟩
  | succ start ih =>
      rw [backOff]
      by_cases hboundary : isBoundary bytes (start + 1) = true
      · exact ⟨start + 1, if_pos hboundary, hboundary, Nat.le_refl _, fun place _ hle => hle⟩
      · obtain ⟨stop, hback, hstop, hle, hlast⟩ := ih
        refine ⟨stop, by rw [if_neg hboundary, hback], hstop, Nat.le_succ_of_le hle, ?_⟩
        intro place hplace hbound
        refine hlast place hplace (Nat.le_of_lt_succ (Nat.lt_of_le_of_ne hbound ?_))
        rintro rfl
        exact hboundary hplace

theorem exists_lastBoundary (text : String) (limit : Nat) : ∃ stop,
    backOff (utf8 text) (min (utf8 text).length limit) = some stop ∧
      LastBoundary text limit stop := by
  obtain ⟨stop, hback, hboundary, hle, hlast⟩ :=
    exists_backOff (utf8 text) (min (utf8 text).length limit)
  refine ⟨stop, hback, isBoundary_iff.mp hboundary, Nat.le_trans hle (Nat.min_le_right ..), ?_⟩
  intro place hplace hbound
  exact hlast place (isBoundary_iff.mpr hplace) (Nat.le_min.mpr ⟨hplace.le, hbound⟩)

theorem prefix_fitting (hfront : before <+: chars)
    (hfits : (before.flatMap String.utf8EncodeChar).length ≤ limit) :
    before <+: fitting limit chars := by
  induction chars generalizing before limit with
  | nil => exact hfront
  | cons c rest ih =>
      cases before with
      | nil => exact List.nil_prefix
      | cons first others =>
          obtain ⟨rfl, hothers⟩ := List.cons_prefix_cons.mp hfront
          rw [List.flatMap_cons, List.length_append, String.length_utf8EncodeChar] at hfits
          rw [fitting, if_pos (by omega)]
          exact (List.prefix_cons_inj first).mpr (ih hothers (by omega))

theorem lastBoundary_fitting (text : String) (limit : Nat) : LastBoundary text limit
    ((fitting limit text.toList).flatMap String.utf8EncodeChar).length where
  boundary := ⟨_, fitting_prefix limit text.toList, rfl⟩
  le := length_fitting_le limit text.toList
  last := by
    rintro place ⟨before, hfront, rfl⟩ hle
    exact ((prefix_fitting hfront hle).flatMap String.utf8EncodeChar).length_le

theorem LastBoundary.take_eq (h : LastBoundary text limit stop) :
    (utf8 text).take stop = utf8 (String.ofList (fitting limit text.toList)) := by
  have hfront := fitting_prefix limit text.toList
  rw [← h.unique (lastBoundary_fitting text limit), utf8, utf8, String.toList_ofList]
  exact (List.prefix_iff_eq_take.mp (hfront.flatMap String.utf8EncodeChar)).symm

end Cuts

section Slots

variable {text : String} {stop : Nat} {value : MetricValue}

/-- What a slot holds once a value was put into it: a refusal leaves it as it was. -/
def slotAfter (handler : Handler) {width : Nat} (held : Fin width → UInt8) (value : MetricValue) :
    Bytes :=
  match handler.putBytes width held value with
  | .ok patch => patch.bytes
  | .error _ => List.ofFn held

/-- What a text leaves in a slot of a width. -/
structure Stored (width : Nat) (text : String) (stop : Nat) (slot : Bytes) : Prop where
  cut : LastBoundary text (width - 1) stop
  found : backOff (utf8 text) (min (utf8 text).length (width - 1)) = some stop
  bytes : slot = (utf8 text).take stop ++ List.replicate (width - stop) 0
  /-- A zero ends it. -/
  ended : stop < width
  valid : ∃ stored : String, stored.toList <+: text.toList ∧
    ofUtf8? ((utf8 text).take stop) = some stored
  whole : (utf8 text).length ≤ width - 1 → '\x00' ∉ text.toList →
    ofUtf8? (terminated slot) = some text

theorem stored_of_found {width : Nat} (hwidth : 0 < width) (h : LastBoundary text (width - 1) stop)
    (hfound : backOff (utf8 text) (min (utf8 text).length (width - 1)) = some stop) :
    Stored width text stop
      ((utf8 text).take stop ++ List.replicate (width - stop) 0) := by
  have hended : stop < width := by
    have hle := h.le
    omega
  refine
    { cut := h
      found := hfound
      bytes := rfl
      ended := hended
      valid := ⟨String.ofList (fitting (width - 1) text.toList), ?_, ?_⟩
      whole := fun hfits hnul => ?_ }
  · rw [String.toList_ofList]
    exact fitting_prefix (width - 1) text.toList
  · rw [h.take_eq, ofUtf8?_utf8]
  · have hall : (utf8 text).length ≤ stop :=
      h.last _ ⟨text.toList, List.prefix_rfl, rfl⟩ hfits
    rw [List.take_of_length_le hall, terminated_append_zeros _ (zero_not_mem_utf8 hnul),
      ofUtf8?_utf8]

theorem fittingBytes_eq_take {width : Nat} (h : LastBoundary text (width - 1) stop) :
    Handler.fittingBytes width text = (utf8 text).take stop := by
  rw [Handler.fittingBytes_eq, h.take_eq, utf8, String.toList_ofList]

/-- The handler of texts stores them as far as they fit, and refuses all else. -/
structure StoresTexts (width : UInt64) : Prop where
  width_eq : (Handler.text width).dataLength = max width 1
  /-- A text is put into a slot whatever the slot held. -/
  stored : ∀ text (held : Fin (Handler.text width).dataLength.toNat → UInt8), ∃ stop patch,
    (Handler.text width).putBytes _ held (.str text) = .ok patch ∧
      Stored (max width 1).toNat text stop (slotAfter (Handler.text width) held (.str text))
  /-- A slot of another length is refused and left as it was. -/
  otherWidth : ∀ (value : MetricValue) (length : Nat) (held : Fin length → UInt8),
    length ≠ (Handler.text width).dataLength.toNat →
      (Handler.text width).putBytes length held value =
        (ConfigurationError.slotSize (Handler.text width).dataLength.toNat length).refuse ∧
      slotAfter (Handler.text width) held value = List.ofFn held
  /-- A value of another kind is refused, and the slot is left as it was. -/
  otherKind : ∀ (value : MetricValue) (held : Fin (Handler.text width).dataLength.toNat → UInt8),
    value.kind ≠ .str →
      (Handler.text width).putBytes _ held value =
        (ConfigurationError.typeMismatch .str value.kind).refuse ∧
      slotAfter (Handler.text width) held value = List.ofFn held
  /-- A value of another kind changes nothing in an image, wherever the slot stands. -/
  untouched : ∀ (value : MetricValue) (image : Image) (offset : Nat), value.kind ≠ .str →
    (Write.run image [.slot offset (Handler.text width) value]).1 = image

theorem putBytes_otherWidth {handler : Handler} {length : Nat} (held : Fin length → UInt8)
    (value : MetricValue) (h : length ≠ handler.dataLength.toNat) :
    handler.putBytes length held value =
      (ConfigurationError.slotSize handler.dataLength.toNat length).refuse :=
  if_pos h

theorem putBytes_otherKind {handler : Handler} (held : Fin handler.dataLength.toNat → UInt8)
    (value : MetricValue) (h : value.kind ≠ handler.kind) :
    handler.putBytes handler.dataLength.toNat held value =
      (ConfigurationError.typeMismatch handler.kind value.kind).refuse := by
  rw [Handler.putBytes, if_neg fun hne => hne rfl, if_pos h]

theorem slotAfter_of_refused {handler : Handler} {length : Nat} {held : Fin length → UInt8}
    {error : ConfigurationError} (h : handler.putBytes length held value = error.refuse) :
    slotAfter handler held value = List.ofFn held := by
  rw [slotAfter, h]
  rfl

theorem patch_otherKind (handler : Handler) {image : Image} {offset : Nat}
    (h : value.kind ≠ handler.kind) :
    ∃ fault, Write.patch image (.slot offset handler value) = .error fault := by
  simp only [Write.patch]
  split
  · exact ⟨_, rfl⟩
  · split
    · exact ⟨_, rfl⟩
    · rw [putBytes_otherKind _ _ h]
      exact ⟨_, rfl⟩

theorem exists_stored (width : UInt64) (text : String)
    (held : Fin (Handler.text width).dataLength.toNat → UInt8) : ∃ stop patch,
      (Handler.text width).putBytes _ held (.str text) = .ok patch ∧
        Stored (max width 1).toNat text stop (slotAfter (Handler.text width) held (.str text)) := by
  obtain ⟨stop, hfound, hlast⟩ := exists_lastBoundary text ((max width 1).toNat - 1)
  obtain ⟨hfits, hput⟩ := putBytes_text width text
  refine ⟨stop, _, hput held, ?_⟩
  have hbytes := fittingBytes_eq_take hlast
  have hlength : ((utf8 text).take stop).length = stop := List.length_take_of_le hlast.boundary.le
  rw [slotAfter, hput held]
  simp only [Patch.bytes_mk, hbytes, hlength]
  exact stored_of_found (one_le_max width) hlast hfound

/-- A text is cut behind a whole character, as far back as leaves room for the NUL that ends it, and
what it leaves of the slot is filled with zeros. -/
theorem storesTexts (width : UInt64) : StoresTexts width where
  width_eq := dataLength_text width
  stored := exists_stored width
  otherWidth value length held h :=
    have hrefused := putBytes_otherWidth held value h
    ⟨hrefused, slotAfter_of_refused hrefused⟩
  otherKind value held h :=
    have hrefused := putBytes_otherKind held value h
    ⟨hrefused, slotAfter_of_refused hrefused⟩
  untouched value image offset h := by
    obtain ⟨fault, hpatch⟩ := patch_otherKind (Handler.text width) h
    rw [Write.run_cons, hpatch]

-- The second é would need the byte of the NUL.
example : slotAfter (Handler.text 5) (fun _ : Fin 5 => 0xAA) (.str "aéé") =
    [0x61, 0xC3, 0xA9, 0, 0] := rfl

end Slots

end MappedMetrics.Proofs.TextSlots
