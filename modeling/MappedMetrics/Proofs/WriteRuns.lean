import MappedMetrics.FileFormat.Write
import MappedMetrics.Proofs.Spans

namespace MappedMetrics.Proofs.WriteRuns

open MappedMetrics
open MappedMetrics.Proofs.Spans

/-- Where a write goes. -/
def range : Write → Span
  | .bytes offset data => ⟨offset, data.length⟩
  | .field offset width _ => ⟨offset, width⟩
  | .slot offset handler _ => ⟨offset, handler.dataLength.toNat⟩

/-- The bytes of a span. -/
def read (image : Image) (span : Span) : Bytes :=
  Bytes.slice image.toBytes span.start span.length

theorem slice_congr {bytes other : Bytes} {span : Span}
    (hsame : ∀ i, span.Holds i → bytes[i]? = other[i]?) :
    Bytes.slice bytes span.start span.length = Bytes.slice other span.start span.length := by
  apply List.ext_getElem?
  intro i
  rw [Bytes.slice, Bytes.slice, List.getElem?_take, List.getElem?_take]
  split
  · rename_i hi
    rw [List.getElem?_drop, List.getElem?_drop]
    exact hsame _ ⟨Nat.le_add_right _ _, Nat.add_lt_add_left hi _⟩
  · rfl

theorem getElem?_slice_of_holds {bytes : Bytes} {span : Span} {i : Nat} (hholds : span.Holds i) :
    (Bytes.slice bytes span.start span.length)[i - span.start]? = bytes[i]? := by
  obtain ⟨hstart, hfinish⟩ := hholds
  rw [Span.finish] at hfinish
  rw [Bytes.slice, List.getElem?_take_of_lt (by omega), List.getElem?_drop,
    Nat.add_sub_cancel' hstart]

theorem read_congr {image other : Image} {span : Span}
    (hsame : ∀ i, span.Holds i → image.toBytes[i]? = other.toBytes[i]?) :
    read image span = read other span :=
  slice_congr hsame

theorem getElem?_of_holds {image : Image} {span : Span} {i : Nat} (hholds : span.Holds i) :
    image.toBytes[i]? = (read image span)[i - span.start]? :=
  (getElem?_slice_of_holds hholds).symm

theorem eq_of_inside {size offset start : Nat} {patch laid : Patch}
    (hinside : Write.inside size offset patch = .ok (start, laid)) :
    start = offset ∧ laid = patch := by
  simp only [Write.inside] at hinside
  split at hinside
  · cases hinside
    exact ⟨rfl, rfl⟩
  · cases hinside

theorem putBytes_of_patch {image : Image} {offset start : Nat} {handler : Handler}
    {value : MetricValue} {laid : Patch}
    (hpatch : Write.patch image (.slot offset handler value) = .ok (start, laid)) :
    start = offset ∧ handler.putBytes handler.dataLength.toNat
      (fun i => image.byte (offset + i)) value = .ok laid := by
  simp only [Write.patch] at hpatch
  split at hpatch
  · cases hpatch
  · split at hpatch
    · cases hpatch
    · cases hput : handler.putBytes handler.dataLength.toNat
          (fun i => image.byte (offset + i)) value with
      | error fault =>
          rw [hput] at hpatch
          cases hpatch
      | ok slot =>
          rw [hput] at hpatch
          cases hpatch
          exact ⟨rfl, rfl⟩

theorem range_of_patch {image : Image} {write : Write} {offset : Nat} {laid : Patch}
    (hpatch : write.patch image = .ok (offset, laid)) : range write = ⟨offset, laid.width⟩ := by
  cases write with
  | bytes start data =>
      obtain ⟨rfl, rfl⟩ := eq_of_inside hpatch
      rfl
  | field start width data =>
      simp only [Write.patch] at hpatch
      split at hpatch
      · cases hpatch
      · split at hpatch
        · obtain ⟨rfl, rfl⟩ := eq_of_inside hpatch
          rfl
        · cases hpatch
  | slot start handler value =>
      obtain ⟨rfl, hput⟩ := putBytes_of_patch hpatch
      rw [range, Handler.width_putBytes hput]

theorem getElem?_lay_of_patch {image : Image} {write : Write} {offset : Nat} {laid : Patch}
    {i : Nat}
    (hpatch : write.patch image = .ok (offset, laid)) (houtside : ¬ (range write).Holds i) :
    (image.lay offset laid).toBytes[i]? = image.toBytes[i]? := by
  have hfits := Write.fits_of_patch hpatch
  rw [range_of_patch hpatch] at houtside
  rw [Image.toBytes_lay hfits]
  refine Bytes.getElem?_overwrite_of_not_mem ?_ ?_
  · rwa [Patch.length_bytes, Image.length_toBytes]
  · rw [Patch.length_bytes]
    simp only [Span.Holds, Span.finish] at houtside
    omega

theorem getElem?_run_of_outside {image : Image} {writes : List Write} {i : Nat}
    (houtside : ∀ write ∈ writes, ¬ (range write).Holds i) :
    (Write.run image writes).1.toBytes[i]? = image.toBytes[i]? := by
  induction writes generalizing image with
  | nil => rfl
  | cons write rest ih =>
      rw [Write.run_cons]
      split
      · rename_i offset laid hpatch
        rw [ih fun later hmem => houtside later (List.mem_cons_of_mem _ hmem)]
        exact getElem?_lay_of_patch hpatch (houtside write List.mem_cons_self)
      · rfl

theorem exists_patch_of_run {image last : Image} {writes : List Write} {fault : Fault}
    (hrun : Write.run image writes = (last, .error fault)) :
    ∃ before write after, writes = before ++ write :: after ∧
      Write.run image before = (last, .ok ()) ∧ write.patch last = .error fault := by
  induction writes generalizing image with
  | nil => cases hrun
  | cons write rest ih =>
      rw [Write.run_cons] at hrun
      split at hrun
      · rename_i hpatch
        obtain ⟨before, failed, after, rfl, hbefore, hfault⟩ := ih hrun
        refine ⟨write :: before, failed, after, rfl, ?_, hfault⟩
        rw [Write.run_cons, hpatch]
        exact hbefore
      · rename_i hpatch
        cases hrun
        exact ⟨[], write, rest, rfl, rfl, hpatch⟩

theorem finish_le_of_run {image : Image} {writes : List Write}
    (hok : (Write.run image writes).2 = .ok ()) {write : Write} (hmem : write ∈ writes) :
    (range write).finish ≤ image.length := by
  induction writes generalizing image with
  | nil => cases hmem
  | cons first rest ih =>
      rw [Write.run_cons] at hok
      split at hok
      · rename_i offset laid hpatch
        rcases List.mem_cons.mp hmem with rfl | hmem
        · rw [range_of_patch hpatch]
          exact Write.fits_of_patch hpatch
        · exact Image.length_lay image offset laid ▸ ih hok hmem
      · cases hok

theorem read_run_of_apart {image : Image} {writes : List Write} {span : Span}
    (hapart : ∀ write ∈ writes, (range write).Apart span) :
    read (Write.run image writes).1 span = read image span := by
  refine read_congr fun i hholds => getElem?_run_of_outside fun write hmem => ?_
  exact (hapart write hmem).symm.not_holds hholds

theorem read_lay_of_patch {image : Image} {write : Write} {offset : Nat} {laid : Patch}
    (hpatch : write.patch image = .ok (offset, laid)) :
    read (image.lay offset laid) (range write) = laid.bytes := by
  have hfits := Write.fits_of_patch hpatch
  rw [range_of_patch hpatch, read, Image.toBytes_lay hfits]
  have hslice : Bytes.slice (Bytes.overwrite image.toBytes offset laid.bytes) offset
      laid.bytes.length = laid.bytes :=
    Bytes.slice_overwrite (by rwa [Patch.length_bytes, Image.length_toBytes])
  rwa [Patch.length_bytes] at hslice

/-- A range has what a write laid there if no later write goes to it. -/
theorem read_run_of_last {image : Image} {before after : List Write} {write : Write}
    (hok : (Write.run image (before ++ write :: after)).2 = .ok ())
    (hlast : ∀ later ∈ after, (range later).Apart (range write)) :
    ∃ offset laid, write.patch (Write.run image before).1 = .ok (offset, laid) ∧
      read (Write.run image (before ++ write :: after)).1 (range write) = laid.bytes := by
  rw [Write.run_append] at hok ⊢
  cases hrun : Write.run image before with
  | mk middle result =>
      cases result with
      | error fault =>
          rw [hrun] at hok
          cases hok
      | ok =>
          rw [hrun] at hok
          simp only [Write.run_cons] at hok ⊢
          cases hpatch : write.patch middle with
          | error fault =>
              rw [hpatch] at hok
              cases hok
          | ok pair =>
              obtain ⟨offset, laid⟩ := pair
              refine ⟨offset, laid, rfl, ?_⟩
              simp only
              -- The later writes go elsewhere.
              rw [read_run_of_apart hlast, read_lay_of_patch hpatch]

/-- What a write lays over any image that it fits. -/
def Lays (write : Write) (data : Bytes) : Prop :=
  ∀ image : Image, (range write).finish ≤ image.length →
    ∃ laid, write.patch image = .ok ((range write).start, laid) ∧ laid.bytes = data

theorem lays_bytes (offset : Nat) (data : Bytes) : Lays (.bytes offset data) data := by
  intro image hfits
  refine ⟨.ofBytes data, ?_, Patch.bytes_ofBytes data⟩
  exact if_pos hfits

theorem lays_field {offset width : Nat} {data : Bytes} (hdata : data.length ≤ width) :
    Lays (.field offset width data) (data ++ List.replicate (width - data.length) 0) := by
  intro image hfits
  have hinside : offset + width ≤ image.length := hfits
  refine ⟨⟨data, 0, width, hdata⟩, ?_, rfl⟩
  simp only [Write.patch]
  rw [if_neg (Nat.not_lt.mpr hinside), dif_pos hdata]
  exact if_pos hfits

theorem lays_blank (offset width : Nat) :
    Lays (.blank offset width) (List.replicate width 0) :=
  lays_field (Nat.zero_le width)

theorem bytes_of_lays {image : Image} {write : Write} {data : Bytes} {offset : Nat} {laid : Patch}
    (hlays : Lays write data) (hpatch : write.patch image = .ok (offset, laid)) :
    laid.bytes = data := by
  have hfits := Write.fits_of_patch hpatch
  obtain ⟨other, hother, hbytes⟩ := hlays image (by rwa [range_of_patch hpatch])
  rw [hpatch] at hother
  cases hother
  exact hbytes

theorem lays_slot {offset : Nat} {handler : Handler} {value : MetricValue} {data : Bytes}
    (hbound : offset + handler.dataLength.toNat < 2 ^ 64)
    (hput : ∀ held, ∃ laid, handler.putBytes handler.dataLength.toNat held value = .ok laid ∧
      laid.bytes = data) : Lays (.slot offset handler value) data := by
  intro image hfits
  obtain ⟨laid, hlaid, hbytes⟩ := hput fun i => image.byte (offset + i)
  have hinside : offset + handler.dataLength.toNat ≤ image.length := hfits
  refine ⟨laid, ?_, hbytes⟩
  simp only [Write.patch]
  rw [if_neg (Nat.not_le.mpr hbound), if_neg (Nat.not_lt.mpr hinside), hlaid]
  rfl

theorem run_eq_ok {image : Image} {writes : List Write}
    (hfits : ∀ write ∈ writes, (range write).finish ≤ image.length ∧ ∃ data, Lays write data) :
    (Write.run image writes).2 = .ok () := by
  induction writes generalizing image with
  | nil => rfl
  | cons write rest ih =>
      obtain ⟨hinside, data, hlays⟩ := hfits write List.mem_cons_self
      obtain ⟨laid, hpatch, _⟩ := hlays image hinside
      rw [Write.run_cons, hpatch]
      exact ih fun later hmem => hfits later (List.mem_cons_of_mem _ hmem)

/-- No write that comes later in the list goes to the range of this one. -/
def Lasting (writes : List Write) (write : Write) : Prop :=
  ∃ before after, writes = before ++ write :: after ∧
    ∀ later ∈ after, (range later).Apart (range write)

theorem read_run_of_lasting {image : Image} {writes : List Write} {write : Write} {data : Bytes}
    (hok : (Write.run image writes).2 = .ok ()) (hlasting : Lasting writes write)
    (hlays : Lays write data) : read (Write.run image writes).1 (range write) = data := by
  obtain ⟨before, after, rfl, hlast⟩ := hlasting
  obtain ⟨offset, laid, hpatch, hread⟩ := read_run_of_last hok hlast
  rw [hread, bytes_of_lays hlays hpatch]

/-- A write may be covered by a later one only if it lays nothing but zeros. -/
def Follows (earlier later : Write) : Prop :=
  (∃ offset width, earlier = .blank offset width) ∨ (range earlier).Apart (range later)

theorem lasting_of_pairwise {writes : List Write} {write : Write}
    (hpairwise : writes.Pairwise Follows) (hmem : write ∈ writes)
    (hwrite : ∀ offset width, write ≠ .blank offset width) : Lasting writes write := by
  obtain ⟨before, after, rfl⟩ := List.append_of_mem hmem
  refine ⟨before, after, rfl, ?_⟩
  intro later hlater
  have hfollows := (List.pairwise_cons.mp (List.pairwise_append.mp hpairwise).2.1).1 later hlater
  rcases hfollows with ⟨offset, width, hblank⟩ | hapart
  · exact absurd hblank (hwrite offset width)
  · exact hapart.symm

end MappedMetrics.Proofs.WriteRuns
