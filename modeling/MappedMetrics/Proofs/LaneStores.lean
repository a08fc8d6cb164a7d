import MappedMetrics.MappedFile

namespace MappedMetrics.Proofs.LaneStores

open MappedMetrics
open MappedMetrics.MappedFile

theorem ofNat_toNat (data : Bytes) : Bytes.ofNat data.length (Bytes.toNat data) = data := by
  induction data with
  | nil => rfl
  | cons byte rest ih =>
      have hbyte := byte.toNat_lt
      have hlow : (byte.toNat + 256 * Bytes.toNat rest) % 256 = byte.toNat := by omega
      have hhigh : (byte.toNat + 256 * Bytes.toNat rest) / 256 = Bytes.toNat rest := by omega
      rw [List.length_cons, Bytes.ofNat, Bytes.toNat, hlow, hhigh, ih, UInt8.ofNat_toNat]

theorem toBytes_storeLane {image : Image} {offset : Nat} {data : Bytes}
    (hfits : offset + data.length ≤ image.length) :
    (storeLane image (offset, data)).toBytes = Bytes.overwrite image.toBytes offset data := by
  rw [storeLane, ofNat_toNat, Image.toBytes_overwrite hfits]

@[simp] theorem length_storeLane (image : Image) (lane : Nat × Bytes) :
    (storeLane image lane).length = image.length := rfl

theorem overwrite_overwrite {bytes first second : Bytes} {offset : Nat}
    (hfits : offset + (first ++ second).length ≤ bytes.length) :
    Bytes.overwrite (Bytes.overwrite bytes offset first) (offset + first.length) second =
      Bytes.overwrite bytes offset (first ++ second) := by
  rw [List.length_append] at hfits
  have hfirst : offset + first.length ≤ bytes.length := by omega
  have hlength := Bytes.length_overwrite hfirst
  apply List.ext_getElem?
  intro i
  rw [Bytes.getElem?_overwrite i (by omega), Bytes.getElem?_overwrite i hfirst,
    Bytes.getElem?_overwrite i (by rw [List.length_append]; omega), List.length_append,
    List.getElem?_append]
  by_cases hlow : offset ≤ i ∧ i < offset + first.length
  · rw [if_neg (by omega), if_pos hlow, if_pos (by omega), if_pos (by omega)]
  · rw [if_neg hlow]
    by_cases hhigh : offset + first.length ≤ i ∧ i < offset + first.length + second.length
    · rw [if_pos hhigh, if_pos (by omega), if_neg (by omega)]
      congr 1
      omega
    · rw [if_neg hhigh, if_neg (by omega)]

theorem toBytes_foldl_lanesFrom {image : Image} {width count offset : Nat} {data : Bytes}
    (hdata : data.length = width * count) (hfits : offset + data.length ≤ image.length) :
    ((lanesFrom width count offset data).foldl storeLane image).toBytes =
      Bytes.overwrite image.toBytes offset data := by
  induction count generalizing image offset data with
  | zero =>
      rw [Nat.mul_zero, List.length_eq_zero_iff] at hdata
      subst hdata
      rw [lanesFrom, List.foldl_nil, Bytes.overwrite, List.nil_append, List.length_nil,
        Nat.add_zero, List.take_append_drop]
  | succ count ih =>
      have htotal : width * (count + 1) = width + width * count := by
        rw [Nat.mul_succ, Nat.add_comm]
      have htake : (data.take width).length = width := by
        rw [List.length_take]
        omega
      have hdrop : (data.drop width).length = width * count := by
        rw [List.length_drop]
        omega
      have hnow : offset + (data.take width).length ≤ image.length := by omega
      rw [lanesFrom, List.foldl_cons, ih hdrop (by rw [length_storeLane]; omega),
        toBytes_storeLane hnow]
      have hboth : offset + (data.take width ++ data.drop width).length ≤
          image.toBytes.length := by
        rw [List.take_append_drop, Image.length_toBytes]
        exact hfits
      have hjoined := overwrite_overwrite hboth
      rwa [htake, List.take_append_drop] at hjoined

/-- The lanes of a store cover its data, each byte once. -/
theorem toBytes_storeLanes {image : Image} {offset : Nat} {data : Bytes}
    (hfits : offset + data.length ≤ image.length) :
    (storeLanes image offset data).toBytes = Bytes.overwrite image.toBytes offset data := by
  refine toBytes_foldl_lanesFrom ?_ hfits
  exact (Nat.mul_div_cancel' (laneWidth_dvd_length offset data.length)).symm

end MappedMetrics.Proofs.LaneStores
