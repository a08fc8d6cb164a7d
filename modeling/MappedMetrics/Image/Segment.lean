import MappedMetrics.Bytes

/-!
Runs of `2 ^ depth` bytes in which a stretch of equal bytes takes no more room than one byte. Each
operation goes by recursion on the depth, with the size of the run beside it, and what it does is
said of the bytes of the run.
-/

namespace MappedMetrics

/-- A run of bytes: one byte again and again, or two halves. The depth is kept beside it. -/
inductive Segment where
  | uniform (byte : UInt8)
  | halves (low high : Segment)
deriving DecidableEq

namespace Segment

/-- The byte of a run of a single byte. -/
def byte : Segment → UInt8
  | uniform byte => byte
  | halves _ _ => 0

def low : Segment → Segment
  | uniform byte => uniform byte
  | halves low _ => low

def high : Segment → Segment
  | uniform byte => uniform byte
  | halves _ high => high

def toBytes : Nat → Segment → Bytes
  | 0, segment => [segment.byte]
  | depth + 1, segment => toBytes depth segment.low ++ toBytes depth segment.high

/-- Sets the bytes from `start` up to `finish`. -/
def fill : Nat → Nat → Nat → Nat → UInt8 → Segment → Segment
  | 0, _, start, finish, byte, segment =>
      if start = 0 ∧ 0 < finish then uniform byte else segment
  | depth + 1, size, start, finish, byte, segment =>
      let half := size / 2
      if finish ≤ start ∨ size ≤ start then segment
      else if start = 0 ∧ size ≤ finish then uniform byte
      else
        halves (fill depth half start finish byte segment.low)
          (fill depth half (start - half) (finish - half) byte segment.high)

/-- Lays bytes over a run from an offset on, and gives those that it has no room for. -/
def lay : Nat → Nat → Nat → Bytes → Segment → Segment × Bytes
  | _, _, _, [], segment => (segment, [])
  | 0, _, offset, byte :: rest, segment =>
      if offset = 0 then (uniform byte, rest) else (segment, byte :: rest)
  | depth + 1, size, offset, byte :: rest, segment =>
      let half := size / 2
      if offset < half then
        let (low, rest) := lay depth half offset (byte :: rest) segment.low
        let (high, rest) := lay depth half 0 rest segment.high
        (halves low high, rest)
      else
        let (high, rest) := lay depth half (offset - half) (byte :: rest) segment.high
        (halves segment.low high, rest)

/-- The bytes from `start` up to `finish`, and others after them. -/
def sliceOnto : Nat → Nat → Nat → Nat → Segment → Bytes → Bytes
  | 0, _, start, finish, segment, rest =>
      if start = 0 ∧ 0 < finish then segment.byte :: rest else rest
  | depth + 1, size, start, finish, segment, rest =>
      let half := size / 2
      if finish ≤ start ∨ size ≤ start then rest
      else
        match segment with
        | uniform byte => List.replicate (min finish size - start) byte ++ rest
        | halves low high =>
            sliceOnto depth half start finish low
              (sliceOnto depth half (start - half) (finish - half) high rest)

/-- The lines of `2 ^ size` bytes in a run, each with its offset from `base` on, and others after
them. Stretches of zeros are left out where they are longer than a line. -/
def linesOnto (size : Nat) : Nat → Nat → Segment → List (Nat × Bytes) → List (Nat × Bytes)
  | 0, base, segment, rest => (base, toBytes 0 segment) :: rest
  | depth + 1, base, segment, rest =>
      if depth < size then (base, toBytes (depth + 1) segment) :: rest
      else if segment = uniform 0 then rest
      else
        linesOnto size depth base segment.low
          (linesOnto size depth (base + 2 ^ depth) segment.high rest)

@[simp] theorem length_toBytes (depth : Nat) (segment : Segment) :
    (toBytes depth segment).length = 2 ^ depth := by
  induction depth generalizing segment with
  | zero => rfl
  | succ depth ih => rw [toBytes, List.length_append, ih, ih, Nat.pow_succ, Nat.mul_two]

theorem toBytes_succ (depth : Nat) (segment : Segment) :
    toBytes (depth + 1) segment = toBytes depth segment.low ++ toBytes depth segment.high := rfl

theorem toBytes_halves (depth : Nat) (low high : Segment) :
    toBytes (depth + 1) (halves low high) = toBytes depth low ++ toBytes depth high := rfl

theorem toBytes_uniform (depth : Nat) (byte : UInt8) :
    toBytes depth (uniform byte) = List.replicate (2 ^ depth) byte := by
  induction depth with
  | zero => rfl
  | succ depth ih =>
      rw [toBytes, low, high, ih, List.replicate_append_replicate, Nat.pow_succ, Nat.mul_two]

theorem half_pow (depth : Nat) : 2 ^ (depth + 1) / 2 = 2 ^ depth := by
  rw [Nat.pow_succ, Nat.mul_div_cancel _ (by decide)]

/-- Bytes in the range are set, and any other keeps its value. -/
theorem getElem?_fill (depth start finish : Nat) (byte : UInt8) (segment : Segment) (i : Nat) :
    (toBytes depth (fill depth (2 ^ depth) start finish byte segment))[i]? =
      if start ≤ i ∧ i < finish ∧ i < 2 ^ depth then some byte
      else (toBytes depth segment)[i]? := by
  induction depth generalizing start finish segment i with
  | zero =>
      rw [fill]
      split
      · cases i with
        | zero => simp_all [toBytes, Segment.byte]
        | succ i => simp [toBytes]
      · rw [if_neg (by omega)]
  | succ depth ih =>
      have power : 2 ^ (depth + 1) = 2 * 2 ^ depth := by rw [Nat.pow_succ, Nat.mul_comm]
      simp only [fill, half_pow]
      split
      · rw [if_neg (by omega)]
      · split
        · rw [toBytes_uniform, List.getElem?_replicate]
          split
          · rw [if_pos (by omega)]
          · rw [if_neg (by omega), List.getElem?_eq_none (by rw [length_toBytes]; omega)]
        · rw [toBytes_halves, toBytes_succ depth segment, List.getElem?_append,
            List.getElem?_append, length_toBytes, length_toBytes, ih, ih]
          by_cases below : i < 2 ^ depth
          · rw [if_pos below, if_pos below]
            exact ite_congr (by rw [eq_iff_iff]; omega) (fun _ => rfl) (fun _ => rfl)
          · rw [if_neg below, if_neg below]
            exact ite_congr (by rw [eq_iff_iff]; omega) (fun _ => rfl) (fun _ => rfl)

theorem lay_snd (depth offset : Nat) (data : Bytes) (segment : Segment) :
    (lay depth (2 ^ depth) offset data segment).2 = data.drop (2 ^ depth - offset) := by
  induction depth generalizing offset data segment with
  | zero =>
      cases data with
      | nil => simp [lay]
      | cons byte rest =>
          rw [lay]
          split
          · simp_all
          · rw [show 2 ^ 0 - offset = 0 by omega, List.drop_zero]
  | succ depth ih =>
      have power : 2 ^ (depth + 1) = 2 * 2 ^ depth := by rw [Nat.pow_succ, Nat.mul_comm]
      cases data with
      | nil => simp [lay]
      | cons byte rest =>
          simp only [lay, half_pow]
          split
          · rw [ih, ih, List.drop_drop, power]
            congr 1
            omega
          · rw [ih, power]
            congr 1
            omega

/-- Bytes in the range are those laid over it, and any other keeps its value. -/
theorem getElem?_lay (depth offset : Nat) (data : Bytes) (segment : Segment) (i : Nat) :
    (toBytes depth (lay depth (2 ^ depth) offset data segment).1)[i]? =
      if offset ≤ i ∧ i < offset + data.length ∧ i < 2 ^ depth then data[i - offset]?
      else (toBytes depth segment)[i]? := by
  induction depth generalizing offset data segment i with
  | zero =>
      cases data with
      | nil => simp only [lay, List.length_nil]; rw [if_neg (by omega)]
      | cons byte rest =>
          rw [lay]
          split
          · cases i with
            | zero => simp_all [toBytes, Segment.byte]
            | succ i => simp [toBytes]
          · rw [if_neg (by omega)]
  | succ depth ih =>
      have power : 2 ^ (depth + 1) = 2 * 2 ^ depth := by rw [Nat.pow_succ, Nat.mul_comm]
      cases data with
      | nil => simp only [lay, List.length_nil]; rw [if_neg (by omega)]
      | cons byte rest =>
          simp only [lay, half_pow]
          generalize byte :: rest = data
          rw [toBytes_succ depth segment, List.getElem?_append, length_toBytes]
          split
          · rw [toBytes_halves, List.getElem?_append, length_toBytes, ih, ih, lay_snd]
            by_cases below : i < 2 ^ depth
            · rw [if_pos below, if_pos below]
              exact ite_congr (by rw [eq_iff_iff]; omega) (fun _ => rfl) (fun _ => rfl)
            · rw [if_neg below, if_neg below, List.getElem?_drop, List.length_drop]
              refine ite_congr ?_ (fun _ => ?_) (fun _ => rfl)
              · rw [eq_iff_iff]
                omega
              · congr 1
                omega
          · rw [toBytes_halves, List.getElem?_append, length_toBytes, ih]
            by_cases below : i < 2 ^ depth
            · rw [if_pos below, if_pos below, if_neg (by omega)]
            · rw [if_neg below, if_neg below]
              refine ite_congr ?_ (fun _ => ?_) (fun _ => rfl)
              · rw [eq_iff_iff]
                omega
              · congr 1
                omega

theorem sliceOnto_eq (depth start finish : Nat) (segment : Segment) (rest : Bytes) :
    sliceOnto depth (2 ^ depth) start finish segment rest =
      Bytes.slice (toBytes depth segment) start (finish - start) ++ rest := by
  induction depth generalizing start finish segment rest with
  | zero =>
      rw [sliceOnto, toBytes, Bytes.slice]
      split
      · rw [show start = 0 by omega, List.drop_zero, List.take_of_length_le (by simp; omega)]
        rfl
      · by_cases first : start = 0
        · rw [show finish - start = 0 by omega, List.take_zero, List.nil_append]
        · rw [List.drop_of_length_le (by simp; omega), List.take_nil, List.nil_append]
  | succ depth ih =>
      have power : 2 ^ (depth + 1) = 2 * 2 ^ depth := by rw [Nat.pow_succ, Nat.mul_comm]
      have total := length_toBytes (depth + 1) segment
      cases segment with
      | uniform byte =>
          rw [sliceOnto, toBytes_uniform, Bytes.slice, List.drop_replicate, List.take_replicate]
          split
          · rw [show min (finish - start) (2 ^ (depth + 1) - start) = 0 by omega]
            rfl
          · congr 2
            omega
      | halves below above =>
          rw [sliceOnto, half_pow, Bytes.slice]
          split
          · by_cases empty : finish ≤ start
            · rw [Nat.sub_eq_zero_of_le empty, List.take_zero, List.nil_append]
            · rw [List.drop_of_length_le (by omega), List.take_nil, List.nil_append]
          · rw [ih, ih, toBytes_halves, List.drop_append, List.take_append, List.length_drop,
              length_toBytes, List.append_assoc, Bytes.slice, Bytes.slice]
            congr 3
            omega

end Segment

end MappedMetrics
