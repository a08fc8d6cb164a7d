import MappedMetrics.Handler
import MappedMetrics.Image

/-!
Writes into an image, done one after the other up to the first that fails. Each write is worked out
as a patch, which is then laid over the image.
-/

namespace MappedMetrics

inductive Write where
  /-- Bytes at an offset, which must lie inside the image. -/
  | bytes (offset : Nat) (data : Bytes)
  /-- A field of fixed width with bytes that must fit into it, and zeros after them. -/
  | field (offset width : Nat) (data : Bytes)
  | slot (offset : Nat) (handler : Handler) (value : MetricValue)

namespace Write

def word (offset : Nat) (n : UInt32) : Write :=
  .bytes offset (Bytes.ofNat 4 n.toNat)

def wide (offset : Nat) (n : UInt64) : Write :=
  .bytes offset (Bytes.ofNat 8 n.toNat)

def blank (offset width : Nat) : Write :=
  .field offset width []

/-- A patch at an offset, if it ends before the end of the image. -/
def inside (size offset : Nat) (patch : Patch) : Outcome (Nat × Patch) :=
  if offset + patch.width ≤ size then .ok (offset, patch) else .error (.halted .outOfBounds)

/-- What a write lays over an image, and where. Only a value's slot is checked against the end of
the image; any other write past the end cannot go on. A value is encoded where it stands, over the
bytes that its slot held. -/
def patch (image : Image) : Write → Outcome (Nat × Patch)
  | .bytes offset data => inside image.length offset (.ofBytes data)
  | .field offset width data =>
      if image.length < offset + width then .error (.halted .outOfBounds)
      else if fits : data.length ≤ width then inside image.length offset ⟨data, 0, width, fits⟩
      else .error (.halted .outOfBounds)
  | .slot offset handler value =>
      let width := handler.dataLength.toNat
      if 2 ^ 64 ≤ offset + width then .error (.halted .overflow)
      else if image.length < offset + width then
        (MappingError.boundsViolation offset width image.length).refuse
      else
        let held := fun i : Fin width => image.byte (offset + i)
        (handler.putBytes width held value).map fun patch => (offset, patch)

/-- The image after the writes up to the first that fails, and that failure. -/
def run (image : Image) : List Write → Image × Outcome Unit
  | [] => (image, .ok ())
  | write :: rest =>
      match patch image write with
      | .ok (offset, patch) => run (image.lay offset patch) rest
      | .error fault => (image, .error fault)

theorem fits_of_inside {size offset start : Nat} {patch laid : Patch}
    (h : inside size offset patch = .ok (start, laid)) : start + laid.width ≤ size := by
  rw [inside] at h
  split at h
  · cases h
    assumption
  · cases h

/-- A patch ends before the end of the image. -/
theorem fits_of_patch {image : Image} {write : Write} {offset : Nat} {laid : Patch}
    (h : patch image write = .ok (offset, laid)) : offset + laid.width ≤ image.length := by
  cases write with
  | bytes => exact fits_of_inside h
  | field start width field =>
      simp only [patch] at h
      split at h
      · cases h
      · split at h
        · exact fits_of_inside h
        · cases h
  | slot start handler value =>
      simp only [patch] at h
      split at h
      · cases h
      · split at h
        · cases h
        · cases encoded : handler.putBytes handler.dataLength.toNat
              (fun i => image.byte (start + i)) value with
          | error fault =>
              rw [encoded] at h
              cases h
          | ok slot =>
              rw [encoded] at h
              cases h
              rw [Handler.width_putBytes encoded]
              omega

/-- The first write of a run is done before the others, which are done only if it succeeds. -/
theorem run_cons (image : Image) (write : Write) (rest : List Write) :
    run image (write :: rest) =
      match patch image write with
      | .ok (offset, patch) => run (image.lay offset patch) rest
      | .error fault => (image, .error fault) := rfl

/-- Writes keep the length of the image, also those before one that fails. -/
theorem length_run (image : Image) (writes : List Write) :
    (run image writes).1.length = image.length := by
  induction writes generalizing image with
  | nil => rfl
  | cons write rest ih =>
      rw [run_cons]
      split
      · rw [ih, Image.length_lay]
      · rfl

/-- Writes done in two parts: the second part is done if the first one succeeds. -/
theorem run_append (image : Image) (first second : List Write) :
    run image (first ++ second) =
      match run image first with
      | (image, .ok ()) => run image second
      | (image, .error fault) => (image, .error fault) := by
  induction first generalizing image with
  | nil => rfl
  | cons write rest ih =>
      rw [List.cons_append, run_cons, run_cons]
      split
      · exact ih _
      · rfl

end Write

end MappedMetrics
