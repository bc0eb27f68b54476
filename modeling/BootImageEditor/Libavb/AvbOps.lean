import BootImageEditor.Jvm

/-!
# Device operations

The callbacks through which libavb reaches the partitions, and
`load_full_partition`, which loads an image through them: from a preloaded buffer
where the device has one, else by reading.
-/

namespace BootImageEditor

open Codec Fallible

namespace Libavb

/-- A C string: bytes up to a NUL that is not written. -/
structure CString where
  bytes : Bytes
  noNul : (0 : UInt8) ∉ bytes

/-- The codes of `AvbIOResult` other than `AVB_IO_RESULT_OK`. -/
inductive AvbIOError where
  | oom
  | io
  | noSuchPartition
  | rangeOutsidePartition
  | noSuchValue
  | invalidValueSize
  | insufficientSpace
  deriving DecidableEq, Repr

abbrev AvbIO := Except AvbIOError

inductive AvbSlotVerifyResult where
  | ok
  | errorOom
  | errorIo
  | errorVerification
  | errorRollbackIndex
  | errorPublicKeyRejected
  | errorInvalidMetadata
  | errorUnsupportedVersion
  | errorInvalidArgument
  deriving DecidableEq, Repr

/-- The callbacks that `load_full_partition` calls. A preloaded partition is a
pointer, which may be null, and a number of bytes; reading gives the bytes that were
put into the buffer. -/
structure AvbOps where
  getPreloadedPartition : Option (CString → UInt64 → AvbIO (Option Bytes × UInt64))
  readFromPartition : CString → Int64 → UInt64 → AvbIO Bytes

/-- The conversion to `size_t`, which has 64 bits. -/
def sizeCast (n : UInt64) : UInt64 := n

/-- `load_full_partition`: the result and the image buffer. -/
def loadFullPartition (malloc : UInt64 → Bool) (ops : AvbOps) (partName : CString)
    (imageSize : UInt64) : AvbSlotVerifyResult × Option Bytes :=
  if imageSize ≠ sizeCast imageSize then (.errorInvalidMetadata, none)
  else
    match preloaded with
    | .error .oom => (.errorOom, none)
    | .error _ => (.errorIo, none)
    | .ok (some image, partNumRead) =>
        if partNumRead ≠ imageSize then (.errorIo, some image) else (.ok, some image)
    | .ok (none, _) =>
        if malloc imageSize then
          match ops.readFromPartition partName 0 imageSize with
          | .error .oom => (.errorOom, some [])
          | .error _ => (.errorIo, some [])
          | .ok image =>
              if UInt64.ofNat image.length ≠ imageSize then (.errorIo, some image)
              else (.ok, some image)
        else (.errorOom, none)
where
  /-- Try use a preloaded one. -/
  preloaded : AvbIO (Option Bytes × UInt64) :=
    match ops.getPreloadedPartition with
    | none => .ok (none, 0)
    | some get => get partName imageSize

/-- Two loads of `imageSize` bytes agree: the same result and, where it is `ok`, the
same bytes. -/
def SameImage (imageSize : UInt64) (x y : AvbSlotVerifyResult × Option Bytes) : Prop :=
  x.1 = y.1 ∧ (x.1 = .ok → ∃ image image', x.2 = some image ∧ y.2 = some image' ∧
    imageSize.toNat ≤ image.length ∧ imageSize.toNat ≤ image'.length ∧
    image.take imageSize.toNat = image'.take imageSize.toNat)

theorem SameImage.of_error {imageSize : UInt64} {x y : AvbSlotVerifyResult × Option Bytes}
    (hx : x.1 ≠ .ok) (h : x.1 = y.1) : SameImage imageSize x y :=
  ⟨h, fun hok => absurd hok hx⟩

section

variable {malloc : UInt64 → Bool} {ops : AvbOps} {partName : CString} {imageSize : UInt64}

/-- A load that falls back to reading. -/
theorem loadFullPartition_read {get : CString → UInt64 → AvbIO (Option Bytes × UInt64)}
    (hops : ops.getPreloadedPartition = some get) (hget : get partName imageSize = .ok (none, 0))
    (hmalloc : malloc imageSize = true) {image : Bytes}
    (hread : ops.readFromPartition partName 0 imageSize = .ok image) :
    loadFullPartition malloc ops partName imageSize =
      if UInt64.ofNat image.length ≠ imageSize then (.errorIo, some image)
      else (.ok, some image) := by
  have hpre : loadFullPartition.preloaded ops partName imageSize = .ok (none, 0) := by
    rw [loadFullPartition.preloaded, hops]
    exact hget
  unfold loadFullPartition
  rw [if_neg (fun h => h rfl), hpre]
  simp only [if_pos hmalloc, hread]

/-- A load from a preloaded buffer. -/
theorem loadFullPartition_preloaded {get : CString → UInt64 → AvbIO (Option Bytes × UInt64)}
    (hops : ops.getPreloadedPartition = some get) {image : Bytes}
    (hget : get partName imageSize = .ok (some image, imageSize)) :
    loadFullPartition malloc ops partName imageSize = (.ok, some image) := by
  have hpre : loadFullPartition.preloaded ops partName imageSize =
      .ok (some image, imageSize) := by
    rw [loadFullPartition.preloaded, hops]
    exact hget
  unfold loadFullPartition
  rw [if_neg (fun h => h rfl), hpre]
  simp only [if_neg (fun h : imageSize ≠ imageSize => h rfl)]

/-- A load whose preloading callback fails. -/
theorem loadFullPartition_error {get : CString → UInt64 → AvbIO (Option Bytes × UInt64)}
    (hops : ops.getPreloadedPartition = some get) {e : AvbIOError} (he : e ≠ .oom)
    (hget : get partName imageSize = .error e) :
    loadFullPartition malloc ops partName imageSize = (.errorIo, none) := by
  have hpre : loadFullPartition.preloaded ops partName imageSize = .error e := by
    rw [loadFullPartition.preloaded, hops]
    exact hget
  unfold loadFullPartition
  rw [if_neg (fun h => h rfl), hpre]
  cases e with
  | oom => exact absurd rfl he
  | _ => rfl

end

end Libavb

end BootImageEditor
