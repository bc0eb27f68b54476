import BootImageEditor.Libavb.VbmetaImage

/-!
# Descriptors of a vbmeta image

`avb_descriptor_foreach` goes through the descriptors of an image and hands each to a
function; `avb_descriptor_get_all` collects them. A pointer into the image is a machine word
here, since the checks are about words that may wrap; the function is given offsets. A failed
`avb_assert` aborts, and reading outside of the image is undefined: both are `none`.
-/

namespace BootImageEditor

open Codec

namespace Libavb

/-- Bytes of a buffer, if they lie in it. -/
def readAt (buffer : Bytes) (offset count : ℕ) : Option Bytes :=
  if offset + count ≤ buffer.length then some (slice offset count buffer) else none

theorem readAt_eq_some {buffer : Bytes} {offset count : ℕ}
    (h : offset + count ≤ buffer.length) :
    readAt buffer offset count = some (slice offset count buffer) := if_pos h

theorem readAt_eq_some_iff {buffer bs : Bytes} {offset count : ℕ} :
    readAt buffer offset count = some bs ↔
      offset + count ≤ buffer.length ∧ slice offset count buffer = bs := by
  unfold readAt
  by_cases h : offset + count ≤ buffer.length
  · simp [h]
  · simp [h]

/-- `sizeof(AvbDescriptor)`. -/
def sizeofDescriptor : UInt64 := 16

section

variable {β : Type}

/-- The loop of `avb_descriptor_foreach` from the pointer `p` on. -/
def foreachLoop (image : Bytes) (imageData descStart descEnd : UInt64) (f : β → ℕ → Bool × β)
    (p : UInt64) (userData : β) : Option (Bool × β) :=
  if p < descEnd then
    if p &&& 7 ≠ 0 then none
    else
      match readAt image ((p - imageData).toNat + 8) 8 with
      | none => none
      | some nbFollowing =>
          match _hsize : safeAdd sizeofDescriptor (be64toh nbFollowing) with
          | none => some (false, userData)
          | some nbTotal =>
              if nbTotal &&& 7 ≠ 0 then some (false, userData)
              else if nbTotal + p < descStart ∨ descEnd < nbTotal + p then
                some (false, userData)
              else
                match f userData (p - imageData).toNat with
                | (false, userData) => some (false, userData)
                | (true, userData) =>
                    -- Only now, after the call, is the sum checked for overflow.
                    match _hnext : safeAdd p nbTotal with
                    | none => some (false, userData)
                    | some next =>
                        foreachLoop image imageData descStart descEnd f next userData
  else some (true, userData)
termination_by descEnd.toNat - p.toNat
decreasing_by
  have hlt : p < descEnd := by assumption
  have hsum := safeAdd_eq_some _hsize
  have hmove := safeAdd_eq_some _hnext
  have hsixteen : sizeofDescriptor.toNat = 16 := rfl
  rw [UInt64.lt_iff_toNat_lt] at hlt
  omega

/-- `avb_descriptor_foreach(image_data, image_size, foreach_func, user_data)`; the address and
the function may be `NULL`. -/
def avbDescriptorForeach (imageData : UInt64) (image : Bytes)
    (foreachFunc : Option (β → ℕ → Bool × β)) (userData : β) : Option (Bool × β) :=
  if imageData = 0 then some (false, userData)
  else
    match foreachFunc with
    | none => some (false, userData)
    | some f =>
        if image.length < headerSize then some (false, userData)
        else if slice 0 4 image ≠ avbMagic then some (false, userData)
        else if imageData &&& 7 ≠ 0 then none
        else
          let header := toHostByteOrder image
          let imageEnd := imageData + UInt64.ofNat image.length
          let descStart := imageData + UInt64.ofNat headerSize +
            header.authenticationDataBlockSize + header.descriptorsOffset
          let descEnd := descStart + header.descriptorsSize
          if descStart < imageData ∨ imageEnd < descStart ∨ descEnd < imageData ∨
              imageEnd < descEnd ∨ descEnd < descStart then some (false, userData)
          else foreachLoop image imageData descStart descEnd f descStart userData

end

/-- `set_descriptors`; `count_descriptors` goes the same way. -/
def setDescriptors (descriptors : List ℕ) (descriptor : ℕ) : Bool × List ℕ :=
  (true, descriptors ++ [descriptor])

/-- `avb_descriptor_get_all`: whether the loop came to its end is not looked at. -/
def avbDescriptorGetAll (imageData : UInt64) (image : Bytes) : Option (List ℕ) :=
  (avbDescriptorForeach imageData image (some setDescriptors) []).map Prod.snd

/-! ## Records of the descriptors -/

/-- `AvbDescriptor`. -/
structure AvbDescriptor where
  tag : UInt64
  numBytesFollowing : UInt64
  deriving DecidableEq

/-- `avb_descriptor_validate_and_byteswap`. -/
def avbDescriptorValidateAndByteswap (src : Bytes) : Option AvbDescriptor :=
  let dest : AvbDescriptor := ⟨be64toh (slice 0 8 src), be64toh (slice 8 8 src)⟩
  if dest.numBytesFollowing &&& 0x07 ≠ 0 then none else some dest

/-- The fixed fields after the parent and the parts of the given lengths are contained in the
bytes following. -/
def partsContained (fixed : UInt64) (lengths : List UInt64) (following : UInt64) : Bool :=
  match lengths.foldlM safeAdd fixed with
  | none => false
  | some expectedSize => expectedSize ≤ following

/-- `avb_hash_descriptor_validate_and_byteswap` and its siblings: the parent is valid, has the
tag, and the parts are contained. -/
def validateParent (tag fixed : UInt64) (lengths : List UInt64) (src : Bytes) :
    Option AvbDescriptor := do
  let parent ← avbDescriptorValidateAndByteswap src
  if parent.tag ≠ tag then none
  else if partsContained fixed lengths parent.numBytesFollowing then some parent
  else none

structure AvbHashDescriptor where
  imageSize : UInt64
  hashAlgorithm : Bytes
  partitionNameLen : UInt32
  saltLen : UInt32
  digestLen : UInt32
  flags : UInt32
  deriving DecidableEq

namespace AvbHashDescriptor

/-- `sizeof(AvbHashDescriptor)`. -/
def size : ℕ := 132

def ofBytes (src : Bytes) : AvbHashDescriptor where
  imageSize := be64toh (slice 16 8 src)
  hashAlgorithm := slice 24 32 src
  partitionNameLen := be32toh (slice 56 4 src)
  saltLen := be32toh (slice 60 4 src)
  digestLen := be32toh (slice 64 4 src)
  flags := be32toh (slice 68 4 src)

def lengths (d : AvbHashDescriptor) : List UInt64 :=
  [d.partitionNameLen.toUInt64, d.saltLen.toUInt64, d.digestLen.toUInt64]

/-- `avb_hash_descriptor_validate_and_byteswap`. -/
def validateAndByteswap (src : Bytes) : Option AvbHashDescriptor :=
  let dest := ofBytes src
  (validateParent 2 116 dest.lengths src).map fun _ => dest

end AvbHashDescriptor

/-- `AvbHashtreeDescriptor`, with the fields that verifying a slot reads. -/
structure AvbHashtreeDescriptor where
  hashAlgorithm : Bytes
  partitionNameLen : UInt32
  saltLen : UInt32
  rootDigestLen : UInt32
  flags : UInt32
  deriving DecidableEq

namespace AvbHashtreeDescriptor

/-- `sizeof(AvbHashtreeDescriptor)`. -/
def size : ℕ := 180

def ofBytes (src : Bytes) : AvbHashtreeDescriptor where
  hashAlgorithm := slice 72 32 src
  partitionNameLen := be32toh (slice 104 4 src)
  saltLen := be32toh (slice 108 4 src)
  rootDigestLen := be32toh (slice 112 4 src)
  flags := be32toh (slice 116 4 src)

def lengths (d : AvbHashtreeDescriptor) : List UInt64 :=
  [d.partitionNameLen.toUInt64, d.saltLen.toUInt64, d.rootDigestLen.toUInt64]

/-- `avb_hashtree_descriptor_validate_and_byteswap`. -/
def validateAndByteswap (src : Bytes) : Option AvbHashtreeDescriptor :=
  let dest := ofBytes src
  (validateParent 1 164 dest.lengths src).map fun _ => dest

end AvbHashtreeDescriptor

structure AvbChainPartitionDescriptor where
  rollbackIndexLocation : UInt32
  partitionNameLen : UInt32
  publicKeyLen : UInt32
  deriving DecidableEq

namespace AvbChainPartitionDescriptor

/-- `sizeof(AvbChainPartitionDescriptor)`. -/
def size : ℕ := 92

def ofBytes (src : Bytes) : AvbChainPartitionDescriptor where
  rollbackIndexLocation := be32toh (slice 16 4 src)
  partitionNameLen := be32toh (slice 20 4 src)
  publicKeyLen := be32toh (slice 24 4 src)

def lengths (d : AvbChainPartitionDescriptor) : List UInt64 :=
  [d.partitionNameLen.toUInt64, d.publicKeyLen.toUInt64]

/-- `avb_chain_partition_descriptor_validate_and_byteswap`, which alone of its siblings looks at
one more field. -/
def validateAndByteswap (src : Bytes) : Option AvbChainPartitionDescriptor :=
  let dest := ofBytes src
  if dest.rollbackIndexLocation < 1 then none
  else (validateParent 4 76 dest.lengths src).map fun _ => dest

end AvbChainPartitionDescriptor

structure AvbKernelCmdlineDescriptor where
  flags : UInt32
  kernelCmdlineLength : UInt32
  deriving DecidableEq

namespace AvbKernelCmdlineDescriptor

/-- `sizeof(AvbKernelCmdlineDescriptor)`. -/
def size : ℕ := 24

def ofBytes (src : Bytes) : AvbKernelCmdlineDescriptor where
  flags := be32toh (slice 16 4 src)
  kernelCmdlineLength := be32toh (slice 20 4 src)

/-- `avb_kernel_cmdline_descriptor_validate_and_byteswap`. -/
def validateAndByteswap (src : Bytes) : Option AvbKernelCmdlineDescriptor :=
  let dest := ofBytes src
  (validateParent 3 8 [dest.kernelCmdlineLength.toUInt64] src).map fun _ => dest

end AvbKernelCmdlineDescriptor

/-! ## Which sections are gone through -/

/-- What a visitor makes of descriptors in turn, until it says stop. -/
def visit {β : Type} (f : β → ℕ → Bool × β) : List ℕ → β → Bool × β
  | [], userData => (true, userData)
  | offset :: offsets, userData =>
      match f userData offset with
      | (false, userData) => (false, userData)
      | (true, userData) => visit f offsets userData

theorem visit_setDescriptors (offsets descriptors : List ℕ) :
    visit setDescriptors offsets descriptors = (true, descriptors ++ offsets) := by
  induction offsets generalizing descriptors with
  | nil => rw [visit, List.append_nil]
  | cons offset offsets ih =>
      rw [visit, setDescriptors]
      simp only
      rw [ih, List.append_assoc]
      rfl

/-- `num_bytes_following` of the descriptor at an offset. -/
def followingAt (image : Bytes) (offset : ℕ) : ℕ :=
  (be64toh (slice (offset + 8) 8 image)).toNat

/-- The descriptors from an offset on lie one after the other, up to `stop`. -/
inductive Frames (image : Bytes) (stop : ℕ) : ℕ → List ℕ → Prop
  | nil : Frames image stop stop []
  | cons {offset : ℕ} {offsets : List ℕ} (aligned : offset % 8 = 0)
      (multiple : followingAt image offset % 8 = 0)
      (fits : offset + 16 + followingAt image offset ≤ stop)
      (rest : Frames image stop (offset + 16 + followingAt image offset) offsets) :
      Frames image stop offset (offset :: offsets)

theorem and_seven_eq_zero_iff {n : UInt64} : n &&& 7 = 0 ↔ n.toNat % 8 = 0 := by
  rw [← UInt64.toNat_inj, UInt64.toNat_and]
  exact Iff.of_eq (congrArg (· = 0) (Nat.and_two_pow_sub_one_eq_mod n.toNat 3))

section

variable {β : Type} {image : Bytes} {imageData : UInt64} {start stop : ℕ}

theorem toNat_pointer (hptr : imageData.toNat + image.length < 2 ^ 64) {offset : ℕ}
    (hoffset : offset ≤ image.length) :
    (imageData + UInt64.ofNat offset).toNat = imageData.toNat + offset := by
  rw [UInt64.toNat_add, UInt64.toNat_ofNat_of_lt' (by simp only [UInt64.size]; omega),
    Nat.mod_eq_of_lt (by omega)]

theorem pointer_sub (hptr : imageData.toNat + image.length < 2 ^ 64) {offset : ℕ}
    (hoffset : offset ≤ image.length) :
    (imageData + UInt64.ofNat offset - imageData).toNat = offset := by
  have h : imageData + UInt64.ofNat offset - imageData = UInt64.ofNat offset := by
    rw [UInt64.add_comm, UInt64.add_sub_cancel]
  rw [h, UInt64.toNat_ofNat_of_lt' (by simp only [UInt64.size]; omega)]

/-- What one turn does at a descriptor that ends before `stop`. -/
theorem foreachLoop_cons (hptr : imageData.toNat + image.length < 2 ^ 64)
    (haligned : imageData.toNat % 8 = 0) (hstop : stop ≤ image.length) {offset : ℕ}
    (hstart : start ≤ offset) (hoffset : offset % 8 = 0)
    (hmultiple : followingAt image offset % 8 = 0)
    (hfits : offset + 16 + followingAt image offset ≤ stop) (f : β → ℕ → Bool × β)
    (userData : β) :
    foreachLoop image imageData (imageData + UInt64.ofNat start) (imageData + UInt64.ofNat stop) f
        (imageData + UInt64.ofNat offset) userData =
      match f userData offset with
      | (false, userData) => some (false, userData)
      | (true, userData) =>
          foreachLoop image imageData (imageData + UInt64.ofNat start)
            (imageData + UInt64.ofNat stop) f
            (imageData + UInt64.ofNat (offset + 16 + followingAt image offset)) userData := by
  have hp := toNat_pointer hptr (by omega : offset ≤ image.length)
  have hend := toNat_pointer hptr hstop
  have hbegin := toNat_pointer hptr (by omega : start ≤ image.length)
  have hsub := pointer_sub hptr (by omega : offset ≤ image.length)
  have hsum : safeAdd sizeofDescriptor (be64toh (slice (offset + 8) 8 image)) =
      some (sizeofDescriptor + be64toh (slice (offset + 8) 8 image)) ∧
      (sizeofDescriptor + be64toh (slice (offset + 8) 8 image)).toNat =
        16 + followingAt image offset :=
    safeAdd_of_lt (by
      change 16 + followingAt image offset < _
      omega)
  have hmove : safeAdd (imageData + UInt64.ofNat offset)
      (sizeofDescriptor + be64toh (slice (offset + 8) 8 image)) =
        some (imageData + UInt64.ofNat (offset + 16 + followingAt image offset)) := by
    obtain ⟨hadd, hval⟩ := safeAdd_of_lt (a := imageData + UInt64.ofNat offset)
      (b := sizeofDescriptor + be64toh (slice (offset + 8) 8 image)) (by omega)
    have hnext := toNat_pointer hptr
      (by omega : offset + 16 + followingAt image offset ≤ image.length)
    rw [hadd]
    congr 1
    apply UInt64.toNat_inj.mp
    omega
  rw [foreachLoop, if_pos (by rw [UInt64.lt_iff_toNat_lt]; omega),
    if_neg (not_not.mpr (and_seven_eq_zero_iff.mpr (by omega))), hsub,
    readAt_eq_some (by omega)]
  simp only
  split
  · next hnone =>
      rw [hsum.1] at hnone
      cases hnone
  next nbTotal hsome =>
  obtain rfl := Option.some.inj (hsum.1.symm.trans hsome)
  have htotal : (sizeofDescriptor + be64toh (slice (offset + 8) 8 image) +
      (imageData + UInt64.ofNat offset)).toNat =
        imageData.toNat + (offset + 16 + followingAt image offset) := by
    rw [UInt64.toNat_add, Nat.mod_eq_of_lt (by omega)]
    omega
  rw [if_neg (not_not.mpr (and_seven_eq_zero_iff.mpr (by omega))),
    if_neg (by
      rw [UInt64.lt_iff_toNat_lt, UInt64.lt_iff_toNat_lt]
      omega)]
  cases hf : f userData offset with
  | mk go userData =>
      cases go with
      | false => rfl
      | true =>
          simp only
          split
          · next hnone =>
              rw [hmove] at hnone
              cases hnone
          · next next hnext =>
              obtain rfl := Option.some.inj (hmove.symm.trans hnext)
              rfl

/-- The loop visits descriptors that lie one after the other. -/
theorem foreachLoop_of_frames (hptr : imageData.toNat + image.length < 2 ^ 64)
    (haligned : imageData.toNat % 8 = 0) (hstop : stop ≤ image.length) {offset : ℕ}
    {offsets : List ℕ} (hstart : start ≤ offset) (h : Frames image stop offset offsets)
    (f : β → ℕ → Bool × β) (userData : β) :
    foreachLoop image imageData (imageData + UInt64.ofNat start) (imageData + UInt64.ofNat stop) f
        (imageData + UInt64.ofNat offset) userData = some (visit f offsets userData) := by
  induction h generalizing userData with
  | nil =>
      rw [foreachLoop, if_neg (UInt64.lt_irrefl _), visit]
  | cons hoffset hmultiple hfits _ ih =>
      rw [foreachLoop_cons hptr haligned hstop hstart hoffset hmultiple hfits, visit]
      rcases f userData _ with ⟨go, userData⟩
      cases go with
      | false => rfl
      | true => exact ih (by omega) userData

/-- The loop comes to its end only where descriptors lie one after the other. -/
theorem frames_of_foreachLoop (hptr : imageData.toNat + image.length < 2 ^ 64)
    (haligned : imageData.toNat % 8 = 0) (hstop : stop ≤ image.length) {offset : ℕ}
    (hstart : start ≤ offset) (hoffset : offset ≤ stop) {descriptors descriptors' : List ℕ}
    (h : foreachLoop image imageData (imageData + UInt64.ofNat start)
      (imageData + UInt64.ofNat stop) setDescriptors (imageData + UInt64.ofNat offset)
        descriptors = some (true, descriptors')) :
    ∃ offsets, descriptors' = descriptors ++ offsets ∧ Frames image stop offset offsets := by
  induction hn : stop - offset using Nat.strong_induction_on generalizing offset descriptors with
  | _ n ih =>
  subst hn
  have hp := toNat_pointer hptr (by omega : offset ≤ image.length)
  have hend := toNat_pointer hptr hstop
  have hbegin := toNat_pointer hptr (by omega : start ≤ image.length)
  have hsub := pointer_sub hptr (by omega : offset ≤ image.length)
  by_cases hlt : offset < stop
  · have h' := h
    rw [foreachLoop, if_pos (by rw [UInt64.lt_iff_toNat_lt]; omega)] at h'
    split at h'
    · cases h'
    next hmod =>
    have hmod' := and_seven_eq_zero_iff.mp (not_not.mp hmod)
    rw [hsub] at h'
    split at h'
    · cases h'
    next nbFollowing hread =>
    obtain ⟨hread, rfl⟩ := readAt_eq_some_iff.mp hread
    split at h'
    · cases h'
    next nbTotal hsum =>
    have hsum' : nbTotal.toNat = 16 + followingAt image offset := safeAdd_eq_some hsum
    split at h'
    · cases h'
    next hmultiple =>
    have hmultiple' := and_seven_eq_zero_iff.mp (not_not.mp hmultiple)
    split at h'
    · cases h'
    next hinside =>
    simp only [setDescriptors] at h'
    split at h'
    · cases h'
    next next hnext =>
    have hnext' := safeAdd_eq_some hnext
    have hnextLt := next.toNat_lt
    have hfits : offset + 16 + followingAt image offset ≤ stop := by
      rw [not_or, UInt64.lt_iff_toNat_lt, UInt64.lt_iff_toNat_lt, UInt64.toNat_add,
        Nat.mod_eq_of_lt (by omega)] at hinside
      omega
    rw [foreachLoop_cons hptr haligned hstop hstart (by omega) (by omega) hfits] at h
    obtain ⟨offsets, hoffsets, hframes⟩ := ih _ (by omega) (by omega) hfits h rfl
    refine ⟨offset :: offsets, ?_, .cons (by omega) (by omega) hfits hframes⟩
    rw [hoffsets, List.append_assoc]
    rfl
  · obtain rfl : offset = stop := by omega
    rw [foreachLoop, if_neg (UInt64.lt_irrefl _)] at h
    obtain ⟨-, rfl⟩ := Prod.mk.inj (Option.some.inj h)
    exact ⟨[], (List.append_nil _).symm, .nil⟩

end

/-- The offset of the descriptors; the sum may wrap, since no check of the header looks at
`descriptors_offset`. -/
def descriptorsStart (header : AvbVBMetaImageHeader) : ℕ :=
  (UInt64.ofNat headerSize + header.authenticationDataBlockSize + header.descriptorsOffset).toNat

def descriptorsStop (header : AvbVBMetaImageHeader) : ℕ :=
  descriptorsStart header + header.descriptorsSize.toNat

/-- An image that `avb_descriptor_foreach` starts on. -/
structure HasDescriptors (image : Bytes) : Prop where
  length : headerSize ≤ image.length
  magic : slice 0 4 image = avbMagic
  inside : descriptorsStop (toHostByteOrder image) ≤ image.length

section

variable {β : Type} {image : Bytes} {imageData : UInt64}

theorem avbDescriptorForeach_eq (hptr : imageData.toNat + image.length < 2 ^ 64)
    (hne : imageData ≠ 0) (haligned : imageData.toNat % 8 = 0) (h : HasDescriptors image)
    (f : β → ℕ → Bool × β) (userData : β) :
    avbDescriptorForeach imageData image (some f) userData =
      foreachLoop image imageData
        (imageData + UInt64.ofNat (descriptorsStart (toHostByteOrder image)))
        (imageData + UInt64.ofNat (descriptorsStop (toHostByteOrder image))) f
        (imageData + UInt64.ofNat (descriptorsStart (toHostByteOrder image))) userData := by
  have hinside := h.inside
  have hstop : descriptorsStop (toHostByteOrder image) =
    descriptorsStart (toHostByteOrder image) + (toHostByteOrder image).descriptorsSize.toNat := rfl
  have hstart : imageData + UInt64.ofNat headerSize +
      (toHostByteOrder image).authenticationDataBlockSize +
        (toHostByteOrder image).descriptorsOffset =
      imageData + UInt64.ofNat (descriptorsStart (toHostByteOrder image)) := by
    rw [descriptorsStart, UInt64.ofNat_toNat]
    ac_rfl
  have hend : imageData + UInt64.ofNat (descriptorsStart (toHostByteOrder image)) +
      (toHostByteOrder image).descriptorsSize =
      imageData + UInt64.ofNat (descriptorsStop (toHostByteOrder image)) := by
    rw [hstop, UInt64.ofNat_add, UInt64.ofNat_toNat]
    ac_rfl
  have hstartNat := toNat_pointer hptr
    (by omega : descriptorsStart (toHostByteOrder image) ≤ image.length)
  have hendNat := toNat_pointer hptr hinside
  have hlast := toNat_pointer hptr (le_refl image.length)
  unfold avbDescriptorForeach
  rw [if_neg hne]
  simp only
  rw [if_neg (Nat.not_lt.mpr h.length), if_neg (not_not.mpr h.magic),
    if_neg (not_not.mpr (and_seven_eq_zero_iff.mpr haligned))]
  simp only [hstart, hend]
  rw [if_neg]
  simp only [UInt64.lt_iff_toNat_lt]
  omega

/-- Where the descriptors are not inside of the image, none is visited. -/
theorem hasDescriptors_of_foreach (hptr : imageData.toNat + image.length < 2 ^ 64)
    {f : β → ℕ → Bool × β} {userData userData' : β}
    (h : avbDescriptorForeach imageData image (some f) userData = some (true, userData')) :
    imageData ≠ 0 ∧ imageData.toNat % 8 = 0 ∧ HasDescriptors image := by
  unfold avbDescriptorForeach at h
  split at h
  · cases h
  next hne =>
  simp only at h
  split at h
  · cases h
  next hlength =>
  split at h
  · cases h
  next hmagic =>
  split at h
  · cases h
  next haligned =>
  split at h
  · cases h
  next hinside =>
  refine ⟨hne, and_seven_eq_zero_iff.mp (not_not.mp haligned), by omega, not_not.mp hmagic, ?_⟩
  have hlast := toNat_pointer hptr (le_refl image.length)
  have hstart : imageData + UInt64.ofNat headerSize +
      (toHostByteOrder image).authenticationDataBlockSize +
        (toHostByteOrder image).descriptorsOffset =
      imageData + (UInt64.ofNat headerSize +
        (toHostByteOrder image).authenticationDataBlockSize +
          (toHostByteOrder image).descriptorsOffset) := by ac_rfl
  rw [hstart] at hinside
  have hsum := UInt64.toNat_add imageData (UInt64.ofNat headerSize +
    (toHostByteOrder image).authenticationDataBlockSize + (toHostByteOrder image).descriptorsOffset)
  have hend := UInt64.toNat_add (imageData + (UInt64.ofNat headerSize +
    (toHostByteOrder image).authenticationDataBlockSize +
      (toHostByteOrder image).descriptorsOffset)) (toHostByteOrder image).descriptorsSize
  have hsize := (toHostByteOrder image).descriptorsSize.toNat_lt
  have hoffset := (UInt64.ofNat headerSize + (toHostByteOrder image).authenticationDataBlockSize +
    (toHostByteOrder image).descriptorsOffset).toNat_lt
  simp only [not_or, UInt64.lt_iff_toNat_lt] at hinside
  unfold descriptorsStop descriptorsStart
  omega

/-- The descriptors of an image are gone through to the end exactly where they lie one after
the other in the section, and then each of them is visited. -/
theorem avbDescriptorForeach_set_iff (hptr : imageData.toNat + image.length < 2 ^ 64)
    {offsets : List ℕ} :
    avbDescriptorForeach imageData image (some setDescriptors) [] = some (true, offsets) ↔
      imageData ≠ 0 ∧ imageData.toNat % 8 = 0 ∧ HasDescriptors image ∧
        Frames image (descriptorsStop (toHostByteOrder image))
          (descriptorsStart (toHostByteOrder image)) offsets := by
  constructor
  · intro h
    obtain ⟨hne, haligned, hdesc⟩ := hasDescriptors_of_foreach hptr h
    rw [avbDescriptorForeach_eq hptr hne haligned hdesc] at h
    obtain ⟨offsets', hoffsets, hframes⟩ := frames_of_foreachLoop hptr haligned hdesc.inside
      (le_refl _) (Nat.le_add_right _ _) h
    obtain rfl : offsets = offsets' := hoffsets
    exact ⟨hne, haligned, hdesc, hframes⟩
  · rintro ⟨hne, haligned, hdesc, hframes⟩
    rw [avbDescriptorForeach_eq hptr hne haligned hdesc,
      foreachLoop_of_frames hptr haligned hdesc.inside (le_refl _) hframes, visit_setDescriptors]
    rfl

end

/-- With an offset that makes the sum wrap, a descriptor is found inside of the header. -/
example : avbDescriptorForeach 4096 (avbMagic ++ List.replicate 92 0 ++
    List.replicate 7 255 ++ [240] ++ List.replicate 7 0 ++ [16] ++ List.replicate 144 0)
      (some setDescriptors) [] = some (true, [240]) :=
  (avbDescriptorForeach_set_iff (by decide +kernel)).mpr
    ⟨by decide, by decide, ⟨by decide +kernel, by decide +kernel, by decide +kernel⟩,
      .cons (by decide) (by decide +kernel) (by decide +kernel) (.nil)⟩

/-! ## Sections as bytes -/

/-- The bytes of one descriptor: the tag, the size of the rest, and the rest, of a multiple of
eight bytes. -/
structure Framed (record : Bytes) : Prop where
  header : 16 ≤ record.length
  multiple : record.length % 8 = 0
  following : (be64toh (slice 8 8 record)).toNat = record.length - 16

/-- Where records start that are written one after the other. -/
def starts : ℕ → List Bytes → List ℕ
  | _, [] => []
  | offset, record :: records => offset :: starts (offset + record.length) records

theorem followingAt_append {before record after : Bytes} (h : Framed record) :
    followingAt (before ++ record ++ after) before.length = record.length - 16 := by
  have hslice : slice (before.length + 8) 8 (before ++ record ++ after) = slice 8 8 record := by
    rw [List.append_assoc, slice_append_right (by omega), Nat.add_sub_cancel_left,
      slice_append_left (by have := h.header; omega)]
  rw [followingAt, hslice, h.following]

theorem frames_of_framed {image : Bytes} {records : List Bytes} (h : ∀ r ∈ records, Framed r)
    {before after : Bytes} (himage : image = before ++ records.flatten ++ after)
    (haligned : records ≠ [] → before.length % 8 = 0) :
    Frames image (before.length + records.flatten.length) before.length
      (starts before.length records) := by
  induction records generalizing before with
  | nil => exact .nil
  | cons record records ih =>
      have hrecord := h record List.mem_cons_self
      have hheader := hrecord.header
      have hmultiple := hrecord.multiple
      have hfollowing : followingAt image before.length = record.length - 16 := by
        rw [himage, List.flatten_cons, ← List.append_assoc, List.append_assoc _ _ after]
        exact followingAt_append hrecord
      have hparts : image = before ++ record ++ records.flatten ++ after := by
        rw [himage, List.flatten_cons, ← List.append_assoc]
      have hrest := ih (fun r hr => h r (List.mem_cons_of_mem record hr)) hparts
        (fun _ => by
          have := haligned (List.cons_ne_nil _ _)
          rw [List.length_append]
          omega)
      have hnext : before.length + 16 + followingAt image before.length =
          (before ++ record).length := by
        rw [hfollowing, List.length_append]
        omega
      have hstop : before.length + (record :: records).flatten.length =
          (before ++ record).length + records.flatten.length := by
        rw [List.flatten_cons, List.length_append, List.length_append]
        omega
      have hlength : before.length + record.length = (before ++ record).length :=
        List.length_append.symm
      rw [starts, hstop, hlength]
      refine .cons (haligned (List.cons_ne_nil _ _)) (by omega) ?_ (hnext ▸ hrest)
      rw [hnext]
      exact Nat.le_add_right _ _

theorem framed_of_frames {image : Bytes} {stop offset : ℕ} {offsets : List ℕ}
    (h : Frames image stop offset offsets) (hstop : stop ≤ image.length) :
    ∃ records, (∀ r ∈ records, Framed r) ∧ offset ≤ stop ∧
      slice offset (stop - offset) image = records.flatten ∧
      (records ≠ [] → offset % 8 = 0) ∧ offsets = starts offset records := by
  induction h with
  | nil =>
      refine ⟨[], by simp, le_refl _, ?_, by simp, rfl⟩
      rw [Nat.sub_self]
      exact List.take_zero
  | @cons offset offsets haligned hmultiple hfits _ ih =>
      obtain ⟨records, hframed, hle, hbytes, -, hoffsets⟩ := ih
      have hlength : (slice offset (16 + followingAt image offset) image).length =
          16 + followingAt image offset := length_slice (by omega)
      have hfollowing : slice 8 8 (slice offset (16 + followingAt image offset) image) =
          slice (offset + 8) 8 image := by
        unfold slice
        rw [List.drop_take, List.take_take, List.drop_drop, Nat.min_eq_left (by omega)]
      refine ⟨slice offset (16 + followingAt image offset) image :: records, ?_, by omega, ?_,
        fun _ => haligned, ?_⟩
      · intro r hr
        rcases List.mem_cons.mp hr with rfl | hr
        · refine ⟨by omega, by omega, ?_⟩
          rw [hfollowing, hlength, Nat.add_sub_cancel_left]
          rfl
        · exact hframed r hr
      · rw [List.flatten_cons, ← hbytes]
        unfold slice
        have hsplit : stop - offset = (16 + followingAt image offset) +
            (stop - (offset + 16 + followingAt image offset)) := by omega
        rw [hsplit, List.take_add, List.drop_drop, ← Nat.add_assoc]
      · rw [starts, hlength, hoffsets, ← Nat.add_assoc]

/-- What `avb_descriptor_foreach` goes through to the end is a section of whole descriptors,
each of a multiple of eight bytes, and those are what it visits. The section starts at a sum
that is taken modulo `2 ^ 64`. -/
theorem avbDescriptorForeach_set_iff_framed (imageData : UInt64) (image : Bytes)
    (hptr : imageData.toNat + image.length < 2 ^ 64) (offsets : List ℕ) :
    avbDescriptorForeach imageData image (some setDescriptors) [] = some (true, offsets) ↔
      imageData ≠ 0 ∧ imageData.toNat % 8 = 0 ∧ HasDescriptors image ∧
        ∃ records, (∀ r ∈ records, Framed r) ∧
          slice (descriptorsStart (toHostByteOrder image))
            (toHostByteOrder image).descriptorsSize.toNat image = records.flatten ∧
          (records ≠ [] → descriptorsStart (toHostByteOrder image) % 8 = 0) ∧
          offsets = starts (descriptorsStart (toHostByteOrder image)) records := by
  have hsize : descriptorsStop (toHostByteOrder image) -
      descriptorsStart (toHostByteOrder image) =
        (toHostByteOrder image).descriptorsSize.toNat := Nat.add_sub_cancel_left _ _
  rw [avbDescriptorForeach_set_iff hptr]
  refine and_congr_right fun _ => and_congr_right fun _ => and_congr_right fun hdesc => ?_
  constructor
  · intro h
    obtain ⟨records, hframed, -, hbytes, haligned, hoffsets⟩ := framed_of_frames h hdesc.inside
    rw [hsize] at hbytes
    exact ⟨records, hframed, hbytes, haligned, hoffsets⟩
  · rintro ⟨records, hframed, hbytes, haligned, rfl⟩
    have hinside := hdesc.inside
    have hstop : descriptorsStop (toHostByteOrder image) =
      descriptorsStart (toHostByteOrder image) +
        (toHostByteOrder image).descriptorsSize.toNat := rfl
    have hbefore : (image.take (descriptorsStart (toHostByteOrder image))).length =
        descriptorsStart (toHostByteOrder image) := List.length_take_of_le (by omega)
    have hlength : records.flatten.length = (toHostByteOrder image).descriptorsSize.toNat := by
      rw [← hbytes, length_slice (by omega)]
    have hparts : image = image.take (descriptorsStart (toHostByteOrder image)) ++
        records.flatten ++ image.drop (descriptorsStop (toHostByteOrder image)) := by
      rw [← hbytes, slice, List.append_assoc, hstop, ← List.drop_drop, List.take_append_drop,
        List.take_append_drop]
    have hframes := frames_of_framed hframed hparts (by rw [hbefore]; exact haligned)
    rw [hbefore, hlength] at hframes
    exact hframes

/-- An image with one empty descriptor behind the header. -/
theorem avbDescriptorForeach_set_oneDescriptor :
    let image : Bytes := avbMagic ++ List.replicate 107 0 ++ [16] ++ List.replicate 160 0
    avbDescriptorForeach 4096 image (some setDescriptors) [] = some (true, [256]) := by
  intro image
  refine (avbDescriptorForeach_set_iff_framed 4096 image (by decide +kernel) [256]).mpr
    ⟨by decide, rfl, ⟨by decide +kernel, by decide +kernel, by decide +kernel⟩,
      [List.replicate 16 0], ?_, by decide +kernel, fun _ => by decide +kernel,
      by decide +kernel⟩
  intro r hr
  obtain rfl := List.mem_singleton.mp hr
  exact ⟨by decide, by decide, by decide +kernel⟩

end Libavb

end BootImageEditor
