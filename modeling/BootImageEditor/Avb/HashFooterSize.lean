import BootImageEditor.Avb.HashFooterAgain

/-!
# The sizes of a hash footer

The size check leaves 64 KiB for the vbmeta and a block for the footer, so the chunk of zeros
between them is never negative. It is computed as a `Long` and allocated with `toInt()`, which is
exact below 2 GiB only.
-/

namespace BootImageEditor

open Codec Fallible Struct3 Helper

namespace Avb

/-- `MAX_VBMETA_SIZE`. -/
def maxVbmetaSize : ℕ := 64 * 1024

/-- The sizes that are allocated are those that were computed, and the parts fill the
partition. -/
structure SizesExact (partitionSize : Int64) (image : Bytes) (hf : HashFooter) : Prop where
  padding_nonneg : 0 ≤ hf.imgPaddingNeeded.toInt
  padding_le : hf.imgPaddingNeeded.toInt ≤ 4095
  dontCare_nonneg : 0 ≤ hf.dontCareChunkSize.toInt
  padding_toInt : hf.imgPaddingNeeded.toInt32.toInt = hf.imgPaddingNeeded.toInt
  dontCare_toInt : hf.dontCareChunkSize.toInt32.toInt = hf.dontCareChunkSize.toInt
  sum_eq : (image.length : ℤ) + hf.imgPaddingNeeded.toInt + hf.vbmetaBlobWithPadding.length +
    hf.dontCareChunkSize.toInt + hf.footerBlobWithPadding.length = partitionSize.toInt

/-- What is left of the partition between the padded vbmeta and the footer block. -/
def unused (partitionSize : Int64) (image blob : Bytes) : ℤ :=
  partitionSize.toInt - roundUp 4096 image.length - roundUp 4096 blob.length - 4096

theorem dvd_of_mod_blockSize {partitionSize : Int64} (h : partitionSize % blockSize = 0) :
    partitionSize.toInt % 4096 = 0 := by
  have hmod := congrArg Int64.toInt h
  have hblock : blockSize.toInt = 4096 := by decide
  rw [Int64.toInt_mod, hblock] at hmod
  have hzero : (0 : Int64).toInt = 0 := by decide
  rw [hzero] at hmod
  exact Int.emod_eq_zero_of_dvd (Int.dvd_of_tmod_eq_zero hmod)

/-- A checked image and a vbmeta of the maximal size leave a chunk that is not negative. -/
theorem unused_nonneg {partitionSize : Int64} {checked image blob : Bytes}
    (hfile : checked.length < 2 ^ 63) (hcheck : imageSizeCheck partitionSize checked = .ok ())
    (hle : image.length ≤ checked.length) (hblob : blob.length ≤ maxVbmetaSize) :
    0 ≤ unused partitionSize image blob := by
  obtain ⟨hmod, hroom⟩ := (imageSizeCheck_eq_ok_iff hfile).mp hcheck
  have hblocks := dvd_of_mod_blockSize hmod
  have himg : roundUp 4096 image.length ≤ (partitionSize.toInt - 69632).toNat :=
    roundUp_le (by norm_num) (by omega) (by omega)
  have hvbmeta : roundUp 4096 blob.length ≤ maxVbmetaSize :=
    roundUp_le (by norm_num) hblob (by decide)
  unfold unused
  unfold maxVbmetaSize at hvbmeta
  omega

/-- The sizes of the parts that are appended. -/
theorem sizes_placed {vm : Jvm} {crypto : Crypto} {info : AVBInfo} {partitionSize : Int64}
    {image : Bytes} {p : Packed vm crypto info} {footer : Footer} {hf : HashFooter}
    (hplaced : hf = placed partitionSize image p footer)
    (hunused : 0 ≤ unused partitionSize image p.blob) :
    hf.imgPaddingNeeded.toInt = gap 4096 image.length ∧
      hf.imgPaddingNeeded.toInt32.toInt = gap 4096 image.length ∧
      hf.vbmetaBlobWithPadding.length = roundUp 4096 p.blob.length ∧
      hf.dontCareChunkSize.toInt = unused partitionSize image p.blob ∧
      hf.footerBlobWithPadding.length = 4096 := by
  subst hplaced
  have hgap := gap_lt (by norm_num : 0 < 4096) image.length
  have hblock : blockSize.toInt = 4096 := by decide
  have hpart := partitionSize.toInt_lt
  have hdef : unused partitionSize image p.blob = partitionSize.toInt -
    roundUp 4096 image.length - roundUp 4096 p.blob.length - 4096 := rfl
  have hrounds : (Int64.ofNat (roundUp 4096 image.length + roundUp 4096 p.blob.length)).toInt =
      ((roundUp 4096 image.length + roundUp 4096 p.blob.length : ℕ) : ℤ) :=
    Int64.toInt_ofNat_of_lt (by omega)
  refine ⟨Int64.toInt_ofNat_of_lt (by omega), toInt_toInt32_ofNat (by omega), ?_, ?_, ?_⟩
  · rw [placed, List.length_append, length_zeros, add_gap (by norm_num)]
  · simp only [placed]
    rw [Int64.toInt_sub, Int64.toInt_sub, hrounds, hblock, Int.bmod_sub_bmod, Int.bmod_def]
    split <;> omega
  · rw [placed, List.length_append, length_zeros, Footer.length_layout]

/-- With a checked image and a vbmeta of at most `MAX_VBMETA_SIZE` bytes the sizes are exact
when the chunk of zeros is below 2 GiB, and only then. -/
theorem sizesExact_iff {vm : Jvm} {crypto : Crypto} {partitionSize : Int64}
    {partitionName : KString} {info updated packed : AVBInfo} {checked image blob : Bytes}
    {hf : HashFooter} (hfile : checked.length < 2 ^ 63)
    (hcheck : imageSizeCheck partitionSize checked = .ok ())
    (htrimmed : trimmed vm checked = .ok image)
    (hupdated : updateHashDescriptor vm crypto image partitionName info = .ok updated)
    (hpacked : packVbMeta vm crypto updated = .ok (blob, packed))
    (hblob : blob.length ≤ maxVbmetaSize)
    (h : hashFooter vm crypto partitionSize partitionName info image = .ok hf) :
    SizesExact partitionSize image hf ↔ unused partitionSize image blob < 2 ^ 31 := by
  have hle := length_trimmed_le htrimmed
  have hroom := ((imageSizeCheck_eq_ok_iff hfile).mp hcheck).2
  have hpart := partitionSize.toInt_lt
  obtain ⟨q, hplaced⟩ := (hashFooter_eq_ok_iff (by omega)).mp h
  obtain rfl : q.updated = updated := Except.ok.inj (q.updated_eq.symm.trans hupdated)
  obtain rfl : q.packed.blob = blob := by
    have hsame := packVbMeta_eq_ok_iff.mpr ⟨q.packed, rfl⟩
    exact congrArg Prod.fst (Except.ok.inj (hsame.symm.trans hpacked))
  have hunused := unused_nonneg hfile hcheck hle hblob
  obtain ⟨hpad, hpadInt, hvbmeta, hcare, hfooter⟩ :=
    sizes_placed hplaced hunused
  have hgap := add_gap (by norm_num : 0 < 4096) image.length
  have hlt := roundUp_lt (by norm_num : 0 < 4096) image.length
  have hdef : unused partitionSize image q.packed.blob = partitionSize.toInt -
    roundUp 4096 image.length - roundUp 4096 q.packed.blob.length - 4096 := rfl
  constructor
  · intro hexact
    have hint := hexact.dontCare_toInt
    rw [hcare] at hint
    rw [← hint]
    exact Int32.toInt_lt _
  · intro hsmall
    refine ⟨by omega, by omega, by omega, hpadInt.trans hpad.symm, ?_, ?_⟩
    · rw [Int64.toInt_toInt32, hcare, Int.bmod_def]
      split <;> omega
    · rw [hpad, hvbmeta, hcare, hfooter]
      omega

/-- The parts for the sample image, with a vbmeta of one block. -/
theorem exists_prepared_sample :
    ∃ q : Prepared ⟨true, .littleEndian⟩ sampleCrypto (units "boot") sampleInfo (zeros 100),
      roundUp 4096 q.packed.blob.length = 4096 := by
  have hsize : (hashFooter ⟨true, .littleEndian⟩ sampleCrypto 73728 (units "boot") sampleInfo
      (zeros 100)).map (fun hf => hf.vbmetaBlobWithPadding.length) = .ok 4096 := by
    decide +kernel
  cases hhf : hashFooter ⟨true, .littleEndian⟩ sampleCrypto 73728 (units "boot") sampleInfo
      (zeros 100) with
  | error e =>
      rw [hhf] at hsize
      cases hsize
  | ok hf =>
      rw [hhf] at hsize
      obtain ⟨q, rfl⟩ := (hashFooter_eq_ok_iff (by decide)).mp hhf
      refine ⟨q, ?_⟩
      rw [← add_gap (by norm_num), ← length_zeros (gap 4096 _), ← List.length_append]
      exact Except.ok.inj hsize

theorem length_blob_of_block {blob : Bytes} (h : roundUp 4096 blob.length = 4096) :
    blob.length ≤ maxVbmetaSize := by
  have hle := le_roundUp (by norm_num : 0 < 4096) blob.length
  unfold maxVbmetaSize
  omega

theorem sizesExact_iff_sample :
    ∃ (blob : Bytes) (hf : HashFooter),
      hashFooter ⟨true, .littleEndian⟩ sampleCrypto 73728 (units "boot") sampleInfo
        (zeros 100) = .ok hf ∧
      (SizesExact 73728 (zeros 100) hf ↔ unused 73728 (zeros 100) blob < 2 ^ 31) := by
  obtain ⟨q, hblock⟩ := exists_prepared_sample
  have hhf := (@hashFooter_eq_ok_iff _ sampleCrypto 73728 _ _ (zeros 100) _ (by decide)).mpr
    ⟨q, rfl⟩
  exact ⟨q.packed.blob, _, hhf, @sizesExact_iff _ _ _ _ _ _ _ (zeros 100) _ _ _ (by decide)
    rfl (by decide +kernel) q.updated_eq (packVbMeta_eq_ok_iff.mpr ⟨q.packed, rfl⟩)
    (length_blob_of_block hblock) hhf⟩

/-- In a partition of 2 GiB and 18 blocks the chunk of zeros does not fit an `Int`. -/
theorem sizes_not_exact :
    ∃ (blob : Bytes) (updated packed : AVBInfo) (hf : HashFooter),
      imageSizeCheck 2147557376 (zeros 100) = .ok () ∧
      trimmed ⟨true, .littleEndian⟩ (zeros 100) = .ok (zeros 100) ∧
      updateHashDescriptor ⟨true, .littleEndian⟩ sampleCrypto (zeros 100) (units "boot")
        sampleInfo = .ok updated ∧
      packVbMeta ⟨true, .littleEndian⟩ sampleCrypto updated = .ok (blob, packed) ∧
      blob.length ≤ maxVbmetaSize ∧
      hashFooter ⟨true, .littleEndian⟩ sampleCrypto 2147557376 (units "boot") sampleInfo
        (zeros 100) = .ok hf ∧
      hf.dontCareChunkSize.toInt32.toInt < 0 ∧ hf.dontCareChunkSize.toInt = 2147545088 := by
  obtain ⟨q, hblock⟩ := exists_prepared_sample
  have hhf := (@hashFooter_eq_ok_iff _ sampleCrypto 2147557376 _ _ (zeros 100) _ (by decide)).mpr
    ⟨q, rfl⟩
  have himg : roundUp 4096 (zeros 100).length = 4096 := by decide
  have hpart : (2147557376 : Int64).toInt = 2147557376 := by decide
  have hunused : unused 2147557376 (zeros 100) q.packed.blob = 2147545088 := by
    rw [unused, himg, hblock, hpart]
    norm_num
  have hplaced := @sizes_placed _ _ _ 2147557376 (zeros 100) q.packed q.footer _ rfl (by omega)
  have hcare := hplaced.2.2.2.1
  rw [hunused] at hcare
  refine ⟨q.packed.blob, q.updated, _, _, rfl, by decide +kernel, q.updated_eq,
    packVbMeta_eq_ok_iff.mpr ⟨q.packed, rfl⟩, length_blob_of_block hblock, hhf, ?_, hcare⟩
  rw [Int64.toInt_toInt32, hcare]
  decide

end Avb

end BootImageEditor
