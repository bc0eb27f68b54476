import BootImageEditor.Avb.HashFooterImage

/-!
# Adding a hash footer twice

The comment in `addHashFooter` says that trimming makes it idempotent. A second run starts
from a file of the partition size, and the size is checked before the file is trimmed.
-/

namespace BootImageEditor

open Codec Fallible Struct3 Helper

namespace Avb

/-- The same functions with another source of random bytes. -/
def Crypto.withUrandom (crypto : Crypto) (urandom : ℕ → Bytes) : Crypto :=
  { crypto with urandom := urandom }

/-- A salt that is there is kept, so no random bytes are read. -/
theorem HashDescriptor.update_withUrandom {d : HashDescriptor} (hsalt : d.salt ≠ [])
    (crypto : Crypto) (urandom : ℕ → Bytes) (image : Bytes) :
    d.update (crypto.withUrandom urandom) image = d.update crypto image := by
  unfold HashDescriptor.update
  simp only [if_neg hsalt, Crypto.withUrandom]

/-- The descriptor that a run updates has a salt. -/
def SaltPreset (partitionName : KString) (info : AVBInfo) : Prop :=
  ∀ aux, info.auxBlob = some aux → (removeNamed partitionName aux.hashDescriptors {}).2.salt ≠ []

theorem updateHashDescriptor_withUrandom {partitionName : KString} {info : AVBInfo}
    (hsalt : SaltPreset partitionName info) (vm : Jvm) (crypto : Crypto) (urandom : ℕ → Bytes)
    (image : Bytes) :
    updateHashDescriptor vm (crypto.withUrandom urandom) image partitionName info =
      updateHashDescriptor vm crypto image partitionName info := by
  unfold updateHashDescriptor
  cases haux : info.auxBlob with
  | none => rfl
  | some aux =>
      simp only [HashDescriptor.update_withUrandom (hsalt aux haux)]

theorem packVbMeta_withUrandom (vm : Jvm) (crypto : Crypto) (urandom : ℕ → Bytes)
    (info : AVBInfo) :
    packVbMeta vm (crypto.withUrandom urandom) info = packVbMeta vm crypto info := rfl

theorem hashFooter_withUrandom {partitionName : KString} {info : AVBInfo}
    (hsalt : SaltPreset partitionName info) (vm : Jvm) (crypto : Crypto) (urandom : ℕ → Bytes)
    (partitionSize : Int64) (image : Bytes) :
    hashFooter vm (crypto.withUrandom urandom) partitionSize partitionName info image =
      hashFooter vm crypto partitionSize partitionName info image := by
  unfold hashFooter
  simp only [updateHashDescriptor_withUrandom hsalt, packVbMeta_withUrandom]

namespace Prepared

variable {vm : Jvm} {crypto : Crypto} {partitionName : KString} {info : AVBInfo} {image : Bytes}

/-- The footer leads back to the image. -/
theorem trimmed_withFooter (q : Prepared vm crypto partitionName info image)
    (partitionSize : Int64) (hfile : image.length < 2 ^ 63) :
    trimmed vm (q.withFooter partitionSize) = .ok image := by
  have hlength := q.length_withFooter partitionSize
  have hmagic : q.placedFooter.layout.take 4 = Footer.magicBytes := by
    rw [Footer.layout, Footer.fields, List.flatten_cons]
    exact List.take_left' rfl
  have hread : readFooter vm (q.withFooter partitionSize) = .ok (some q.placedFooter) := by
    rw [readFooter_eq vm (by omega), q.lastBytes_withFooter, if_pos hmagic, Footer.decoded_layout]
  have hsize : q.placedFooter.originalImageSize.toInt64.toInt = image.length := by
    have hint : q.placedFooter.originalImageSize.toInt64 = fileLength image := rfl
    rw [hint, toInt_fileLength hfile]
  rw [trimmed, hread, ok_bind]
  simp only [truncate]
  rw [hsize, if_neg (by omega), Int.toNat_natCast, q.take_withFooter]

/-- The size of the zeros as it is computed, before `toInt()`. -/
def dontCareChunkSize (q : Prepared vm crypto partitionName info image)
    (partitionSize : Int64) : ℤ :=
  partitionSize.toInt - (roundUp 4096 image.length + roundUp 4096 q.packed.blob.length) - 4096

theorem dontCare_eq (q : Prepared vm crypto partitionName info image) (partitionSize : Int64) :
    q.dontCare partitionSize = (q.dontCareChunkSize partitionSize).bmod (2 ^ 32) := by
  have hblock : blockSize.toInt = 4096 := by decide
  have hdvd : 2 ^ 32 ∣ 2 ^ 64 := by decide
  have hsize : Int64.size = 2 ^ 64 := rfl
  rw [dontCare, Int64.toInt_toInt32, Int64.toInt_sub, Int64.toInt_sub, Int64.toInt_ofNat', hblock,
    hsize, Int.sub_bmod_bmod, Int.bmod_sub_bmod, Int.bmod_bmod_of_dvd hdvd, dontCareChunkSize]
  norm_cast

/-- The size that is computed is not too small for 32 bits. -/
theorem dontCareChunkSize_gt (q : Prepared vm crypto partitionName info image)
    {partitionSize : Int64} (hroom : (image.length : ℤ) + 69632 ≤ partitionSize.toInt) :
    -2 ^ 31 < q.dontCareChunkSize partitionSize := by
  have hfits := q.fits
  have hmax : intMax < 2 ^ 31 := by decide
  have himg := roundUp_lt (by norm_num : 0 < 4096) image.length
  unfold dontCareChunkSize
  omega

/-- The bytes of the file come from what is appended. -/
theorem withFooter_eq_of_placed {crypto' : Crypto} {partitionSize : Int64}
    {q : Prepared vm crypto partitionName info image}
    {q' : Prepared vm crypto' partitionName info image}
    (h : placed partitionSize image q.packed q.footer =
      placed partitionSize image q'.packed q'.footer) :
    q'.dontCare partitionSize = q.dontCare partitionSize ∧
      q'.withFooter partitionSize = q.withFooter partitionSize := by
  have hcare := congrArg HashFooter.dontCareChunkSize h
  have hfile := congrArg (fun hf : HashFooter => image ++ zeros (gap 4096 image.length) ++
    hf.vbmetaBlobWithPadding ++ zeros hf.dontCareChunkSize.toInt32.toInt.toNat ++
      hf.footerBlobWithPadding) h
  exact ⟨congrArg (fun size : Int64 => size.toInt32.toInt) hcare.symm, hfile.symm⟩

/-- Two ways to prepare the same image compute the same size. -/
theorem dontCareChunkSize_unique (q q' : Prepared vm crypto partitionName info image)
    (partitionSize : Int64) (hsize : image.length + 4096 < 2 ^ 63) :
    q'.dontCareChunkSize partitionSize = q.dontCareChunkSize partitionSize := by
  have hq : hashFooter vm crypto partitionSize partitionName info image =
      .ok (placed partitionSize image q.packed q.footer) :=
    (hashFooter_eq_ok_iff hsize).mpr ⟨q, rfl⟩
  have hq' : hashFooter vm crypto partitionSize partitionName info image =
      .ok (placed partitionSize image q'.packed q'.footer) :=
    (hashFooter_eq_ok_iff hsize).mpr ⟨q', rfl⟩
  have hplaced := Except.ok.inj (hq.symm.trans hq')
  have hlength := congrArg (fun hf : HashFooter => hf.vbmetaBlobWithPadding.length) hplaced
  simp only [placed, List.length_append, length_zeros, add_gap (by norm_num : 0 < 4096)] at hlength
  rw [dontCareChunkSize, dontCareChunkSize, hlength]

/-- The file that a run leaves does not exceed the partition. -/
theorem length_withFooter_le (q : Prepared vm crypto partitionName info image)
    {partitionSize : Int64} (hroom : (image.length : ℤ) + 69632 ≤ partitionSize.toInt)
    (hpos : 0 ≤ q.dontCare partitionSize) :
    ((q.withFooter partitionSize).length : ℤ) ≤ partitionSize.toInt := by
  have hlength := q.length_withFooter partitionSize
  have hcare := q.dontCare_eq partitionSize
  have hgt := q.dontCareChunkSize_gt hroom
  have hdef : q.dontCareChunkSize partitionSize = partitionSize.toInt -
    (roundUp 4096 image.length + roundUp 4096 q.packed.blob.length) - 4096 := rfl
  rw [Int.bmod_def] at hcare
  split at hcare <;> omega

/-- The size check of the next run: the file fills the partition unless the zeros before
the footer were cut to 32 bits. -/
theorem imageSizeCheck_withFooter_iff (q : Prepared vm crypto partitionName info image)
    {partitionSize : Int64} (hmod : partitionSize % blockSize = 0)
    (hroom : (image.length : ℤ) + 69632 ≤ partitionSize.toInt)
    (hpos : 0 ≤ q.dontCare partitionSize)
    (hassert : vm.assertionsEnabled = true →
      partitionSize = fileLength (q.withFooter partitionSize)) :
    imageSizeCheck partitionSize (q.withFooter partitionSize) = .ok () ↔
      vm.assertionsEnabled = false ∧ 2 ^ 31 ≤ q.dontCareChunkSize partitionSize := by
  have hle := q.length_withFooter_le hroom hpos
  have hlt := partitionSize.toInt_lt
  have hlength := q.length_withFooter partitionSize
  have hcare := q.dontCare_eq partitionSize
  have hgt := q.dontCareChunkSize_gt hroom
  have hdef : q.dontCareChunkSize partitionSize = partitionSize.toInt -
    (roundUp 4096 image.length + roundUp 4096 q.packed.blob.length) - 4096 := rfl
  rw [imageSizeCheck_eq_ok_iff (by omega)]
  rw [Int.bmod_def] at hcare
  constructor
  · rintro ⟨-, hfits⟩
    refine ⟨?_, ?_⟩
    · by_contra hvm
      have hfull := length_eq_of_fileLength (hassert (by simpa using hvm)) (by omega) (by omega)
      omega
    · by_contra hsmall
      split at hcare <;> omega
  · rintro ⟨-, hbig⟩
    refine ⟨hmod, ?_⟩
    split at hcare <;> omega

end Prepared

/-- After a run that returned, a second run with the same arguments returns and leaves the
file as it is only when the zeros before the footer were cut to 32 bits, which the closing
assertion does not let through: otherwise the file fills the partition and is refused. -/
theorem addHashFooter_again_iff (vm : Jvm) (crypto : Crypto) (partitionSize : Int64)
    (partitionName : KString) (info info' : AVBInfo) (image out : Bytes)
    (hfile : image.length < 2 ^ 63) (hsalt : SaltPreset partitionName info)
    (h : (addHashFooter vm crypto partitionSize partitionName info).run image =
      (.ok info', out)) :
    (∀ urandom, ∃ info'',
        (addHashFooter vm (crypto.withUrandom urandom) partitionSize partitionName info).run out =
          (.ok info'', out)) ↔
      vm.assertionsEnabled = false ∧
        ∃ (I : Bytes) (q : Prepared vm crypto partitionName info I),
          trimmed vm image = .ok I ∧ 2 ^ 31 ≤ q.dontCareChunkSize partitionSize := by
  obtain ⟨I, q, hcheck, htrimmed, hpos, rfl, hassert, -⟩ :=
    (run_addHashFooter_eq_ok_iff hfile).mp h
  obtain ⟨hmod, hfits⟩ := (imageSizeCheck_eq_ok_iff hfile).mp hcheck
  have htrimmedLe := length_trimmed_le htrimmed
  have hroom : (I.length : ℤ) + 69632 ≤ partitionSize.toInt := by omega
  have hle := q.length_withFooter_le hroom hpos
  have hlt := partitionSize.toInt_lt
  have hagain := q.imageSizeCheck_withFooter_iff hmod hroom hpos hassert
  constructor
  · intro hall
    obtain ⟨info'', hrun⟩ := hall crypto.urandom
    obtain ⟨I', q', hcheck', -⟩ :=
      (@run_addHashFooter_eq_ok_iff _ crypto partitionSize partitionName info _ _ _
        (by omega)).mp hrun
    obtain ⟨hvm, hbig⟩ := hagain.mp hcheck'
    exact ⟨hvm, I, q, htrimmed, hbig⟩
  · rintro ⟨hvm, I', q', htrimmed', hbig⟩ urandom
    obtain rfl := Except.ok.inj (htrimmed'.symm.trans htrimmed)
    rw [q.dontCareChunkSize_unique q' partitionSize (by omega)] at hbig
    have hhf : hashFooter vm (crypto.withUrandom urandom) partitionSize partitionName info I' =
        .ok (placed partitionSize I' q.packed q.footer) := by
      rw [hashFooter_withUrandom hsalt]
      exact (hashFooter_eq_ok_iff (by omega)).mpr ⟨q, rfl⟩
    obtain ⟨q₂, hplaced⟩ := (hashFooter_eq_ok_iff (by omega)).mp hhf
    obtain ⟨hcare₂, hfile₂⟩ := Prepared.withFooter_eq_of_placed hplaced
    refine ⟨_, (run_addHashFooter_eq_ok_iff (by omega)).mpr ⟨I', q₂, hagain.mpr ⟨hvm, hbig⟩,
      q.trimmed_withFooter partitionSize (by omega), by rw [hcare₂]; exact hpos, hfile₂.symm, ?_,
      rfl⟩⟩
    intro hvm'
    rw [hvm] at hvm'
    cases hvm'

/-- The sample run cannot be made again. -/
theorem addHashFooter_again_iff_applies :
    ∃ info' out, (addHashFooter ⟨true, .littleEndian⟩ sampleCrypto 73728 (units "boot")
        sampleInfo).run (zeros 100) = (.ok info', out) ∧
      ¬ ∀ urandom, ∃ info'', (addHashFooter ⟨true, .littleEndian⟩
        (sampleCrypto.withUrandom urandom) 73728 (units "boot") sampleInfo).run out =
          (.ok info'', out) := by
  obtain ⟨info', out, hrun⟩ := exists_run_sample
  have hsalt : SaltPreset (units "boot") sampleInfo := by
    intro aux haux
    obtain rfl := Option.some.inj haux
    decide
  refine ⟨info', out, hrun, ?_⟩
  intro hall
  cases ((addHashFooter_again_iff _ sampleCrypto _ _ sampleInfo info' (zeros 100) out (by decide)
    hsalt hrun).mp hall).1

/-- A second run on the file that the first one left is refused by the size check. -/
theorem addHashFooter_again_refused :
    ∃ info' out, (addHashFooter ⟨true, .littleEndian⟩ sampleCrypto 73728 (units "boot")
        sampleInfo).run (zeros 100) = (.ok info', out) ∧
      ∀ info'' out', (addHashFooter ⟨true, .littleEndian⟩ sampleCrypto 73728 (units "boot")
        sampleInfo).run out ≠ (.ok info'', out') := by
  obtain ⟨info', out, hrun⟩ := exists_run_sample
  refine ⟨info', out, hrun, ?_⟩
  intro info'' out' hrun'
  have hfile : (zeros 100).length < 2 ^ 63 := by decide
  obtain ⟨I, q, hcheck, htrimmed, hpos, rfl, hassert, -⟩ :=
    (run_addHashFooter_eq_ok_iff hfile).mp hrun
  obtain ⟨hmod, hfits⟩ := (imageSizeCheck_eq_ok_iff hfile).mp hcheck
  have hroom : (I.length : ℤ) + 69632 ≤ (73728 : Int64).toInt := by
    have hle := length_trimmed_le htrimmed
    omega
  have hle := q.length_withFooter_le hroom hpos
  have hlt := (73728 : Int64).toInt_lt
  obtain ⟨I', q', hcheck', -⟩ := (run_addHashFooter_eq_ok_iff (by omega)).mp hrun'
  cases ((q.imageSizeCheck_withFooter_iff hmod hroom hpos hassert).mp hcheck').1

end Avb

end BootImageEditor
