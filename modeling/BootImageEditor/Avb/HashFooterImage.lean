import BootImageEditor.Avb.HashFooter
import BootImageEditor.Avb.VbMetaParse

/-!
# The image with a hash footer

What `addHashFooter` leaves when it returns: the trimmed image, zeros up to a block, the
vbmeta blob filled up to a block, zeros, and a block that ends with the footer. The
blob encodes one hash descriptor of the partition, over the trimmed image.
-/

namespace BootImageEditor

open Codec Fallible Struct3 Helper

namespace Avb

/-! ## Descriptors of a partition -/

def named (partitionName : KString) (d : HashDescriptor) : Bool :=
  d.partitionName = partitionName

/-- `addHashFooter` removes every descriptor of the partition. -/
theorem removeNamed_fst (partitionName : KString) (hds : List HashDescriptor)
    (hd : HashDescriptor) :
    (removeNamed partitionName hds hd).1 = hds.filter fun d => !named partitionName d := by
  induction hds generalizing hd with
  | nil => rfl
  | cons d hds ih =>
      by_cases hname : d.partitionName = partitionName
      · simp [removeNamed, named, hname, ih]
      · simp [removeNamed, named, hname, ih]

/-- A hash descriptor of the partition. -/
def isNamed (partitionName : KString) : AnyDescriptor → Bool
  | .hash d => named partitionName d
  | _ => false

theorem filter_isNamed_descList (partitionName : KString) (aux : AuxBlob) :
    aux.descList.filter (isNamed partitionName) =
      (aux.hashDescriptors.filter (named partitionName)).map .hash := by
  have hhash : isNamed partitionName ∘ AnyDescriptor.hash = named partitionName := rfl
  simp only [AuxBlob.descList, List.filter_append, List.filter_map, hhash]
  simp [Function.comp_def, isNamed]

/-- The other descriptors depend on the other hash descriptors only. -/
theorem filter_not_isNamed_descList {partitionName : KString} {aux : AuxBlob}
    {hds : List HashDescriptor}
    (h : hds.filter (fun d => !named partitionName d) =
      aux.hashDescriptors.filter fun d => !named partitionName d) :
    ({ aux with hashDescriptors := hds } : AuxBlob).descList.filter
        (fun d => !isNamed partitionName d) =
      aux.descList.filter fun d => !isNamed partitionName d := by
  have hhash : (fun d => !isNamed partitionName d) ∘ AnyDescriptor.hash =
      fun d => !named partitionName d := rfl
  simp only [AuxBlob.descList, List.filter_append, List.filter_map, hhash, h]

/-- A returned section is made of the encodings of the descriptors. -/
theorem encodeLoop_eq_ok {vm : Jvm} {ds : List AnyDescriptor} {ret bs : Bytes}
    (h : AuxBlob.encodeLoop vm ds ret = .ok bs) :
    ∃ encodings, List.Forall₂ (fun d e => AnyDescriptor.encode vm d = .ok e) ds encodings ∧
      bs = ret ++ encodings.flatten := by
  induction ds generalizing ret with
  | nil =>
      cases h
      exact ⟨[], .nil, by simp⟩
  | cons d ds ih =>
      obtain ⟨e, he, h⟩ := bind_eq_ok.mp h
      obtain ⟨ret', hjoin, h⟩ := bind_eq_ok.mp h
      obtain ⟨encodings, hall, rfl⟩ := ih h
      obtain ⟨-, rfl⟩ := join_eq_ok_iff.mp hjoin
      exact ⟨e :: encodings, .cons he hall, by simp⟩

/-! ## The descriptor -/

theorem readBytes_eq_ok {image content : Bytes} (h : readBytes image = .ok content) :
    content = image := by
  unfold readBytes at h
  split at h
  · cases h
    rfl
  · cases h

/-- The updated hash descriptor: the size of the image and its digest under the salt. -/
theorem HashDescriptor.update_eq_ok {crypto : Crypto} {image : Bytes} {d d' : HashDescriptor}
    (h : d.update crypto image = .ok d') :
    ∃ hasher, pyAlg2java d.hashAlgorithm = .ok hasher ∧ d'.hashAlgorithm = d.hashAlgorithm ∧
      d'.partitionName = d.partitionName ∧ d'.imageSize = (fileLength image).toUInt64 ∧
      d'.digest = crypto.digest hasher (d'.salt ++ image) := by
  unfold HashDescriptor.update at h
  by_cases hsalt : d.salt = []
  · simp only [if_pos hsalt, ok_bind] at h
    obtain ⟨saltHasher, hsaltHasher, h⟩ := bind_eq_ok.mp h
    obtain ⟨hasher, hhasher, h⟩ := bind_eq_ok.mp h
    obtain ⟨content, hcontent, h⟩ := bind_eq_ok.mp h
    obtain rfl := readBytes_eq_ok hcontent
    cases h
    exact ⟨hasher, hhasher, rfl, rfl, rfl, rfl⟩
  · simp only [if_neg hsalt, ok_bind] at h
    obtain ⟨hasher, hhasher, h⟩ := bind_eq_ok.mp h
    obtain ⟨content, hcontent, h⟩ := bind_eq_ok.mp h
    obtain rfl := readBytes_eq_ok hcontent
    cases h
    exact ⟨hasher, hhasher, rfl, rfl, rfl, rfl⟩

/-- Only a descriptor of the partition has a hash algorithm, so one was there. -/
theorem removeNamed_snd (partitionName : KString) (hds : List HashDescriptor)
    (hd : HashDescriptor) :
    (removeNamed partitionName hds hd).2 = hd ∨
      (removeNamed partitionName hds hd).2.partitionName = partitionName := by
  induction hds generalizing hd with
  | nil => exact .inl rfl
  | cons d hds ih =>
      by_cases hname : d.partitionName = partitionName
      · have hcons : removeNamed partitionName (d :: hds) hd = removeNamed partitionName hds d := by
          rw [removeNamed, if_pos hname]
        rw [hcons]
        rcases ih d with heq | heq
        · rw [heq]
          exact .inr hname
        · exact .inr heq
      · have hcons : (removeNamed partitionName (d :: hds) hd).2 =
            (removeNamed partitionName hds hd).2 := by
          rw [removeNamed, if_neg hname]
        rw [hcons]
        exact ih hd

theorem updateHashDescriptor_eq_ok {vm : Jvm} {crypto : Crypto} {image : Bytes}
    {partitionName : KString} {info info' : AVBInfo}
    (h : updateHashDescriptor vm crypto image partitionName info = .ok info') :
    ∃ aux hd, info.auxBlob = some aux ∧ hd.partitionName = partitionName ∧
      hd.imageSize = (fileLength image).toUInt64 ∧
      (∃ hasher, pyAlg2java hd.hashAlgorithm = .ok hasher ∧
        hd.digest = crypto.digest hasher (hd.salt ++ image)) ∧
      info' = { info with auxBlob := some { aux with
        hashDescriptors :=
          (aux.hashDescriptors.filter fun d => !named partitionName d) ++ [hd] } } := by
  unfold updateHashDescriptor at h
  cases haux : info.auxBlob with
  | none =>
      rw [haux] at h
      cases h
  | some aux =>
      simp only [haux] at h
      obtain ⟨hd, hupdate, h⟩ := bind_eq_ok.mp h
      obtain ⟨bytes, -, h⟩ := bind_eq_ok.mp h
      cases h
      obtain ⟨hasher, hhasher, halg, hname, hsize, hdigest⟩ := HashDescriptor.update_eq_ok hupdate
      have hnamed : (removeNamed partitionName aux.hashDescriptors {}).2.partitionName =
          partitionName := by
        rcases removeNamed_snd partitionName aux.hashDescriptors {} with heq | heq
        · rw [heq] at hhasher
          cases hhasher
        · exact heq
      refine ⟨aux, hd.encoded, rfl, ?_, hsize, ⟨hasher, ?_, hdigest⟩, ?_⟩
      · exact hname.trans hnamed
      · have hencoded : hd.encoded.hashAlgorithm = hd.hashAlgorithm := rfl
        rw [hencoded, halg]
        exact hhasher
      · rw [← removeNamed_fst partitionName aux.hashDescriptors {}]

/-! ## What is appended -/

theorem toInt_fileLength {image : Bytes} (h : image.length < 2 ^ 63) :
    (fileLength image).toInt = image.length := Int64.toInt_ofNat_of_lt h

theorem toNat_toUInt64_ofNat {n : ℕ} (h : n < 2 ^ 64) : (Int64.ofNat n).toUInt64.toNat = n := by
  rw [Int64.toUInt64_ofNat', UInt64.toNat_ofNat_of_lt' h]

theorem toNat_uint64Size {bs : Bytes} (h : bs.length ≤ intMax) :
    (uint64Size bs).toNat = bs.length := by
  rw [uint64Size_eq h, UInt64.toNat_ofNat_of_lt']
  have hmax : intMax < UInt64.size := by decide
  omega

theorem toInt_toInt32_ofNat {n : ℕ} (h : n < 2 ^ 31) : (Int64.ofNat n).toInt32.toInt = n := by
  rw [Int64.toInt32_ofNat', Int32.toInt_ofNat_of_lt h]

/-- A file of the length that the closing assertion compares. -/
theorem length_eq_of_fileLength {partitionSize : Int64} {out : Bytes}
    (h : partitionSize = fileLength out) (hpos : 0 ≤ partitionSize.toInt)
    (hlt : out.length < 2 ^ 64) : (out.length : ℤ) = partitionSize.toInt := by
  have hint : (fileLength out).toInt = (out.length : ℤ).bmod (2 ^ 64) := Int64.toInt_ofNat
  rw [h, hint] at hpos ⊢
  rw [Int.bmod_def] at hpos ⊢
  split at hpos <;> omega

/-- A checked image leaves room for the metadata. -/
theorem imageSizeCheck_eq_ok_iff {partitionSize : Int64} {image : Bytes} {u : Unit}
    (hfile : image.length < 2 ^ 63) :
    imageSizeCheck partitionSize image = .ok u ↔
      partitionSize % blockSize = 0 ∧ (image.length : ℤ) + 69632 ≤ partitionSize.toInt := by
  have hmax : maxMetadataSize.toInt = 69632 := by decide
  unfold imageSizeCheck
  by_cases hsmall : partitionSize < maxMetadataSize
  · rw [if_pos hsmall]
    rw [Int64.lt_iff_toInt_lt, hmax] at hsmall
    constructor
    · intro h
      cases h
    · rintro ⟨-, hle⟩
      omega
  · rw [if_neg hsmall]
    by_cases hmod : partitionSize % blockSize ≠ 0
    · simp only [if_pos hmod]
      constructor
      · intro h
        cases h
      · rintro ⟨hzero, -⟩
        exact absurd hzero hmod
    · have hlarge : partitionSize - maxMetadataSize < fileLength image ↔
          ¬ (image.length : ℤ) + 69632 ≤ partitionSize.toInt := by
        rw [Int64.lt_iff_toInt_lt, toInt_fileLength hfile,
          Int64.toInt_sub_of_le _ _ (by decide) (Int64.not_lt.mp hsmall), hmax]
        omega
      simp only [if_neg hmod]
      by_cases hle : (image.length : ℤ) + 69632 ≤ partitionSize.toInt
      · rw [if_neg (fun h => hlarge.mp h hle)]
        exact iff_of_true rfl ⟨not_not.mp hmod, hle⟩
      · rw [if_pos (hlarge.mpr hle)]
        constructor
        · intro h
          cases h
        · rintro ⟨-, hle'⟩
          exact absurd hle' hle

/-- The length of an image, rounded up. -/
theorem imgPadding_eq {image : Bytes} (hsize : image.length + 4096 < 2 ^ 63) :
    roundToMultipleLong (fileLength image) 4096 - fileLength image =
      Int64.ofNat (gap 4096 image.length) := by
  have hle := le_roundUp (by norm_num : 0 < 4096) image.length
  have hround := roundToMultipleLong_ofNat (n := image.length) (by norm_num : 0 < 4096)
    (by omega) (by decide)
  have hint : (4096 : Int32) = Int32.ofNat 4096 := rfl
  rw [fileLength, hint, hround, ← Int64.ofNat_sub _ _ hle, gap]

theorem vbmetaOffset_eq (image : Bytes) :
    fileLength image + Int64.ofNat (gap 4096 image.length) =
      Int64.ofNat (roundUp 4096 image.length) := by
  rw [fileLength, ← Int64.ofNat_add, add_gap (by norm_num)]

theorem Packed.length_blob_le {vm : Jvm} {crypto : Crypto} {info : AVBInfo}
    (p : Packed vm crypto info) : p.blob.length ≤ intMax := by
  rw [p.length_blob]
  exact p.blob_fits

theorem paddingWith_blob {vm : Jvm} {bs : Bytes} (h : bs.length ≤ intMax) :
    paddingWith vm bs 4096 false = join [bs, zeros (gap 4096 bs.length)] := by
  have heq := @paddingWith_eq vm bs 4096 (by norm_num) (by decide) h false
  have hint : (4096 : UInt32) = UInt32.ofNat 4096 := rfl
  rw [hint, heq, if_neg (by decide)]

theorem paddingWith_footer {vm : Jvm} (footer : Footer) :
    paddingWith vm footer.layout 4096 true = .ok (zeros 4032 ++ footer.layout) := by
  have hsixtyFour : footer.layout.length ≤ intMax := by
    rw [Footer.length_layout]
    decide
  have heq := @paddingWith_eq vm footer.layout 4096 (by norm_num) (by decide) hsixtyFour true
  have hint : (4096 : UInt32) = UInt32.ofNat 4096 := rfl
  have hgap : gap 4096 64 = 4032 := by decide
  have hjoin : join [zeros 4032, footer.layout] = .ok [zeros 4032, footer.layout].flatten := by
    refine join_of_le ?_
    rw [List.flatten_cons, List.length_append, length_zeros, List.flatten_singleton,
      Footer.length_layout]
    decide
  rw [hint, heq, if_pos rfl, Footer.length_layout, hgap, hjoin]
  simp

/-- The footer for a blob that follows an image. -/
def placedFooter (image blob : Bytes) (footer : Footer) : Footer :=
  { footer with
    originalImageSize := (fileLength image).toUInt64
    vbMetaOffset := (Int64.ofNat (roundUp 4096 image.length)).toUInt64
    vbMetaSize := uint64Size blob }

/-- What is appended to an image, with the lengths rounded up. -/
def placed {vm : Jvm} {crypto : Crypto} {info : AVBInfo} (partitionSize : Int64) (image : Bytes)
    (p : Packed vm crypto info) (footer : Footer) : HashFooter where
  imgPaddingNeeded := Int64.ofNat (gap 4096 image.length)
  vbmetaBlobWithPadding := p.blob ++ zeros (gap 4096 p.blob.length)
  dontCareChunkSize := partitionSize -
    Int64.ofNat (roundUp 4096 image.length + roundUp 4096 p.blob.length) - blockSize
  footerBlobWithPadding := zeros 4032 ++ (placedFooter image p.blob footer).layout
  info := { p.info with footer := some (placedFooter image p.blob footer) }

/-- The parts that can be made for a trimmed image: the descriptor is updated, the vbmeta
packed, it fits an array with its padding, and there is a footer to fill. -/
structure Prepared (vm : Jvm) (crypto : Crypto) (partitionName : KString) (info : AVBInfo)
    (image : Bytes) where
  updated : AVBInfo
  packed : Packed vm crypto updated
  footer : Footer
  updated_eq : updateHashDescriptor vm crypto image partitionName info = .ok updated
  footer_eq : updated.footer = some footer
  fits : roundUp 4096 packed.blob.length ≤ intMax

/-- The part of `addHashFooter` after trimming returns when the parts can be made. -/
theorem hashFooter_eq_ok_iff {vm : Jvm} {crypto : Crypto} {partitionSize : Int64}
    {partitionName : KString} {info : AVBInfo} {image : Bytes} {hf : HashFooter}
    (hsize : image.length + 4096 < 2 ^ 63) :
    hashFooter vm crypto partitionSize partitionName info image = .ok hf ↔
      ∃ q : Prepared vm crypto partitionName info image,
        hf = placed partitionSize image q.packed q.footer := by
  have hpad := imgPadding_eq hsize
  have hoffset := vbmetaOffset_eq image
  have hflat : ∀ blob : Bytes,
      [blob, zeros (gap 4096 blob.length)].flatten = blob ++ zeros (gap 4096 blob.length) := by
    simp
  have hlength : ∀ blob : Bytes,
      (blob ++ zeros (gap 4096 blob.length)).length = roundUp 4096 blob.length := by
    intro blob
    rw [List.length_append, length_zeros, add_gap (by norm_num)]
  have hcare : ∀ blob : Bytes, roundUp 4096 blob.length ≤ intMax →
      partitionSize - (Int64.ofNat (roundUp 4096 image.length) +
        (int32Size (blob ++ zeros (gap 4096 blob.length))).toInt64) - 1 * blockSize =
      partitionSize - Int64.ofNat (roundUp 4096 image.length + roundUp 4096 blob.length) -
        blockSize := by
    intro blob hfits
    rw [toInt64_int32Size (by rw [hlength]; exact hfits), hlength, ← Int64.ofNat_add,
      Int64.one_mul]
  constructor
  · intro h
    obtain ⟨info', hinfo, h⟩ := bind_eq_ok.mp h
    obtain ⟨⟨blob, packed⟩, hpack, h⟩ := bind_eq_ok.mp h
    obtain ⟨p, hp⟩ := packVbMeta_eq_ok_iff.mp hpack
    cases hp
    obtain ⟨padded, hpadded, h⟩ := bind_eq_ok.mp h
    rw [paddingWith_blob p.length_blob_le] at hpadded
    obtain ⟨hfits, hpadded_eq⟩ := join_eq_ok_iff.mp hpadded
    rw [hflat] at hfits hpadded_eq
    have hroom : roundUp 4096 p.blob.length ≤ intMax := by
      rwa [hlength] at hfits
    have hfooter_eq : p.info.footer = info'.footer := rfl
    cases hfooter : info'.footer with
    | none =>
        simp only [hfooter_eq, hfooter] at h
        cases h
    | some footer =>
        simp only [hfooter_eq, hfooter, hpad, hoffset, hpadded_eq, hcare p.blob hroom,
          Footer.encode_eq, ok_bind, paddingWith_footer] at h
        injection h with hhf
        exact ⟨⟨info', p, footer, hinfo, hfooter, hroom⟩, hhf.symm⟩
  · rintro ⟨⟨info', p, footer, hinfo, hfooter, hroom⟩, rfl⟩
    have hpack : packVbMeta vm crypto info' = .ok (p.blob, p.info) :=
      packVbMeta_eq_ok_iff.mpr ⟨p, rfl⟩
    have hjoin : join [p.blob, zeros (gap 4096 p.blob.length)] =
        .ok (p.blob ++ zeros (gap 4096 p.blob.length)) :=
      join_eq_ok_iff.mpr ⟨by rw [hflat, hlength]; exact hroom, (hflat p.blob).symm⟩
    have hfooter_eq : p.info.footer = info'.footer := rfl
    unfold hashFooter
    simp only [hinfo, hpack, ok_bind, hpad, hoffset, paddingWith_blob p.length_blob_le, hjoin,
      hfooter_eq, hfooter, hcare p.blob hroom, Footer.encode_eq, paddingWith_footer]
    rfl

namespace Prepared

variable {vm : Jvm} {crypto : Crypto} {partitionName : KString} {info : AVBInfo} {image : Bytes}

/-- The image, the vbmeta after it, and their padding. -/
def withVbmeta (q : Prepared vm crypto partitionName info image) : Bytes :=
  image ++ zeros (gap 4096 image.length) ++
    (q.packed.blob ++ zeros (gap 4096 q.packed.blob.length))

/-- The size of the zeros before the last block, as `toInt()` gives it. -/
def dontCare (q : Prepared vm crypto partitionName info image) (partitionSize : Int64) : ℤ :=
  (partitionSize - Int64.ofNat (roundUp 4096 image.length + roundUp 4096 q.packed.blob.length) -
    blockSize).toInt32.toInt

def placedFooter (q : Prepared vm crypto partitionName info image) : Footer :=
  Avb.placedFooter image q.packed.blob q.footer

/-- The file with the zeros and the footer block. -/
def withFooter (q : Prepared vm crypto partitionName info image) (partitionSize : Int64) : Bytes :=
  q.withVbmeta ++ zeros (q.dontCare partitionSize).toNat ++ (zeros 4032 ++ q.placedFooter.layout)

theorem length_withFooter (q : Prepared vm crypto partitionName info image)
    (partitionSize : Int64) : (q.withFooter partitionSize).length =
      roundUp 4096 image.length + roundUp 4096 q.packed.blob.length +
        (q.dontCare partitionSize).toNat + 4096 := by
  have himg := add_gap (by norm_num : 0 < 4096) image.length
  have hblob := add_gap (by norm_num : 0 < 4096) q.packed.blob.length
  simp only [withFooter, withVbmeta, List.length_append, length_zeros, Footer.length_layout]
  omega

theorem take_withFooter (q : Prepared vm crypto partitionName info image)
    (partitionSize : Int64) : (q.withFooter partitionSize).take image.length = image := by
  simp only [withFooter, withVbmeta, List.append_assoc]
  exact List.take_left' rfl

theorem slice_withFooter (q : Prepared vm crypto partitionName info image)
    (partitionSize : Int64) :
    slice (roundUp 4096 image.length) q.packed.blob.length (q.withFooter partitionSize) =
      q.packed.blob := by
  have hoffset : (image ++ zeros (gap 4096 image.length)).length =
      roundUp 4096 image.length := by
    rw [List.length_append, length_zeros, add_gap (by norm_num)]
  have hparts : q.withFooter partitionSize = (image ++ zeros (gap 4096 image.length)) ++
      (q.packed.blob ++ (zeros (gap 4096 q.packed.blob.length) ++
        zeros (q.dontCare partitionSize).toNat ++ (zeros 4032 ++ q.placedFooter.layout))) := by
    simp only [withFooter, withVbmeta, List.append_assoc]
  rw [hparts]
  exact slice_middle _ _ _ hoffset rfl

theorem lastBytes_withFooter (q : Prepared vm crypto partitionName info image)
    (partitionSize : Int64) : lastBytes (q.withFooter partitionSize) = q.placedFooter.layout := by
  have hsixtyFour : q.placedFooter.layout.length = 64 := Footer.length_layout _
  rw [withFooter, ← List.append_assoc, lastBytes_append _ (by omega), lastBytes, hsixtyFour]
  exact List.drop_zero

end Prepared

/-! ## Appending -/

theorem byteArray_eq_ok_iff {size : Int32} {bs : Bytes} :
    byteArray size = .ok bs ↔ 0 ≤ size.toInt ∧ bs = zeros size.toInt.toNat := by
  unfold byteArray
  by_cases hneg : size.toInt < 0
  · rw [if_pos hneg]
    constructor
    · intro h
      cases h
    · rintro ⟨hpos, -⟩
      exact absurd hneg (by omega)
  · rw [if_neg hneg, Except.ok.injEq, eq_comm]
    exact ⟨fun h => ⟨by omega, h⟩, fun h => h.2⟩

/-- The padding of an image is less than a block. -/
theorem byteArray_imgPadding (image : Bytes) :
    byteArray (Int64.ofNat (gap 4096 image.length)).toInt32 =
      .ok (zeros (gap 4096 image.length)) := by
  have hlt := gap_lt (by norm_num : 0 < 4096) image.length
  have hgap : (Int64.ofNat (gap 4096 image.length)).toInt32.toInt = gap 4096 image.length :=
    toInt_toInt32_ofNat (by omega)
  refine byteArray_eq_ok_iff.mpr ⟨by omega, ?_⟩
  rw [hgap, Int.toNat_natCast]

theorem assert_eq_ok_iff {vm : Jvm} {p : Prop} [Decidable p] {u : Unit} :
    vm.assert p = .ok u ↔ (vm.assertionsEnabled = true → p) := by
  rw [Jvm.assert_eq_ok_iff, decide_eq_true_iff]
  constructor
  · rintro (h | h) hvm
    · exact h
    · rw [hvm] at h
      cases h
  · intro h
    by_cases hvm : vm.assertionsEnabled = true
    · exact .inl (h hvm)
    · exact .inr (by simpa using hvm)

/-- Appending returns when the size of the zeros is not negative and the lengths add up. -/
theorem run_appendHashFooter_eq_ok_iff {vm : Jvm} {crypto : Crypto} {partitionName : KString}
    {info : AVBInfo} {partitionSize : Int64} {image out : Bytes} {u : PUnit}
    (q : Prepared vm crypto partitionName info image) :
    (appendHashFooter vm partitionSize (placed partitionSize image q.packed q.footer)).run image =
        (.ok u, out) ↔
      0 ≤ q.dontCare partitionSize ∧ out = q.withFooter partitionSize ∧
        (vm.assertionsEnabled = true → partitionSize = fileLength out) := by
  constructor
  · intro h
    obtain ⟨imgPadding, s₁, h₁, h⟩ := Durable.run_bind_eq_ok.mp h
    obtain ⟨himg, rfl⟩ := Durable.run_lift_eq_ok.mp h₁
    obtain rfl := Except.ok.inj (himg.symm.trans (byteArray_imgPadding image))
    obtain ⟨u₂, s₂, h₂, h⟩ := Durable.run_bind_eq_ok.mp h
    have hs₂ := Durable.run_update_eq_ok.mp h₂
    cases hs₂
    obtain ⟨u₃, s₃, h₃, h⟩ := Durable.run_bind_eq_ok.mp h
    have hs₃ := Durable.run_update_eq_ok.mp h₃
    cases hs₃
    obtain ⟨dontCare, s₄, h₄, h⟩ := Durable.run_bind_eq_ok.mp h
    obtain ⟨hdont, rfl⟩ := Durable.run_lift_eq_ok.mp h₄
    obtain ⟨hpos, rfl⟩ := byteArray_eq_ok_iff.mp hdont
    obtain ⟨u₅, s₅, h₅, h⟩ := Durable.run_bind_eq_ok.mp h
    have hs₅ := Durable.run_update_eq_ok.mp h₅
    cases hs₅
    obtain ⟨u₆, s₆, h₆, h⟩ := Durable.run_bind_eq_ok.mp h
    have hs₆ := Durable.run_update_eq_ok.mp h₆
    cases hs₆
    rw [Durable.run_get_bind] at h
    obtain ⟨hassert, rfl⟩ := Durable.run_lift_eq_ok.mp h
    exact ⟨hpos, rfl, assert_eq_ok_iff.mp hassert⟩
  · rintro ⟨hpos, rfl, hassert⟩
    have himg := byteArray_imgPadding image
    refine Durable.run_bind_eq_ok.mpr ⟨_, image, Durable.run_lift_eq_ok.mpr ⟨himg, rfl⟩, ?_⟩
    refine Durable.run_bind_eq_ok.mpr ⟨⟨⟩, _, Durable.run_update_eq_ok.mpr rfl, ?_⟩
    refine Durable.run_bind_eq_ok.mpr ⟨⟨⟩, _, Durable.run_update_eq_ok.mpr rfl, ?_⟩
    refine Durable.run_bind_eq_ok.mpr ⟨zeros (q.dontCare partitionSize).toNat, _,
      Durable.run_lift_eq_ok.mpr ⟨byteArray_eq_ok_iff.mpr ⟨hpos, rfl⟩, rfl⟩, ?_⟩
    refine Durable.run_bind_eq_ok.mpr ⟨⟨⟩, _, Durable.run_update_eq_ok.mpr rfl, ?_⟩
    refine Durable.run_bind_eq_ok.mpr ⟨⟨⟩, _, Durable.run_update_eq_ok.mpr rfl, ?_⟩
    rw [Durable.run_get_bind]
    exact Durable.run_lift_eq_ok.mpr ⟨assert_eq_ok_iff.mpr hassert, rfl⟩

theorem length_trimmed_le {vm : Jvm} {image I : Bytes} (h : trimmed vm image = .ok I) :
    I.length ≤ image.length := by
  obtain ⟨footer, -, h⟩ := bind_eq_ok.mp h
  cases footer with
  | none =>
      cases h
      exact le_rfl
  | some footer =>
      simp only [truncate] at h
      split at h
      · cases h
      · cases h
        rw [List.length_take]
        exact Nat.min_le_right _ _

/-! ## The image that is left -/

/-- The descriptors in the blob: one hash descriptor of the partition, over the image,
and the others in their order. -/
structure DescribesImage (vm : Jvm) (crypto : Crypto) (partitionName : KString) (image : Bytes)
    (before after : List AnyDescriptor) (desc : Bytes) : Prop where
  encoded : ∃ encodings,
    List.Forall₂ (fun d e => AnyDescriptor.encode vm d = .ok e) after encodings ∧
      desc = encodings.flatten
  one : ∃ (d : HashDescriptor) (hasher : KString),
    after.filter (isNamed partitionName) = [.hash d] ∧ d.imageSize.toNat = image.length ∧
      pyAlg2java d.hashAlgorithm = .ok hasher ∧
      d.digest = crypto.digest hasher (d.salt ++ image)
  others : after.filter (fun d => !isNamed partitionName d) =
    before.filter fun d => !isNamed partitionName d

/-- The descriptors start after the authentication data. -/
theorem Packed.slice_desc_blob {vm : Jvm} {crypto : Crypto} {info : AVBInfo}
    (p : Packed vm crypto info) :
    slice (256 + p.auth.length) p.desc.length p.blob = p.desc := by
  have hstart : (p.filled.layout ++ p.auth).length = 256 + p.auth.length := by
    rw [List.length_append, p.length_header]
  have hblob : p.blob = (p.filled.layout ++ p.auth) ++ p.auxBytes := by
    simp [Packed.blob]
  rw [hblob, slice_append_right (by rw [hstart]), hstart, Nat.sub_self]
  exact p.slices_auxBytes.1

/-- What `addHashFooter` promises of the file it leaves, for the trimmed image. -/
structure Verifiable (vm : Jvm) (crypto : Crypto) (partitionSize : Int64)
    (partitionName : KString) (aux : AuxBlob) (image out : Bytes) : Prop where
  length : (out.length : ℤ) = partitionSize.toInt
  content : out.take image.length = image
  vbmeta : ∃ (info : AVBInfo) (p : Packed vm crypto info) (footer : Footer),
    slice (roundUp 4096 image.length) p.blob.length out = p.blob ∧
      slice (256 + p.auth.length) p.desc.length p.blob = p.desc ∧
      (roundUp 4096 image.length + roundUp 4096 p.blob.length : ℤ) ≤
        partitionSize.toInt - 4096 ∧
      Footer.ofStream vm (.byteArrayInputStream (lastBytes out)) = .ok footer ∧
      footer.originalImageSize.toNat = image.length ∧
      footer.vbMetaOffset.toNat = roundUp 4096 image.length ∧
      footer.vbMetaSize.toNat = p.blob.length ∧
      DescribesImage vm crypto partitionName image aux.sortedDescriptors
        p.aux.sortedDescriptors p.desc

theorem describesImage_updated {vm : Jvm} {crypto : Crypto} {image : Bytes}
    {partitionName : KString} {info info' : AVBInfo} (hfile : image.length < 2 ^ 63)
    (h : updateHashDescriptor vm crypto image partitionName info = .ok info')
    (p : Packed vm crypto info') :
    ∃ aux, info.auxBlob = some aux ∧
      DescribesImage vm crypto partitionName image aux.sortedDescriptors
        p.aux.sortedDescriptors p.desc := by
  obtain ⟨aux, hd, haux, hname, hsize, ⟨hasher, hhasher, hdigest⟩, rfl⟩ :=
    updateHashDescriptor_eq_ok h
  have haux_eq : p.aux = { aux with hashDescriptors :=
      (aux.hashDescriptors.filter fun d => !named partitionName d) ++ [hd] } :=
    (Option.some.inj p.aux_eq).symm
  have hnamed : named partitionName hd = true := by simpa [named] using hname
  have hlength : hd.imageSize.toNat = image.length := by
    rw [hsize, fileLength, toNat_toUInt64_ofNat (by omega)]
  obtain ⟨encodings, hall, hdesc⟩ := encodeLoop_eq_ok p.desc_eq
  refine ⟨aux, haux, ⟨encodings, hall, by simpa using hdesc⟩,
    ⟨hd, hasher, ?_, hlength, hhasher, hdigest⟩, ?_⟩
  · rw [AuxBlob.sortedDescriptors, filter_sortBy, haux_eq, filter_isNamed_descList]
    have hone : ((aux.hashDescriptors.filter fun d => !named partitionName d) ++ [hd]).filter
        (named partitionName) = [hd] := by
      rw [List.filter_append, List.filter_filter]
      simp [hnamed]
    rw [hone]
    rfl
  · have hkeep : ((aux.hashDescriptors.filter fun d => !named partitionName d) ++ [hd]).filter
        (fun d => !named partitionName d) =
          aux.hashDescriptors.filter fun d => !named partitionName d := by
      rw [List.filter_append, List.filter_filter]
      simp [hnamed]
    simp only [AuxBlob.sortedDescriptors, filter_sortBy]
    rw [haux_eq, filter_not_isNamed_descList hkeep]

/-- A run that returns: the image fits, it is trimmed, the parts are made and appended. -/
theorem run_addHashFooter_eq_ok_iff {vm : Jvm} {crypto : Crypto} {partitionSize : Int64}
    {partitionName : KString} {info info' : AVBInfo} {image out : Bytes}
    (hfile : image.length < 2 ^ 63) :
    (addHashFooter vm crypto partitionSize partitionName info).run image = (.ok info', out) ↔
      ∃ (I : Bytes) (q : Prepared vm crypto partitionName info I),
        imageSizeCheck partitionSize image = .ok () ∧ trimmed vm image = .ok I ∧
        0 ≤ q.dontCare partitionSize ∧ out = q.withFooter partitionSize ∧
        (vm.assertionsEnabled = true → partitionSize = fileLength out) ∧
        info' = { q.packed.info with footer := some q.placedFooter } := by
  have hsize : ∀ {I : Bytes}, imageSizeCheck partitionSize image = .ok () →
      trimmed vm image = .ok I → I.length + 4096 < 2 ^ 63 := by
    intro I hcheck htrimmed
    have hle := length_trimmed_le htrimmed
    have hroom := ((imageSizeCheck_eq_ok_iff hfile).mp hcheck).2
    have hlt := partitionSize.toInt_lt
    omega
  rw [addHashFooter, Durable.run_get_bind]
  constructor
  · intro h
    obtain ⟨u, s₁, h₁, h⟩ := Durable.run_bind_eq_ok.mp h
    obtain ⟨hcheck, rfl⟩ := Durable.run_lift_eq_ok.mp h₁
    obtain ⟨u₂, I, h₂, h⟩ := Durable.run_bind_eq_ok.mp h
    have htrimmed := Durable.run_update_eq_ok.mp h₂
    rw [Durable.run_get_bind] at h
    obtain ⟨hf, s₃, h₃, h⟩ := Durable.run_bind_eq_ok.mp h
    obtain ⟨hhf, rfl⟩ := Durable.run_lift_eq_ok.mp h₃
    obtain ⟨q, rfl⟩ := (hashFooter_eq_ok_iff (hsize hcheck htrimmed)).mp hhf
    obtain ⟨u', s₄, h₄, h⟩ := Durable.run_bind_eq_ok.mp h
    cases h
    obtain ⟨hpos, hout, hassert⟩ := (run_appendHashFooter_eq_ok_iff q).mp h₄
    exact ⟨I, q, hcheck, htrimmed, hpos, hout, hassert, rfl⟩
  · rintro ⟨I, q, hcheck, htrimmed, hpos, hout, hassert, rfl⟩
    have hhf : hashFooter vm crypto partitionSize partitionName info I =
        .ok (placed partitionSize I q.packed q.footer) :=
      (hashFooter_eq_ok_iff (hsize hcheck htrimmed)).mpr ⟨q, rfl⟩
    refine Durable.run_bind_eq_ok.mpr ⟨(), image, Durable.run_lift_eq_ok.mpr ⟨hcheck, rfl⟩, ?_⟩
    refine Durable.run_bind_eq_ok.mpr ⟨⟨⟩, I, Durable.run_update_eq_ok.mpr htrimmed, ?_⟩
    rw [Durable.run_get_bind]
    refine Durable.run_bind_eq_ok.mpr ⟨_, I, Durable.run_lift_eq_ok.mpr ⟨hhf, rfl⟩, ?_⟩
    exact Durable.run_bind_eq_ok.mpr
      ⟨⟨⟩, out, (run_appendHashFooter_eq_ok_iff q).mpr ⟨hpos, hout, hassert⟩, rfl⟩

/-- When `addHashFooter` returns, with its closing assertion enabled, the file is the
trimmed image with a vbmeta that verifies it. -/
theorem addHashFooter_verifiable (vm : Jvm) (crypto : Crypto) (partitionSize : Int64)
    (partitionName : KString) (info info' : AVBInfo) (image out : Bytes)
    (hfile : image.length < 2 ^ 63) (hvm : vm.assertionsEnabled = true)
    (h : (addHashFooter vm crypto partitionSize partitionName info).run image =
      (.ok info', out)) :
    ∃ trimmedImage aux, trimmed vm image = .ok trimmedImage ∧ info.auxBlob = some aux ∧
      Verifiable vm crypto partitionSize partitionName aux trimmedImage out := by
  obtain ⟨I, q, hcheck, htrimmed, hpos, rfl, hassert, -⟩ :=
    (run_addHashFooter_eq_ok_iff hfile).mp h
  have hle := length_trimmed_le htrimmed
  have hroom := ((imageSizeCheck_eq_ok_iff hfile).mp hcheck).2
  have hlength := q.length_withFooter partitionSize
  have hblob := q.packed.length_blob_le
  have hfits := q.fits
  have himgRound := roundUp_lt (by norm_num : 0 < 4096) I.length
  have hpartLt := partitionSize.toInt_lt
  have hmax : intMax < 2 ^ 31 := by decide
  have hcareLt : q.dontCare partitionSize < 2 ^ 31 := Int32.toInt_lt _
  have hpartition := length_eq_of_fileLength (hassert hvm) (by omega) (by omega)
  obtain ⟨aux, haux, hdescribes⟩ := describesImage_updated (by omega) q.updated_eq q.packed
  have hfooter : Footer.ofStream vm
      (.byteArrayInputStream (lastBytes (q.withFooter partitionSize))) = .ok q.placedFooter := by
    rw [q.lastBytes_withFooter]
    exact Footer.ofStream_layout vm (r := []) (by rw [List.append_nil]; rfl)
  refine ⟨I, aux, htrimmed, haux, hpartition, q.take_withFooter _, q.updated, q.packed,
    q.placedFooter, q.slice_withFooter _, q.packed.slice_desc_blob, by omega, hfooter, ?_, ?_, ?_,
    hdescribes⟩
  · exact toNat_toUInt64_ofNat (by omega)
  · exact toNat_toUInt64_ofNat (by omega)
  · exact toNat_uint64Size hblob

/-- Constant functions in place of the digests, keys and signatures. -/
def sampleCrypto : Crypto :=
  ⟨fun _ _ => zeros 32, fun _ => .ok [], fun _ => .ok [], fun _ _ => .ok [], zeros⟩

/-- One hash descriptor of the partition, with a salt. -/
def sampleInfo : AVBInfo :=
  { header := some {}
    auxBlob := some
      { hashDescriptors :=
          [{ partitionName := units "boot", hashAlgorithm := units "sha256", salt := [1] }] }
    footer := some {} }

/-- An image of a hundred bytes fits a partition of eighteen blocks. -/
theorem exists_run_sample :
    ∃ info' out, (addHashFooter ⟨true, .littleEndian⟩ sampleCrypto 73728 (units "boot")
      sampleInfo).run (zeros 100) = (.ok info', out) := by
  have hsizes : (hashFooter ⟨true, .littleEndian⟩ sampleCrypto 73728 (units "boot") sampleInfo
      (zeros 100)).map (fun hf => (hf.dontCareChunkSize.toInt32.toInt,
        hf.vbmetaBlobWithPadding.length)) = .ok (61440, 4096) := by
    decide +kernel
  cases hhf : hashFooter ⟨true, .littleEndian⟩ sampleCrypto 73728 (units "boot") sampleInfo
      (zeros 100) with
  | error e =>
      rw [hhf] at hsizes
      cases hsizes
  | ok hf =>
      rw [hhf] at hsizes
      obtain ⟨q, rfl⟩ := (hashFooter_eq_ok_iff (by decide)).mp hhf
      simp only [Except.map, Except.ok.injEq, Prod.mk.injEq] at hsizes
      obtain ⟨hcare, hvbmeta⟩ := hsizes
      have hdontCare : q.dontCare 73728 = 61440 := hcare
      have hblob : roundUp 4096 q.packed.blob.length = 4096 := by
        rw [← add_gap (by norm_num), ← length_zeros (gap 4096 _), ← List.length_append]
        exact hvbmeta
      have hround : roundUp 4096 (zeros 100).length = 4096 := by decide
      have hlength : (73728 : Int64) = fileLength (q.withFooter 73728) := by
        rw [fileLength, q.length_withFooter, hdontCare, hblob, hround]
        decide
      have hrun := (@run_addHashFooter_eq_ok_iff _ sampleCrypto 73728 (units "boot") sampleInfo _
        (zeros 100) _ (by decide)).mpr
          ⟨zeros 100, q, rfl, by decide +kernel, by omega, rfl, fun _ => hlength, rfl⟩
      exact ⟨_, _, hrun⟩

/-- The sample run leaves an image that can be verified. -/
theorem addHashFooter_verifiable_applies :
    ∃ info' out, (addHashFooter ⟨true, .littleEndian⟩ sampleCrypto 73728 (units "boot")
        sampleInfo).run (zeros 100) = (.ok info', out) ∧
      ∃ trimmedImage aux, trimmed ⟨true, .littleEndian⟩ (zeros 100) = .ok trimmedImage ∧
        sampleInfo.auxBlob = some aux ∧
        Verifiable ⟨true, .littleEndian⟩ sampleCrypto 73728 (units "boot") aux trimmedImage
          out := by
  obtain ⟨info', out, hrun⟩ := exists_run_sample
  exact ⟨info', out, hrun, addHashFooter_verifiable _ sampleCrypto _ _ sampleInfo info' _ out
    (by decide) rfl hrun⟩

end Avb

end BootImageEditor
