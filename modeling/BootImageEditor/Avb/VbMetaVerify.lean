import BootImageEditor.Avb.VbMetaPack
import BootImageEditor.Libavb.VbmetaImage

/-!
# Packed images pass the verifier

The blob that `packVbMeta` writes is read by libavb with its own header layout, its own
bounds checks and its own algorithm table. `ImageLayout` is what the verifier relies on.
-/

namespace BootImageEditor

open Codec Fallible Struct3 Helper

namespace Avb

/-! ## The header in libavb -/

theorem be32toh_be (n : UInt32) : Libavb.be32toh (be 4 n.toNat) = n := toUInt_encode .bigEndian n

theorem be64toh_be (n : UInt64) : Libavb.be64toh (be 8 n.toNat) = n := toULong_encode .bigEndian n

/-- The header a verifier sees at the start of an image. -/
def Header.hostByteOrder (h : Header) : Libavb.AvbVBMetaImageHeader where
  requiredLibavbVersionMajor := h.requiredLibavbVersionMajor
  requiredLibavbVersionMinor := h.requiredLibavbVersionMinor
  authenticationDataBlockSize := h.authenticationDataBlockSize
  auxiliaryDataBlockSize := h.auxiliaryDataBlockSize
  algorithmType := h.algorithmType
  hashOffset := h.hashOffset
  hashSize := h.hashSize
  signatureOffset := h.signatureOffset
  signatureSize := h.signatureSize
  publicKeyOffset := h.publicKeyOffset
  publicKeySize := h.publicKeySize
  publicKeyMetadataOffset := h.publicKeyMetadataOffset
  publicKeyMetadataSize := h.publicKeyMetadataSize
  descriptorsOffset := h.descriptorsOffset
  descriptorsSize := h.descriptorsSize
  rollbackIndex := h.rollbackIndex
  flags := h.flags
  releaseString := extend 47 (Utf8.encode h.releaseString) ++ [0]

/-- A field of the header, by its place in the list of fields. -/
theorem Header.slice_layout {h : Header} {i offset : ℕ} {field : Bytes}
    (hfield : h.fields[i]? = some field)
    (hoffset : ((h.fields.take i).map List.length).sum = offset) (r : Bytes) :
    slice offset field.length (h.layout ++ r) = field := by
  rw [← hoffset]
  exact slice_flatten hfield r

theorem Header.toHostByteOrder_layout {h : Header}
    (hrelease : (Utf8.encode h.releaseString).length ≤ 47) (r : Bytes) :
    Libavb.toHostByteOrder (h.layout ++ r) = h.hostByteOrder := by
  have h4 : slice 4 4 (h.layout ++ r) = be 4 h.requiredLibavbVersionMajor.toNat :=
    slice_layout (i := 1) rfl (by simp [fields, magicBytes]) r
  have h8 : slice 8 4 (h.layout ++ r) = be 4 h.requiredLibavbVersionMinor.toNat :=
    slice_layout (i := 2) rfl (by simp [fields, magicBytes]) r
  have h12 : slice 12 8 (h.layout ++ r) = be 8 h.authenticationDataBlockSize.toNat :=
    slice_layout (i := 3) rfl (by simp [fields, magicBytes]) r
  have h20 : slice 20 8 (h.layout ++ r) = be 8 h.auxiliaryDataBlockSize.toNat :=
    slice_layout (i := 4) rfl (by simp [fields, magicBytes]) r
  have h28 : slice 28 4 (h.layout ++ r) = be 4 h.algorithmType.toNat :=
    slice_layout (i := 5) rfl (by simp [fields, magicBytes]) r
  have h32 : slice 32 8 (h.layout ++ r) = be 8 h.hashOffset.toNat :=
    slice_layout (i := 6) rfl (by simp [fields, magicBytes]) r
  have h40 : slice 40 8 (h.layout ++ r) = be 8 h.hashSize.toNat :=
    slice_layout (i := 7) rfl (by simp [fields, magicBytes]) r
  have h48 : slice 48 8 (h.layout ++ r) = be 8 h.signatureOffset.toNat :=
    slice_layout (i := 8) rfl (by simp [fields, magicBytes]) r
  have h56 : slice 56 8 (h.layout ++ r) = be 8 h.signatureSize.toNat :=
    slice_layout (i := 9) rfl (by simp [fields, magicBytes]) r
  have h64 : slice 64 8 (h.layout ++ r) = be 8 h.publicKeyOffset.toNat :=
    slice_layout (i := 10) rfl (by simp [fields, magicBytes]) r
  have h72 : slice 72 8 (h.layout ++ r) = be 8 h.publicKeySize.toNat :=
    slice_layout (i := 11) rfl (by simp [fields, magicBytes]) r
  have h80 : slice 80 8 (h.layout ++ r) = be 8 h.publicKeyMetadataOffset.toNat :=
    slice_layout (i := 12) rfl (by simp [fields, magicBytes]) r
  have h88 : slice 88 8 (h.layout ++ r) = be 8 h.publicKeyMetadataSize.toNat :=
    slice_layout (i := 13) rfl (by simp [fields, magicBytes]) r
  have h96 : slice 96 8 (h.layout ++ r) = be 8 h.descriptorsOffset.toNat :=
    slice_layout (i := 14) rfl (by simp [fields, magicBytes]) r
  have h104 : slice 104 8 (h.layout ++ r) = be 8 h.descriptorsSize.toNat :=
    slice_layout (i := 15) rfl (by simp [fields, magicBytes]) r
  have h112 : slice 112 8 (h.layout ++ r) = be 8 h.rollbackIndex.toNat :=
    slice_layout (i := 16) rfl (by simp [fields, magicBytes]) r
  have h120 : slice 120 4 (h.layout ++ r) = be 4 h.flags.toNat :=
    slice_layout (i := 17) rfl (by simp [fields, magicBytes]) r
  -- the release string and its terminator are two fields
  have h128 : slice 128 48 (h.layout ++ r) =
      extend 47 (Utf8.encode h.releaseString) ++ [0] := by
    have hsplit : h.layout ++ r = (h.fields.take 19).flatten ++
        ((extend 47 (Utf8.encode h.releaseString) ++ [0]) ++ (zeros 80 ++ r)) := by
      simp [Header.layout, Header.fields]
    rw [hsplit]
    exact slice_middle _ _ _ (by simp [Header.fields, Header.magicBytes])
      (by simp [length_extend hrelease])
  unfold Libavb.toHostByteOrder
  rw [h4, h8, h12, h20, h28, h32, h40, h48, h56, h64, h72, h80, h88, h96, h104, h112, h120, h128]
  simp only [be32toh_be, be64toh_be]
  rfl

/-- Both algorithm tables agree on padding and digest length. -/
theorem getAlgorithmData_of_mem : ∀ a ∈ Algorithms.algMap,
    Libavb.getAlgorithmData a.algorithmType.toUInt32 = some ⟨a.padding, a.hashNumBytes⟩ := by
  decide +kernel

/-- The digest names and the verifier's choice of the hash function agree. -/
theorem hashName_of_mem : ∀ a ∈ Algorithms.algMap, a ≠ Algorithms.none →
    ((a.algorithmType.toUInt32 = 1 ∨ a.algorithmType.toUInt32 = 2 ∨
        a.algorithmType.toUInt32 = 3) ∧ a.hashName = units "sha256") ∨
    (¬ (a.algorithmType.toUInt32 = 1 ∨ a.algorithmType.toUInt32 = 2 ∨
        a.algorithmType.toUInt32 = 3) ∧
      (a.algorithmType.toUInt32 = 4 ∨ a.algorithmType.toUInt32 = 5 ∨
        a.algorithmType.toUInt32 = 6) ∧ a.hashName = units "sha512") := by
  decide +kernel

/-- The verifier hashes with the digest the image was made with. -/
theorem computeHash_eq (crypto : Crypto) {alg : Algorithm} {hasher : KString} {t : UInt32}
    (hmem : alg ∈ Algorithms.algMap) (hsigned : alg ≠ Algorithms.none)
    (ht : alg.algorithmType.toUInt32 = t) (hhasher : pyAlg2java alg.hashName = .ok hasher)
    (rsaVerify : Bytes → Bytes → Bytes → Bytes → Bool) (header aux : Bytes) :
    Libavb.computeHash
        ⟨crypto.digest (units "sha-256"), crypto.digest (units "sha-512"), rsaVerify⟩ t header aux =
      some (crypto.digest hasher (header ++ aux)) := by
  have hcases := hashName_of_mem alg hmem hsigned
  rw [ht] at hcases
  unfold Libavb.computeHash
  rcases hcases with ⟨h256, hname⟩ | ⟨hnot, h512, hname⟩
  · rw [hname] at hhasher
    obtain rfl : units "sha-256" = hasher := Except.ok.inj hhasher
    rw [if_pos h256]
  · rw [hname] at hhasher
    obtain rfl : units "sha-512" = hasher := Except.ok.inj hhasher
    rw [if_neg hnot, if_pos h512]

/-! ## The parts of a packed image -/

namespace Packed

variable {vm : Jvm} {crypto : Crypto} {ai : AVBInfo}

theorem toNat_auth (p : Packed vm crypto ai) :
    p.filled.authenticationDataBlockSize.toNat =
      roundUp 64 (p.alg.hashNumBytes + p.alg.signatureNumBytes) := by
  obtain ⟨-, hsmall, -⟩ := Algorithms.shape_of_mem p.alg p.alg_mem
  have hlt := roundUp_lt (p := 64) (by omega) (p.alg.hashNumBytes + p.alg.signatureNumBytes)
  have heq : p.filled.authenticationDataBlockSize = UInt64.ofNat
      (roundUp 64 (p.alg.hashNumBytes + p.alg.signatureNumBytes)) := by
    simp only [filled, packedHeader, AuthBlob.authBlockSize_eq hsmall, Int64.toUInt64_ofNat']
  rw [heq, toNat_uint64_ofNat (by omega)]

/-- The offsets and sizes in the header, as numbers. -/
theorem toNat_filled (p : Packed vm crypto ai) :
    p.filled.auxiliaryDataBlockSize.toNat = p.auxSize ∧ p.filled.hashOffset.toNat = 0 ∧
    p.filled.hashSize.toNat = p.alg.hashNumBytes ∧
    p.filled.signatureOffset.toNat = p.alg.hashNumBytes ∧
    p.filled.signatureSize.toNat = p.alg.signatureNumBytes ∧
    p.filled.descriptorsOffset.toNat = 0 ∧ p.filled.descriptorsSize.toNat = p.desc.length ∧
    p.filled.publicKeyOffset.toNat = p.desc.length ∧
    p.filled.publicKeySize.toNat = p.key.length ∧
    p.filled.publicKeyMetadataOffset.toNat = p.desc.length + p.key.length ∧
    p.filled.publicKeyMetadataSize.toNat = p.aux.pkmd.length := by
  obtain ⟨-, hsmall, -⟩ := Algorithms.shape_of_mem p.alg p.alg_mem
  have hparts := p.parts_le
  unfold intMax at hparts
  refine ⟨toNat_uint64_ofNat (by omega), rfl, toNat_uint64_ofNat (by omega),
    toNat_uint64_ofNat (by omega), toNat_uint64_ofNat (by omega), rfl,
    toNat_uint64_ofNat (by omega), toNat_uint64_ofNat (by omega), toNat_uint64_ofNat (by omega),
    ?_, toNat_uint64_ofNat (by omega)⟩
  have hsum : p.filled.publicKeyMetadataOffset =
      UInt64.ofNat (p.desc.length + p.key.length) := by
    rw [UInt64.ofNat_add]
    rfl
  rw [hsum, toNat_uint64_ofNat (by omega)]

theorem blob_eq (p : Packed vm crypto ai) (trailing : Bytes) :
    p.blob ++ trailing = p.filled.layout ++ (p.auth ++ (p.auxBytes ++ trailing)) := by
  simp [blob]

/-- Header, authentication block and auxiliary block, where the verifier takes them. -/
theorem slices_blob (p : Packed vm crypto ai) (hcrypto : crypto.Conforms p.alg)
    (trailing : Bytes) :
    slice 0 256 (p.blob ++ trailing) = p.filled.layout ∧
    (∀ o n, o + n ≤ p.auth.length →
      slice (256 + o) n (p.blob ++ trailing) = slice o n p.auth) ∧
    (∀ o n, o + n ≤ p.auxSize →
      slice (256 + roundUp 64 (p.alg.hashNumBytes + p.alg.signatureNumBytes) + o) n
        (p.blob ++ trailing) = slice o n p.auxBytes) := by
  have hheader := p.length_header
  have hauth := p.length_auth hcrypto
  have haux := p.length_auxBytes
  rw [p.blob_eq]
  refine ⟨slice_zero _ _ hheader, ?_, ?_⟩
  · intro o n h
    rw [slice_append_right (by omega), hheader, Nat.add_sub_cancel_left,
      slice_append_left h]
  · intro o n h
    rw [slice_append_right (by omega), hheader, slice_append_right (by omega),
      slice_append_left (by omega)]
    congr 1
    omega

end Packed

/-! ## Images with verifiable ranges -/

/-- Header and auxiliary block, which hash and signature cover. -/
def signedData (image : Bytes) : Bytes :=
  slice 0 256 image ++
    slice (256 + (Libavb.toHostByteOrder image).authenticationDataBlockSize.toNat)
      (Libavb.toHostByteOrder image).auxiliaryDataBlockSize.toNat image

/-- What the verifier relies on: blocks of aligned sizes that make up the image, ranges
that lie in their blocks one after the other, the terminator of the release string, and
the hash of a signed image over header and auxiliary block. -/
structure ImageLayout (hash : Bytes → Bytes) (image : Bytes) : Prop where
  authentication_aligned :
    (Libavb.toHostByteOrder image).authenticationDataBlockSize.toNat % 64 = 0
  auxiliary_aligned : (Libavb.toHostByteOrder image).auxiliaryDataBlockSize.toNat % 64 = 0
  total : 256 + (Libavb.toHostByteOrder image).authenticationDataBlockSize.toNat +
    (Libavb.toHostByteOrder image).auxiliaryDataBlockSize.toNat = image.length
  hash_before_signature : (Libavb.toHostByteOrder image).hashOffset.toNat +
    (Libavb.toHostByteOrder image).hashSize.toNat ≤
      (Libavb.toHostByteOrder image).signatureOffset.toNat
  signature_in_block : (Libavb.toHostByteOrder image).signatureOffset.toNat +
    (Libavb.toHostByteOrder image).signatureSize.toNat ≤
      (Libavb.toHostByteOrder image).authenticationDataBlockSize.toNat
  key_after_descriptors : (Libavb.toHostByteOrder image).descriptorsOffset.toNat +
    (Libavb.toHostByteOrder image).descriptorsSize.toNat =
      (Libavb.toHostByteOrder image).publicKeyOffset.toNat
  metadata_after_key : (Libavb.toHostByteOrder image).publicKeyOffset.toNat +
    (Libavb.toHostByteOrder image).publicKeySize.toNat =
      (Libavb.toHostByteOrder image).publicKeyMetadataOffset.toNat
  metadata_in_block : (Libavb.toHostByteOrder image).publicKeyMetadataOffset.toNat +
    (Libavb.toHostByteOrder image).publicKeyMetadataSize.toNat ≤
      (Libavb.toHostByteOrder image).auxiliaryDataBlockSize.toNat
  terminator : image[175]? = some 0
  hash_eq : (Libavb.toHostByteOrder image).algorithmType ≠ 0 →
    slice (256 + (Libavb.toHostByteOrder image).hashOffset.toNat)
        (Libavb.toHostByteOrder image).hashSize.toNat image = hash (signedData image)

namespace Packed

variable {vm : Jvm} {crypto : Crypto} {ai : AVBInfo}

theorem toHostByteOrder_blob (p : Packed vm crypto ai) (trailing : Bytes) :
    Libavb.toHostByteOrder (p.blob ++ trailing) = p.filled.hostByteOrder := by
  rw [p.blob_eq]
  exact Header.toHostByteOrder_layout (h := p.filled) p.release_fits _

theorem signedData_blob (p : Packed vm crypto ai) (hcrypto : crypto.Conforms p.alg) :
    signedData p.blob = p.filled.layout ++ p.auxBytes := by
  have hhost := p.toHostByteOrder_blob []
  obtain ⟨hheaderSlice, -, hauxSlice⟩ := p.slices_blob hcrypto []
  rw [List.append_nil] at hhost hheaderSlice hauxSlice
  have hauxAll := hauxSlice 0 p.auxSize (by omega)
  rw [Nat.add_zero] at hauxAll
  simp only [signedData, hhost, Header.hostByteOrder, p.toNat_auth, p.toNat_filled.1]
  rw [hheaderSlice, hauxAll, slice, List.drop_zero,
    List.take_of_length_le (by rw [p.length_auxBytes])]

/-- The algorithm type is zero only for no algorithm. -/
theorem algorithmType_eq_zero_iff (p : Packed vm crypto ai) :
    p.header.algorithmType = 0 ↔ p.alg = Algorithms.none := by
  obtain ⟨hmem, htype⟩ := Algorithms.mem_of_getByType p.alg_eq
  constructor
  · intro h
    rw [h] at htype
    exact Algorithms.eq_none_of_type_zero p.alg hmem htype
  · intro h
    rw [h] at htype
    have h0 := congrArg Int32.toUInt32 htype
    rw [UInt32.toUInt32_toInt32] at h0
    exact h0.symm

/-- Byte 175, the last of the release string. -/
theorem terminator (p : Packed vm crypto ai) : p.blob[175]? = some 0 := by
  have hsplit : p.blob = (p.filled.fields.take 20).flatten ++
      ([0] ++ (zeros 80 ++ (p.auth ++ p.auxBytes))) := by
    simp [blob, Header.layout, Header.fields]
  have hrelease : (Utf8.encode p.filled.releaseString).length ≤ 47 := p.release_fits
  have hlen : (p.filled.fields.take 20).flatten.length = 175 := by
    simp [Header.fields, Header.magicBytes, length_extend hrelease]
  rw [hsplit, List.getElem?_append_right (by omega), hlen]
  rfl

theorem imageLayout (p : Packed vm crypto ai) (hcrypto : crypto.Conforms p.alg)
    {hasher : KString} (hhasher : p.alg ≠ Algorithms.none →
      pyAlg2java p.alg.hashName = .ok hasher) :
    ImageLayout (crypto.digest hasher) p.blob := by
  have hhost := p.toHostByteOrder_blob []
  rw [List.append_nil] at hhost
  obtain ⟨haux, hhashOff, hhashSize, hsigOff, hsigSize, hdescOff, hdescSize, hkeyOff, hkeySize,
    hmetaOff, hmetaSize⟩ := p.toNat_filled
  have hauthSize := p.toNat_auth
  have hauthLen := p.length_auth hcrypto
  have hle := le_roundUp (p := 64) (by omega) (p.alg.hashNumBytes + p.alg.signatureNumBytes)
  have hparts := p.parts_le
  obtain ⟨-, hauthSlice, -⟩ := p.slices_blob hcrypto []
  rw [List.append_nil] at hauthSlice
  refine ⟨?_, ?_, ?_, ?_, ?_, ?_, ?_, ?_, p.terminator, ?_⟩ <;>
    simp only [hhost, Header.hostByteOrder, haux, hhashOff, hhashSize, hsigOff, hsigSize,
      hdescOff, hdescSize, hkeyOff, hkeySize, hmetaOff, hmetaSize, hauthSize,
      p.signedData_blob hcrypto]
  · exact roundUp_mod 64 _
  · exact roundUp_mod 64 _
  · rw [p.length_blob, hauthLen]
  · omega
  · exact hle
  · omega
  · exact hparts.1
  · intro halg
    have hne : p.alg ≠ Algorithms.none := fun h => halg (p.algorithmType_eq_zero_iff.mpr h)
    obtain ⟨hasher', signature, hhasher', -, hlen, -, hauth⟩ :=
      ((p.auth_cases hcrypto).resolve_left (fun h => hne h.1)).2
    obtain rfl := Except.ok.inj ((hhasher hne).symm.trans hhasher')
    obtain ⟨hhashSlice, -⟩ := AuthBlob.slices_block
      (crypto.digest hasher (p.filled.layout ++ p.auxBytes)) signature
    rw [hlen, ← hauth] at hhashSlice
    rw [hauthSlice 0 p.alg.hashNumBytes (by omega), hhashSlice]

/-- The header passes all checks that come before hash and signature. -/
theorem headerOk (p : Packed vm crypto ai) (hcrypto : crypto.Conforms p.alg) {dataPtr : UInt64}
    {trailing : Bytes} (hptr : dataPtr.toNat + (p.blob ++ trailing).length < 2 ^ 64) :
    Libavb.headerOk dataPtr (p.blob ++ trailing) p.filled.hostByteOrder = true := by
  obtain ⟨haux, hhashOff, hhashSize, hsigOff, hsigSize, -, -, hkeyOff, hkeySize, hmetaOff,
    hmetaSize⟩ := p.toNat_filled
  have hauthSize := p.toNat_auth
  have hauthLen := p.length_auth hcrypto
  have hle := le_roundUp (p := 64) (by omega) (p.alg.hashNumBytes + p.alg.signatureNumBytes)
  have hparts := p.parts_le
  have hblob := p.length_blob
  have hrelease : (Utf8.encode p.filled.releaseString).length ≤ 47 := p.release_fits
  have hterminator : (extend 47 (Utf8.encode p.filled.releaseString) ++ [0])[47]? = some 0 := by
    rw [List.getElem?_append_right (by rw [length_extend hrelease]), length_extend hrelease]
    rfl
  refine Libavb.headerOk_of_ranges hptr hterminator ?_ ?_ ?_ ?_ ?_ ?_ ?_ <;>
    simp only [Header.hostByteOrder, haux, hhashOff, hhashSize, hsigOff, hsigSize, hkeyOff,
      hkeySize, hmetaOff, hmetaSize, hauthSize]
  · exact roundUp_mod 64 _
  · exact roundUp_mod 64 _
  · rw [List.length_append, hblob, hauthLen]
    omega
  · omega
  · omega
  · omega
  · omega

/-- The verifier gets past the header. -/
theorem verify_eq (p : Packed vm crypto ai) (hcrypto : crypto.Conforms p.alg)
    (hversion : p.header.requiredLibavbVersionMajor = 1 ∧
      p.header.requiredLibavbVersionMinor ≤ 1)
    (prim : Libavb.Primitives) {dataPtr : UInt64} {trailing : Bytes}
    (hptr : dataPtr.toNat + (p.blob ++ trailing).length < 2 ^ 64) :
    Libavb.avbVbmetaImageVerify prim dataPtr (p.blob ++ trailing) =
      if p.header.algorithmType = 0 then .okNotSigned
      else Libavb.verifySignature prim (p.blob ++ trailing) p.filled.hostByteOrder
        ⟨p.alg.padding, p.alg.hashNumBytes⟩ := by
  have hlen : ¬ (p.blob ++ trailing).length < Libavb.headerSize := by
    rw [List.length_append, p.length_blob, Libavb.headerSize]
    omega
  have hmagic : slice 0 4 (p.blob ++ trailing) = Libavb.avbMagic := by
    rw [p.blob_eq]
    exact Header.slice_layout (h := p.filled) (i := 0) rfl rfl _
  have hmajor : p.filled.hostByteOrder.requiredLibavbVersionMajor = 1 := hversion.1
  have hminor : ¬ Libavb.avbVersionMinor < p.filled.hostByteOrder.requiredLibavbVersionMinor :=
    UInt32.not_lt.mpr hversion.2
  have htype : p.filled.hostByteOrder.algorithmType = p.header.algorithmType := rfl
  unfold Libavb.avbVbmetaImageVerify
  rw [if_neg hlen, if_neg (not_not.mpr hmagic)]
  simp only [p.toHostByteOrder_blob]
  rw [if_neg (by rw [not_or]; exact ⟨not_not.mpr hmajor, hminor⟩),
    if_neg (by rw [p.headerOk hcrypto hptr]; decide), htype]
  by_cases hzero : p.header.algorithmType = 0
  · rw [if_pos hzero, if_pos hzero]
  · rw [if_neg hzero, if_neg hzero]
    have hdata : Libavb.getAlgorithmData p.header.algorithmType =
        some ⟨p.alg.padding, p.alg.hashNumBytes⟩ := by
      have hdata := getAlgorithmData_of_mem p.alg p.alg_mem
      rw [(Algorithms.mem_of_getByType p.alg_eq).2, UInt32.toUInt32_toInt32] at hdata
      exact hdata
    have hsize : p.filled.hostByteOrder.hashSize.toNat = p.alg.hashNumBytes :=
      p.toNat_filled.2.2.1
    rw [hdata]
    simp only [hsize]
    rw [if_neg (by simp)]

/-- The verifier recomputes the hash and hands key, signature, hash and padding to the
RSA check. -/
theorem verifySignature_eq (p : Packed vm crypto ai) (hcrypto : crypto.Conforms p.alg)
    (hsigned : p.alg ≠ Algorithms.none) (rsaVerify : Bytes → Bytes → Bytes → Bytes → Bool)
    (trailing : Bytes) :
    ∃ hasher signature, pyAlg2java p.alg.hashName = .ok hasher ∧
      crypto.rawSign (AuthBlob.signingKey p.alg) (p.alg.padding ++
        crypto.digest hasher (p.filled.layout ++ p.auxBytes)) = .ok signature ∧
      Libavb.verifySignature
          ⟨crypto.digest (units "sha-256"), crypto.digest (units "sha-512"), rsaVerify⟩
          (p.blob ++ trailing) p.filled.hostByteOrder ⟨p.alg.padding, p.alg.hashNumBytes⟩ =
        if rsaVerify p.key signature (crypto.digest hasher (p.filled.layout ++ p.auxBytes))
          p.alg.padding then .ok else .signatureMismatch := by
  obtain ⟨hasher, signature, hhasher, hsign, hlen, hsigLen, hauth⟩ :=
    ((p.auth_cases hcrypto).resolve_left (fun h => hsigned h.1)).2
  refine ⟨hasher, signature, hhasher, hsign, ?_⟩
  obtain ⟨haux, hhashOff, hhashSize, hsigOff, hsigSize, -, -, hkeyOff, hkeySize, -, -⟩ :=
    p.toNat_filled
  have hauthSize := p.toNat_auth
  have hauthLen := p.length_auth hcrypto
  have hle := le_roundUp (p := 64) (by omega) (p.alg.hashNumBytes + p.alg.signatureNumBytes)
  have hparts := p.parts_le
  obtain ⟨hheaderSlice, hauthSlice, hauxSlice⟩ := p.slices_blob hcrypto trailing
  obtain ⟨hhashSlice, hsigSlice⟩ := AuthBlob.slices_block
    (crypto.digest hasher (p.filled.layout ++ p.auxBytes)) signature
  rw [hlen, ← hauth] at hhashSlice hsigSlice
  rw [hsigLen] at hsigSlice
  have hkeySlice : slice p.desc.length p.key.length p.auxBytes = p.key := by
    rw [auxBytes, extend, AuxBlob.content]
    simp only [List.flatten_cons, List.append_assoc]
    exact slice_middle _ _ _ rfl rfl
  have hauxAll : slice 0 p.auxSize p.auxBytes = p.auxBytes := by
    rw [slice, List.drop_zero, List.take_of_length_le (by rw [p.length_auxBytes])]
  have htype : p.alg.algorithmType.toUInt32 = p.header.algorithmType := by
    rw [(Algorithms.mem_of_getByType p.alg_eq).2, UInt32.toUInt32_toInt32]
  have hcompute := computeHash_eq crypto p.alg_mem hsigned htype hhasher rsaVerify p.filled.layout
    p.auxBytes
  have hfilledType : p.filled.algorithmType = p.header.algorithmType := rfl
  have hauxBlock := hauxSlice 0 p.auxSize (by omega)
  rw [Nat.add_zero, hauxAll] at hauxBlock
  unfold Libavb.verifySignature
  simp only [Header.hostByteOrder, haux, hhashOff, hhashSize, hsigOff, hsigSize, hkeyOff, hkeySize,
    hauthSize, Libavb.headerSize, hheaderSlice, hauxBlock, hfilledType, hcompute]
  rw [hauthSlice 0 p.alg.hashNumBytes (by omega), hhashSlice,
    hauthSlice p.alg.hashNumBytes p.alg.signatureNumBytes (by omega), hsigSlice,
    hauxSlice p.desc.length p.key.length (by omega), hkeySlice,
    List.take_of_length_le (by rw [hlen]), if_neg (by simp)]

end Packed

/-- Every vbmeta image that is packed is laid out as libavb expects, and the verifier finds
nothing to object to: an image without algorithm is reported as not signed, and for a signed
one the verdict is that of the RSA check on the key, the signature and the hash that were
written. An image is packed whenever the descriptors can be encoded and it fits an
array. -/
theorem packVbMeta_verified (vm : Jvm) (crypto : Crypto)
    (rsaVerify : Bytes → Bytes → Bytes → Bytes → Bool) (ai : AVBInfo) (header : Header)
    (alg : Algorithm) (aux : AuxBlob) (hheader : ai.header = some header)
    (halg : Algorithms.getByType header.algorithmType.toInt32 = some alg)
    (haux : ai.auxBlob = some aux)
    (hversion : header.requiredLibavbVersionMajor = 1 ∧ header.requiredLibavbVersionMinor ≤ 1)
    (hrelease : (Utf8.encode header.releaseString).length ≤ 47)
    (hcrypto : crypto.Conforms alg) :
    (Returns (packVbMeta vm crypto ai) ↔ aux.Encodable alg) ∧
    ∀ blob ai', packVbMeta vm crypto ai = .ok (blob, ai') →
      (∀ hasher, (alg ≠ Algorithms.none → pyAlg2java alg.hashName = .ok hasher) →
        ImageLayout (crypto.digest hasher) blob) ∧
      ∀ (dataPtr : UInt64) (trailing : Bytes),
        dataPtr.toNat + (blob ++ trailing).length < 2 ^ 64 →
        (alg = Algorithms.none →
          Libavb.avbVbmetaImageVerify
            ⟨crypto.digest (units "sha-256"), crypto.digest (units "sha-512"), rsaVerify⟩
            dataPtr (blob ++ trailing) = .okNotSigned) ∧
        (alg ≠ Algorithms.none → ∃ hasher key signature,
          pyAlg2java alg.hashName = .ok hasher ∧
          AuxBlob.encodePubKey vm crypto alg = .ok key ∧
          crypto.rawSign (AuthBlob.signingKey alg)
            (alg.padding ++ crypto.digest hasher (signedData blob)) = .ok signature ∧
          Libavb.avbVbmetaImageVerify
              ⟨crypto.digest (units "sha-256"), crypto.digest (units "sha-512"), rsaVerify⟩
              dataPtr (blob ++ trailing) =
            if rsaVerify key signature (crypto.digest hasher (signedData blob)) alg.padding then .ok
            else .signatureMismatch) := by
  refine ⟨returns_packVbMeta_iff vm ai hheader halg haux hrelease hcrypto, ?_⟩
  intro blob ai' hpack
  obtain ⟨p, hp⟩ := packVbMeta_eq_ok_iff.mp hpack
  obtain ⟨rfl, -⟩ := Prod.mk.inj hp
  obtain rfl : header = p.header := Option.some.inj (hheader.symm.trans p.header_eq)
  obtain rfl : alg = p.alg := Option.some.inj (halg.symm.trans p.alg_eq)
  refine ⟨fun hasher hhasher => p.imageLayout hcrypto hhasher, ?_⟩
  intro dataPtr trailing hptr
  rw [p.verify_eq hcrypto hversion _ hptr]
  refine ⟨fun hnone => by rw [if_pos (p.algorithmType_eq_zero_iff.mpr hnone)], ?_⟩
  intro hsigned
  rw [if_neg (fun h => hsigned (p.algorithmType_eq_zero_iff.mp h)), p.signedData_blob hcrypto]
  obtain ⟨hasher, signature, hhasher, hsign, hverify⟩ :=
    p.verifySignature_eq hcrypto hsigned rsaVerify trailing
  exact ⟨hasher, p.key, signature, hhasher, p.key_eq, hsign, hverify⟩

/-- A signed image with one property. -/
theorem packVbMeta_verified_applies :
    let crypto : Crypto := ⟨fun _ _ => zeros 32, fun _ => .ok [], fun _ => .ok (zeros 520),
      fun _ _ => .ok (zeros 256), zeros⟩
    let ai : AVBInfo :=
      { header := some { algorithmType := 1 }
        auxBlob := some { propertyDescriptor := [{ key := units "k", value := units "v" }] } }
    ∃ out, packVbMeta ⟨true, .littleEndian⟩ crypto ai = .ok out ∧
      ImageLayout (crypto.digest (units "sha-256")) out.1 := by
  intro crypto ai
  have hcrypto : crypto.Conforms Algorithms.sha256Rsa2048 :=
    ⟨fun _ => ⟨[], zeros 520, rfl, rfl, length_zeros 520⟩, fun _ _ _ => length_zeros 32,
      fun _ _ => ⟨zeros 256, rfl, length_zeros 256⟩⟩
  obtain ⟨hreturns, himage⟩ := packVbMeta_verified ⟨true, .littleEndian⟩ crypto
    (fun _ _ _ _ => true) ai { algorithmType := 1 } Algorithms.sha256Rsa2048 _ rfl rfl rfl
    ⟨rfl, by decide⟩ (by decide) hcrypto
  have hfits : 256 + roundUp 64 (32 + 256) + roundUp 64 (40 + 520 + 0) ≤ intMax := by
    unfold intMax
    decide
  have hlayouts : (AnyDescriptor.layouts (AuxBlob.sortedDescriptors
      { propertyDescriptor := [{ key := units "k", value := units "v" }] })).length = 40 := rfl
  have hencodable : AuxBlob.Encodable
      { propertyDescriptor := [{ key := units "k", value := units "v" }] }
      Algorithms.sha256Rsa2048 := by
    refine ⟨by decide, ?_⟩
    rw [hlayouts]
    exact hfits
  obtain ⟨out, hout⟩ := hreturns.mpr hencodable
  exact ⟨out, hout, (himage out.1 out.2 hout).1 _ (fun _ => rfl)⟩

end Avb

end BootImageEditor
