import BootImageEditor.Library.Endian
import BootImageEditor.Library.Segments

/-!
# The verifier of vbmeta images

`avb_vbmeta_image_verify` of libavb, the C library of the bootloader, for version 1.1.
The hash functions and the RSA check are parameters; pointers into the image are
offsets.
-/

namespace BootImageEditor

open Codec

namespace Libavb

/-- `avb_sha256_*`, `avb_sha512_*`, and `avb_rsa_verify` on key, signature, hash and
padding. -/
structure Primitives where
  sha256 : Bytes → Bytes
  sha512 : Bytes → Bytes
  rsaVerify : Bytes → Bytes → Bytes → Bytes → Bool

inductive AvbVBMetaVerifyResult where
  | ok
  | okNotSigned
  | invalidVbmetaHeader
  | unsupportedVersion
  | hashMismatch
  | signatureMismatch
  deriving DecidableEq, Repr

structure AvbVBMetaImageHeader where
  requiredLibavbVersionMajor : UInt32
  requiredLibavbVersionMinor : UInt32
  authenticationDataBlockSize : UInt64
  auxiliaryDataBlockSize : UInt64
  algorithmType : UInt32
  hashOffset : UInt64
  hashSize : UInt64
  signatureOffset : UInt64
  signatureSize : UInt64
  publicKeyOffset : UInt64
  publicKeySize : UInt64
  publicKeyMetadataOffset : UInt64
  publicKeyMetadataSize : UInt64
  descriptorsOffset : UInt64
  descriptorsSize : UInt64
  rollbackIndex : UInt64
  flags : UInt32
  releaseString : Bytes
  deriving DecidableEq

/-- `sizeof(AvbVBMetaImageHeader)`. -/
def headerSize : ℕ := 256

def be32toh (bs : Bytes) : UInt32 := UInt32.ofNat (ByteOrder.bigEndian.decode bs)

def be64toh (bs : Bytes) : UInt64 := UInt64.ofNat (ByteOrder.bigEndian.decode bs)

/-- `avb_vbmeta_image_header_to_host_byte_order`. -/
def toHostByteOrder (src : Bytes) : AvbVBMetaImageHeader where
  requiredLibavbVersionMajor := be32toh (slice 4 4 src)
  requiredLibavbVersionMinor := be32toh (slice 8 4 src)
  authenticationDataBlockSize := be64toh (slice 12 8 src)
  auxiliaryDataBlockSize := be64toh (slice 20 8 src)
  algorithmType := be32toh (slice 28 4 src)
  hashOffset := be64toh (slice 32 8 src)
  hashSize := be64toh (slice 40 8 src)
  signatureOffset := be64toh (slice 48 8 src)
  signatureSize := be64toh (slice 56 8 src)
  publicKeyOffset := be64toh (slice 64 8 src)
  publicKeySize := be64toh (slice 72 8 src)
  publicKeyMetadataOffset := be64toh (slice 80 8 src)
  publicKeyMetadataSize := be64toh (slice 88 8 src)
  descriptorsOffset := be64toh (slice 96 8 src)
  descriptorsSize := be64toh (slice 104 8 src)
  rollbackIndex := be64toh (slice 112 8 src)
  flags := be32toh (slice 120 4 src)
  releaseString := slice 128 48 src

/-- `AVB_MAGIC`. -/
def avbMagic : Bytes := [0x41, 0x56, 0x42, 0x30]

def avbVersionMajor : UInt32 := 1

def avbVersionMinor : UInt32 := 1

/-- `avb_safe_add`: the sum, unless it overflows. -/
def safeAdd (a b : UInt64) : Option UInt64 :=
  let sum := a + b
  if sum < a then none else some sum

structure AvbAlgorithmData where
  padding : Bytes
  hashLen : ℕ
  deriving DecidableEq

def paddingSha256 (fill : ℕ) : Bytes :=
  [0x00, 0x01] ++ List.replicate fill 0xff ++
    [0x00, 0x30, 0x31, 0x30, 0x0d, 0x06, 0x09, 0x60, 0x86, 0x48, 0x01, 0x65, 0x03, 0x04, 0x02,
      0x01, 0x05, 0x00, 0x04, 0x20]

def paddingSha512 (fill : ℕ) : Bytes :=
  [0x00, 0x01] ++ List.replicate fill 0xff ++
    [0x00, 0x30, 0x51, 0x30, 0x0d, 0x06, 0x09, 0x60, 0x86, 0x48, 0x01, 0x65, 0x03, 0x04, 0x02,
      0x03, 0x05, 0x00, 0x04, 0x40]

/-- `algorithm_data`, by the number of the algorithm type. -/
def algorithmData : List AvbAlgorithmData :=
  [⟨[], 0⟩, ⟨paddingSha256 202, 32⟩, ⟨paddingSha256 458, 32⟩, ⟨paddingSha256 970, 32⟩,
    ⟨paddingSha512 170, 64⟩, ⟨paddingSha512 426, 64⟩, ⟨paddingSha512 938, 64⟩]

/-- `avb_get_algorithm_data`. -/
def getAlgorithmData (algorithm : UInt32) : Option AvbAlgorithmData :=
  algorithmData[algorithm.toNat]?

/-- The hash of header and auxiliary block, by the type of the algorithm. -/
def computeHash (prim : Primitives) (algorithm : UInt32) (headerBlock auxiliaryBlock : Bytes) :
    Option Bytes :=
  if algorithm = 1 ∨ algorithm = 2 ∨ algorithm = 3 then
    some (prim.sha256 (headerBlock ++ auxiliaryBlock))
  else if algorithm = 4 ∨ algorithm = 5 ∨ algorithm = 6 then
    some (prim.sha512 (headerBlock ++ auxiliaryBlock))
  else none

/-- The range ends within a block of the given size. -/
def inBlock (offset size blockSize : UInt64) : Bool :=
  match safeAdd offset size with
  | some rangeEnd => rangeEnd ≤ blockSize
  | none => false

/-- `block_total`, the sum of the three block sizes. -/
def blockTotal (h : AvbVBMetaImageHeader) : Option UInt64 := do
  let total ← safeAdd (UInt64.ofNat headerSize) h.authenticationDataBlockSize
  safeAdd total h.auxiliaryDataBlockSize

/-- The checks of the header before any of its ranges is read. -/
def headerOk (dataPtr : UInt64) (data : Bytes) (h : AvbVBMetaImageHeader) : Bool :=
  h.releaseString[47]? = some 0 &&
  h.authenticationDataBlockSize &&& 0x3f = 0 && h.auxiliaryDataBlockSize &&& 0x3f = 0 &&
  (match blockTotal h with
    | some total => total ≤ UInt64.ofNat data.length
    | none => false) &&
  (safeAdd dataPtr (UInt64.ofNat data.length)).isSome &&
  inBlock h.hashOffset h.hashSize h.authenticationDataBlockSize &&
  inBlock h.signatureOffset h.signatureSize h.authenticationDataBlockSize &&
  inBlock h.publicKeyOffset h.publicKeySize h.auxiliaryDataBlockSize &&
  (h.publicKeyMetadataSize = 0 ||
    inBlock h.publicKeyMetadataOffset h.publicKeyMetadataSize h.auxiliaryDataBlockSize)

/-- The checks of hash and signature. -/
def verifySignature (prim : Primitives) (data : Bytes) (h : AvbVBMetaImageHeader)
    (algorithm : AvbAlgorithmData) : AvbVBMetaVerifyResult :=
  let authentication := headerSize
  let auxiliary := authentication + h.authenticationDataBlockSize.toNat
  let auxiliaryBlock := slice auxiliary h.auxiliaryDataBlockSize.toNat data
  match computeHash prim h.algorithmType (slice 0 headerSize data) auxiliaryBlock with
  | none => .invalidVbmetaHeader
  | some computedHash =>
    let hash := slice (authentication + h.hashOffset.toNat) h.hashSize.toNat data
    let key := slice (auxiliary + h.publicKeyOffset.toNat) h.publicKeySize.toNat data
    let signature := slice (authentication + h.signatureOffset.toNat) h.signatureSize.toNat data
    if hash ≠ computedHash.take h.hashSize.toNat then .hashMismatch
    else if prim.rsaVerify key signature hash algorithm.padding then .ok
    else .signatureMismatch

/-- `avb_vbmeta_image_verify(data, length)`, with the image at address `dataPtr`. -/
def avbVbmetaImageVerify (prim : Primitives) (dataPtr : UInt64) (data : Bytes) :
    AvbVBMetaVerifyResult :=
  if data.length < headerSize then .invalidVbmetaHeader
  else if slice 0 4 data ≠ avbMagic then .invalidVbmetaHeader
  else
    let h := toHostByteOrder data
    if h.requiredLibavbVersionMajor ≠ avbVersionMajor ∨
        avbVersionMinor < h.requiredLibavbVersionMinor then .unsupportedVersion
    else if !headerOk dataPtr data h then .invalidVbmetaHeader
    else if h.algorithmType = 0 then .okNotSigned
    else
      match getAlgorithmData h.algorithmType with
      | none => .invalidVbmetaHeader
      | some algorithm =>
        if h.hashSize.toNat ≠ algorithm.hashLen then .invalidVbmetaHeader
        else verifySignature prim data h algorithm

/-! ## When the checks pass -/

theorem safeAdd_of_lt {a b : UInt64} (h : a.toNat + b.toNat < 2 ^ 64) :
    safeAdd a b = some (a + b) ∧ (a + b).toNat = a.toNat + b.toNat := by
  have hsum : (a + b).toNat = a.toNat + b.toNat := by
    rw [UInt64.toNat_add, Nat.mod_eq_of_lt h]
  refine ⟨?_, hsum⟩
  have hle : ¬ a + b < a := by
    rw [UInt64.lt_iff_toNat_lt, hsum]
    omega
  simp only [safeAdd, if_neg hle]

theorem inBlock_of_le {offset size blockSize : UInt64}
    (h : offset.toNat + size.toNat ≤ blockSize.toNat) : inBlock offset size blockSize = true := by
  have hlt := blockSize.toNat_lt
  obtain ⟨hadd, hsum⟩ := safeAdd_of_lt (a := offset) (b := size) (by omega)
  rw [inBlock, hadd]
  simp only [decide_eq_true_eq, UInt64.le_iff_toNat_le, hsum]
  exact h

theorem and_eq_zero_of_mod {n : UInt64} (h : n.toNat % 64 = 0) : n &&& 0x3f = 0 := by
  apply UInt64.toNat_inj.mp
  rw [UInt64.toNat_and]
  exact (Nat.and_two_pow_sub_one_eq_mod n.toNat 6).trans h

theorem blockTotal_of_lt {h : AvbVBMetaImageHeader}
    (hlt : 256 + h.authenticationDataBlockSize.toNat + h.auxiliaryDataBlockSize.toNat < 2 ^ 64) :
    ∃ total, blockTotal h = some total ∧
      total.toNat = 256 + h.authenticationDataBlockSize.toNat +
        h.auxiliaryDataBlockSize.toNat := by
  have hsize : (UInt64.ofNat headerSize).toNat = 256 := rfl
  obtain ⟨hadd, hsum⟩ := safeAdd_of_lt (a := UInt64.ofNat headerSize)
    (b := h.authenticationDataBlockSize) (by omega)
  obtain ⟨hadd', hsum'⟩ := safeAdd_of_lt
    (a := UInt64.ofNat headerSize + h.authenticationDataBlockSize)
    (b := h.auxiliaryDataBlockSize) (by omega)
  refine ⟨_, ?_, hsum'.trans (by omega)⟩
  rw [blockTotal, hadd]
  exact hadd'

/-- The header passes when the ranges it names lie in their blocks and the blocks in the
image. -/
theorem headerOk_of_ranges {dataPtr : UInt64} {data : Bytes} {h : AvbVBMetaImageHeader}
    (hptr : dataPtr.toNat + data.length < 2 ^ 64) (hrelease : h.releaseString[47]? = some 0)
    (hauth : h.authenticationDataBlockSize.toNat % 64 = 0)
    (haux : h.auxiliaryDataBlockSize.toNat % 64 = 0)
    (htotal : 256 + h.authenticationDataBlockSize.toNat + h.auxiliaryDataBlockSize.toNat ≤
      data.length)
    (hhash : h.hashOffset.toNat + h.hashSize.toNat ≤ h.authenticationDataBlockSize.toNat)
    (hsig : h.signatureOffset.toNat + h.signatureSize.toNat ≤
      h.authenticationDataBlockSize.toNat)
    (hkey : h.publicKeyOffset.toNat + h.publicKeySize.toNat ≤ h.auxiliaryDataBlockSize.toNat)
    (hmeta : h.publicKeyMetadataOffset.toNat + h.publicKeyMetadataSize.toNat ≤
      h.auxiliaryDataBlockSize.toNat) : headerOk dataPtr data h = true := by
  have hlen : (UInt64.ofNat data.length).toNat = data.length :=
    UInt64.toNat_ofNat_of_lt' (by simp only [UInt64.size]; omega)
  obtain ⟨total, hblock, htotal'⟩ := blockTotal_of_lt (h := h) (by omega)
  obtain ⟨hadd, -⟩ := safeAdd_of_lt (a := dataPtr) (b := UInt64.ofNat data.length) (by omega)
  have hle : total ≤ UInt64.ofNat data.length := by
    rw [UInt64.le_iff_toNat_le, hlen, htotal']
    exact htotal
  unfold headerOk
  rw [hblock, hadd, and_eq_zero_of_mod hauth, and_eq_zero_of_mod haux, inBlock_of_le hhash,
    inBlock_of_le hsig, inBlock_of_le hkey, inBlock_of_le hmeta, hrelease]
  simp [hle]

/-! ## What passed checks say -/

theorem safeAdd_eq_some {a b s : UInt64} (h : safeAdd a b = some s) :
    s.toNat = a.toNat + b.toNat := by
  have ha := a.toNat_lt
  have hb := b.toNat_lt
  have hs := UInt64.toNat_add a b
  simp only [safeAdd] at h
  split at h
  · cases h
  · next hle =>
      obtain rfl := Option.some.inj h
      rw [UInt64.lt_iff_toNat_lt] at hle
      omega

end Libavb

end BootImageEditor
