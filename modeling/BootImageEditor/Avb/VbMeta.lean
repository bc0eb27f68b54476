import BootImageEditor.Avb.Blob

/-!
# Vbmeta images

`packVbMeta` writes header, authentication block and auxiliary block, and
updates the header it is given; `parseVbMeta` reads a vbmeta image from a file,
at the offset a footer names or at the start.
-/

namespace BootImageEditor

open Codec Fallible Struct3 Helper

namespace Avb

/-- The header as `packVbMeta` fills it in before encoding it. -/
def packedHeader (h : Header) (alg : Algorithm) (auxBlobSize descriptorSize publicKeySize
    pkmdSize : UInt64) : Header :=
  { h with
    auxiliaryDataBlockSize := auxBlobSize
    authenticationDataBlockSize := (roundToMultipleLong
      (Int32.ofNat alg.hashNumBytes + Int32.ofNat alg.signatureNumBytes).toInt64 64).toUInt64
    descriptorsOffset := 0
    descriptorsSize := descriptorSize
    hashOffset := 0
    hashSize := UInt64.ofNat alg.hashNumBytes
    signatureOffset := UInt64.ofNat alg.hashNumBytes
    signatureSize := UInt64.ofNat alg.signatureNumBytes
    publicKeyOffset := descriptorSize
    publicKeySize := publicKeySize
    publicKeyMetadataSize := pkmdSize
    publicKeyMetadataOffset := descriptorSize + publicKeySize }

/-- `size.toULong()`. -/
def uint64Size (bs : Bytes) : UInt64 := (int32Size bs).toInt64.toUInt64

/-- `packVbMeta(info)`: the blob, and the `AVBInfo` with its header filled in. -/
def packVbMeta (vm : Jvm) (crypto : Crypto) (ai : AVBInfo) : Result (Bytes × AVBInfo) :=
  match ai.header with
  | none => .error .nullPointer
  | some header =>
    match Algorithms.getByType header.algorithmType.toInt32 with
    | none => .error .nullPointer
    | some alg => do
        let auxBlob ← match ai.auxBlob with
          | some aux => aux.encode vm crypto alg
          | none => .ok []
        let descriptorSize ← match ai.auxBlob with
          | some aux => do
              let descriptors ← aux.encodeDescriptors vm
              .ok (uint64Size descriptors)
          | none => .ok 0
        let pubKey ← AuxBlob.encodePubKey vm crypto alg
        let aux ← match ai.auxBlob with
          | some aux => .ok aux
          | none => .error .nullPointer
        let header := packedHeader header alg (uint64Size auxBlob) descriptorSize
          (uint64Size pubKey) (uint64Size aux.pkmd)
        let headerBlob ← header.encode vm
        let authBlob ← AuthBlob.createBlob vm crypto headerBlob auxBlob alg.name
        let blob ← join [headerBlob, authBlob, auxBlob]
        .ok (blob, { ai with header := some header, auxBlob := some aux.encoded })

/-! ## Parsing -/

/-- `val data = ByteArray(n); fis.read(data)`, whatever the count. -/
def readArray (s : InputStream) (n : Int32) : Result (Bytes × InputStream) :=
  if n.toInt < 0 then .error .negativeArraySize
  else
    let (_, data, s) := s.read n.toInt.toNat
    .ok (data, s)

/-- A fresh `FileInputStream` after some calls of `skip`. -/
def openAt (image : Bytes) (skips : List ℤ) : Result InputStream :=
  skips.foldlM (fun s n => do
    let (_, s) ← s.skip n
    .ok s) (InputStream.fileInputStream image)

/-- The footer of a file, if its last bytes are one. -/
def readFooter (vm : Jvm) (image : Bytes) : Result (Option Footer) := do
  let fis ← openAt image [(image.length : ℤ) - 64]
  match Footer.ofStream vm fis with
  | .ok footer => .ok (some footer)
  | .error e => if e.isIllegalArgument then .ok none else .error e

/-- As in `readPubKey` and `readPubKeyMeta`, the limit of the hex texts, which `2 ^ 30` bytes
reach, is left out. -/
def readAuthBlob (image : Bytes) (vbMetaOffset : UInt64) (header : Header) :
    Result (Option AuthBlob) :=
  if 0 < header.authenticationDataBlockSize then do
    let fis ← openAt image
      [vbMetaOffset.toInt64.toInt, 256, header.hashOffset.toInt64.toInt]
    let (ba, fis) ← readArray fis header.hashSize.toUInt32.toInt32
    let (bb, _) ← readArray fis header.signatureSize.toUInt32.toInt32
    .ok (some
      { offset := vbMetaOffset + 256
        size := header.authenticationDataBlockSize
        hash := some (toHexString ba)
        signature := some (toHexString bb) })
  else .ok none

def readDescriptors (vm : Jvm) (crypto : Crypto) (image : Bytes) (auxBlockOffset : UInt64)
    (header : Header) : Result (List AnyDescriptor) :=
  if 0 < header.descriptorsSize then do
    let fis ← openAt image [(auxBlockOffset + header.descriptorsOffset).toInt64.toInt]
    UnknownDescriptor.parseDescriptors2 vm crypto fis header.descriptorsSize.toInt64
  else .ok []

def readPubKey (image : Bytes) (auxBlockOffset : UInt64) (header : Header) :
    Result (Option PubKeyInfo) :=
  if 0 < header.publicKeySize then do
    let fis ← openAt image [auxBlockOffset.toInt64.toInt, header.publicKeyOffset.toInt64.toInt]
    let (pubkey, _) ← readArray fis header.publicKeySize.toUInt32.toInt32
    .ok (some
      { offset := header.publicKeyOffset.toInt64
        size := header.publicKeySize.toInt64
        pubkey })
  else .ok none

def readPubKeyMeta (image : Bytes) (auxBlockOffset : UInt64) (header : Header) :
    Result (Option PubKeyMetadataInfo) :=
  if 0 < header.publicKeyMetadataSize then do
    let fis ← openAt image
      [auxBlockOffset.toInt64.toInt, header.publicKeyMetadataOffset.toInt64.toInt]
    let (pkmd, _) ← readArray fis header.publicKeyMetadataSize.toUInt32.toInt32
    .ok (some
      { offset := header.publicKeyMetadataOffset.toInt64
        size := header.publicKeyMetadataSize.toInt64
        pkmd })
  else .ok none

/-- `parseVbMeta(image_file)`. -/
def parseVbMeta (vm : Jvm) (crypto : Crypto) (image : Bytes) : Result AVBInfo := do
  let footer ← readFooter vm image
  let vbMetaOffset := match footer with
    | some footer => footer.vbMetaOffset
    | none => 0
  let fis ← openAt image [vbMetaOffset.toInt64.toInt]
  let header ← Header.ofStream vm fis
  let auxBlockOffset := vbMetaOffset + 256 + header.authenticationDataBlockSize
  let authBlob ← readAuthBlob image vbMetaOffset header
  let descriptors ← readDescriptors vm crypto image auxBlockOffset header
  let aux : AuxBlob := AuxBlob.addAll {} descriptors
  let pubkey ← readPubKey image auxBlockOffset header
  let pubkeyMeta ← readPubKeyMeta image auxBlockOffset header
  .ok { header := some header
        authBlob
        auxBlob := some { aux with pubkey, pubkeyMeta }
        footer }

end Avb

end BootImageEditor
