import BootImageEditor.Library.Durable
import BootImageEditor.Avb.VbMeta

/-!
# Adding a hash footer

`addHashFooter` rewrites an image file in place: it cuts off a footer that is there,
updates the hash descriptor of the partition, and appends a new vbmeta image and a new
footer. The steps change the file one after the other, so the state of a run is the
content of the file, also when a step throws.
-/

namespace BootImageEditor

open Codec Fallible Struct3 Helper

namespace Avb

/-- A step on the content of a file. -/
abbrev FileOp (α : Type) := Durable Bytes Throwable α

def blockSize : Int64 := 4096

/-- `MAX_VBMETA_SIZE + MAX_FOOTER_SIZE`. -/
def maxMetadataSize : Int64 := 64 * 1024 + 4096

/-- `File(image_file).length()`. -/
def fileLength (image : Bytes) : Int64 := Int64.ofNat image.length

/-- `File(image_file).readBytes()`, which refuses a file that does not fit an array. -/
def readBytes (image : Bytes) : Result Bytes :=
  if image.length ≤ intMax then .ok image else .error .outOfMemory

/-- `ByteArray(size)`. -/
def byteArray (size : Int32) : Result Bytes :=
  if size.toInt < 0 then .error .negativeArraySize else .ok (zeros size.toInt.toNat)

/-! ## The hash descriptor -/

/-- `update(image_file)`: salt, image size and digest. -/
def HashDescriptor.update (crypto : Crypto) (image : Bytes) (d : HashDescriptor) :
    Result HashDescriptor := do
  let d ←
    if d.salt = [] then do
      let hasher ← pyAlg2java d.hashAlgorithm
      let expectedDigestSize := (crypto.digest hasher []).length
      let randomSalt := crypto.urandom expectedDigestSize
      .ok { d with salt := randomSalt, saltLen := uint32Size randomSalt }
    else .ok d
  let d := { d with imageSize := (fileLength image).toUInt64 }
  let hasher ← pyAlg2java d.hashAlgorithm
  let content ← readBytes image
  let newDigest := crypto.digest hasher (d.salt ++ content)
  .ok { d with digest := newDigest, digestLen := uint32Size newDigest }

/-- The loop that removes the descriptors of the partition: what is left, and the last
descriptor removed. -/
def removeNamed (partitionName : KString) :
    List HashDescriptor → HashDescriptor → List HashDescriptor × HashDescriptor
  | [], hd => ([], hd)
  | itrValue :: itr, hd =>
      if itrValue.partitionName = partitionName then removeNamed partitionName itr itrValue
      else
        let (rest, hd) := removeNamed partitionName itr hd
        (itrValue :: rest, hd)

/-- The `AVBInfo` with the hash descriptor of the partition updated. It is encoded once
for the log; that the hex text of `2 ^ 30` bytes is no `String` any more is left out. -/
def updateHashDescriptor (vm : Jvm) (crypto : Crypto) (image : Bytes) (partitionName : KString)
    (info : AVBInfo) : Result AVBInfo :=
  match info.auxBlob with
  | none => .error .nullPointer
  | some aux => do
      let (rest, hd) := removeNamed partitionName aux.hashDescriptors {}
      let hd ← hd.update crypto image
      let _ ← hd.encode vm
      .ok { info with auxBlob := some { aux with hashDescriptors := rest ++ [hd.encoded] } }

/-! ## The file -/

def imageSizeCheck (partitionSize : Int64) (image : Bytes) : Result Unit := do
  if partitionSize < maxMetadataSize then
    throw (.illegalArgument
      s!"Parition SIZE of {partitionSize} is too small. Needs to be at least {maxMetadataSize}")
  let maxImageSize := partitionSize - maxMetadataSize
  if partitionSize % blockSize ≠ 0 then
    throw (.illegalArgument
      s!"Partition SIZE of {partitionSize} is not a multiple of the image block SIZE 4096")
  let originalFileSize := fileLength image
  if maxImageSize < originalFileSize then
    throw (.illegalArgument
      s!"Image size of {originalFileSize} exceeds maximum image size of {maxImageSize} in order to fit in a partition size of {partitionSize}.")

/-- `fc.truncate(size)`. -/
def truncate (size : Int64) (image : Bytes) : Result Bytes :=
  if size.toInt < 0 then .error (.illegalArgument "Negative size")
  else .ok (image.take size.toInt.toNat)

/-- What `trimFooter` leaves of a file. -/
def trimmed (vm : Jvm) (image : Bytes) : Result Bytes := do
  let footer ← readFooter vm image
  match footer with
  | some footer => truncate footer.originalImageSize.toInt64 image
  | none => .ok image

def trimFooter (vm : Jvm) : FileOp PUnit := Durable.update (trimmed vm)

/-- `fos.write(bytes)` at the end of the file. -/
def write (bytes : Bytes) : FileOp PUnit := Durable.update fun image => .ok (image ++ bytes)

/-- What is appended to the trimmed image, and the `AVBInfo` afterwards. -/
structure HashFooter where
  imgPaddingNeeded : Int64
  vbmetaBlobWithPadding : Bytes
  dontCareChunkSize : Int64
  footerBlobWithPadding : Bytes
  info : AVBInfo

/-- The part of `addHashFooter` between trimming the file and appending to it, without the hex
text of the vbmeta image in the log and its copy in `hashDescriptor.vbmeta.blob`. -/
def hashFooter (vm : Jvm) (crypto : Crypto) (partitionSize : Int64) (partitionName : KString)
    (newAvbInfo : AVBInfo) (image : Bytes) : Result HashFooter := do
  let newImageSize := fileLength image
  let info ← updateHashDescriptor vm crypto image partitionName newAvbInfo
  let (vbmetaBlob, info) ← packVbMeta vm crypto info
  let imgPaddingNeeded := roundToMultipleLong newImageSize 4096 - newImageSize
  let vbmetaOffset := newImageSize + imgPaddingNeeded
  let vbmetaBlobWithPadding ← paddingWith vm vbmetaBlob 4096 false
  let vbmetaEndOffset := vbmetaOffset + (int32Size vbmetaBlobWithPadding).toInt64
  let dontCareChunkSize := partitionSize - vbmetaEndOffset - 1 * blockSize
  match info.footer with
  | none => .error .nullPointer
  | some footer => do
      let footer := { footer with
        originalImageSize := newImageSize.toUInt64
        vbMetaOffset := vbmetaOffset.toUInt64
        vbMetaSize := uint64Size vbmetaBlob }
      let footerBlob ← footer.encode vm
      let footerBlobWithPadding ← paddingWith vm footerBlob 4096 true
      .ok { imgPaddingNeeded, vbmetaBlobWithPadding, dontCareChunkSize, footerBlobWithPadding
            info := { info with footer := some footer } }

/-- Appending in four steps, and the closing assertion. -/
def appendHashFooter (vm : Jvm) (partitionSize : Int64) (h : HashFooter) : FileOp PUnit := do
  let imgPadding ← Durable.lift (byteArray h.imgPaddingNeeded.toInt32)
  write imgPadding
  write h.vbmetaBlobWithPadding
  let dontCare ← Durable.lift (byteArray h.dontCareChunkSize.toInt32)
  write dontCare
  write h.footerBlobWithPadding
  let image ← Durable.get
  Durable.lift (vm.assert (partitionSize = fileLength image))

/-- `addHashFooter(image_file, partition_size, partition_name, newAvbInfo)`, with the
`AVBInfo` it leaves. -/
def addHashFooter (vm : Jvm) (crypto : Crypto) (partitionSize : Int64) (partitionName : KString)
    (newAvbInfo : AVBInfo) : FileOp AVBInfo := do
  let image ← Durable.get
  Durable.lift (imageSizeCheck partitionSize image)
  trimFooter vm
  let image ← Durable.get
  let h ← Durable.lift (hashFooter vm crypto partitionSize partitionName newAvbInfo image)
  appendHashFooter vm partitionSize h
  pure h.info

end Avb

end BootImageEditor
