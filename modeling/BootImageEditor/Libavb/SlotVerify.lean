import BootImageEditor.Library.Procedure
import BootImageEditor.Libavb.AvbOps
import BootImageEditor.Libavb.Descriptor
import Mathlib.Data.List.TakeWhile

/-!
# Verifying a slot

`avb_slot_verify` up to the command line: it loads the vbmeta image of a slot, checks its
signature, its key and its rollback index, and follows its descriptors to the partitions to
be loaded and to the vbmeta images of other partitions. What is loaded is collected in
`slot_data` as it goes, also where the run ends with an error. `goto out` leaves a function
early with the result that `ret` has; a failed `avb_assert` and a read outside of a buffer cut
the run short. The small allocations, of names, lists and command lines, succeed.
-/

namespace BootImageEditor

open Codec Procedures Procedure

namespace Libavb

/-! ## Strings -/

/-- The C string at the start of a buffer. -/
def CString.ofBuffer (buffer : Bytes) : CString :=
  ⟨buffer.takeWhile (· ≠ 0), fun h => by simpa using List.mem_takeWhile_imp h⟩

/-- `avb_validate_utf8`, with the number of continuation bytes that are still to come. -/
def validateUtf8From : ℕ → Bytes → Bool
  | numCc, [] => numCc = 0
  | 0, c :: data =>
      if c < 0x80 then validateUtf8From 0 data
      else if c &&& 0xe0 = 0xc0 then validateUtf8From 1 data
      else if c &&& 0xf0 = 0xe0 then validateUtf8From 2 data
      else if c &&& 0xf8 = 0xf0 then validateUtf8From 3 data
      else false
  | numCc + 1, c :: data => if c &&& 0xc0 = 0x80 then validateUtf8From numCc data else false

def avbValidateUtf8 (data : Bytes) : Bool := validateUtf8From 0 data

/-- `AVB_PART_NAME_MAX_SIZE`. -/
def avbPartNameMaxSize : ℕ := 32

/-- `avb_str_concat` into a buffer of `AVB_PART_NAME_MAX_SIZE` bytes. -/
def avbStrConcat (str1 str2 : Bytes) : Option CString :=
  match safeAdd (UInt64.ofNat str1.length) (UInt64.ofNat str2.length) with
  | none => none
  | some combinedLen =>
      if avbPartNameMaxSize - 1 < combinedLen.toNat then none
      else some (.ofBuffer (str1 ++ str2))

def avbStrvFindStr (strings : List CString) (str : Bytes) : Option CString :=
  strings.find? fun s => s.bytes = str

/-- `avb_strcmp(buffer, str) == 0` for a literal. -/
def isString (buffer str : Bytes) : Bool := buffer.take (str.length + 1) = str ++ [0]

/-- `"sha1"`, `"sha256"` and `"sha512"`. -/
def nameSha1 : Bytes := [0x73, 0x68, 0x61, 0x31]

def nameSha256 : Bytes := [0x73, 0x68, 0x61, 0x32, 0x35, 0x36]

def nameSha512 : Bytes := [0x73, 0x68, 0x61, 0x35, 0x31, 0x32]

theorem zero_notMem_vbmeta : 0 ∉ ([0x76, 0x62, 0x6d, 0x65, 0x74, 0x61] : Bytes) := by decide

theorem zero_notMem_boot : 0 ∉ ([0x62, 0x6f, 0x6f, 0x74] : Bytes) := by decide

/-- `"vbmeta"` and `"boot"`. -/
def nameVbmeta : CString := ⟨_, zero_notMem_vbmeta⟩

def nameBoot : CString := ⟨_, zero_notMem_boot⟩

/-- `AVB_NPV_PERSISTENT_DIGEST_PREFIX`, `"avb.persistent_digest."`. -/
def persistentDigestPrefix : Bytes :=
  [0x61, 0x76, 0x62, 0x2e, 0x70, 0x65, 0x72, 0x73, 0x69, 0x73, 0x74, 0x65, 0x6e, 0x74, 0x5f, 0x64,
    0x69, 0x67, 0x65, 0x73, 0x74, 0x2e]

/-- `avb_uppercase`. -/
def avbUppercase (str : Bytes) : Bytes :=
  str.map fun c => if c ≤ 0x7a ∧ 0x61 ≤ c then c - 0x20 else c

def hexDigit (n : UInt8) : UInt8 := if n < 10 then 0x30 + n else 0x61 + (n - 10)

/-- `avb_bin2hex`. -/
def avbBin2hex (data : Bytes) : Bytes :=
  data.flatMap fun b : UInt8 => [hexDigit (b >>> 4), hexDigit (b &&& 0x0f)]

/-! ## State and parameters -/

structure AvbPartitionData where
  partitionName : CString
  data : Bytes
  dataSize : UInt64

structure AvbVBMetaData where
  partitionName : CString
  vbmetaData : Bytes
  vbmetaSize : UInt64
  verifyResult : AvbVBMetaVerifyResult

/-- What is collected about a slot. -/
structure AvbSlotVerifyData where
  vbmetaImages : List AvbVBMetaData := []
  loadedPartitions : List AvbPartitionData := []
  cmdline : Option Bytes := none
  rollbackIndexes : ℕ → UInt64 := fun _ => 0

/-- `MAX_NUMBER_OF_LOADED_PARTITIONS` and `MAX_NUMBER_OF_VBMETA_IMAGES`. -/
def maxNumberOfLoadedPartitions : ℕ := 32

def maxNumberOfVbmetaImages : ℕ := 32

/-- `VBMETA_MAX_SIZE`. -/
def vbmetaMaxSize : UInt64 := 64 * 1024

/-- `AVB_MAX_NUMBER_OF_ROLLBACK_INDEX_LOCATIONS`. -/
def maxNumberOfRollbackIndexLocations : ℕ := 32

/-- `AVB_MAX_NUM_CMDLINE_SUBST`. -/
def maxNumCmdlineSubst : ℕ := 10

/-- The callbacks on a device with states in `σ`. Only storing a persistent value changes the
state. A callback may be missing where it is an `Option`. -/
structure SlotOps (σ : Type) where
  avbOps : σ → AvbOps
  getSizeOfPartition : σ → CString → AvbIO UInt64
  readIsDeviceUnlocked : σ → AvbIO Bool
  readRollbackIndex : σ → UInt32 → AvbIO UInt64
  validateVbmetaPublicKey : σ → Bytes → Bytes → AvbIO Bool
  /-- With the location that is used if the callback sets none. -/
  validatePublicKeyForPartition :
    Option (σ → CString → Bytes → Bytes → UInt32 → AvbIO (Bool × UInt32))
  readPersistentValue : Option (σ → Bytes → ℕ → AvbIO Bytes)
  writePersistentValue : Option (σ → Bytes → Bytes → AvbIO Unit × σ)

/-- What is fixed during a call of `avb_slot_verify`: `malloc` gives the address of a buffer. -/
structure SlotCall (σ : Type) where
  ops : SlotOps σ
  prim : Primitives
  malloc : UInt64 → Option UInt64
  requestedPartitions : List CString
  abSuffix : CString
  flags : UInt32

namespace SlotCall

variable {σ : Type}

/-- `AVB_SLOT_VERIFY_FLAGS_ALLOW_VERIFICATION_ERROR` is set. -/
def allowVerificationError (c : SlotCall σ) : Bool := c.flags &&& 1 ≠ 0

/-- `AVB_SLOT_VERIFY_FLAGS_NO_VBMETA_PARTITION` is set. -/
def noVbmetaPartition (c : SlotCall σ) : Bool := c.flags &&& 4 ≠ 0

end SlotCall

/-- The state of a call: the device, the data of the slot, and what the out-parameters of the
top level have been set to. -/
structure SlotState (σ : Type) where
  device : σ
  slotData : AvbSlotVerifyData := {}
  algorithmType : UInt32 := 0
  additionalCmdlineSubst : List (Bytes × Bytes) := []

abbrev Verify (σ : Type) := Procedure AvbSlotVerifyResult (SlotState σ)

def resultShouldContinue : AvbSlotVerifyResult → Bool
  | .errorOom => false
  | .errorIo => false
  | .errorInvalidMetadata => false
  | .errorUnsupportedVersion => false
  | .errorInvalidArgument => false
  | .ok => true
  | .errorVerification => true
  | .errorRollbackIndex => true
  | .errorPublicKeyRejected => true

section

variable {σ α : Type}

/-- A callback whose failure is an error of its own kind. -/
def perform : AvbIO α → Verify σ α
  | .ok a => pure a
  | .error .oom => throw .errorOom
  | .error _ => throw .errorIo

def readOrCutShort (buffer : Bytes) (offset count : ℕ) : Verify σ Bytes :=
  match readAt buffer offset count with
  | some bs => pure bs
  | none => cutShort

/-- The value, unless there is none. -/
def orThrow (e : AvbSlotVerifyResult) : Option α → Verify σ α
  | some a => pure a
  | none => throw e

/-! ## Persistent digests -/

/-- The end of `read_persistent_digest`, after the value was read. -/
def storedDigest (expectedDigestSize : ℕ) : AvbIO Bytes → Verify σ Bytes
  | .error .oom => throw .errorOom
  | .error .noSuchValue => throw .errorVerification
  | .error .invalidValueSize => throw .errorInvalidMetadata
  | .error .insufficientSpace => throw .errorInvalidMetadata
  | .error _ => throw .errorIo
  | .ok digest => do
      exitIf (expectedDigestSize ≠ digest.length) .errorInvalidMetadata
      pure digest

variable (c : SlotCall σ)

/-- `initialize_persistent_digest`. The value is read back, now without an initial digest. -/
def initializePersistentDigest (readPersistentValue : σ → Bytes → ℕ → AvbIO Bytes)
    (name : Bytes) (digestSize : ℕ) (initialDigest : Bytes) : Verify σ Bytes := do
  let isDeviceUnlocked ← perform (c.ops.readIsDeviceUnlocked (← get).device)
  exitIf isDeviceUnlocked .errorVerification
  match c.ops.writePersistentValue with
  | none => cutShort
  | some writePersistentValue => do
      let s ← get
      let (written, device) := writePersistentValue s.device name initialDigest
      modify fun s => { s with device := device }
      perform written
      storedDigest digestSize (readPersistentValue device name digestSize)

/-- `read_persistent_digest`. -/
def readPersistentDigest (partName : CString) (expectedDigestSize : ℕ)
    (initialDigest : Option Bytes) : Verify σ Bytes := do
  let readPersistentValue ← orThrow .errorInvalidMetadata c.ops.readPersistentValue
  let name := persistentDigestPrefix ++ partName.bytes
  let s ← get
  match readPersistentValue s.device name expectedDigestSize, initialDigest with
  | .error .noSuchValue, some initialDigest =>
      initializePersistentDigest c readPersistentValue name expectedDigestSize initialDigest
  | value, _ => storedDigest expectedDigestSize value

/-! ## Loading partitions -/

def loadPartition (partName : CString) (imageSize : UInt64) : Verify σ Bytes := do
  let s ← get
  match loadFullPartition (fun n => (c.malloc n).isSome) (c.ops.avbOps s.device) partName
    imageSize with
  | (.ok, some imageBuf) => pure imageBuf
  | (ret, _) => throw ret

/-- The next element of `loaded_partitions`, if there is room. -/
def addLoadedPartition (partition : AvbPartitionData) : Verify σ PUnit := do
  let s ← get
  exitIf (s.slotData.loadedPartitions.length = maxNumberOfLoadedPartitions) .errorOom
  modify fun s => { s with slotData := { s.slotData with
    loadedPartitions := s.slotData.loadedPartitions ++ [partition] } }

/-- `load_requested_partitions`. -/
def loadRequestedPartitions : List CString → Verify σ AvbSlotVerifyResult
  | [] => pure .ok
  | requested :: rest => do
      let partName ← orThrow .errorInvalidMetadata
        (avbStrConcat requested.bytes c.abSuffix.bytes)
      let imageSize ← perform (c.ops.getSizeOfPartition (← get).device partName)
      let imageBuf ← loadPartition c partName imageSize
      addLoadedPartition ⟨requested, imageBuf, imageSize⟩
      loadRequestedPartitions rest

/-! ## Hash descriptors -/

/-- The name of the partition of a hash descriptor. -/
def hashPartitionName (desc : AvbHashDescriptor) (name : Bytes) : Verify σ CString :=
  if desc.flags &&& 1 ≠ 0 then
    if avbPartNameMaxSize ≤ name.length then throw .errorInvalidMetadata
    else pure (.ofBuffer name)
  else if desc.digestLen = 0 ∧ c.abSuffix.bytes ≠ [] then throw .errorInvalidMetadata
  else orThrow .errorInvalidMetadata (avbStrConcat name c.abSuffix.bytes)

/-- The hash of salt and image by the algorithm of a descriptor, and its size. -/
def descriptorHash (prim : Primitives) (hashAlgorithm content : Bytes) : Option (Bytes × ℕ) :=
  if isString hashAlgorithm nameSha256 then some (prim.sha256 content, 32)
  else if isString hashAlgorithm nameSha512 then some (prim.sha512 content, 64)
  else none

/-- The digest of an image that was loaded, against the one in the descriptor, or against the
stored one where the descriptor has none. -/
def checkDigest (image : Bytes) (descriptor : ℕ) (desc : AvbHashDescriptor) (partName : CString)
    (imageBuf : Bytes) (imageSize : UInt64) : Verify σ AvbSlotVerifyResult := do
  let saltOffset := descriptor + AvbHashDescriptor.size + desc.partitionNameLen.toNat
  let salt ← readOrCutShort image saltOffset desc.saltLen.toNat
  -- A partition that is smaller than the image of the descriptor is hashed as a whole.
  let content ← readOrCutShort imageBuf 0 (min desc.imageSize.toNat imageSize.toNat)
  let (digest, digestLen) ← orThrow .errorInvalidMetadata
    (descriptorHash c.prim desc.hashAlgorithm (salt ++ content))
  let expected ←
    if desc.digestLen = 0 then readPersistentDigest c partName digestLen (some digest)
    else do
      exitIf (digestLen ≠ desc.digestLen.toNat) .errorInvalidMetadata
      readOrCutShort image (saltOffset + desc.saltLen.toNat) desc.digestLen.toNat
  exitIf (digest ≠ expected) .errorVerification
  pure .ok

/-- `load_and_verify_hash_partition`. -/
def loadAndVerifyHashPartition (image : Bytes) (descriptor : ℕ) :
    Verify σ AvbSlotVerifyResult := do
  let src ← readOrCutShort image descriptor AvbHashDescriptor.size
  let desc ← orThrow .errorInvalidMetadata (AvbHashDescriptor.validateAndByteswap src)
  let name ← readOrCutShort image (descriptor + AvbHashDescriptor.size)
    desc.partitionNameLen.toNat
  exitIf (!avbValidateUtf8 name) .errorInvalidMetadata
  match avbStrvFindStr c.requestedPartitions name with
  | none => pure .ok
  | some found => do
      let partName ← hashPartitionName c desc name
      let imageSize ←
        if c.allowVerificationError then
          perform (c.ops.getSizeOfPartition (← get).device partName)
        else pure desc.imageSize
      let imageBuf ← loadPartition c partName imageSize
      let ret ← outcome (checkDigest c image descriptor desc partName imageBuf imageSize)
      -- The image goes to `slot_data` also where its digest does not match.
      exitIf (!resultShouldContinue ret) ret
      addLoadedPartition ⟨found, imageBuf, imageSize⟩
      pure ret

/-! ## Vbmeta images -/

/-- The arguments of `load_and_verify_vbmeta` that differ between its calls. The name of the
partition is a pointer and a length. -/
structure VbmetaArgs where
  toplevelVbmetaFlags : UInt32
  rollbackIndexLocation : Int32
  partitionName : Bytes
  partitionNameLen : ℕ
  expectedPublicKey : Option Bytes
  /-- The out-parameters are given. -/
  outParameters : Bool

/-- The arguments at the top level, for the vbmeta image of a partition. -/
def VbmetaArgs.toplevel (partition : CString) : VbmetaArgs where
  toplevelVbmetaFlags := 0
  rollbackIndexLocation := 0
  partitionName := partition.bytes ++ [0]
  partitionNameLen := partition.bytes.length
  expectedPublicKey := none
  outParameters := true

/-- `is_main_vbmeta`. -/
def VbmetaArgs.isMain (a : VbmetaArgs) : Bool :=
  a.rollbackIndexLocation = 0 ∧ !c.noVbmetaPartition

/-- `look_for_vbmeta_footer`. -/
def VbmetaArgs.looksForFooter (a : VbmetaArgs) : Bool :=
  a.partitionName.take nameVbmeta.bytes.length ≠ nameVbmeta.bytes

structure AvbFooter where
  versionMajor : UInt32
  vbmetaOffset : UInt64
  vbmetaSize : UInt64

/-- `AVB_FOOTER_MAGIC`. -/
def avbFooterMagic : Bytes := [0x41, 0x56, 0x42, 0x66]

/-- `avb_footer_validate_and_byteswap`. -/
def avbFooterValidateAndByteswap (src : Bytes) : Option AvbFooter :=
  let dest : AvbFooter :=
    ⟨be32toh (slice 4 4 src), be64toh (slice 20 8 src), be64toh (slice 28 8 src)⟩
  if slice 0 4 src ≠ avbFooterMagic then none
  else if 1 < dest.versionMajor then none
  else some dest

/-- Where the vbmeta image of a partition lies, by its footer, if there is one. -/
def locateVbmeta (fullName : CString) : Verify σ (UInt64 × UInt64) := do
  let footerBuf ← perform ((c.ops.avbOps (← get).device).readFromPartition fullName (-64) 64)
  require (footerBuf.length = 64)
  match avbFooterValidateAndByteswap footerBuf with
  | none => pure (0, vbmetaMaxSize)
  | some footer =>
      if vbmetaMaxSize < footer.vbmetaSize then pure (0, vbmetaMaxSize)
      else pure (footer.vbmetaOffset, footer.vbmetaSize)

/-- The result of `avb_vbmeta_image_verify`, and `ret` after it. -/
def checkSignature (vbmetaBuf : UInt64) (image : Bytes) :
    Verify σ (AvbVBMetaVerifyResult × AvbSlotVerifyResult) :=
  match avbVbmetaImageVerify c.prim vbmetaBuf image with
  | .ok => do
      require (0 < (toHostByteOrder image).publicKeySize)
      pure (.ok, .ok)
  | .invalidVbmetaHeader => throw .errorInvalidMetadata
  | .unsupportedVersion => throw .errorUnsupportedVersion
  | vbmetaRet => do
      exitIf (!c.allowVerificationError) .errorVerification
      pure (vbmetaRet, .errorVerification)

/-- The public key of an image, as `avb_vbmeta_image_verify` gives it out. -/
def publicKeyOf (image : Bytes) : Bytes :=
  let header := toHostByteOrder image
  slice (headerSize + header.authenticationDataBlockSize.toNat + header.publicKeyOffset.toNat)
    header.publicKeySize.toNat image

def publicKeyMetadataOf (image : Bytes) : Bytes :=
  let header := toHostByteOrder image
  slice (headerSize + header.authenticationDataBlockSize.toNat +
    header.publicKeyMetadataOffset.toNat) header.publicKeyMetadataSize.toNat image

/-- Whether the device trusts the key of a top-level image, and the location of its rollback
index. -/
def validatePublicKey (a : VbmetaArgs) (fullName : CString) (image : Bytes) :
    Verify σ (Bool × UInt32) := do
  let location := a.rollbackIndexLocation.toUInt32
  let device := (← get).device
  if c.noVbmetaPartition then
    match c.ops.validatePublicKeyForPartition with
    | none => cutShort
    | some validate =>
        perform (validate device fullName (publicKeyOf image) (publicKeyMetadataOf image) location)
  else do
    require (a.isMain c)
    let trusted ← perform
      (c.ops.validateVbmetaPublicKey device (publicKeyOf image) (publicKeyMetadataOf image))
    pure (trusted, location)

/-- The key that made the signature, against the one in the chain partition descriptor, or
before the device: the location of the rollback index, and `ret` after it. -/
def checkPublicKey (a : VbmetaArgs) (fullName : CString) (image : Bytes)
    (vbmetaRet : AvbVBMetaVerifyResult) (ret : AvbSlotVerifyResult) :
    Verify σ (UInt32 × AvbSlotVerifyResult) :=
  if vbmetaRet ≠ .ok then pure (a.rollbackIndexLocation.toUInt32, ret)
  else do
    let (accepted, location) ←
      match a.expectedPublicKey with
      | some expected => do
          require (!a.isMain c)
          pure (decide (expected = publicKeyOf image), a.rollbackIndexLocation.toUInt32)
      | none => validatePublicKey c a fullName image
    if accepted then pure (location, ret)
    else do
      exitIf (!c.allowVerificationError) .errorPublicKeyRejected
      pure (location, .errorPublicKeyRejected)

/-- The rollback index of an image against the stored one. -/
def checkRollbackIndex (location : UInt32) (image : Bytes) (ret : AvbSlotVerifyResult) :
    Verify σ AvbSlotVerifyResult := do
  let storedRollbackIndex ← perform (c.ops.readRollbackIndex (← get).device location)
  if (toHostByteOrder image).rollbackIndex < storedRollbackIndex then do
    exitIf (!c.allowVerificationError) .errorRollbackIndex
    pure .errorRollbackIndex
  else pure ret

/-- The next element of `vbmeta_images`, if there is room. -/
def addVbmetaImage (a : VbmetaArgs) (image : Bytes) (vbmetaRet : AvbVBMetaVerifyResult) :
    Verify σ PUnit := do
  let s ← get
  require (if a.isMain c then s.slotData.vbmetaImages = []
    else c.noVbmetaPartition ∨ s.slotData.vbmetaImages ≠ [])
  exitIf (s.slotData.vbmetaImages.length = maxNumberOfVbmetaImages) .errorOom
  -- `avb_strdup` goes on to the next NUL, which has to come.
  require (0 ∈ a.partitionName)
  let header := toHostByteOrder image
  modify fun s => { s with slotData := { s.slotData with
    vbmetaImages := s.slotData.vbmetaImages ++
      [⟨.ofBuffer a.partitionName, image, UInt64.ofNat headerSize +
        header.authenticationDataBlockSize + header.auxiliaryDataBlockSize, vbmetaRet⟩] } }

/-! ## Descriptors of a vbmeta image -/

/-- A snippet at the end of the command line, which `avb_strlen` ends at the first `NUL`. -/
def appendCmdline (snippet : Bytes) : Option Bytes → Bytes
  | none => snippet
  | some cmdline => (CString.ofBuffer cmdline).bytes ++ 0x20 :: snippet

def processKernelCmdline (toplevelVbmetaFlags : UInt32) (image : Bytes) (descriptor : ℕ)
    (ret : AvbSlotVerifyResult) : Verify σ AvbSlotVerifyResult := do
  let src ← readOrCutShort image descriptor AvbKernelCmdlineDescriptor.size
  let desc ← orThrow .errorInvalidMetadata (AvbKernelCmdlineDescriptor.validateAndByteswap src)
  let kernelCmdline ← readOrCutShort image (descriptor + AvbKernelCmdlineDescriptor.size)
    desc.kernelCmdlineLength.toNat
  exitIf (!avbValidateUtf8 kernelCmdline) .errorInvalidMetadata
  let skipped : Bool :=
    if toplevelVbmetaFlags &&& 1 ≠ 0 then desc.flags &&& 1 ≠ 0 else desc.flags &&& 2 ≠ 0
  if skipped then pure ret
  else do
    modify fun s => { s with slotData := { s.slotData with
      cmdline := some (appendCmdline kernelCmdline s.slotData.cmdline) } }
    pure ret

/-- `avb_add_root_digest_substitution`. -/
def addRootDigestSubstitution (partName : CString) (digest : Bytes) : Verify σ PUnit := do
  let s ← get
  require (partName.bytes.length < avbPartNameMaxSize ∧ digest.length ≤ 64)
  exitIf (maxNumCmdlineSubst ≤ s.additionalCmdlineSubst.length) .errorInvalidMetadata
  let token := avbUppercase ([0x24, 0x28, 0x41, 0x56, 0x42, 0x5f] ++ partName.bytes ++
    [0x5f, 0x52, 0x4f, 0x4f, 0x54, 0x5f, 0x44, 0x49, 0x47, 0x45, 0x53, 0x54, 0x29])
  modify fun s => { s with
    additionalCmdlineSubst := s.additionalCmdlineSubst ++ [(token, avbBin2hex digest)] }

/-- The size of a root digest by the algorithm of a descriptor. -/
def rootDigestSize (hashAlgorithm : Bytes) : Option ℕ :=
  if isString hashAlgorithm nameSha1 then some 20
  else if isString hashAlgorithm nameSha256 then some 32
  else if isString hashAlgorithm nameSha512 then some 64
  else none

/-- A hashtree descriptor: there is something to do only where it has no root digest. Then `ret`
is what reading the stored digest gives, whatever it was before. -/
def processHashtree (outParameters : Bool) (image : Bytes) (descriptor : ℕ)
    (ret : AvbSlotVerifyResult) : Verify σ AvbSlotVerifyResult := do
  let src ← readOrCutShort image descriptor AvbHashtreeDescriptor.size
  let desc ← orThrow .errorInvalidMetadata (AvbHashtreeDescriptor.validateAndByteswap src)
  if desc.rootDigestLen ≠ 0 then pure ret
  else do
    let name ← readOrCutShort image (descriptor + AvbHashtreeDescriptor.size)
      desc.partitionNameLen.toNat
    exitIf (!avbValidateUtf8 name) .errorInvalidMetadata
    exitIf (desc.flags &&& 1 = 0 ∧ c.abSuffix.bytes ≠ []) .errorInvalidMetadata
    exitIf (avbPartNameMaxSize ≤ name.length) .errorInvalidMetadata
    let digestLen ← orThrow .errorInvalidMetadata (rootDigestSize desc.hashAlgorithm)
    let digest ← readPersistentDigest c (.ofBuffer name) digestLen none
    if outParameters then addRootDigestSubstitution (.ofBuffer name) digest
    pure .ok

/-- The arguments for the vbmeta image of a chain partition descriptor. -/
def chainArgs (toplevelVbmetaFlags : UInt32) (image : Bytes) (descriptor : ℕ)
    (desc : AvbChainPartitionDescriptor) (publicKey : Bytes) : VbmetaArgs where
  toplevelVbmetaFlags := toplevelVbmetaFlags
  rollbackIndexLocation := desc.rollbackIndexLocation.toInt32
  partitionName := image.drop (descriptor + AvbChainPartitionDescriptor.size)
  partitionNameLen := desc.partitionNameLen.toNat
  expectedPublicKey := some publicKey
  outParameters := false

section

variable (loadAndVerifyVbmeta : VbmetaArgs → Verify σ AvbSlotVerifyResult)

/-- A chain partition descriptor. A failure that may be continued from stays in `ret`, also
where verification errors are not allowed. -/
def processChainPartition (a : VbmetaArgs) (toplevelVbmetaFlags : UInt32) (image : Bytes)
    (descriptor : ℕ) (ret : AvbSlotVerifyResult) : Verify σ AvbSlotVerifyResult := do
  exitIf (!a.isMain c) .errorInvalidMetadata
  let src ← readOrCutShort image descriptor AvbChainPartitionDescriptor.size
  let desc ← orThrow .errorInvalidMetadata (AvbChainPartitionDescriptor.validateAndByteswap src)
  exitIf (desc.rollbackIndexLocation = 0) .errorInvalidMetadata
  let publicKey ← readOrCutShort image
    (descriptor + AvbChainPartitionDescriptor.size + desc.partitionNameLen.toNat)
    desc.publicKeyLen.toNat
  let subRet ← outcome
    (loadAndVerifyVbmeta (chainArgs toplevelVbmetaFlags image descriptor desc publicKey))
  if subRet = .ok then pure ret
  else do
    exitIf (!resultShouldContinue subRet) subRet
    pure subRet

/-- One turn of the loop over the descriptors of an image. -/
def processDescriptor (a : VbmetaArgs) (toplevelVbmetaFlags : UInt32) (image : Bytes)
    (ret : AvbSlotVerifyResult) (descriptor : ℕ) : Verify σ AvbSlotVerifyResult := do
  let src ← readOrCutShort image descriptor 16
  let desc ← orThrow .errorInvalidMetadata (avbDescriptorValidateAndByteswap src)
  if desc.tag = 2 then do
    let subRet ← outcome (loadAndVerifyHashPartition c image descriptor)
    if subRet = .ok then pure ret
    else do
      exitIf (!c.allowVerificationError ∨ !resultShouldContinue subRet) subRet
      pure subRet
  else if desc.tag = 4 then
    processChainPartition c loadAndVerifyVbmeta a toplevelVbmetaFlags image descriptor ret
  else if desc.tag = 3 then processKernelCmdline toplevelVbmetaFlags image descriptor ret
  else if desc.tag = 1 then processHashtree c a.outParameters image descriptor ret
  else pure ret

/-- The loop over the descriptors, and the rollback index that is noted after it. -/
def processDescriptors (a : VbmetaArgs) (toplevelVbmetaFlags : UInt32) (vbmetaBuf : UInt64)
    (image : Bytes) (ret : AvbSlotVerifyResult) : Verify σ AvbSlotVerifyResult := do
  let header := toHostByteOrder image
  match avbDescriptorGetAll vbmetaBuf image with
  | none => cutShort
  | some descriptors => do
      let ret ← descriptors.foldlM
        (processDescriptor c loadAndVerifyVbmeta a toplevelVbmetaFlags image) ret
      let location := a.rollbackIndexLocation.toInt
      exitIf (location < 0 ∨ maxNumberOfRollbackIndexLocations ≤ location) .errorInvalidMetadata
      modify fun s => { s with
        slotData := { s.slotData with
          rollbackIndexes := Function.update s.slotData.rollbackIndexes location.toNat
            header.rollbackIndex }
        algorithmType := if a.outParameters then header.algorithmType else s.algorithmType }
      pure ret

/-- `load_and_verify_vbmeta` once the image is read. -/
def verifyVbmeta (a : VbmetaArgs) (fullName : CString) (vbmetaBuf : UInt64) (image : Bytes) :
    Verify σ AvbSlotVerifyResult := do
  let (vbmetaRet, ret) ← checkSignature c vbmetaBuf image
  let header := toHostByteOrder image
  exitIf (!a.isMain c ∧ header.flags ≠ 0) .errorInvalidMetadata
  let (location, ret) ← checkPublicKey c a fullName image vbmetaRet ret
  let ret ← checkRollbackIndex c location image ret
  addVbmetaImage c a image vbmetaRet
  if header.flags &&& 2 ≠ 0 then do
    let subRet ← outcome (loadRequestedPartitions c c.requestedPartitions)
    pure (if subRet ≠ .ok then subRet else ret)
  else
    processDescriptors c loadAndVerifyVbmeta a
      (if a.isMain c then header.flags else a.toplevelVbmetaFlags) vbmetaBuf image ret

/-- `load_and_verify_vbmeta`, with itself for the calls inside. -/
def loadAndVerifyVbmetaWith (a : VbmetaArgs) : Verify σ AvbSlotVerifyResult := do
  let name ← readOrCutShort a.partitionName 0 a.partitionNameLen
  exitIf (!avbValidateUtf8 name) .errorInvalidMetadata
  let fullName ← orThrow .errorInvalidMetadata (avbStrConcat name c.abSuffix.bytes)
  let (vbmetaOffset, vbmetaSize) ←
    if a.looksForFooter then locateVbmeta c fullName else pure (0, vbmetaMaxSize)
  let vbmetaBuf ← orThrow .errorOom (c.malloc vbmetaSize)
  let read := (c.ops.avbOps (← get).device).readFromPartition fullName vbmetaOffset.toInt64
    vbmetaSize
  if a.isMain c ∧ read = .error .noSuchPartition ∧ !a.looksForFooter then
    loadAndVerifyVbmeta { VbmetaArgs.toplevel nameBoot with outParameters := a.outParameters }
  else do
    let image ← perform read
    require (image.length ≤ vbmetaSize.toNat)
    verifyVbmeta c loadAndVerifyVbmeta a fullName vbmetaBuf image

end

/-- `load_and_verify_vbmeta` with calls down to a depth. -/
def loadAndVerifyVbmeta : ℕ → VbmetaArgs → Verify σ AvbSlotVerifyResult
  | 0, _ => cutShort
  | depth + 1, a => loadAndVerifyVbmetaWith c (loadAndVerifyVbmeta depth) a

/-! ## The slot -/

/-- The partitions one after the other, each with a vbmeta image of its own. -/
def verifyEach (ret : AvbSlotVerifyResult) : List CString → Verify σ AvbSlotVerifyResult
  | [] => pure ret
  | partition :: rest => do
      let ret ← outcome (loadAndVerifyVbmeta c 3 (.toplevel partition))
      exitIf (!c.allowVerificationError ∧ ret ≠ .ok) ret
      verifyEach ret rest

inductive AvbHashtreeErrorMode where
  | restartAndInvalidate
  | restart
  | eio
  | logging
  | managedRestartAndEio
  deriving DecidableEq, Repr

/-- `avb_slot_verify` up to the command line. -/
def slotVerify (hashtreeErrorMode : AvbHashtreeErrorMode) : Verify σ AvbSlotVerifyResult := do
  exitIf (hashtreeErrorMode = .logging ∧ !c.allowVerificationError) .errorInvalidArgument
  exitIf (hashtreeErrorMode = .managedRestartAndEio ∧
    (c.ops.readPersistentValue.isNone ∨ c.ops.writePersistentValue.isNone)) .errorInvalidArgument
  exitIf (c.noVbmetaPartition ∧ c.ops.validatePublicKeyForPartition.isNone) .errorInvalidArgument
  let ret ←
    if c.noVbmetaPartition then do
      require (c.requestedPartitions ≠ [])
      verifyEach c .ok c.requestedPartitions
    else do
      let ret ← outcome (loadAndVerifyVbmeta c 3 (.toplevel nameVbmeta))
      exitIf (!c.allowVerificationError ∧ ret ≠ .ok) ret
      pure ret
  exitIf (!resultShouldContinue ret) ret
  pure ret

/-! ## How deep the calls go -/

section

variable {c} {a : VbmetaArgs} {f g : VbmetaArgs → Verify σ AvbSlotVerifyResult}

/-- A chain partition is only looked at by the main image, and its own image is none. -/
theorem processChainPartition_congr
    (h : a.isMain c = true → ∀ a' : VbmetaArgs, a'.isMain c = false → f a' = g a') :
    processChainPartition c f a = processChainPartition c g a := by
  funext toplevelVbmetaFlags image descriptor ret
  unfold processChainPartition
  refine exitIf_bind_congr fun hmain => ?_
  refine bind_congr fun src => bind_congr fun desc => ?_
  refine exitIf_bind_congr fun hlocation => ?_
  refine bind_congr fun publicKey => ?_
  rw [h (by simpa using hmain)]
  rw [VbmetaArgs.isMain, decide_eq_false_iff_not]
  rintro ⟨hzero, -⟩
  exact hlocation (congrArg Int32.toUInt32 hzero)

theorem processDescriptors_congr
    (h : a.isMain c = true → ∀ a' : VbmetaArgs, a'.isMain c = false → f a' = g a') :
    processDescriptors c f a = processDescriptors c g a := by
  have hdescriptor : processDescriptor c f a = processDescriptor c g a := by
    unfold processDescriptor
    rw [processChainPartition_congr h]
  unfold processDescriptors
  rw [hdescriptor]

theorem loadAndVerifyVbmetaWith_congr
    (h : a.isMain c = true → ∀ a' : VbmetaArgs, a'.isMain c = false → f a' = g a')
    (hboot : a.isMain c = true → a.looksForFooter = false → ∀ a' : VbmetaArgs,
      a'.looksForFooter = true → f a' = g a') :
    loadAndVerifyVbmetaWith c f a = loadAndVerifyVbmetaWith c g a := by
  have hverify : verifyVbmeta c f a = verifyVbmeta c g a := by
    unfold verifyVbmeta
    rw [processDescriptors_congr h]
  unfold loadAndVerifyVbmetaWith
  rw [hverify]
  refine bind_congr fun name => bind_congr fun _ => bind_congr fun fullName => ?_
  dsimp only
  split
  · next hfooter =>
      refine bind_congr fun located => bind_congr fun vbmetaBuf => bind_congr fun s => ?_
      rw [if_neg (by simp [hfooter]), if_neg (by simp [hfooter])]
  · next hfooter =>
      refine bind_congr fun located => bind_congr fun vbmetaBuf => bind_congr fun s => ?_
      split
      · next hmissing => exact hboot hmissing.1 (by simpa using hfooter) _ rfl
      · rfl

/-- Three calls inside each other are enough: one for the image of a slot, one for that of the
boot partition in its place, and one for a chain partition. -/
theorem loadAndVerifyVbmeta_depth (n : ℕ) (a : VbmetaArgs) :
    loadAndVerifyVbmeta c (n + 3) a = loadAndVerifyVbmeta c 3 a := by
  have hchained (m k : ℕ) (a : VbmetaArgs) (ha : a.isMain c = false) :
      loadAndVerifyVbmeta c (m + 1) a = loadAndVerifyVbmeta c (k + 1) a :=
    loadAndVerifyVbmetaWith_congr (fun hmain => by simp [ha] at hmain)
      fun hmain => by simp [ha] at hmain
  have hfooter (m k : ℕ) (a : VbmetaArgs) (ha : a.looksForFooter = true) :
      loadAndVerifyVbmeta c (m + 2) a = loadAndVerifyVbmeta c (k + 2) a :=
    loadAndVerifyVbmetaWith_congr (fun _ a' ha' => hchained m k a' ha')
      fun _ hnone => by simp [ha] at hnone
  exact loadAndVerifyVbmetaWith_congr (fun _ a' ha' => hchained (n + 1) 1 a' ha')
    fun _ _ a' ha' => hfooter n 0 a' ha'

end

end

end Libavb

end BootImageEditor
