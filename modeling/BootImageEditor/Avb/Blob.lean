import BootImageEditor.Library.SortBy
import BootImageEditor.Avb.DescriptorParse

/-!
# Blobs

The header, the footer, and the two data blocks of a vbmeta image: the auxiliary block
with the descriptors, the public key and its metadata, and the authentication block with
the hash and the signature.
-/

namespace BootImageEditor

open Codec Fallible Struct3 Helper

namespace Avb

/-! ## Footer -/

structure Footer where
  versionMajor : UInt32 := 1
  versionMinor : UInt32 := 0
  originalImageSize : UInt64 := 0
  vbMetaOffset : UInt64 := 0
  vbMetaSize : UInt64 := 0
  deriving DecidableEq

namespace Footer

def magic : KString := units "AVBf"

def formatString : KString := units "!4s2L3Q28x"

/-- `Footer(iS)`. -/
def ofStream (vm : Jvm) (s : InputStream) : Result Footer := do
  let (info, _) ← unpackFormat vm formatString s
  vm.assert (info.length = 7)
  match info with
  | [.string head, .uint versionMajor, .uint versionMinor, .ulong originalImageSize,
      .ulong vbMetaOffset, .ulong vbMetaSize, _] =>
      if head ≠ magic then
        throw (.illegalArgument "stream doesn't look like valid AVB Footer")
      .ok { versionMajor, versionMinor, originalImageSize, vbMetaOffset, vbMetaSize }
  | _ => .error .classCast

def encode (vm : Jvm) (f : Footer) : Result Bytes :=
  packFormat vm formatString
    [.string magic, .uint f.versionMajor, .uint f.versionMinor, .ulong f.originalImageSize,
      .ulong f.vbMetaOffset, .ulong f.vbMetaSize, .null]

end Footer

/-! ## Header -/

structure Header where
  requiredLibavbVersionMajor : UInt32 := 1
  requiredLibavbVersionMinor : UInt32 := 0
  authenticationDataBlockSize : UInt64 := 0
  auxiliaryDataBlockSize : UInt64 := 0
  algorithmType : UInt32 := 0
  hashOffset : UInt64 := 0
  hashSize : UInt64 := 0
  signatureOffset : UInt64 := 0
  signatureSize : UInt64 := 0
  publicKeyOffset : UInt64 := 0
  publicKeySize : UInt64 := 0
  publicKeyMetadataOffset : UInt64 := 0
  publicKeyMetadataSize : UInt64 := 0
  descriptorsOffset : UInt64 := 0
  descriptorsSize : UInt64 := 0
  rollbackIndex : UInt64 := 0
  flags : UInt32 := 0
  releaseString : KString := units "avbtool 1.1.0"
  deriving DecidableEq

namespace Header

def magic : KString := units "AVB0"

def formatString : KString := units "!4s2L2QL11QL4x47sx80x"

/-- `Header(iS)`. -/
def ofStream (vm : Jvm) (s : InputStream) : Result Header := do
  let (info, _) ← unpackFormat vm formatString s
  vm.assert (info.length = 22)
  match info with
  | [.string head, .uint requiredLibavbVersionMajor, .uint requiredLibavbVersionMinor,
      .ulong authenticationDataBlockSize, .ulong auxiliaryDataBlockSize, .uint algorithmType,
      .ulong hashOffset, .ulong hashSize, .ulong signatureOffset, .ulong signatureSize,
      .ulong publicKeyOffset, .ulong publicKeySize, .ulong publicKeyMetadataOffset,
      .ulong publicKeyMetadataSize, .ulong descriptorsOffset, .ulong descriptorsSize,
      .ulong rollbackIndex, .uint flags, _, .string releaseString, _, _] =>
      if head ≠ magic then
        throw (.illegalArgument "stream doesn't look like valid VBMeta Header")
      .ok { requiredLibavbVersionMajor, requiredLibavbVersionMinor,
            authenticationDataBlockSize, auxiliaryDataBlockSize, algorithmType, hashOffset,
            hashSize, signatureOffset, signatureSize, publicKeyOffset, publicKeySize,
            publicKeyMetadataOffset, publicKeyMetadataSize, descriptorsOffset,
            descriptorsSize, rollbackIndex, flags, releaseString }
  | _ => .error .classCast

def encode (vm : Jvm) (h : Header) : Result Bytes :=
  packFormat vm formatString
    [.string magic, .uint h.requiredLibavbVersionMajor, .uint h.requiredLibavbVersionMinor,
      .ulong h.authenticationDataBlockSize, .ulong h.auxiliaryDataBlockSize,
      .uint h.algorithmType, .ulong h.hashOffset, .ulong h.hashSize, .ulong h.signatureOffset,
      .ulong h.signatureSize, .ulong h.publicKeyOffset, .ulong h.publicKeySize,
      .ulong h.publicKeyMetadataOffset, .ulong h.publicKeyMetadataSize,
      .ulong h.descriptorsOffset, .ulong h.descriptorsSize, .ulong h.rollbackIndex,
      .uint h.flags, .null, .string h.releaseString, .null, .null]

end Header

/-! ## AuxBlob -/

structure PubKeyInfo where
  offset : Int64 := 0
  size : Int64 := 0
  pubkey : Bytes := []
  deriving DecidableEq

structure PubKeyMetadataInfo where
  offset : Int64 := 0
  size : Int64 := 0
  pkmd : Bytes := []
  deriving DecidableEq

structure AuxBlob where
  pubkey : Option PubKeyInfo := none
  pubkeyMeta : Option PubKeyMetadataInfo := none
  propertyDescriptor : List PropertyDescriptor := []
  hashTreeDescriptor : List HashTreeDescriptor := []
  hashDescriptors : List HashDescriptor := []
  kernelCmdlineDescriptor : List KernelCmdlineDescriptor := []
  chainPartitionDescriptor : List ChainPartitionDescriptor := []
  unknownDescriptors : List UnknownDescriptor := []
  deriving DecidableEq

namespace AuxBlob

/-- The six typed lists one after the other. -/
def descList (aux : AuxBlob) : List AnyDescriptor :=
  aux.propertyDescriptor.map .property ++ aux.hashTreeDescriptor.map .hashTree ++
    aux.hashDescriptors.map .hash ++ aux.kernelCmdlineDescriptor.map .kernelCmdline ++
    aux.chainPartitionDescriptor.map .chainPartition ++ aux.unknownDescriptors.map .unknown

/-- `descList.sortBy { it.sequence }`. -/
def sortedDescriptors (aux : AuxBlob) : List AnyDescriptor :=
  sortBy (fun d => d.sequence.toInt) aux.descList

def encodeLoop (vm : Jvm) : List AnyDescriptor → Bytes → Result Bytes
  | [], ret => .ok ret
  | d :: ds, ret => do
      let bytes ← d.encode vm
      let ret ← join [ret, bytes]
      encodeLoop vm ds ret

def encodeDescriptors (vm : Jvm) (aux : AuxBlob) : Result Bytes :=
  encodeLoop vm aux.sortedDescriptors []

/-- The blob after `encodeDescriptors()`: encoding updates sizes in the
descriptors. -/
def encoded (aux : AuxBlob) : AuxBlob :=
  { aux with
    propertyDescriptor := aux.propertyDescriptor.map PropertyDescriptor.encoded
    hashTreeDescriptor := aux.hashTreeDescriptor.map HashTreeDescriptor.encoded
    hashDescriptors := aux.hashDescriptors.map HashDescriptor.encoded
    chainPartitionDescriptor :=
      aux.chainPartitionDescriptor.map ChainPartitionDescriptor.encoded }

/-- `encodePubKey(alg)`, with the default key of the algorithm. -/
def encodePubKey (vm : Jvm) (crypto : Crypto) (alg : Algorithm) : Result Bytes :=
  if 0 < alg.publicKeyNumBytes then do
    let algKey ← crypto.readAllBytes alg.defaultKey
    let encodedKey ← crypto.encodeRSAkey algKey
    vm.assert (alg.publicKeyNumBytes = encodedKey.length)
    .ok encodedKey
  else .ok []

def pkmd (aux : AuxBlob) : Bytes :=
  match aux.pubkeyMeta with
  | some pubkeyMeta => pubkeyMeta.pkmd
  | none => []

/-- `encode(alg)`: encoded descriptors, encoded key, key metadata and padding. -/
def encode (vm : Jvm) (crypto : Crypto) (alg : Algorithm) (aux : AuxBlob) : Result Bytes := do
  let encodedDesc ← aux.encodeDescriptors vm
  let encodedKey ← encodePubKey vm crypto alg
  let auxSize := roundToMultipleLong
    (int32Size encodedDesc + int32Size encodedKey + int32Size aux.pkmd).toInt64 64
  let st ← Struct3.new vm (template auxSize.toInt ++ units "b")
  let joined ← join [encodedDesc, encodedKey, aux.pkmd]
  st.pack vm [.byteArray joined]

/-- What `parseVbMeta` does with a parsed descriptor. -/
def add (aux : AuxBlob) : AnyDescriptor → AuxBlob
  | .property d => { aux with propertyDescriptor := aux.propertyDescriptor ++ [d] }
  | .hashTree d => { aux with hashTreeDescriptor := aux.hashTreeDescriptor ++ [d] }
  | .hash d => { aux with hashDescriptors := aux.hashDescriptors ++ [d] }
  | .kernelCmdline d =>
      { aux with kernelCmdlineDescriptor := aux.kernelCmdlineDescriptor ++ [d] }
  | .chainPartition d =>
      { aux with chainPartitionDescriptor := aux.chainPartitionDescriptor ++ [d] }
  | .unknown d => { aux with unknownDescriptors := aux.unknownDescriptors ++ [d] }

def addAll (aux : AuxBlob) (ds : List AnyDescriptor) : AuxBlob := ds.foldl add aux

end AuxBlob

/-! ## AuthBlob -/

structure AuthBlob where
  offset : UInt64 := 0
  size : UInt64 := 0
  hash : Option KString := none
  signature : Option KString := none
  deriving DecidableEq

namespace AuthBlob

/-- `replace(oldValue, newValue)` of a non-empty `oldValue`. -/
def replace (oldValue newValue : KString) : ℕ → KString → KString
  | 0, s => s
  | _, [] => []
  | fuel + 1, c :: cs =>
      if oldValue.isPrefixOf (c :: cs) then
        newValue ++ replace oldValue newValue fuel ((c :: cs).drop oldValue.length)
      else c :: replace oldValue newValue fuel cs

/-- `alg.defaultKey.replace(".pem", ".pk8")`. -/
def signingKey (alg : Algorithm) : KString :=
  replace (units ".pem") (units ".pk8") alg.defaultKey.length alg.defaultKey

/-- `createBlob(header_data_blob, aux_data_blob, algorithm_name)`. -/
def createBlob (vm : Jvm) (crypto : Crypto) (headerDataBlob auxDataBlob : Bytes)
    (algorithmName : KString) : Result Bytes :=
  match Algorithms.getByName algorithmName with
  | none => .error .nullPointer
  | some alg => do
      let authBlockSize := roundToMultipleLong
        (Int32.ofNat alg.hashNumBytes + Int32.ofNat alg.signatureNumBytes).toInt64 64
      if authBlockSize = 0 then .ok []
      else do
        let (binaryHash, binarySignature) ←
          if algorithmName ≠ units "NONE" then do
            let hasher ← pyAlg2java alg.hashName
            let binaryHash := crypto.digest hasher (headerDataBlob ++ auxDataBlob)
            let toSign ← join [alg.padding, binaryHash]
            let binarySignature ← crypto.rawSign (signingKey alg) toSign
            .ok (binaryHash, binarySignature)
          else .ok ([], [])
        let authData ← join [binaryHash, binarySignature]
        let padding ← packX vm (authBlockSize - (int32Size authData).toInt64).toInt (.int 0)
        join [authData, padding]

end AuthBlob

structure AVBInfo where
  header : Option Header := none
  authBlob : Option AuthBlob := none
  auxBlob : Option AuxBlob := none
  footer : Option Footer := none
  deriving DecidableEq

end Avb

end BootImageEditor
