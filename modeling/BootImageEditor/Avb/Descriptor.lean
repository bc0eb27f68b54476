import BootImageEditor.Library.Turns
import BootImageEditor.Avb.Algorithms

/-!
# Descriptors

The six descriptor classes: what `encode()` writes, the fields it updates on the
way, and what the constructors read from a stream. Sizes are computed in the
integer types of the source, which differ from class to class.
-/

namespace BootImageEditor

open Codec Fallible Struct3 Helper

namespace Avb

/-- `size` of an array and `length` of a string, an `Int`. -/
def int32Size {α : Type*} (xs : List α) : Int32 := Int32.ofNat xs.length

/-- `size.toUInt()` and `length.toUInt()`. -/
def uint32Size {α : Type*} (xs : List α) : UInt32 := UInt32.ofNat xs.length

structure Descriptor where
  tag : UInt64
  numBytesFollowing : UInt64 := 0
  sequence : Int32 := 0
  deriving DecidableEq

/-! ## PropertyDescriptor -/

structure PropertyDescriptor extends Descriptor where
  tag := 0
  key : KString := []
  value : KString := []
  deriving DecidableEq

namespace PropertyDescriptor

def formatString : KString := units "!4Q"

/-- `num_bytes_following` as `encode()` stores it, without the padding. -/
def payloadSize (d : PropertyDescriptor) : UInt64 :=
  (32 + uint32Size d.key + uint32Size d.value + 2 - 16).toUInt64

/-- The descriptor after `encode()`. -/
def encoded (d : PropertyDescriptor) : PropertyDescriptor :=
  { d with numBytesFollowing := d.payloadSize }

def encode (vm : Jvm) (d : PropertyDescriptor) : Result Bytes := do
  let st ← Struct3.new vm formatString
  if st.calcSize.toUInt32 ≠ 32 then throw (.runtime "")
  let nbfWithPadding := (roundToMultipleLong d.payloadSize.toInt64 8).toUInt64
  let paddingSize := nbfWithPadding - d.payloadSize
  let padding ← packX vm paddingSize.toNat (.int 0)
  let desc ← packFormat vm formatString
    [.ulong 0, .ulong nbfWithPadding, .int (int32Size d.key), .int (int32Size d.value)]
  join [desc, Utf8.encode d.key, [0], Utf8.encode d.value, [0], padding]

/-- `PropertyDescriptor(data, seq)`. -/
def ofStream (vm : Jvm) (data : InputStream) (seq : Int32) : Result PropertyDescriptor := do
  let (info, data) ← unpackFormat vm formatString data
  match info with
  | [.ulong tag, .ulong numBytesFollowing, .ulong keyLength, .ulong valueLength] =>
      let keySize := keyLength.toUInt32
      let valueSize := valueLength.toUInt32
      let expectedSize := roundToMultiple (32 - 16 + keySize + 1 + valueSize + 1) 8
      if tag ≠ 0 ∨ expectedSize.toUInt64 ≠ numBytesFollowing then
        throw (.illegalArgument "Given data does not look like a |property| descriptor")
      let (info2, _) ← unpackFormat vm
        (decimal keySize.toNat ++ units "sx" ++ decimal valueSize.toNat ++ units "s") data
      match info2 with
      | [.string key, _, .string value] =>
          .ok { tag, numBytesFollowing, sequence := seq, key, value }
      | _ => .error .classCast
  | _ => .error .classCast

end PropertyDescriptor

/-! ## HashTreeDescriptor -/

structure HashTreeDescriptor extends Descriptor where
  tag := 1
  flags : UInt32 := 0
  dmVerityVersion : UInt32 := 0
  imageSize : UInt64 := 0
  treeOffset : UInt64 := 0
  treeSize : UInt64 := 0
  dataBlockSize : UInt32 := 0
  hashBlockSize : UInt32 := 0
  fecNumRoots : UInt32 := 0
  fecOffset : UInt64 := 0
  fecSize : UInt64 := 0
  hashAlgorithm : KString := []
  partitionName : KString := []
  salt : Bytes := []
  rootDigest : Bytes := []
  deriving DecidableEq

namespace HashTreeDescriptor

def formatString : KString := units "!2QL3Q3L2Q32s4L60x"

def payloadSize (d : HashTreeDescriptor) : UInt64 :=
  (180 + (int32Size d.partitionName).toInt64 + (int32Size d.salt).toInt64 +
    (int32Size d.rootDigest).toInt64 - 16).toUInt64

def encoded (d : HashTreeDescriptor) : HashTreeDescriptor :=
  { d with numBytesFollowing := d.payloadSize }

def encode (vm : Jvm) (d : HashTreeDescriptor) : Result Bytes := do
  let nbfWithPadding := roundToMultipleLong d.payloadSize.toInt64 8
  let paddingSize := nbfWithPadding - d.payloadSize.toInt64
  let desc ← packFormat vm formatString
    [.ulong 1, .ulong nbfWithPadding.toUInt64, .uint d.dmVerityVersion, .ulong d.imageSize,
      .ulong d.treeOffset, .ulong d.treeSize, .uint d.dataBlockSize, .uint d.hashBlockSize,
      .uint d.fecNumRoots, .ulong d.fecOffset, .ulong d.fecSize, .string d.hashAlgorithm,
      .int (int32Size d.partitionName), .int (int32Size d.salt), .int (int32Size d.rootDigest),
      .uint d.flags, .null]
  let padding ← packX vm paddingSize.toInt .null
  join [desc, Utf8.encode d.partitionName, d.salt, d.rootDigest, padding]

def ofStream (vm : Jvm) (data : InputStream) (seq : Int32) : Result HashTreeDescriptor := do
  let (info, data) ← unpackFormat vm formatString data
  match info with
  | [.ulong tag, .ulong numBytesFollowing, .uint dmVerityVersion, .ulong imageSize,
      .ulong treeOffset, .ulong treeSize, .uint dataBlockSize, .uint hashBlockSize,
      .uint fecNumRoots, .ulong fecOffset, .ulong fecSize, .string hashAlgorithm,
      .uint partitionNameLen, .uint saltLen, .uint rootDigestLen, .uint flags, _] =>
      let expectedSize :=
        roundToMultiple (180 - 16 + partitionNameLen + saltLen + rootDigestLen) 8
      if tag ≠ 1 ∨ numBytesFollowing ≠ expectedSize.toUInt64 then
        throw (.illegalArgument "Given data does not look like a hashtree descriptor")
      let (info2, _) ← unpackFormat vm
        (decimal partitionNameLen.toNat ++ units "s" ++ decimal saltLen.toNat ++ units "b" ++
          decimal rootDigestLen.toNat ++ units "b") data
      match info2 with
      | [.string partitionName, .byteArray salt, .byteArray rootDigest] =>
          .ok { tag, numBytesFollowing, sequence := seq, flags, dmVerityVersion, imageSize,
                treeOffset, treeSize, dataBlockSize, hashBlockSize, fecNumRoots, fecOffset,
                fecSize, hashAlgorithm, partitionName, salt, rootDigest }
      | _ => .error .classCast
  | _ => .error .classCast

end HashTreeDescriptor

/-! ## HashDescriptor -/

structure HashDescriptor extends Descriptor where
  tag := 2
  flags : UInt32 := 0
  partitionName : KString := []
  hashAlgorithm : KString := []
  imageSize : UInt64 := 0
  salt : Bytes := []
  digest : Bytes := []
  partitionNameLen : UInt32 := 0
  saltLen : UInt32 := 0
  digestLen : UInt32 := 0
  deriving DecidableEq

namespace HashDescriptor

def formatString : KString := units "!3Q32s4L60x"

/-- The sum of the sizes is taken as an `Int` before `16L` is subtracted. -/
def payloadBytesFollowing (d : HashDescriptor) : Int64 :=
  (132 + int32Size d.partitionName + int32Size d.salt + int32Size d.digest).toInt64 - 16

def nextNumBytesFollowing (d : HashDescriptor) : UInt64 :=
  (roundToMultipleLong d.payloadBytesFollowing 8).toUInt64

def encoded (d : HashDescriptor) : HashDescriptor :=
  { d with numBytesFollowing := d.nextNumBytesFollowing }

def encode (vm : Jvm) (d : HashDescriptor) : Result Bytes := do
  let paddingSize :=
    d.nextNumBytesFollowing - d.payloadBytesFollowing.toUInt64.toUInt32.toUInt64
  let desc ← packFormat vm formatString
    [.ulong 2, .ulong d.nextNumBytesFollowing, .ulong d.imageSize, .string d.hashAlgorithm,
      .int (int32Size d.partitionName), .int (int32Size d.salt), .int (int32Size d.digest),
      .uint d.flags, .null]
  let padding ← packX vm paddingSize.toNat .null
  join [desc, Utf8.encode d.partitionName, d.salt, d.digest, padding]

def ofStream (vm : Jvm) (data : InputStream) (seq : Int32) : Result HashDescriptor := do
  let (info, data) ← unpackFormat vm formatString data
  match info with
  | [.ulong tag, .ulong numBytesFollowing, .ulong imageSize, .string hashAlgorithm,
      .uint partitionNameLen, .uint saltLen, .uint digestLen, .uint flags, _] =>
      let lengths := (partitionNameLen + saltLen + digestLen).toUInt64.toInt64
      let expectedSize := (roundToMultipleLong (132 - 16 + lengths) 8).toUInt64
      if tag ≠ 2 ∨ expectedSize ≠ numBytesFollowing then
        throw (.illegalArgument "Given data does not look like a |hash| descriptor")
      let (payload, _) ← unpackFormat vm
        (decimal partitionNameLen.toNat ++ units "s" ++ decimal saltLen.toNat ++ units "b" ++
          decimal digestLen.toNat ++ units "b") data
      vm.assert (payload.length = 3)
      match payload with
      | [.string partitionName, .byteArray salt, .byteArray digest] =>
          .ok { tag, numBytesFollowing, sequence := seq, flags, partitionName, hashAlgorithm,
                imageSize, salt, digest, partitionNameLen, saltLen, digestLen }
      | _ => .error .classCast
  | _ => .error .classCast

end HashDescriptor

/-! ## KernelCmdlineDescriptor -/

structure KernelCmdlineDescriptor extends Descriptor where
  tag := 3
  flags : UInt32 := 0
  cmdlineLength : UInt32 := 0
  cmdline : KString := []
  deriving DecidableEq

namespace KernelCmdlineDescriptor

def formatString : KString := units "!2Q2L"

/-- `encode()` computes the size in a local variable and updates no field. -/
def payloadSize (d : KernelCmdlineDescriptor) : Int32 :=
  24 - 16 + int32Size (Utf8.encode d.cmdline)

def encode (vm : Jvm) (d : KernelCmdlineDescriptor) : Result Bytes := do
  let nbfWithPadding := roundToMultipleLong d.payloadSize.toInt64 8
  let paddingSize := nbfWithPadding - d.payloadSize.toInt64
  let desc ← packFormat vm formatString
    [.ulong 3, .long nbfWithPadding, .uint d.flags, .int (int32Size d.cmdline)]
  let padding ← packX vm paddingSize.toInt .null
  join [desc, Utf8.encode d.cmdline, padding]

def ofStream (vm : Jvm) (data : InputStream) (seq : Int32) :
    Result KernelCmdlineDescriptor := do
  let (info, data) ← unpackFormat vm formatString data
  match info with
  | [.ulong tag, .ulong numBytesFollowing, .uint flags, .uint cmdlineLength] =>
      let expectedSize := roundToMultiple (24 - 16 + cmdlineLength) 8
      if tag ≠ 3 ∨ numBytesFollowing ≠ expectedSize.toUInt64 then
        throw (.illegalArgument "Given data does not look like a kernel cmdline descriptor")
      let (info2, _) ← unpackFormat vm (decimal cmdlineLength.toNat ++ units "s") data
      match info2 with
      | [.string cmdline] =>
          .ok { tag, numBytesFollowing, sequence := seq, flags, cmdlineLength, cmdline }
      | _ => .error .classCast
  | _ => .error .classCast

end KernelCmdlineDescriptor

/-! ## ChainPartitionDescriptor -/

structure ChainPartitionDescriptor extends Descriptor where
  tag := 4
  rollbackIndexLocation : UInt32 := 0
  partitionNameLen : UInt32 := 0
  publicKeyLen : UInt32 := 0
  partitionName : KString := []
  pubkey : Bytes := []
  pubkeySha1 : KString := []
  deriving DecidableEq

namespace ChainPartitionDescriptor

def formatString : KString := units "!2Q3L"

def payloadSize (d : ChainPartitionDescriptor) : UInt64 :=
  (92 + uint32Size d.partitionName + uint32Size d.pubkey - 16).toUInt64

def encoded (d : ChainPartitionDescriptor) : ChainPartitionDescriptor :=
  { d with
    partitionNameLen := uint32Size d.partitionName
    publicKeyLen := uint32Size d.pubkey
    numBytesFollowing := d.payloadSize }

def encode (vm : Jvm) (d : ChainPartitionDescriptor) : Result Bytes := do
  let nbfWithPadding := (roundToMultipleLong d.payloadSize.toInt64 8).toUInt64
  let paddingSize := nbfWithPadding - d.payloadSize
  let desc ← packFormat vm (formatString ++ units "64x")
    [.ulong 4, .ulong nbfWithPadding, .uint d.rollbackIndexLocation,
      .uint (uint32Size d.partitionName), .uint (uint32Size d.pubkey), .null]
  let padding ← packX vm paddingSize.toNat .null
  join [desc, Utf8.encode d.partitionName, d.pubkey, padding]

def ofStream (vm : Jvm) (crypto : Crypto) (data : InputStream) (seq : Int32) :
    Result ChainPartitionDescriptor := do
  let st ← Struct3.new vm formatString
  if st.calcSize.toInt64 ≠ 92 - 64 then throw (.runtime "")
  let (info, data) ← unpackFormat vm (formatString ++ units "64s") data
  match info with
  | [.ulong tag, .ulong numBytesFollowing, .uint rollbackIndexLocation,
      .uint partitionNameLen, .uint publicKeyLen, _] =>
      let expectedSize := roundToMultiple (92 - 16 + partitionNameLen + publicKeyLen) 8
      if tag ≠ 4 ∨ numBytesFollowing ≠ expectedSize.toUInt64 then
        throw (.illegalArgument
          "Given data does not look like a chain/delegation descriptor")
      let (info2, _) ← unpackFormat vm
        (decimal partitionNameLen.toNat ++ units "s" ++ decimal publicKeyLen.toNat ++
          units "b") data
      match info2 with
      | [.string partitionName, .byteArray pubkey] =>
          .ok { tag, numBytesFollowing, sequence := seq, rollbackIndexLocation,
                partitionNameLen, publicKeyLen, partitionName, pubkey,
                pubkeySha1 := toHexString (crypto.digest (units "SHA1") pubkey) }
      | _ => .error .classCast
  | _ => .error .classCast

end ChainPartitionDescriptor

/-! ## UnknownDescriptor -/

structure UnknownDescriptor extends Descriptor where
  tag := 0
  data : Bytes := []
  deriving DecidableEq

namespace UnknownDescriptor

def formatString : KString := units "!QQ"

def encode (vm : Jvm) (d : UnknownDescriptor) : Result Bytes := do
  let header ← packFormat vm formatString [.ulong d.tag, .long (int32Size d.data).toInt64]
  join [header, d.data]

/-- `UnknownDescriptor(stream, seq)`, and the stream after it. -/
def ofStream (vm : Jvm) (stream : InputStream) (seq : Int32) :
    Result (UnknownDescriptor × InputStream) := do
  let (info, stream) ← unpackFormat vm formatString stream
  match info with
  | [.ulong tag, .ulong numBytesFollowing] =>
      let size := numBytesFollowing.toUInt32.toInt32.toInt
      if size < 0 then throw .negativeArraySize
      let (count, data, stream) := stream.read size.toNat
      if size ≠ count then throw (.illegalArgument "descriptor SIZE mismatch")
      .ok ({ tag, numBytesFollowing, sequence := seq, data }, stream)
  | _ => .error .classCast

end UnknownDescriptor

/-! ## Descriptors of any class -/

inductive AnyDescriptor where
  | property (d : PropertyDescriptor)
  | hashTree (d : HashTreeDescriptor)
  | hash (d : HashDescriptor)
  | kernelCmdline (d : KernelCmdlineDescriptor)
  | chainPartition (d : ChainPartitionDescriptor)
  | unknown (d : UnknownDescriptor)
  deriving DecidableEq

namespace AnyDescriptor

def sequence : AnyDescriptor → Int32
  | property d => d.sequence
  | hashTree d => d.sequence
  | hash d => d.sequence
  | kernelCmdline d => d.sequence
  | chainPartition d => d.sequence
  | unknown d => d.sequence

def encode (vm : Jvm) : AnyDescriptor → Result Bytes
  | property d => d.encode vm
  | hashTree d => d.encode vm
  | hash d => d.encode vm
  | kernelCmdline d => d.encode vm
  | chainPartition d => d.encode vm
  | unknown d => d.encode vm

end AnyDescriptor

namespace UnknownDescriptor

/-- `analyze()`: the tag is cut to 32 bits to choose the class. -/
def analyze (vm : Jvm) (crypto : Crypto) (d : UnknownDescriptor) : Result AnyDescriptor :=
  let reread := do
    let bytes ← d.encode vm
    .ok (InputStream.byteArrayInputStream bytes)
  match d.tag.toUInt32.toNat with
  | 0 => do
      let s ← reread
      let p ← PropertyDescriptor.ofStream vm s d.sequence
      .ok (.property p)
  | 1 => do
      let s ← reread
      let p ← HashTreeDescriptor.ofStream vm s d.sequence
      .ok (.hashTree p)
  | 2 => do
      let s ← reread
      let p ← HashDescriptor.ofStream vm s d.sequence
      .ok (.hash p)
  | 3 => do
      let s ← reread
      let p ← KernelCmdlineDescriptor.ofStream vm s d.sequence
      .ok (.kernelCmdline p)
  | 4 => do
      let s ← reread
      let p ← ChainPartitionDescriptor.ofStream vm crypto s d.sequence
      .ok (.chainPartition p)
  | _ => .ok (.unknown d)

/-- `toString()`, which the loops log. A `String` has at most `Int.MAX_VALUE` units,
and the hexadecimal text takes two for each byte. -/
def toString (d : UnknownDescriptor) : Result KString :=
  let text := units "UnknownDescriptor(tag=" ++ decimal d.tag.toNat ++ units ", SIZE=" ++
    decimal d.data.length ++ units ", data=" ++ toHexString d.data
  if text.length ≤ intMax then .ok text else .error .outOfMemory

/-- `ret.add(element)`: an `ArrayList` holds at most `Int.MAX_VALUE` elements. -/
def addTo {α : Type} (ret : List α) (element : α) : Result (List α) :=
  if ret.length < intMax then .ok (ret ++ [element]) else .error .outOfMemory

/-- The variables of the loop of `parseDescriptors`. -/
structure ParseState (α : Type) where
  stream : InputStream
  ret : List α
  currentSize : Int64

/-- `currentSize += desc.data.size + SIZE`: the sum of the right side is an `Int`. -/
def nextSize (currentSize : Int64) (desc : UnknownDescriptor) : Int64 :=
  currentSize + (int32Size desc.data + 16).toInt64

/-- One turn of the loop of `parseDescriptors`, which returns the list and leaves the stream
behind the last record. -/
def parseTurn (vm : Jvm) (totalSize : Int64) (l : ParseState UnknownDescriptor) :
    Result (Turn (ParseState UnknownDescriptor) (List UnknownDescriptor × InputStream)) := do
  let (desc, stream) ← ofStream vm l.stream 0
  let currentSize := nextSize l.currentSize desc
  let ret ← addTo l.ret desc
  if currentSize = totalSize then .ok (.done (ret, stream))
  else if totalSize < currentSize then throw (.illegalState "Read more than expected")
  else do
    let _ ← desc.toString
    .ok (.next { stream, ret, currentSize })

/-- The loop of `parseDescriptors(stream, totalSize)`: the list and the stream after it. The
list is full before the turns run out. -/
def parseLoop (vm : Jvm) (stream : InputStream) (totalSize : Int64) :
    Result (List UnknownDescriptor × InputStream) :=
  (runTurns (parseTurn vm totalSize) (intMax + 1) ⟨stream, [], 0⟩).getD (.error .outOfMemory)

/-- `parseDescriptors(stream, totalSize)`. -/
def parseDescriptors (vm : Jvm) (stream : InputStream) (totalSize : Int64) :
    Result (List UnknownDescriptor) := do
  let (ret, _) ← parseLoop vm stream totalSize
  .ok ret

/-- The variables of the loop of `parseDescriptors2`. -/
structure ParseState2 extends ParseState AnyDescriptor where
  seq : Int32

/-- One turn of the loop of `parseDescriptors2`. -/
def parseTurn2 (vm : Jvm) (crypto : Crypto) (totalSize : Int64) (l : ParseState2) :
    Result (Turn ParseState2 (List AnyDescriptor × InputStream)) := do
  let seq := l.seq + 1
  let (desc, stream) ← ofStream vm l.stream seq
  let currentSize := nextSize l.currentSize desc
  let _ ← desc.toString
  let analyzed ← desc.analyze vm crypto
  let ret ← addTo l.ret analyzed
  if currentSize = totalSize then .ok (.done (ret, stream))
  else if totalSize < currentSize then throw (.illegalState "Read more than expected")
  else .ok (.next { stream, ret, currentSize, seq })

/-- The loop of `parseDescriptors2(stream, totalSize)`: the list and the stream after it. -/
def parseLoop2 (vm : Jvm) (crypto : Crypto) (stream : InputStream) (totalSize : Int64) :
    Result (List AnyDescriptor × InputStream) :=
  (runTurns (parseTurn2 vm crypto totalSize) (intMax + 1) ⟨⟨stream, [], 0⟩, 0⟩).getD
    (.error .outOfMemory)

/-- `parseDescriptors2(stream, totalSize)`. -/
def parseDescriptors2 (vm : Jvm) (crypto : Crypto) (stream : InputStream)
    (totalSize : Int64) : Result (List AnyDescriptor) := do
  let (ret, _) ← parseLoop2 vm crypto stream totalSize
  .ok ret

end UnknownDescriptor

end Avb

end BootImageEditor
