import BootImageEditor.Avb.DescriptorEncode

/-!
# Descriptors on the wire

The descriptor section of a vbmeta image is a concatenation of records: a tag, the
number of bytes following, and for the known tags fixed fields, then text and arrays of
the lengths the fields give, filled up with zeros to a multiple of eight.
`WireDescriptor` is such a record with texts as plain bytes; a record that is not well
formed cannot be built.
-/

namespace BootImageEditor

open Codec

namespace Avb

namespace Wire

/-- The bytes of a record: tag, size of the rest, and the rest. -/
def record (tag : ℕ) (body : Bytes) : Bytes := [be 8 tag, be 8 body.length, body].flatten

/-- Fixed fields and payload, filled up with zeros to a multiple of eight. -/
def padded (fields payload : Bytes) : Bytes :=
  [fields, payload, zeros (gap 8 (fields.length + payload.length))].flatten

structure Property where
  key : Bytes
  value : Bytes
  deriving DecidableEq

def Property.body (w : Property) : Bytes :=
  padded [be 8 w.key.length, be 8 w.value.length].flatten
    [w.key, [0], w.value, [0]].flatten

structure HashTree where
  dmVerityVersion : UInt32
  imageSize : UInt64
  treeOffset : UInt64
  treeSize : UInt64
  dataBlockSize : UInt32
  hashBlockSize : UInt32
  fecNumRoots : UInt32
  fecOffset : UInt64
  fecSize : UInt64
  hashAlgorithm : Bytes
  flags : UInt32
  partitionName : Bytes
  salt : Bytes
  rootDigest : Bytes
  algorithm_fits : hashAlgorithm.length ≤ 32
  algorithm_ends : (0 : UInt8) ∉ hashAlgorithm
  deriving DecidableEq

def HashTree.fields (w : HashTree) : Bytes :=
  [be 4 w.dmVerityVersion.toNat, be 8 w.imageSize.toNat, be 8 w.treeOffset.toNat,
    be 8 w.treeSize.toNat, be 4 w.dataBlockSize.toNat, be 4 w.hashBlockSize.toNat,
    be 4 w.fecNumRoots.toNat, be 8 w.fecOffset.toNat, be 8 w.fecSize.toNat,
    Struct3.extend 32 w.hashAlgorithm, be 4 w.partitionName.length, be 4 w.salt.length,
    be 4 w.rootDigest.length, be 4 w.flags.toNat, zeros 60].flatten

def HashTree.body (w : HashTree) : Bytes :=
  padded w.fields [w.partitionName, w.salt, w.rootDigest].flatten

structure Hash where
  imageSize : UInt64
  hashAlgorithm : Bytes
  flags : UInt32
  partitionName : Bytes
  salt : Bytes
  digest : Bytes
  algorithm_fits : hashAlgorithm.length ≤ 32
  algorithm_ends : (0 : UInt8) ∉ hashAlgorithm
  deriving DecidableEq

def Hash.fields (w : Hash) : Bytes :=
  [be 8 w.imageSize.toNat, Struct3.extend 32 w.hashAlgorithm, be 4 w.partitionName.length,
    be 4 w.salt.length, be 4 w.digest.length, be 4 w.flags.toNat, zeros 60].flatten

def Hash.body (w : Hash) : Bytes :=
  padded w.fields [w.partitionName, w.salt, w.digest].flatten

structure KernelCmdline where
  flags : UInt32
  cmdline : Bytes
  deriving DecidableEq

def KernelCmdline.body (w : KernelCmdline) : Bytes :=
  padded [be 4 w.flags.toNat, be 4 w.cmdline.length].flatten w.cmdline

structure ChainPartition where
  rollbackIndexLocation : UInt32
  partitionName : Bytes
  pubkey : Bytes
  deriving DecidableEq

def ChainPartition.fields (w : ChainPartition) : Bytes :=
  [be 4 w.rollbackIndexLocation.toNat, be 4 w.partitionName.length, be 4 w.pubkey.length,
    zeros 64].flatten

def ChainPartition.body (w : ChainPartition) : Bytes :=
  padded w.fields [w.partitionName, w.pubkey].flatten

structure Unknown where
  tag : UInt64
  data : Bytes
  tag_ge : 5 ≤ tag.toNat
  deriving DecidableEq

end Wire

inductive WireDescriptor where
  | property (w : Wire.Property)
  | hashTree (w : Wire.HashTree)
  | hash (w : Wire.Hash)
  | kernelCmdline (w : Wire.KernelCmdline)
  | chainPartition (w : Wire.ChainPartition)
  | unknown (w : Wire.Unknown)
  deriving DecidableEq

namespace WireDescriptor

def tag : WireDescriptor → UInt64
  | property _ => 0
  | hashTree _ => 1
  | hash _ => 2
  | kernelCmdline _ => 3
  | chainPartition _ => 4
  | unknown w => w.tag

def body : WireDescriptor → Bytes
  | property w => w.body
  | hashTree w => w.body
  | hash w => w.body
  | kernelCmdline w => w.body
  | chainPartition w => w.body
  | unknown w => w.data

def bytes (w : WireDescriptor) : Bytes := Wire.record w.tag.toNat w.body

theorem length_bytes (w : WireDescriptor) : w.bytes.length = 16 + w.body.length := by
  simp [bytes, Wire.record]
  omega

theorem length_padded (fields payload : Bytes) :
    (Wire.padded fields payload).length = roundUp 8 (fields.length + payload.length) := by
  have h := add_gap (p := 8) (by omega) (fields.length + payload.length)
  simp only [Wire.padded, List.length_flatten, List.map_cons, List.map_nil, List.sum_cons,
    List.sum_nil, length_zeros]
  omega

/-- The bytes of a section. -/
def sectionBytes (ws : List WireDescriptor) : Bytes := ws.flatMap bytes

end WireDescriptor

end Avb

end BootImageEditor
