import BootImageEditor.Avb.Reencode

/-!
# Parsing encoded descriptors

A descriptor with plain texts is encoded to a record that stands for the same
descriptor: the sequence number is the place in the section, and the fields that
encoding computes from others are up to date.
-/

namespace BootImageEditor

open Codec Fallible Struct3 Helper

namespace Avb

namespace PropertyDescriptor

/-- The descriptor as it is read back at a place of the section. -/
def reread (d : PropertyDescriptor) (seq : Int32) : PropertyDescriptor :=
  { d with
    tag := 0
    numBytesFollowing := UInt64.ofNat (roundUp 8 d.payloadLength)
    sequence := seq }

end PropertyDescriptor

namespace HashTreeDescriptor

def reread (d : HashTreeDescriptor) (seq : Int32) : HashTreeDescriptor :=
  { d with
    tag := 1
    numBytesFollowing := UInt64.ofNat (roundUp 8 d.payloadLength)
    sequence := seq }

end HashTreeDescriptor

namespace HashDescriptor

/-- The three lengths are those of the name, the salt and the digest. -/
def reread (d : HashDescriptor) (seq : Int32) : HashDescriptor :=
  { d with
    tag := 2
    numBytesFollowing := UInt64.ofNat (roundUp 8 d.payloadLength)
    sequence := seq
    partitionNameLen := uint32Size d.partitionName
    saltLen := uint32Size d.salt
    digestLen := uint32Size d.digest }

end HashDescriptor

namespace KernelCmdlineDescriptor

def reread (d : KernelCmdlineDescriptor) (seq : Int32) : KernelCmdlineDescriptor :=
  { d with
    tag := 3
    numBytesFollowing := UInt64.ofNat (roundUp 8 d.payloadLength)
    sequence := seq
    cmdlineLength := uint32Size d.cmdline }

end KernelCmdlineDescriptor

namespace ChainPartitionDescriptor

/-- The lengths are those of name and key, and the fingerprint is that of the key. -/
def reread (crypto : Crypto) (d : ChainPartitionDescriptor) (seq : Int32) :
    ChainPartitionDescriptor :=
  { d with
    tag := 4
    numBytesFollowing := UInt64.ofNat (roundUp 8 d.payloadLength)
    sequence := seq
    partitionNameLen := uint32Size d.partitionName
    publicKeyLen := uint32Size d.pubkey
    pubkeySha1 := toHexString (crypto.digest (units "SHA1") d.pubkey) }

end ChainPartitionDescriptor

namespace UnknownDescriptor

def reread (d : UnknownDescriptor) (seq : Int32) : UnknownDescriptor :=
  { d with
    numBytesFollowing := UInt64.ofNat d.data.length
    sequence := seq }

end UnknownDescriptor

namespace AnyDescriptor

def reread (crypto : Crypto) (seq : Int32) : AnyDescriptor → AnyDescriptor
  | property d => .property (d.reread seq)
  | hashTree d => .hashTree (d.reread seq)
  | hash d => .hash (d.reread seq)
  | kernelCmdline d => .kernelCmdline (d.reread seq)
  | chainPartition d => .chainPartition (d.reread crypto seq)
  | unknown d => .unknown (d.reread seq)

/-- Descriptors read back one after the other, numbered from `seq + 1` on. -/
def rereadFrom (crypto : Crypto) : Int32 → List AnyDescriptor → List AnyDescriptor
  | _, [] => []
  | seq, d :: ds => d.reread crypto (seq + 1) :: rereadFrom crypto (seq + 1) ds

/-- Texts are ASCII without NUL, and an unknown tag has 32 bits and none of the known
values. -/
def Plain : AnyDescriptor → Prop
  | property d => Utf8.Ascii d.key ∧ Utf8.Ascii d.value
  | hashTree d => Utf8.Ascii d.hashAlgorithm ∧ Utf8.Ascii d.partitionName
  | hash d => Utf8.Ascii d.hashAlgorithm ∧ Utf8.Ascii d.partitionName
  | kernelCmdline d => Utf8.Ascii d.cmdline
  | chainPartition d => Utf8.Ascii d.partitionName
  | unknown d => 5 ≤ d.tag.toNat ∧ d.tag.toNat < 2 ^ 32

/-- The record of the descriptor ends in an empty array or text, without padding
after it. -/
def EndsBare : AnyDescriptor → Prop
  | property _ => False
  | hashTree d => d.rootDigest = [] ∧ d.payloadLength % 8 = 0
  | hash d => d.digest = [] ∧ d.payloadLength % 8 = 0
  | kernelCmdline d => d.cmdline = []
  | chainPartition d => d.pubkey = [] ∧ d.payloadLength % 8 = 0
  | unknown _ => False

/-- The tag that is written. -/
def writtenTag : AnyDescriptor → UInt64
  | property _ => 0
  | hashTree _ => 1
  | hash _ => 2
  | kernelCmdline _ => 3
  | chainPartition _ => 4
  | unknown d => d.tag

/-- The text that is logged when the record of the descriptor is read fits a `String`. -/
def Printable (d : AnyDescriptor) : Prop :=
  UnknownDescriptor.textLength d.writtenTag (d.layout.length - 16) ≤ intMax

instance (d : AnyDescriptor) : Decidable d.Printable := inferInstanceAs (Decidable (_ ≤ _))

instance (d : AnyDescriptor) : Decidable d.Plain := by
  cases d <;> unfold Plain <;> infer_instance

instance (d : AnyDescriptor) : Decidable d.EndsBare := by
  cases d <;> unfold EndsBare <;> infer_instance

@[simp] theorem layout_reread (crypto : Crypto) (seq : Int32) (d : AnyDescriptor) :
    (d.reread crypto seq).layout = d.layout := by
  cases d <;> rfl

end AnyDescriptor

/-! ## Plain texts on the wire -/

theorem asciiBytes_encode {s : KString} (h : Utf8.Ascii s) : Utf8.AsciiBytes (Utf8.encode s) := by
  intro b hb
  rw [Utf8.encode_ascii h, List.mem_map] at hb
  obtain ⟨u, hu, rfl⟩ := hb
  obtain ⟨hpos, hlt⟩ := h u hu
  rw [UInt8.toNat_ofNat_of_lt' (by simp only [UInt8.size]; omega)]
  exact ⟨hpos, hlt⟩

theorem zero_notMem_of_ascii {s : KString} (h : Utf8.Ascii s) :
    (0 : UInt8) ∉ Utf8.encode s := by
  intro hmem
  exact absurd (asciiBytes_encode h 0 hmem).1 (by decide)

theorem cString_extend_encode {s : KString} (h : Utf8.Ascii s) (n : ℕ) :
    Utf8.cString (extend n (Utf8.encode s)) = s := by
  refine Utf8.cString_encode_zeros (Utf8.wellFormed_ascii h) ?_ _
  intro hmem
  exact absurd (h 0 hmem).1 (by decide)

theorem cString_encode {s : KString} (h : Utf8.Ascii s) : Utf8.cString (Utf8.encode s) = s := by
  have hextend := cString_extend_encode h 0
  rw [extend, Nat.zero_sub] at hextend
  simpa [zeros] using hextend

namespace AnyDescriptor

/-- The record that a plain descriptor is encoded to. -/
theorem exists_wire (crypto : Crypto) {d : AnyDescriptor} (h : d.Plain)
    (hfits : d.AlgorithmFits) :
    ∃ w : WireDescriptor, w.Textual ∧ w.TagOpaque ∧ w.tag = d.writtenTag ∧
      (w.EndsBare ↔ d.EndsBare) ∧ ∀ seq, w.decoded crypto seq = d.reread crypto seq := by
  cases d with
  | property d =>
      obtain ⟨hkey, hvalue⟩ := h
      have hkeyLen := Utf8.length_encode_ascii hkey
      have hvalueLen := Utf8.length_encode_ascii hvalue
      refine ⟨.property ⟨Utf8.encode d.key, Utf8.encode d.value⟩,
        ⟨asciiBytes_encode hkey, asciiBytes_encode hvalue⟩, trivial, rfl, Iff.rfl, ?_⟩
      intro seq
      simp only [WireDescriptor.decoded, Wire.Property.decoded, reread, PropertyDescriptor.reread,
        PropertyDescriptor.payloadLength, Wire.Property.length_body, cString_encode hkey,
        cString_encode hvalue, hkeyLen, hvalueLen]
  | hashTree d =>
      obtain ⟨halg, hname⟩ := h
      have hfits : (Utf8.encode d.hashAlgorithm).length ≤ 32 := hfits
      have hnameLen := Utf8.length_encode_ascii hname
      refine ⟨.hashTree ⟨d.dmVerityVersion, d.imageSize, d.treeOffset, d.treeSize,
        d.dataBlockSize, d.hashBlockSize, d.fecNumRoots, d.fecOffset, d.fecSize,
        Utf8.encode d.hashAlgorithm, d.flags, Utf8.encode d.partitionName, d.salt, d.rootDigest,
        hfits, zero_notMem_of_ascii halg⟩,
        ⟨Utf8.isText_encode _, asciiBytes_encode hname⟩, trivial, rfl, ?_, ?_⟩
      · refine and_congr_right fun (hdigest : d.rootDigest = []) => ?_
        have hlen : d.payloadLength = 164 + (Utf8.encode d.partitionName ++ d.salt).length := by
          rw [HashTreeDescriptor.payloadLength, List.length_append, hnameLen, hdigest]
          rw [List.length_nil, Nat.add_zero, Nat.add_assoc]
        rw [hlen]
      · intro seq
        simp only [WireDescriptor.decoded, Wire.HashTree.decoded, reread,
          HashTreeDescriptor.reread, HashTreeDescriptor.payloadLength, Wire.HashTree.length_body,
          cString_encode hname, cString_extend_encode halg, hnameLen]
  | hash d =>
      obtain ⟨halg, hname⟩ := h
      have hfits : (Utf8.encode d.hashAlgorithm).length ≤ 32 := hfits
      have hnameLen := Utf8.length_encode_ascii hname
      refine ⟨.hash ⟨d.imageSize, Utf8.encode d.hashAlgorithm, d.flags,
        Utf8.encode d.partitionName, d.salt, d.digest, hfits, zero_notMem_of_ascii halg⟩,
        ⟨Utf8.isText_encode _, asciiBytes_encode hname⟩, trivial, rfl, ?_, ?_⟩
      · refine and_congr_right fun (hdigest : d.digest = []) => ?_
        have hlen : d.payloadLength = 116 + (Utf8.encode d.partitionName ++ d.salt).length := by
          rw [HashDescriptor.payloadLength, List.length_append, hnameLen, hdigest]
          rw [List.length_nil, Nat.add_zero, Nat.add_assoc]
        rw [hlen]
      · intro seq
        simp only [WireDescriptor.decoded, Wire.Hash.decoded, reread, HashDescriptor.reread,
          HashDescriptor.payloadLength, Wire.Hash.length_body, cString_encode hname,
          cString_extend_encode halg, hnameLen, uint32Size]
  | kernelCmdline d =>
      have hlen := Utf8.length_encode_ascii (s := d.cmdline) h
      refine ⟨.kernelCmdline ⟨d.flags, Utf8.encode d.cmdline⟩, asciiBytes_encode h, trivial,
        rfl, ?_, ?_⟩
      · show Utf8.encode d.cmdline = [] ↔ d.cmdline = []
        rw [← List.length_eq_zero_iff, hlen, List.length_eq_zero_iff]
      · intro seq
        simp only [WireDescriptor.decoded, Wire.KernelCmdline.decoded, reread,
          KernelCmdlineDescriptor.reread, KernelCmdlineDescriptor.payloadLength,
          Wire.KernelCmdline.length_body, cString_encode h, hlen, uint32Size]
  | chainPartition d =>
      have hlen := Utf8.length_encode_ascii (s := d.partitionName) h
      refine ⟨.chainPartition ⟨d.rollbackIndexLocation, Utf8.encode d.partitionName, d.pubkey⟩,
        asciiBytes_encode h, trivial, rfl, ?_, ?_⟩
      · refine and_congr_right fun (hpubkey : d.pubkey = []) => ?_
        have hsize : d.payloadLength = 76 + (Utf8.encode d.partitionName).length := by
          rw [ChainPartitionDescriptor.payloadLength, hlen, hpubkey, List.length_nil, Nat.add_zero]
        rw [hsize]
      · intro seq
        simp only [WireDescriptor.decoded, Wire.ChainPartition.decoded, reread,
          ChainPartitionDescriptor.reread, ChainPartitionDescriptor.payloadLength,
          Wire.ChainPartition.length_body, cString_encode h, hlen, uint32Size]
  | unknown d =>
      obtain ⟨hge, hlt⟩ := h
      have hcut : 5 ≤ d.tag.toUInt32.toNat := by
        rw [UInt64.toNat_toUInt32, Nat.mod_eq_of_lt hlt]
        exact hge
      exact ⟨.unknown ⟨d.tag, d.data, hge⟩, trivial, hcut, rfl, Iff.rfl, fun seq => rfl⟩

/-- The section that plain descriptors are encoded to. -/
theorem exists_section (crypto : Crypto) {ds : List AnyDescriptor} (h : ∀ d ∈ ds, d.Plain)
    (hfits : ∀ d ∈ ds, d.AlgorithmFits) :
    ∃ ws : List WireDescriptor, WireDescriptor.sectionBytes ws = layouts ds ∧
      (∀ w ∈ ws, w.TagOpaque) ∧
      ((∀ d ∈ ds, d.Printable) → ∀ w ∈ ws, w.Printable) ∧
      ((∃ w ∈ ws, w.EndsBare) ↔ ∃ d ∈ ds, d.EndsBare) ∧
      ∀ seq, WireDescriptor.decodedFrom crypto seq ws = rereadFrom crypto seq ds := by
  induction ds with
  | nil => exact ⟨[], rfl, by simp, by simp, by simp, fun seq => rfl⟩
  | cons d ds ih =>
      rw [List.forall_mem_cons] at h hfits
      obtain ⟨w, htext, hunknown, htag, hbare, hdec⟩ := exists_wire crypto h.1 hfits.1
      obtain ⟨ws, hbytes, hunknowns, hprints, hbares, hdecs⟩ := ih h.2 hfits.2
      have hlayout : w.bytes = d.layout := by
        rw [WireDescriptor.bytes_eq_layout htext crypto 0, hdec, layout_reread]
      refine ⟨w :: ws, ?_, ?_, ?_, ?_, ?_⟩
      · rw [WireDescriptor.sectionBytes_cons, layouts_cons, hlayout, hbytes]
      · rw [List.forall_mem_cons]
        exact ⟨hunknown, hunknowns⟩
      · intro hall
        rw [List.forall_mem_cons] at hall ⊢
        refine ⟨?_, hprints hall.2⟩
        have hsize : w.body.length = d.layout.length - 16 := by
          rw [← hlayout, WireDescriptor.length_bytes, Nat.add_sub_cancel_left]
        unfold WireDescriptor.Printable
        rw [htag, hsize]
        exact hall.1
      · simp only [List.mem_cons, exists_eq_or_imp, hbare, hbares]
      · intro seq
        rw [WireDescriptor.decodedFrom, rereadFrom, hdec, hdecs]

end AnyDescriptor

end Avb

end BootImageEditor
