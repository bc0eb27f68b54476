import BootImageEditor.Avb.BlobLayout

/-!
# The sizes an encoded descriptor declares

The bytes of a descriptor name its own sizes: `num_bytes_following`, and the lengths of the
fields behind the fixed part. A reader that goes from descriptor to descriptor relies on
them. `DeclaresSizes` compares what the bytes say with what was written.
-/

namespace BootImageEditor

open Codec Fallible Struct3 Helper

namespace Avb

/-- The big-endian number of `w` bytes at an offset. -/
def readField (bs : Bytes) (offset w : ℕ) : ℕ :=
  ByteOrder.bigEndian.decode (slice offset w bs)

/-- A field of the fixed part, read back. -/
theorem readField_header {fields : List Bytes} {bs r : Bytes} {i offset w n : ℕ}
    (hbs : bs = fields.flatten ++ r) (h : fields[i]? = some (be w n))
    (hoffset : ((fields.take i).map List.length).sum = offset) (hn : n < 256 ^ w) :
    readField bs offset w = n := by
  have hslice := slice_flatten h r
  rw [hoffset, length_be] at hslice
  rw [hbs, readField, hslice, be, ByteOrder.decode_encode_of_lt _ hn]

namespace AnyDescriptor

/-- The class is one of the five with fields of its own. -/
def Typed : AnyDescriptor → Prop
  | unknown _ => False
  | _ => True

/-- The texts and arrays behind the fixed part: where their lengths stand, in how many bytes,
and what `encode()` emits for them. -/
def countedFields : AnyDescriptor → List (ℕ × ℕ × Bytes)
  | property d => [(16, 8, Utf8.encode d.key), (24, 8, Utf8.encode d.value)]
  | hashTree d =>
      [(104, 4, Utf8.encode d.partitionName), (108, 4, d.salt), (112, 4, d.rootDigest)]
  | hash d => [(56, 4, Utf8.encode d.partitionName), (60, 4, d.salt), (64, 4, d.digest)]
  | kernelCmdline d => [(20, 4, Utf8.encode d.cmdline)]
  | chainPartition d => [(20, 4, Utf8.encode d.partitionName), (24, 4, d.pubkey)]
  | unknown _ => []

/-- The texts whose lengths are declared. -/
def countedTexts : AnyDescriptor → List KString
  | property d => [d.key, d.value]
  | hashTree d => [d.partitionName]
  | hash d => [d.partitionName]
  | kernelCmdline d => [d.cmdline]
  | chainPartition d => [d.partitionName]
  | unknown _ => []

/-- The bytes declare the sizes they have. -/
def DeclaresSizes (d : AnyDescriptor) (bs : Bytes) : Prop :=
  bs.length = 16 + readField bs 8 8 ∧ readField bs 8 8 % 8 = 0 ∧
    ∀ f ∈ d.countedFields, readField bs f.1 f.2.1 = f.2.2.length

instance (d : AnyDescriptor) (bs : Bytes) : Decidable (d.DeclaresSizes bs) :=
  inferInstanceAs (Decidable (_ ∧ _ ∧ _))

end AnyDescriptor

theorem PropertyDescriptor.declaresSizes_iff {d : PropertyDescriptor}
    (h : d.layout.length ≤ intMax) :
    (AnyDescriptor.property d).DeclaresSizes d.layout ↔
      (Utf8.encode d.key).length = d.key.length ∧
        (Utf8.encode d.value).length = d.value.length := by
  obtain ⟨tail, htail⟩ : ∃ tail, [Utf8.encode d.key, [0], Utf8.encode d.value, [0],
      zeros (gap 8 d.payloadLength)].flatten = tail := ⟨_, rfl⟩
  have hlayout : d.layout = d.header ++ tail := by
    rw [← htail]
    rfl
  have hlen : d.layout.length = 16 + ((Utf8.encode d.key).length + (Utf8.encode d.value).length +
      18 + gap 8 d.payloadLength) := by
    simp only [layout, header, List.length_flatten, List.map_cons, List.map_nil, List.sum_cons,
      List.sum_nil, length_be, length_zeros, List.length_cons, List.length_nil]
    omega
  have hkeyLe := Utf8.length_le_length_encode d.key
  have hvalueLe := Utf8.length_le_length_encode d.value
  have hmax : intMax = 2 ^ 31 - 1 := rfl
  have hsum : d.payloadLength = 18 + d.key.length + d.value.length := rfl
  have hgap := add_gap (p := 8) (by omega) d.payloadLength
  have hround := roundUp_eight_lt (n := d.payloadLength) (by omega)
  have hnbf : readField d.layout 8 8 = roundUp 8 d.payloadLength :=
    readField_header (i := 1) hlayout rfl rfl (by omega)
  have hkey : readField d.layout 16 8 = d.key.length :=
    readField_header (i := 2) hlayout rfl rfl (by omega)
  have hvalue : readField d.layout 24 8 = d.value.length :=
    readField_header (i := 3) hlayout rfl rfl (by omega)
  unfold AnyDescriptor.DeclaresSizes
  simp only [AnyDescriptor.countedFields, List.forall_mem_cons, List.not_mem_nil,
    false_imp_iff, implies_true, and_true, hnbf, hkey, hvalue, hlen,
    roundUp_mod, true_and]
  omega

theorem HashTreeDescriptor.declaresSizes_iff {d : HashTreeDescriptor}
    (halg : (Utf8.encode d.hashAlgorithm).length ≤ 32) (h : d.layout.length ≤ intMax) :
    (AnyDescriptor.hashTree d).DeclaresSizes d.layout ↔
      (Utf8.encode d.partitionName).length = d.partitionName.length := by
  obtain ⟨tail, htail⟩ : ∃ tail, [Utf8.encode d.partitionName, d.salt, d.rootDigest,
      zeros (gap 8 d.payloadLength)].flatten = tail := ⟨_, rfl⟩
  have hlayout : d.layout = d.header ++ tail := by
    rw [← htail]
    rfl
  have hlen : d.layout.length = 16 + (164 + (Utf8.encode d.partitionName).length +
      d.salt.length + d.rootDigest.length + gap 8 d.payloadLength) := by
    simp only [layout, List.length_flatten, List.map_cons, List.map_nil, List.sum_cons,
      List.sum_nil, length_header halg, length_zeros]
    omega
  have hnameLe := Utf8.length_le_length_encode d.partitionName
  have hmax : intMax = 2 ^ 31 - 1 := rfl
  have hsum : d.payloadLength =
      164 + d.partitionName.length + d.salt.length + d.rootDigest.length := rfl
  have hgap := add_gap (p := 8) (by omega) d.payloadLength
  have hround := roundUp_eight_lt (n := d.payloadLength) (by omega)
  have hnbf : readField d.layout 8 8 = roundUp 8 d.payloadLength :=
    readField_header (i := 1) hlayout rfl rfl (by omega)
  have hname : readField d.layout 104 4 = d.partitionName.length :=
    readField_header (i := 12) hlayout rfl (by simp [length_extend halg]) (by omega)
  have hsalt : readField d.layout 108 4 = d.salt.length :=
    readField_header (i := 13) hlayout rfl (by simp [length_extend halg]) (by omega)
  have hdigest : readField d.layout 112 4 = d.rootDigest.length :=
    readField_header (i := 14) hlayout rfl (by simp [length_extend halg]) (by omega)
  unfold AnyDescriptor.DeclaresSizes
  simp only [AnyDescriptor.countedFields, List.forall_mem_cons, List.not_mem_nil,
    false_imp_iff, implies_true, and_true, hnbf, hname, hsalt, hdigest, hlen,
    roundUp_mod, true_and]
  omega

theorem HashDescriptor.declaresSizes_iff {d : HashDescriptor}
    (halg : (Utf8.encode d.hashAlgorithm).length ≤ 32) (h : d.layout.length ≤ intMax) :
    (AnyDescriptor.hash d).DeclaresSizes d.layout ↔
      (Utf8.encode d.partitionName).length = d.partitionName.length := by
  obtain ⟨tail, htail⟩ : ∃ tail, [Utf8.encode d.partitionName, d.salt, d.digest,
      zeros (gap 8 d.payloadLength)].flatten = tail := ⟨_, rfl⟩
  have hlayout : d.layout = d.header ++ tail := by
    rw [← htail]
    rfl
  have hlen : d.layout.length = 16 + (116 + (Utf8.encode d.partitionName).length +
      d.salt.length + d.digest.length + gap 8 d.payloadLength) := by
    simp only [layout, List.length_flatten, List.map_cons, List.map_nil, List.sum_cons,
      List.sum_nil, length_header halg, length_zeros]
    omega
  have hnameLe := Utf8.length_le_length_encode d.partitionName
  have hmax : intMax = 2 ^ 31 - 1 := rfl
  have hsum : d.payloadLength =
      116 + d.partitionName.length + d.salt.length + d.digest.length := rfl
  have hgap := add_gap (p := 8) (by omega) d.payloadLength
  have hround := roundUp_eight_lt (n := d.payloadLength) (by omega)
  have hnbf : readField d.layout 8 8 = roundUp 8 d.payloadLength :=
    readField_header (i := 1) hlayout rfl rfl (by omega)
  have hname : readField d.layout 56 4 = d.partitionName.length :=
    readField_header (i := 4) hlayout rfl (by simp [length_extend halg]) (by omega)
  have hsalt : readField d.layout 60 4 = d.salt.length :=
    readField_header (i := 5) hlayout rfl (by simp [length_extend halg]) (by omega)
  have hdigest : readField d.layout 64 4 = d.digest.length :=
    readField_header (i := 6) hlayout rfl (by simp [length_extend halg]) (by omega)
  unfold AnyDescriptor.DeclaresSizes
  simp only [AnyDescriptor.countedFields, List.forall_mem_cons, List.not_mem_nil,
    false_imp_iff, implies_true, and_true, hnbf, hname, hsalt, hdigest, hlen,
    roundUp_mod, true_and]
  omega

/-- Here only the inner length is in question: the number of bytes following is taken from
the encoded text. -/
theorem KernelCmdlineDescriptor.declaresSizes_iff {d : KernelCmdlineDescriptor}
    (h : d.layout.length ≤ intMax) :
    (AnyDescriptor.kernelCmdline d).DeclaresSizes d.layout ↔
      (Utf8.encode d.cmdline).length = d.cmdline.length := by
  obtain ⟨tail, htail⟩ : ∃ tail, [Utf8.encode d.cmdline,
      zeros (gap 8 d.payloadLength)].flatten = tail := ⟨_, rfl⟩
  have hlayout : d.layout = d.header ++ tail := by
    rw [← htail]
    rfl
  have hlen : d.layout.length = 16 + (d.payloadLength + gap 8 d.payloadLength) := by
    simp only [layout, List.length_flatten, List.map_cons, List.map_nil, List.sum_cons,
      List.sum_nil, length_header, length_zeros, payloadLength]
    omega
  have hcmdlineLe := Utf8.length_le_length_encode d.cmdline
  have hmax : intMax = 2 ^ 31 - 1 := rfl
  have hsum : d.payloadLength = 8 + (Utf8.encode d.cmdline).length := rfl
  have hgap := add_gap (p := 8) (by omega) d.payloadLength
  have hround := roundUp_eight_lt (n := d.payloadLength) (by omega)
  have hnbf : readField d.layout 8 8 = roundUp 8 d.payloadLength :=
    readField_header (i := 1) hlayout rfl rfl (by omega)
  have hcmdline : readField d.layout 20 4 = d.cmdline.length :=
    readField_header (i := 3) hlayout rfl rfl (by omega)
  unfold AnyDescriptor.DeclaresSizes
  simp only [AnyDescriptor.countedFields, List.forall_mem_cons, List.not_mem_nil,
    false_imp_iff, implies_true, and_true, hnbf, hcmdline, hlen, hgap, roundUp_mod, true_and]
  exact eq_comm

theorem ChainPartitionDescriptor.declaresSizes_iff {d : ChainPartitionDescriptor}
    (h : d.layout.length ≤ intMax) :
    (AnyDescriptor.chainPartition d).DeclaresSizes d.layout ↔
      (Utf8.encode d.partitionName).length = d.partitionName.length := by
  obtain ⟨tail, htail⟩ : ∃ tail, [Utf8.encode d.partitionName, d.pubkey,
      zeros (gap 8 d.payloadLength)].flatten = tail := ⟨_, rfl⟩
  have hlayout : d.layout = d.header ++ tail := by
    rw [← htail]
    rfl
  have hlen : d.layout.length = 16 + (76 + (Utf8.encode d.partitionName).length +
      d.pubkey.length + gap 8 d.payloadLength) := by
    simp only [layout, List.length_flatten, List.map_cons, List.map_nil, List.sum_cons,
      List.sum_nil, length_header, length_zeros]
    omega
  have hnameLe := Utf8.length_le_length_encode d.partitionName
  have hmax : intMax = 2 ^ 31 - 1 := rfl
  have hsum : d.payloadLength = 76 + d.partitionName.length + d.pubkey.length := rfl
  have hgap := add_gap (p := 8) (by omega) d.payloadLength
  have hround := roundUp_eight_lt (n := d.payloadLength) (by omega)
  have hnbf : readField d.layout 8 8 = roundUp 8 d.payloadLength :=
    readField_header (i := 1) hlayout rfl rfl (by omega)
  have hname : readField d.layout 20 4 = d.partitionName.length :=
    readField_header (i := 3) hlayout rfl rfl (by omega)
  have hpubkey : readField d.layout 24 4 = d.pubkey.length :=
    readField_header (i := 4) hlayout rfl rfl (by omega)
  unfold AnyDescriptor.DeclaresSizes
  simp only [AnyDescriptor.countedFields, List.forall_mem_cons, List.not_mem_nil,
    false_imp_iff, implies_true, and_true, hnbf, hname, hpubkey, hlen, roundUp_mod, true_and]
  omega

namespace AnyDescriptor

/-- What `encode()` writes declares the sizes it has exactly when every text with a declared
length takes one byte for each of its code units: lengths of texts are taken in code
units. -/
theorem declaresSizes_encode_iff (vm : Jvm) (d : AnyDescriptor) (bs : Bytes)
    (htyped : d.Typed) (h : d.encode vm = .ok bs) :
    d.DeclaresSizes bs ↔ ∀ s ∈ d.countedTexts, Utf8.SingleByte s := by
  obtain ⟨hfits, hlen, rfl⟩ := encode_eq_ok_iff.mp h
  simp only [← Utf8.length_encode_eq_iff]
  cases d with
  | property d =>
      refine (PropertyDescriptor.declaresSizes_iff hlen).trans ?_
      simp [countedTexts]
  | hashTree d =>
      refine (HashTreeDescriptor.declaresSizes_iff hfits hlen).trans ?_
      simp [countedTexts]
  | hash d =>
      refine (HashDescriptor.declaresSizes_iff hfits hlen).trans ?_
      simp [countedTexts]
  | kernelCmdline d =>
      refine (KernelCmdlineDescriptor.declaresSizes_iff hlen).trans ?_
      simp [countedTexts]
  | chainPartition d =>
      refine (ChainPartitionDescriptor.declaresSizes_iff hlen).trans ?_
      simp [countedTexts]
  | unknown d => exact htyped.elim

/-- A hash descriptor of `boot` with a salt and a digest. -/
theorem declaresSizes_encode_iff_applies :
    let d : AnyDescriptor := .hash
      { partitionName := units "boot", hashAlgorithm := units "sha256", salt := [1, 2],
        digest := [3, 4, 5] }
    d.DeclaresSizes d.layout ↔ ∀ s ∈ d.countedTexts, Utf8.SingleByte s := by
  intro d
  exact declaresSizes_encode_iff ⟨true, .littleEndian⟩ d d.layout trivial
    (encode_eq_ok_iff.mpr ⟨by decide +kernel, by decide +kernel, rfl⟩)

/-- A property whose value has letters of two bytes: the record is longer than it says. -/
theorem declaresSizes_encode_property :
    let vm : Jvm := ⟨true, .littleEndian⟩
    let d : AnyDescriptor := .property { key := units "a", value := units "éééé" }
    ∃ bs, d.encode vm = .ok bs ∧ ¬ d.DeclaresSizes bs := by
  intro vm d
  exact ⟨d.layout, encode_eq_ok_iff.mpr ⟨by decide +kernel, by decide +kernel, rfl⟩,
    by decide +kernel⟩

end AnyDescriptor

end Avb

end BootImageEditor
