import BootImageEditor.Library.Segments
import BootImageEditor.Avb.DescriptorSection

/-!
# Encoding a parsed section again

Texts pass through strings of code units on the way from the bytes of a section to
the descriptors and back. The bytes come back exactly when every text survives
that: an ASCII text does, while any other text changes its length or the
number of bytes its characters take.
-/

namespace BootImageEditor

open Codec Fallible Struct3 Helper

namespace Avb

/-! ## Byte strings -/

theorem be_succ_of_lt {w n : ℕ} (h : n < 256 ^ w) : be (w + 1) n = 0 :: be w n := by
  have hle : leBytes (w + 1) n = leBytes w n ++ [0] := by
    induction w generalizing n with
    | zero =>
        have h0 : n = 0 := by simpa using h
        rw [h0]
        rfl
    | succ w ih =>
        have hdiv : n / 256 < 256 ^ w := by
          rw [Nat.div_lt_iff_lt_mul (by omega), ← Nat.pow_succ]
          exact h
        rw [leBytes, ih hdiv]
        rfl
  have hrev : be (w + 1) n = (leBytes (w + 1) n).reverse := rfl
  rw [hrev, hle, List.reverse_append]
  rfl

theorem be_inj {w m n : ℕ} (hm : m < 256 ^ w) (hn : n < 256 ^ w) (h : be w m = be w n) : m = n :=
  ByteOrder.encode_inj_of_lt .bigEndian hm hn h

/-- A field filled up with zeros determines its content without zeros. -/
theorem extend_inj {n : ℕ} {a b : Bytes} (ha : (0 : UInt8) ∉ a) (hb : (0 : UInt8) ∉ b)
    (h : extend n a = extend n b) : a = b := by
  have hcut : ∀ c : Bytes, (0 : UInt8) ∉ c → (extend n c).takeWhile (· ≠ 0) = c := by
    intro c hc
    rw [extend, List.takeWhile_append_of_pos]
    · cases hk : n - c.length with
      | zero => simp [zeros]
      | succ k => simp [zeros, List.replicate_succ]
    · intro x hx
      simp only [decide_eq_true_eq]
      rintro rfl
      exact hc hx
  rw [← hcut a ha, h, hcut b hb]

namespace WireDescriptor

/-- What follows in the section is not the encoding of what follows, shifted by
two bytes. -/
def NotShifted (A B : Bytes) : Prop := ∀ p q : UInt8, p ≠ 0 → q ≠ 0 → A ≠ p :: q :: B

/-- A text of full length, written back in front of an equal run, is ASCII, and the bytes
after the run are the same. -/
theorem ascii_of_append_eq {name T A B : Bytes} (hAB : NotShifted A B)
    (hlen : (Utf8.cString name).length = name.length)
    (h : name ++ (T ++ A) = Utf8.encode (Utf8.cString name) ++ (T ++ B)) :
    Utf8.AsciiBytes name ∧ A = B := by
  rcases Utf8.ascii_of_length_cString hlen h.symm with hascii | ⟨-, hshift⟩
  · refine ⟨hascii, ?_⟩
    rw [Utf8.encode_cString_of_ascii hascii] at h
    simpa only [List.append_cancel_left_eq] using h
  · obtain ⟨p, q, hp, hq, hA⟩ :=
      shift_append (P := (· ≠ (0 : UInt8))) (by decide) (by decide) hshift
    exact absurd hA (hAB p q hp hq)

theorem encode_cString_extend {w : Bytes} (h : Utf8.IsText w) (h0 : (0 : UInt8) ∉ w) (n : ℕ) :
    Utf8.encode (Utf8.cString (extend n w)) = w :=
  Utf8.encode_cString_of_isText h h0 _

/-- A name in a field of fixed length that is written back unchanged is UTF-8. -/
theorem isText_of_extend_eq {n : ℕ} {w : Bytes} (h0 : (0 : UInt8) ∉ w)
    (h : extend n w = extend n (Utf8.encode (Utf8.cString (extend n w)))) : Utf8.IsText w := by
  have hno := Utf8.zero_notMem_encode (Utf8.zero_notMem_cString (extend n w))
  rw [extend_inj h0 hno h]
  exact Utf8.isText_encode _

end WireDescriptor

namespace Wire

/-! ## HashDescriptor -/

def Hash.head (w : Hash) : List Bytes :=
  [be 8 2, be 8 w.body.length, be 8 w.imageSize.toNat, extend 32 w.hashAlgorithm,
    be 4 w.partitionName.length, be 4 w.salt.length, be 4 w.digest.length, be 4 w.flags.toNat,
    zeros 60]

theorem Hash.record_eq (w : Hash) :
    record 2 w.body = w.head.flatten ++ (w.partitionName ++ (w.salt ++ (w.digest ++
      zeros (gap 8 (116 + w.partitionName.length + w.salt.length + w.digest.length))))) := by
  have hgap : w.fields.length + [w.partitionName, w.salt, w.digest].flatten.length =
      116 + w.partitionName.length + w.salt.length + w.digest.length := by
    rw [w.length_fields]
    simp
    omega
  have h := record_padded 2 [be 8 w.imageSize.toNat, extend 32 w.hashAlgorithm,
    be 4 w.partitionName.length, be 4 w.salt.length, be 4 w.digest.length,
    be 4 w.flags.toNat, zeros 60] [w.partitionName, w.salt, w.digest].flatten
  rw [← Hash.fields, ← Hash.body, hgap] at h
  rw [h]
  simp only [Hash.head, List.flatten_cons, List.flatten_nil, List.append_nil, List.append_assoc]

theorem Hash.layout_decoded (w : Hash) (seq : Int32) :
    (w.decoded seq).layout = (w.decoded seq).header ++
      (Utf8.encode (Utf8.cString w.partitionName) ++ (w.salt ++ (w.digest ++
        zeros (gap 8 (116 + (Utf8.cString w.partitionName).length + w.salt.length +
          w.digest.length))))) := by
  simp only [HashDescriptor.layout, HashDescriptor.payloadLength, Hash.decoded,
    List.flatten_cons, List.flatten_nil, List.append_nil]

theorem Hash.record_eq_layout {w : Hash} {seq : Int32} (halg : Utf8.IsText w.hashAlgorithm)
    (hname : Utf8.AsciiBytes w.partitionName) : record 2 w.body = (w.decoded seq).layout := by
  have hlen := Utf8.length_cString_of_ascii hname
  have hheader : (w.decoded seq).header = w.head.flatten := by
    simp only [HashDescriptor.header, HashDescriptor.payloadLength, Hash.decoded, hlen,
      WireDescriptor.encode_cString_extend halg w.algorithm_ends, Hash.head, w.length_body]
  rw [w.record_eq, w.layout_decoded, hheader, hlen, Utf8.encode_cString_of_ascii hname]

/-- Encoding a parsed hash descriptor, in front of other records. -/
theorem Hash.append_eq_iff {w : Hash} {seq : Int32} (h : (record 2 w.body).length ≤ intMax)
    (hfits : (Utf8.encode (Utf8.cString (extend 32 w.hashAlgorithm))).length ≤ 32)
    {A B : Bytes} (hAB : WireDescriptor.NotShifted A B) :
    record 2 w.body ++ A = (w.decoded seq).layout ++ B ↔
      (Utf8.IsText w.hashAlgorithm ∧ Utf8.AsciiBytes w.partitionName) ∧ A = B := by
  have hbody := w.length_body
  constructor
  · intro heq
    rw [w.record_eq, w.layout_decoded] at heq
    simp only [List.append_assoc] at heq
    have hround := le_roundUp (p := 8) (by omega)
      (116 + w.partitionName.length + w.salt.length + w.digest.length)
    rw [length_record, hbody] at h
    unfold intMax at h
    have hcut := Utf8.length_cString_le w.partitionName
    obtain ⟨hhead, hrest⟩ := List.append_inj heq (by
      rw [HashDescriptor.length_header hfits]
      simp [Hash.head, length_extend w.algorithm_fits])
    have hfields := flatten_inj (by
      simp [Hash.head, Hash.decoded, length_extend w.algorithm_fits, length_extend hfits]) hhead
    simp only [Hash.head, Hash.decoded, List.cons.injEq] at hfields
    obtain ⟨-, -, -, halg, hname, -⟩ := hfields
    have hlen := be_inj (by omega) (by omega) hname
    rw [← hlen] at hrest
    obtain ⟨hascii, hsame⟩ := WireDescriptor.ascii_of_append_eq (T := w.salt ++ (w.digest ++
      zeros (gap 8 (116 + w.partitionName.length + w.salt.length + w.digest.length)))) hAB
      hlen.symm (by simpa only [List.append_assoc] using hrest)
    exact ⟨⟨WireDescriptor.isText_of_extend_eq w.algorithm_ends halg, hascii⟩, hsame⟩
  · rintro ⟨⟨halg, hname⟩, rfl⟩
    rw [w.record_eq_layout halg hname]

/-! ## HashTreeDescriptor -/

def HashTree.head (w : HashTree) : List Bytes :=
  [be 8 1, be 8 w.body.length, be 4 w.dmVerityVersion.toNat, be 8 w.imageSize.toNat,
    be 8 w.treeOffset.toNat, be 8 w.treeSize.toNat, be 4 w.dataBlockSize.toNat,
    be 4 w.hashBlockSize.toNat, be 4 w.fecNumRoots.toNat, be 8 w.fecOffset.toNat,
    be 8 w.fecSize.toNat, extend 32 w.hashAlgorithm, be 4 w.partitionName.length,
    be 4 w.salt.length, be 4 w.rootDigest.length, be 4 w.flags.toNat, zeros 60]

theorem HashTree.record_eq (w : HashTree) :
    record 1 w.body = w.head.flatten ++ (w.partitionName ++ (w.salt ++ (w.rootDigest ++
      zeros (gap 8 (164 + w.partitionName.length + w.salt.length + w.rootDigest.length))))) := by
  have hgap : w.fields.length + [w.partitionName, w.salt, w.rootDigest].flatten.length =
      164 + w.partitionName.length + w.salt.length + w.rootDigest.length := by
    rw [w.length_fields]
    simp
    omega
  have h := record_padded 1 [be 4 w.dmVerityVersion.toNat, be 8 w.imageSize.toNat,
    be 8 w.treeOffset.toNat, be 8 w.treeSize.toNat, be 4 w.dataBlockSize.toNat,
    be 4 w.hashBlockSize.toNat, be 4 w.fecNumRoots.toNat, be 8 w.fecOffset.toNat,
    be 8 w.fecSize.toNat, extend 32 w.hashAlgorithm, be 4 w.partitionName.length,
    be 4 w.salt.length, be 4 w.rootDigest.length, be 4 w.flags.toNat, zeros 60]
    [w.partitionName, w.salt, w.rootDigest].flatten
  rw [← HashTree.fields, ← HashTree.body, hgap] at h
  rw [h]
  simp only [HashTree.head, List.flatten_cons, List.flatten_nil, List.append_nil,
    List.append_assoc]

theorem HashTree.layout_decoded (w : HashTree) (seq : Int32) :
    (w.decoded seq).layout = (w.decoded seq).header ++
      (Utf8.encode (Utf8.cString w.partitionName) ++ (w.salt ++ (w.rootDigest ++
        zeros (gap 8 (164 + (Utf8.cString w.partitionName).length + w.salt.length +
          w.rootDigest.length))))) := by
  simp only [HashTreeDescriptor.layout, HashTreeDescriptor.payloadLength, HashTree.decoded,
    List.flatten_cons, List.flatten_nil, List.append_nil]

theorem HashTree.record_eq_layout {w : HashTree} {seq : Int32} (halg : Utf8.IsText w.hashAlgorithm)
    (hname : Utf8.AsciiBytes w.partitionName) : record 1 w.body = (w.decoded seq).layout := by
  have hlen := Utf8.length_cString_of_ascii hname
  have hheader : (w.decoded seq).header = w.head.flatten := by
    simp only [HashTreeDescriptor.header, HashTreeDescriptor.payloadLength, HashTree.decoded, hlen,
      WireDescriptor.encode_cString_extend halg w.algorithm_ends, HashTree.head, w.length_body]
  rw [w.record_eq, w.layout_decoded, hheader, hlen, Utf8.encode_cString_of_ascii hname]

/-- Encoding a parsed hashtree descriptor, in front of other records. -/
theorem HashTree.append_eq_iff {w : HashTree} {seq : Int32}
    (h : (record 1 w.body).length ≤ intMax)
    (hfits : (Utf8.encode (Utf8.cString (extend 32 w.hashAlgorithm))).length ≤ 32)
    {A B : Bytes} (hAB : WireDescriptor.NotShifted A B) :
    record 1 w.body ++ A = (w.decoded seq).layout ++ B ↔
      (Utf8.IsText w.hashAlgorithm ∧ Utf8.AsciiBytes w.partitionName) ∧ A = B := by
  have hbody := w.length_body
  constructor
  · intro heq
    rw [w.record_eq, w.layout_decoded] at heq
    simp only [List.append_assoc] at heq
    have hround := le_roundUp (p := 8) (by omega)
      (164 + w.partitionName.length + w.salt.length + w.rootDigest.length)
    rw [length_record, hbody] at h
    unfold intMax at h
    have hcut := Utf8.length_cString_le w.partitionName
    obtain ⟨hhead, hrest⟩ := List.append_inj heq (by
      rw [HashTreeDescriptor.length_header hfits]
      simp [HashTree.head, length_extend w.algorithm_fits])
    have hfields := flatten_inj (by
      simp [HashTree.head, HashTree.decoded, length_extend w.algorithm_fits,
        length_extend hfits]) hhead
    simp only [HashTree.head, HashTree.decoded, List.cons.injEq] at hfields
    obtain ⟨-, -, -, -, -, -, -, -, -, -, -, halg, hname, -⟩ := hfields
    have hlen := be_inj (by omega) (by omega) hname
    rw [← hlen] at hrest
    obtain ⟨hascii, hsame⟩ := WireDescriptor.ascii_of_append_eq (T := w.salt ++ (w.rootDigest ++
      zeros (gap 8 (164 + w.partitionName.length + w.salt.length + w.rootDigest.length)))) hAB
      hlen.symm (by simpa only [List.append_assoc] using hrest)
    exact ⟨⟨WireDescriptor.isText_of_extend_eq w.algorithm_ends halg, hascii⟩, hsame⟩
  · rintro ⟨⟨halg, hname⟩, rfl⟩
    rw [w.record_eq_layout halg hname]

/-! ## ChainPartitionDescriptor -/

def ChainPartition.head (w : ChainPartition) : List Bytes :=
  [be 8 4, be 8 w.body.length, be 4 w.rollbackIndexLocation.toNat,
    be 4 w.partitionName.length, be 4 w.pubkey.length, zeros 64]

theorem ChainPartition.record_eq (w : ChainPartition) :
    record 4 w.body = w.head.flatten ++ (w.partitionName ++ (w.pubkey ++
      zeros (gap 8 (76 + w.partitionName.length + w.pubkey.length)))) := by
  have hgap : w.fields.length + [w.partitionName, w.pubkey].flatten.length =
      76 + w.partitionName.length + w.pubkey.length := by
    rw [w.length_fields]
    simp
    omega
  have h := record_padded 4 [be 4 w.rollbackIndexLocation.toNat, be 4 w.partitionName.length,
    be 4 w.pubkey.length, zeros 64] [w.partitionName, w.pubkey].flatten
  rw [← ChainPartition.fields, ← ChainPartition.body, hgap] at h
  rw [h]
  simp only [ChainPartition.head, List.flatten_cons, List.flatten_nil, List.append_nil,
    List.append_assoc]

theorem ChainPartition.layout_decoded (crypto : Crypto) (w : ChainPartition) (seq : Int32) :
    (w.decoded crypto seq).layout = (w.decoded crypto seq).header ++
      (Utf8.encode (Utf8.cString w.partitionName) ++ (w.pubkey ++
        zeros (gap 8 (76 + (Utf8.cString w.partitionName).length + w.pubkey.length)))) := by
  simp only [ChainPartitionDescriptor.layout, ChainPartitionDescriptor.payloadLength,
    ChainPartition.decoded, List.flatten_cons, List.flatten_nil, List.append_nil]

theorem ChainPartition.record_eq_layout {w : ChainPartition} (crypto : Crypto) {seq : Int32}
    (hname : Utf8.AsciiBytes w.partitionName) :
    record 4 w.body = (w.decoded crypto seq).layout := by
  have hlen := Utf8.length_cString_of_ascii hname
  have hheader : (w.decoded crypto seq).header = w.head.flatten := by
    simp only [ChainPartitionDescriptor.header, ChainPartitionDescriptor.payloadLength,
      ChainPartition.decoded, hlen, ChainPartition.head, w.length_body]
  rw [w.record_eq, w.layout_decoded, hheader, hlen, Utf8.encode_cString_of_ascii hname]

/-- Encoding a parsed chain partition descriptor, in front of other records. -/
theorem ChainPartition.append_eq_iff {crypto : Crypto} {w : ChainPartition} {seq : Int32}
    (h : (record 4 w.body).length ≤ intMax) {A B : Bytes}
    (hAB : WireDescriptor.NotShifted A B) :
    record 4 w.body ++ A = (w.decoded crypto seq).layout ++ B ↔
      Utf8.AsciiBytes w.partitionName ∧ A = B := by
  have hbody := w.length_body
  constructor
  · intro heq
    rw [w.record_eq, w.layout_decoded] at heq
    simp only [List.append_assoc] at heq
    have hround := le_roundUp (p := 8) (by omega)
      (76 + w.partitionName.length + w.pubkey.length)
    rw [length_record, hbody] at h
    unfold intMax at h
    have hcut := Utf8.length_cString_le w.partitionName
    obtain ⟨hhead, hrest⟩ := List.append_inj heq (by
      rw [ChainPartitionDescriptor.length_header]
      simp [ChainPartition.head])
    have hfields := flatten_inj (by simp [ChainPartition.head, ChainPartition.decoded]) hhead
    simp only [ChainPartition.head, ChainPartition.decoded, List.cons.injEq] at hfields
    obtain ⟨-, -, -, hname, -⟩ := hfields
    have hlen := be_inj (by omega) (by omega) hname
    rw [← hlen] at hrest
    obtain ⟨hascii, hsame⟩ := WireDescriptor.ascii_of_append_eq (T := w.pubkey ++
      zeros (gap 8 (76 + w.partitionName.length + w.pubkey.length))) hAB hlen.symm
      (by simpa only [List.append_assoc] using hrest)
    exact ⟨hascii, hsame⟩
  · rintro ⟨hname, rfl⟩
    rw [w.record_eq_layout crypto hname]

/-! ## KernelCmdlineDescriptor -/

def KernelCmdline.head (w : KernelCmdline) : List Bytes :=
  [be 8 3, be 8 w.body.length, be 4 w.flags.toNat, be 4 w.cmdline.length]

theorem KernelCmdline.record_eq (w : KernelCmdline) :
    record 3 w.body = w.head.flatten ++ (w.cmdline ++ zeros (gap 8 (8 + w.cmdline.length))) := by
  have h := record_padded 3 [be 4 w.flags.toNat, be 4 w.cmdline.length] w.cmdline
  rw [← KernelCmdline.body] at h
  rw [h]
  simp only [KernelCmdline.head, List.flatten_cons, List.flatten_nil, List.append_nil,
    List.append_assoc, List.length_append, length_be]

theorem KernelCmdline.layout_decoded (w : KernelCmdline) (seq : Int32) :
    (w.decoded seq).layout = (w.decoded seq).header ++
      (Utf8.encode (Utf8.cString w.cmdline) ++
        zeros (gap 8 (8 + (Utf8.encode (Utf8.cString w.cmdline)).length))) := by
  simp only [KernelCmdlineDescriptor.layout, KernelCmdlineDescriptor.payloadLength,
    KernelCmdline.decoded, List.flatten_cons, List.flatten_nil, List.append_nil]

theorem KernelCmdline.record_eq_layout {w : KernelCmdline} {seq : Int32}
    (hcmdline : Utf8.AsciiBytes w.cmdline) : record 3 w.body = (w.decoded seq).layout := by
  have hlen := Utf8.length_cString_of_ascii hcmdline
  have henc := Utf8.encode_cString_of_ascii hcmdline
  have hheader : (w.decoded seq).header = w.head.flatten := by
    simp only [KernelCmdlineDescriptor.header, KernelCmdlineDescriptor.payloadLength,
      KernelCmdline.decoded, hlen, henc, KernelCmdline.head, w.length_body]
  rw [w.record_eq, w.layout_decoded, hheader, henc]

/-- Encoding a parsed kernel cmdline descriptor, in front of other records. The size
field counts the encoded bytes, so a shift shows in it. -/
theorem KernelCmdline.append_eq_iff {w : KernelCmdline} {seq : Int32}
    (h : (record 3 w.body).length ≤ intMax) {A B : Bytes} :
    record 3 w.body ++ A = (w.decoded seq).layout ++ B ↔
      Utf8.AsciiBytes w.cmdline ∧ A = B := by
  have hbody := w.length_body
  constructor
  · intro heq
    rw [w.record_eq, w.layout_decoded] at heq
    simp only [List.append_assoc] at heq
    have hround := roundUp_lt (p := 8) (by omega) (8 + w.cmdline.length)
    have hround' := le_roundUp (p := 8) (by omega) (8 + w.cmdline.length)
    rw [length_record, hbody] at h
    unfold intMax at h
    have hcut := Utf8.length_cString_le w.cmdline
    obtain ⟨hhead, hrest⟩ := List.append_inj heq (by
      rw [KernelCmdlineDescriptor.length_header]
      simp [KernelCmdline.head])
    have hfields := flatten_inj (by simp [KernelCmdline.head, KernelCmdline.decoded]) hhead
    simp only [KernelCmdline.head, KernelCmdline.decoded, List.cons.injEq] at hfields
    obtain ⟨-, hsize, -, hcmdline, -⟩ := hfields
    have hlen := be_inj (by omega) (by omega) hcmdline
    have hascii : Utf8.AsciiBytes w.cmdline := by
      rcases Utf8.ascii_of_length_cString hlen.symm hrest.symm with hascii | ⟨-, hshift⟩
      · exact hascii
      · have hgap : gap 8 (8 + w.cmdline.length) = 0 := by
          cases hk : gap 8 (8 + w.cmdline.length) with
          | zero => rfl
          | succ k =>
              rw [hk, zeros, List.replicate_succ] at hshift
              cases hshift
        -- two bytes more are written, and the record was full
        have htwo : (Utf8.encode (Utf8.cString w.cmdline)).length = w.cmdline.length + 2 := by
          have hshiftLen := congrArg List.length hshift
          have hrestLen := congrArg List.length hrest
          simp only [List.length_append, List.length_cons] at hshiftLen hrestLen
          omega
        have hroundEnc := roundUp_lt (p := 8) (by omega) (8 + (w.cmdline.length + 2))
        have hroundEnc' := le_roundUp (p := 8) (by omega) (8 + (w.cmdline.length + 2))
        rw [KernelCmdlineDescriptor.payloadLength, hbody, htwo] at hsize
        have hsize' := be_inj (by omega) (by omega) hsize
        unfold gap at hgap
        omega
    refine ⟨hascii, ?_⟩
    rw [Utf8.encode_cString_of_ascii hascii] at hrest
    simpa only [List.append_cancel_left_eq] using hrest
  · rintro ⟨hcmdline, rfl⟩
    rw [w.record_eq_layout hcmdline]

/-! ## PropertyDescriptor -/

def Property.head (w : Property) : List Bytes :=
  [be 8 0, be 8 w.body.length, be 8 w.key.length, be 8 w.value.length]

theorem Property.record_eq (w : Property) :
    record 0 w.body = w.head.flatten ++ (w.key ++ ([0] ++ (w.value ++ ([0] ++
      zeros (gap 8 (18 + w.key.length + w.value.length)))))) := by
  have h := record_padded 0 [be 8 w.key.length, be 8 w.value.length]
    [w.key, [0], w.value, [0]].flatten
  have hgap : [be 8 w.key.length, be 8 w.value.length].flatten.length +
      [w.key, [0], w.value, [0]].flatten.length = 18 + w.key.length + w.value.length := by
    simp
    omega
  rw [← Property.body, hgap] at h
  rw [h]
  simp only [Property.head, List.flatten_cons, List.flatten_nil, List.append_nil,
    List.append_assoc]

theorem Property.layout_decoded (w : Property) (seq : Int32) :
    (w.decoded seq).layout = (w.decoded seq).header ++
      (Utf8.encode (Utf8.cString w.key) ++ ([0] ++ (Utf8.encode (Utf8.cString w.value) ++ ([0] ++
        zeros (gap 8 (18 + (Utf8.cString w.key).length + (Utf8.cString w.value).length)))))) := by
  simp only [PropertyDescriptor.layout, PropertyDescriptor.payloadLength, Property.decoded,
    List.flatten_cons, List.flatten_nil, List.append_nil]

/-- A text of full length, written back in front of its terminator, is ASCII. -/
theorem ascii_of_terminated {text x y : Bytes}
    (hlen : (Utf8.cString text).length = text.length)
    (h : text ++ ([0] ++ y) = Utf8.encode (Utf8.cString text) ++ ([0] ++ x)) :
    Utf8.AsciiBytes text := by
  rcases Utf8.ascii_of_length_cString hlen h.symm with hascii | ⟨-, hshift⟩
  · exact hascii
  · cases hshift

theorem Property.record_eq_layout {w : Property} {seq : Int32} (hkey : Utf8.AsciiBytes w.key)
    (hvalue : Utf8.AsciiBytes w.value) : record 0 w.body = (w.decoded seq).layout := by
  have hkeyLen := Utf8.length_cString_of_ascii hkey
  have hvalueLen := Utf8.length_cString_of_ascii hvalue
  have hheader : (w.decoded seq).header = w.head.flatten := by
    simp only [PropertyDescriptor.header, PropertyDescriptor.payloadLength,
      Property.decoded, hkeyLen, hvalueLen, Property.head, w.length_body]
  rw [w.record_eq, w.layout_decoded, hheader, hkeyLen, hvalueLen,
    Utf8.encode_cString_of_ascii hkey, Utf8.encode_cString_of_ascii hvalue]

/-- Encoding a parsed property descriptor, in front of other records. -/
theorem Property.append_eq_iff {w : Property} {seq : Int32}
    (h : (record 0 w.body).length ≤ intMax) {A B : Bytes} :
    record 0 w.body ++ A = (w.decoded seq).layout ++ B ↔
      (Utf8.AsciiBytes w.key ∧ Utf8.AsciiBytes w.value) ∧ A = B := by
  have hbody := w.length_body
  constructor
  · intro heq
    rw [w.record_eq, w.layout_decoded] at heq
    simp only [List.append_assoc] at heq
    have hround := le_roundUp (p := 8) (by omega) (18 + w.key.length + w.value.length)
    rw [length_record, hbody] at h
    unfold intMax at h
    have hkey := Utf8.length_cString_le w.key
    have hvalue := Utf8.length_cString_le w.value
    obtain ⟨hhead, hrest⟩ := List.append_inj heq (by
      simp [Property.head, PropertyDescriptor.header])
    have hfields := flatten_inj (by simp [Property.head, Property.decoded]) hhead
    simp only [Property.head, Property.decoded, List.cons.injEq] at hfields
    obtain ⟨-, -, hkeyLen, hvalueLen, -⟩ := hfields
    have hkeyLen := be_inj (by omega) (by omega) hkeyLen
    have hvalueLen := be_inj (by omega) (by omega) hvalueLen
    have hkeyAscii := ascii_of_terminated hkeyLen.symm hrest
    rw [Utf8.encode_cString_of_ascii hkeyAscii, List.append_cancel_left_eq,
      List.append_cancel_left_eq] at hrest
    have hvalueAscii := ascii_of_terminated hvalueLen.symm hrest
    rw [Utf8.encode_cString_of_ascii hvalueAscii, ← hkeyLen, ← hvalueLen] at hrest
    refine ⟨⟨hkeyAscii, hvalueAscii⟩, ?_⟩
    simpa only [List.append_cancel_left_eq] using hrest
  · rintro ⟨⟨hkey, hvalue⟩, rfl⟩
    rw [w.record_eq_layout hkey hvalue]

end Wire

namespace WireDescriptor

/-! ## Sections -/

/-- Every text of the record passes through strings unchanged: one that is counted
in code units is ASCII, and the name of a hash algorithm, whose field has a fixed
length, is UTF-8. -/
def Textual : WireDescriptor → Prop
  | property w => Utf8.AsciiBytes w.key ∧ Utf8.AsciiBytes w.value
  | hashTree w => Utf8.IsText w.hashAlgorithm ∧ Utf8.AsciiBytes w.partitionName
  | hash w => Utf8.IsText w.hashAlgorithm ∧ Utf8.AsciiBytes w.partitionName
  | kernelCmdline w => Utf8.AsciiBytes w.cmdline
  | chainPartition w => Utf8.AsciiBytes w.partitionName
  | unknown _ => True

theorem layout_decoded_unknown (crypto : Crypto) (seq : Int32) (w : Wire.Unknown) :
    ((unknown w).decoded crypto seq).layout = (unknown w).bytes := by
  simp [decoded, AnyDescriptor.layout, UnknownDescriptor.layout, bytes, Wire.record, tag, body]

/-- A record with textual texts is what its descriptor is encoded to. -/
theorem bytes_eq_layout {w : WireDescriptor} (h : w.Textual) (crypto : Crypto) (seq : Int32) :
    w.bytes = (w.decoded crypto seq).layout := by
  cases w with
  | property w => exact w.record_eq_layout h.1 h.2
  | hashTree w => exact w.record_eq_layout h.1 h.2
  | hash w => exact w.record_eq_layout h.1 h.2
  | kernelCmdline w => exact w.record_eq_layout h
  | chainPartition w => exact w.record_eq_layout crypto h
  | unknown w => exact (layout_decoded_unknown crypto seq w).symm

theorem append_eq_iff {crypto : Crypto} {w : WireDescriptor} {seq : Int32}
    (h : w.bytes.length ≤ intMax) (hfits : (w.decoded crypto seq).AlgorithmFits) {A B : Bytes}
    (hAB : NotShifted A B) :
    w.bytes ++ A = (w.decoded crypto seq).layout ++ B ↔ w.Textual ∧ A = B := by
  cases w with
  | property w => exact w.append_eq_iff h
  | hashTree w => exact w.append_eq_iff h hfits hAB
  | hash w => exact w.append_eq_iff h hfits hAB
  | kernelCmdline w => exact w.append_eq_iff h
  | chainPartition w => exact w.append_eq_iff h hAB
  | unknown w =>
      rw [layout_decoded_unknown, List.append_cancel_left_eq]
      exact (and_iff_right trivial).symm

theorem algorithmFits_of_textual {crypto : Crypto} {w : WireDescriptor} (h : w.Textual)
    (seq : Int32) : (w.decoded crypto seq).AlgorithmFits := by
  cases w with
  | hashTree w =>
      have henc := encode_cString_extend h.1 w.algorithm_ends 32
      exact (congrArg List.length henc).le.trans w.algorithm_fits
  | hash w =>
      have henc := encode_cString_extend h.1 w.algorithm_ends 32
      exact (congrArg List.length henc).le.trans w.algorithm_fits
  | property w => trivial
  | kernelCmdline w => trivial
  | chainPartition w => trivial
  | unknown w => trivial

/-- The first byte of a known tag, and the ninth byte of any record, is zero. -/
theorem notShifted_bytes {crypto : Crypto} {seq : Int32} {w : WireDescriptor}
    (h : w.bytes.length ≤ intMax) (A B : Bytes) :
    NotShifted (w.bytes ++ A) ((w.decoded crypto seq).layout ++ B) := by
  intro p q hp hq heq
  have hknown : ∀ (n : ℕ) (b : Bytes), n < 256 ^ 7 →
      Wire.record n b ++ A ≠ p :: q :: ((w.decoded crypto seq).layout ++ B) := by
    intro n b hn hrec
    rw [Wire.record, be_succ_of_lt hn] at hrec
    simp only [List.flatten_cons, List.cons_append, List.cons.injEq] at hrec
    exact hp hrec.1.symm
  cases w with
  | property w => exact hknown 0 w.body (by decide) heq
  | hashTree w => exact hknown 1 w.body (by decide) heq
  | hash w => exact hknown 2 w.body (by decide) heq
  | kernelCmdline w => exact hknown 3 w.body (by decide) heq
  | chainPartition w => exact hknown 4 w.body (by decide) heq
  | unknown w =>
      rw [layout_decoded_unknown] at heq
      rw [length_bytes] at h
      have hsmall : w.data.length < 256 ^ 7 := by
        have hbody : (unknown w).body = w.data := rfl
        rw [hbody] at h
        unfold intMax at h
        omega
      have hbytes : (unknown w).bytes =
          be 8 w.tag.toNat ++ (0 :: (be 7 w.data.length ++ w.data)) := by
        simp [bytes, Wire.record, tag, body, be_succ_of_lt hsmall]
      -- the tag would repeat `p` and `q` up to the ninth byte
      obtain ⟨t₀, t₁, t₂, t₃, t₄, t₅, t₆, t₇, ht⟩ : ∃ t₀ t₁ t₂ t₃ t₄ t₅ t₆ t₇ : UInt8,
          be 8 w.tag.toNat = [t₀, t₁, t₂, t₃, t₄, t₅, t₆, t₇] := ⟨_, _, _, _, _, _, _, _, rfl⟩
      rw [hbytes, ht] at heq
      simp only [List.cons_append, List.nil_append, List.cons.injEq] at heq
      obtain ⟨h₀, -, h₂, -, h₄, -, h₆, -, h₈, -⟩ := heq
      exact hp (by rw [← h₀, ← h₂, ← h₄, ← h₆, ← h₈])

theorem notShifted_section {crypto : Crypto} {seq : Int32} {ws : List WireDescriptor}
    (h : (sectionBytes ws).length ≤ intMax) :
    NotShifted (sectionBytes ws) (AnyDescriptor.layouts (decodedFrom crypto seq ws)) := by
  cases ws with
  | nil =>
      intro p q _ _ heq
      cases heq
  | cons w ws =>
      rw [sectionBytes_cons, List.length_append] at h
      exact notShifted_bytes (by omega) _ _

/-- A parsed section is encoded to its own bytes exactly when its texts are
textual. -/
theorem sectionBytes_eq_layouts_iff {crypto : Crypto} {ws : List WireDescriptor} {seq : Int32}
    (h : (sectionBytes ws).length ≤ intMax)
    (hfits : ∀ d ∈ decodedFrom crypto seq ws, d.AlgorithmFits) :
    sectionBytes ws = AnyDescriptor.layouts (decodedFrom crypto seq ws) ↔
      ∀ w ∈ ws, w.Textual := by
  induction ws generalizing seq with
  | nil => simp [decodedFrom]
  | cons w ws ih =>
      rw [sectionBytes_cons, List.length_append] at h
      rw [decodedFrom, List.forall_mem_cons] at hfits
      rw [sectionBytes_cons, decodedFrom, AnyDescriptor.layouts_cons,
        append_eq_iff (by omega) hfits.1 (notShifted_section (by omega)),
        ih (by omega) hfits.2, List.forall_mem_cons]

theorem algorithmFits_decodedFrom {crypto : Crypto} {ws : List WireDescriptor} {seq : Int32}
    (h : ∀ w ∈ ws, w.Textual) : ∀ d ∈ decodedFrom crypto seq ws, d.AlgorithmFits := by
  induction ws generalizing seq with
  | nil => simp [decodedFrom]
  | cons w ws ih =>
      rw [List.forall_mem_cons] at h
      rw [decodedFrom, List.forall_mem_cons]
      exact ⟨algorithmFits_of_textual h.1 _, ih h.2⟩

/-! ## The empty section -/

/-- A field at the end of a stream is read as zero when assertions are disabled. -/
theorem unpackItem_ulong_of_empty {vm : Jvm} {s : InputStream} (h : s.rest = []) :
    unpackItem vm .bigEndian (.one .ulong) s =
      if vm.assertionsEnabled = true then .error .assertion else .ok (.ulong 0, s) := by
  have hitem : unpackItem vm .bigEndian (.one .ulong) s = getULong vm .bigEndian s := rfl
  have hread : s.read 8 = (-1, zeros 8, s) := by rw [InputStream.read, if_neg (by omega), if_pos h]
  rw [hitem, getULong, getWith, readFully, hread]
  cases hvm : vm.assertionsEnabled
  · simp only [Jvm.assert, hvm]
    rfl
  · simp only [Jvm.assert, hvm]
    rfl

/-- Sixteen zero bytes are no property. -/
theorem ofStream_zeros {vm : Jvm} (h : vm.assertionsEnabled = false) (seq : Int32) :
    PropertyDescriptor.ofStream vm (.byteArrayInputStream (zeros 16)) seq =
      .error (.illegalArgument "Given data does not look like a |property| descriptor") := by
  obtain ⟨assertionsEnabled, nativeOrder⟩ := vm
  obtain rfl : assertionsEnabled = false := h
  have hinfo : unpackFormat ⟨false, nativeOrder⟩ PropertyDescriptor.formatString
      (.byteArrayInputStream (zeros 16)) = .ok ([.ulong 0, .ulong 0, .ulong 0, .ulong 0],
        (InputStream.byteArrayInputStream (zeros 16)).advance 16) := rfl
  rw [PropertyDescriptor.ofStream, hinfo, ok_bind]
  simp only
  rw [if_pos (by decide)]
  rfl

/-- A section of no records is never accepted: at the end of the stream there is no
record to read, or one that is no property. -/
theorem parseDescriptors2_empty {vm : Jvm} {crypto : Crypto} {s : InputStream}
    (h : s.rest = []) (ds : List AnyDescriptor) :
    UnknownDescriptor.parseDescriptors2 vm crypto s 0 ≠ .ok ds := by
  intro hds
  obtain ⟨s', hrun⟩ := UnknownDescriptor.parseDescriptors2_eq_ok_iff.mp hds
  obtain ⟨desc, s₁, d, hdesc, hd⟩ : ∃ desc s₁ d,
      UnknownDescriptor.ofStream vm s (0 + 1) = .ok (desc, s₁) ∧
        desc.analyze vm crypto = .ok d := by
    rcases runTurns_succ_eq_ok_iff.mp hrun with h' | ⟨l, h', -⟩
    · obtain ⟨desc, s₁, d, hdesc, -, hd, -⟩ := UnknownDescriptor.parseTurn2_eq_ok_iff.mp h'
      exact ⟨desc, s₁, d, hdesc, hd⟩
    · obtain ⟨desc, s₁, d, hdesc, -, hd, -⟩ := UnknownDescriptor.parseTurn2_eq_ok_iff.mp h'
      exact ⟨desc, s₁, d, hdesc, hd⟩
  rw [UnknownDescriptor.ofStream, unpackFormat_eq (UnknownDescriptor.new_formatString vm), unpack,
    unpackLoop, unpackItem_ulong_of_empty h] at hdesc
  by_cases hvm : vm.assertionsEnabled = true
  · rw [if_pos hvm] at hdesc
    cases hdesc
  · have hzero : unpackItem vm .bigEndian (.one .ulong) s = .ok (.ulong 0, s) := by
      rw [unpackItem_ulong_of_empty h, if_neg hvm]
    simp only [unpackLoop, if_neg hvm, hzero, ok_bind] at hdesc
    have hraw : desc = { tag := 0, numBytesFollowing := 0, sequence := 0 + 1, data := [] } := by
      rw [if_neg (by decide)] at hdesc
      by_cases hend : s.kind = .byteArray ∧ s.rest = []
      · have hread : s.read 0 = (-1, [], s) := by rw [InputStream.read, if_pos rfl, if_pos hend]
        have hsize : (0 : UInt64).toUInt32.toInt32.toInt.toNat = 0 := by decide
        rw [hsize, hread] at hdesc
        cases hdesc
      · have hread : s.read 0 = (0, [], s) := by rw [InputStream.read, if_pos rfl, if_neg hend]
        have hsize : (0 : UInt64).toUInt32.toInt32.toInt.toNat = 0 := by decide
        rw [hsize, hread] at hdesc
        cases hdesc
        rfl
    have hencode : desc.encode vm = .ok (zeros 16) := by
      rw [UnknownDescriptor.encode_eq_ok_iff, hraw]
      exact ⟨by decide, by decide⟩
    have htag : desc.tag.toUInt32.toNat = 0 := by rw [hraw]; decide
    simp only [UnknownDescriptor.analyze, htag, hencode, ok_bind] at hd
    obtain ⟨p, hp, -⟩ := bind_eq_ok.mp hd
    rw [ofStream_zeros (by simpa using hvm)] at hp
    cases hp

/-- Distributing what a section stands for into the six lists and encoding it. -/
theorem encodeDescriptors_decodedSection_iff {vm : Jvm} {crypto : Crypto}
    {ws : List WireDescriptor} (hlen : (sectionBytes ws).length ≤ intMax) :
    (AuxBlob.addAll {} (decodedSection crypto ws)).encodeDescriptors vm =
      .ok (sectionBytes ws) ↔ ∀ w ∈ ws, w.Textual := by
  have hcount := length_sectionBytes_ge ws
  have hsorted : (AuxBlob.addAll {} (decodedSection crypto ws)).sortedDescriptors =
      decodedFrom crypto 0 ws :=
    AuxBlob.sortedDescriptors_addAll (pairwise_decodedFrom (by
      rw [Int32.toInt_zero]
      omega))
  have hfits : (∀ d ∈ (AuxBlob.addAll {} (decodedSection crypto ws)).descList,
      d.AlgorithmFits) ↔ ∀ d ∈ decodedFrom crypto 0 ws, d.AlgorithmFits := by
    rw [← hsorted]
    simp only [AuxBlob.sortedDescriptors, mem_sortBy]
  rw [AuxBlob.encodeDescriptors_eq_ok_iff, hsorted, hfits]
  constructor
  · rintro ⟨hall, -, heq⟩
    exact (sectionBytes_eq_layouts_iff hlen hall).mp heq
  · intro htext
    have hall : ∀ d ∈ decodedFrom crypto 0 ws, d.AlgorithmFits := algorithmFits_decodedFrom htext
    have heq := (sectionBytes_eq_layouts_iff hlen hall).mpr htext
    exact ⟨hall, heq ▸ hlen, heq⟩

/-- Distributing the descriptors of a parsed section into the six lists and encoding
them again gives the section back exactly when its texts are textual and it fits an
array. -/
theorem encodeDescriptors_parseDescriptors2_iff (vm : Jvm) (crypto : Crypto)
    (ws : List WireDescriptor) (s : InputStream) (r : Bytes) (ds : List AnyDescriptor)
    (hrest : s.rest = sectionBytes ws ++ r) (hr : ws = [] → r = [])
    (hds : UnknownDescriptor.parseDescriptors2 vm crypto s
      (Int64.ofNat (sectionBytes ws).length) = .ok ds) :
    (AuxBlob.addAll {} ds).encodeDescriptors vm = .ok (sectionBytes ws) ↔
      (sectionBytes ws).length ≤ intMax ∧ ∀ w ∈ ws, w.Textual := by
  have hne : ws ≠ [] := by
    rintro rfl
    rw [hr rfl] at hrest
    exact parseDescriptors2_empty hrest ds hds
  by_cases hlen : (sectionBytes ws).length ≤ intMax
  · have hmax : intMax < 2 ^ 63 := by decide
    obtain ⟨-, -, -, hdec⟩ := (parseDescriptors2_section_iff hne hrest
      (fun w hw => length_body_le_of_mem hlen hw) (by omega)).mp hds
    rw [hdec, encodeDescriptors_decodedSection_iff hlen, and_iff_right hlen]
  · refine iff_of_false (fun henc => hlen ?_) (fun h => hlen h.1)
    obtain ⟨-, hle, heq⟩ := AuxBlob.encodeDescriptors_eq_ok_iff.mp henc
    rw [heq]
    exact hle

/-- A section of one property and one hash descriptor. -/
theorem encodeDescriptors_parseDescriptors2_iff_applies :
    let vm : Jvm := ⟨true, .littleEndian⟩
    let crypto : Crypto := ⟨fun _ _ => [], fun _ => .error .io, fun _ => .error .io,
      fun _ _ => .error .io, zeros⟩
    let ws : List WireDescriptor :=
      [.property ⟨[0x61], [0x62]⟩, .hash ⟨4096, [0x73], 0, [0x62], [1], [2], by decide, by decide⟩]
    let ds := decodedSection crypto ws
    (AuxBlob.addAll {} ds).encodeDescriptors vm = .ok (sectionBytes ws) ↔
      (sectionBytes ws).length ≤ intMax ∧ ∀ w ∈ ws, w.Textual := by
  intro vm crypto ws ds
  have hlen : (sectionBytes ws).length = 16 + roundUp 8 20 + (16 + roundUp 8 119) := by
    simp only [ws, sectionBytes_cons, sectionBytes_nil, List.append_nil, List.length_append,
      length_bytes, body, Wire.Property.length_body, Wire.Hash.length_body]
    rfl
  refine encodeDescriptors_parseDescriptors2_iff vm crypto ws
    (.fileInputStream (sectionBytes ws)) [] ds (by simp) (by simp)
    (parseDescriptors2_file (by decide) ?_ rfl (r := []) (by simp)
      (by rw [hlen]; decide))
  intro w hw
  simp only [ws, List.mem_cons, List.not_mem_nil, or_false] at hw
  rcases hw with rfl | rfl
  · exact ⟨by decide, trivial, by decide +kernel⟩
  · exact ⟨by decide, trivial, by decide +kernel⟩

/-- A property whose value is the one byte `FF`: it is read as U+FFFD, and three bytes
are written. -/
theorem encodeDescriptors_parseDescriptors2_property :
    let vm : Jvm := ⟨false, .littleEndian⟩
    let crypto : Crypto := ⟨fun _ _ => [], fun _ => .error .io, fun _ => .error .io,
      fun _ _ => .error .io, zeros⟩
    let ws : List WireDescriptor := [.property ⟨[0x61], [0xFF]⟩]
    ∃ ds, UnknownDescriptor.parseDescriptors2 vm crypto (.fileInputStream (sectionBytes ws))
        (Int64.ofNat (sectionBytes ws).length) = .ok ds ∧
      (AuxBlob.addAll {} ds).encodeDescriptors vm ≠ .ok (sectionBytes ws) := by
  intro vm crypto ws
  have hlen : (sectionBytes ws).length = 40 := rfl
  have hle : (sectionBytes ws).length ≤ intMax := by rw [hlen]; decide
  refine ⟨decodedSection crypto ws, ?_, ?_⟩
  · refine parseDescriptors2_file (by decide) ?_ rfl (r := []) (by simp) hle
    intro w hw
    obtain rfl := List.mem_singleton.mp hw
    exact ⟨by decide, trivial, by decide +kernel⟩
  · intro henc
    have htext := (encodeDescriptors_decodedSection_iff hle).mp henc (.property ⟨[0x61], [0xFF]⟩)
      (by simp [ws])
    have hascii := htext.2 0xFF (by simp)
    exact absurd hascii.2 (by decide)

end WireDescriptor

end Avb

end BootImageEditor
