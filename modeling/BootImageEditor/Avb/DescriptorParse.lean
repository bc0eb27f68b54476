import BootImageEditor.Avb.Wire

/-!
# What parsing a record yields

`decoded` is the object a record stands for. Each constructor, run on the bytes
of a record of its class, returns it; with assertions enabled the constructors
refuse a record that ends in an empty array without padding, since the stream
they read is a `ByteArrayInputStream`.
-/

namespace BootImageEditor

open Codec Fallible Struct3 Helper

namespace Avb

/-! ## Reading fields -/

theorem decodeItems_flatten {order : ByteOrder} {fs : List Format} {parts : List Bytes}
    (h : List.Forall₂ (fun f b => b.length = f.size) fs parts) :
    decodeItems order fs parts.flatten = List.zipWith (decodeItem order) fs parts := by
  induction h with
  | nil => rfl
  | cons hb _ ih =>
      rw [List.flatten_cons, decodeItems, List.take_left' hb, List.drop_left' hb, ih,
        List.zipWith_cons_cons]

theorem length_flatten_of_forall₂ {fs : List Format} {parts : List Bytes}
    (h : List.Forall₂ (fun f b => b.length = f.size) fs parts) :
    parts.flatten.length = formatsSize fs := by
  induction h with
  | nil => rfl
  | cons hb _ ih => rw [List.flatten_cons, List.length_append, hb, ih, formatsSize_cons]

/-- Unpacking fields of the right sizes, when the last one is not empty. -/
theorem unpackFormat_fields {vm : Jvm} {fmt : KString} {order : ByteOrder}
    {fs : List Format} (parts : List Bytes) {s : InputStream} {r : Bytes}
    (hnew : Struct3.new vm fmt = .ok ⟨order, fs⟩)
    (hparts : List.Forall₂ (fun f b => b.length = f.size) fs parts)
    (hs : ∀ f ∈ fs, f.Sampled) (hrest : s.rest = parts.flatten ++ r)
    (hend : ¬ (StrictAtEnd vm s.kind ∧ r = [] ∧ EndsEmpty fs)) :
    unpackFormat vm fmt s =
      .ok (List.zipWith (decodeItem order) fs parts, s.advance (formatsSize fs)) := by
  rw [unpackFormat_eq hnew, unpack_eq hrest (length_flatten_of_forall₂ hparts) hs, if_neg hend,
    decodeItems_flatten hparts]

@[simp] theorem size_one_ulong : (Format.one .ulong).size = 8 := rfl

@[simp] theorem size_one_uint : (Format.one .uint).size = 4 := rfl

@[simp] theorem size_text (n : ℕ) : (Format.text n).size = n := Nat.one_mul n

@[simp] theorem size_bytes (n : ℕ) : (Format.bytes n).size = n := Nat.one_mul n

@[simp] theorem size_padding (n : ℕ) : (Format.padding n).size = n := Nat.one_mul n

theorem sampled_text (n : ℕ) : (Format.text n).Sampled := fun h => by cases h

theorem sampled_padding {n : ℕ} (h : 1 ≤ n) : (Format.padding n).Sampled := fun _ => h

theorem sampled_bytes (n : ℕ) : (Format.bytes n).Sampled := fun h => by cases h

theorem uint64_ofNat_mod (n : ℕ) : UInt64.ofNat (n % 256 ^ 8) = UInt64.ofNat n :=
  UInt64.ofNat_mod_size

theorem uint32_ofNat_mod (n : ℕ) : UInt32.ofNat (n % 256 ^ 4) = UInt32.ofNat n :=
  UInt32.ofNat_mod_size

@[simp] theorem decodeItem_ulong (n : ℕ) :
    decodeItem .bigEndian (.one .ulong) (be 8 n) = .ulong (UInt64.ofNat n) := by
  have h : decodeItem .bigEndian (.one .ulong) (be 8 n) =
      .ulong (UInt64.ofNat (ByteOrder.bigEndian.decode (ByteOrder.bigEndian.encode 8 n))) := rfl
  rw [h, ByteOrder.decode_encode, uint64_ofNat_mod]

@[simp] theorem decodeItem_uint (n : ℕ) :
    decodeItem .bigEndian (.one .uint) (be 4 n) = .uint (UInt32.ofNat n) := by
  have h : decodeItem .bigEndian (.one .uint) (be 4 n) =
      .uint (UInt32.ofNat (ByteOrder.bigEndian.decode (ByteOrder.bigEndian.encode 4 n))) := rfl
  rw [h, ByteOrder.decode_encode, uint32_ofNat_mod]

@[simp] theorem decodeItem_text (order : ByteOrder) (n : ℕ) (bs : Bytes) :
    decodeItem order (.text n) bs = .string (Utf8.cString bs) := rfl

@[simp] theorem decodeItem_bytes (order : ByteOrder) (n : ℕ) (bs : Bytes) :
    decodeItem order (.bytes n) bs = .byteArray bs := rfl

@[simp] theorem decodeItem_padding (order : ByteOrder) (n : ℕ) (bs : Bytes) :
    decodeItem order (.padding n) bs = .byte (bs.headD 0).toInt8 := rfl

/-! ## Payload templates -/

theorem new_s (vm : Jvm) {a : ℕ} (ha : a ≤ intMax) :
    Struct3.new vm (decimal a ++ units "s") = .ok ⟨.littleEndian, [.text a]⟩ := by
  have hfmt : decimal a ++ units "s" = decimal a ++ [Code.s.letter] := rfl
  rw [new_decimal_append, hfmt, scan_counted, if_pos ha]
  rfl

theorem new_sb (vm : Jvm) {a b : ℕ} (ha : a ≤ intMax) (hb : b ≤ intMax) :
    Struct3.new vm (decimal a ++ units "s" ++ decimal b ++ units "b") =
      .ok ⟨.littleEndian, [.text a, .bytes b]⟩ := by
  have hfmt : decimal a ++ units "s" ++ decimal b ++ units "b" =
      decimal a ++ Code.s.letter :: (decimal b ++ [Code.b.letter]) := by
    rw [List.append_assoc, List.append_assoc]
    rfl
  rw [hfmt, new_decimal_append, scan_counted, if_pos ha, scan_counted, if_pos hb]
  rfl

theorem new_sbb (vm : Jvm) {a b c : ℕ} (ha : a ≤ intMax) (hb : b ≤ intMax) (hc : c ≤ intMax) :
    Struct3.new vm (decimal a ++ units "s" ++ decimal b ++ units "b" ++ decimal c ++ units "b") =
      .ok ⟨.littleEndian, [.text a, .bytes b, .bytes c]⟩ := by
  have hfmt : decimal a ++ units "s" ++ decimal b ++ units "b" ++ decimal c ++ units "b" =
      decimal a ++ Code.s.letter :: (decimal b ++ Code.b.letter ::
        (decimal c ++ [Code.b.letter])) := by
    rw [List.append_assoc, List.append_assoc, List.append_assoc, List.append_assoc]
    rfl
  rw [hfmt, new_decimal_append, scan_counted, if_pos ha, scan_counted, if_pos hb, scan_counted,
    if_pos hc]
  rfl

theorem new_sxs (vm : Jvm) {a b : ℕ} (ha : a ≤ intMax) (hb : b ≤ intMax) :
    Struct3.new vm (decimal a ++ units "sx" ++ decimal b ++ units "s") =
      .ok ⟨.littleEndian, [.text a, .padding 1, .text b]⟩ := by
  have hfmt : decimal a ++ units "sx" ++ decimal b ++ units "s" =
      decimal a ++ Code.s.letter :: Code.x.letter :: (decimal b ++ [Code.s.letter]) := by
    rw [List.append_assoc, List.append_assoc]
    rfl
  rw [hfmt, new_decimal_append, scan_counted, if_pos ha, scan_single, scan_counted, if_pos hb]
  rfl

/-! ## Sizes -/

theorem roundToMultiple_eight {n : ℕ} (h : n ≤ intMax) :
    roundToMultiple (UInt32.ofNat n) 8 = UInt32.ofNat (roundUp 8 n) :=
  roundToMultiple_ofNat (p := 8) (by omega) (by unfold intMax at h; omega) (by omega)

theorem toUInt64_roundUp {n : ℕ} (h : n ≤ intMax) :
    (UInt32.ofNat (roundUp 8 n)).toUInt64 = UInt64.ofNat (roundUp 8 n) :=
  UInt32.toUInt64_ofNat' (by
    have := roundUp_eight_lt h
    simp only [UInt32.size]
    omega)

theorem toNat_uint32_ofNat {n : ℕ} (h : n ≤ intMax) : (UInt32.ofNat n).toNat = n :=
  UInt32.toNat_ofNat_of_lt' (by unfold intMax at h; simp only [UInt32.size]; omega)

namespace Wire

theorem length_record (tag : ℕ) (body : Bytes) : (record tag body).length = 16 + body.length := by
  simp [record]
  omega

/-- A padded record: tag, size and fixed fields, then payload and zeros. -/
theorem record_padded (tag : ℕ) (fields : List Bytes) (payload : Bytes) :
    record tag (padded fields.flatten payload) =
      (be 8 tag :: be 8 (padded fields.flatten payload).length :: fields).flatten ++
        (payload ++ zeros (gap 8 (fields.flatten.length + payload.length))) := by
  obtain ⟨n, hn⟩ : ∃ n, (padded fields.flatten payload).length = n := ⟨_, rfl⟩
  rw [record, hn, padded]
  simp

/-- Reading the fixed part of a record. -/
theorem unpackFormat_record {vm : Jvm} {fmt : KString} {fs : List Format} (tag : ℕ)
    (fields : List Bytes) (payload : Bytes)
    (hnew : Struct3.new vm fmt = .ok ⟨.bigEndian, fs⟩)
    (hparts : List.Forall₂ (fun f b => b.length = f.size) fs
      (be 8 tag :: be 8 (padded fields.flatten payload).length :: fields))
    (hs : ∀ f ∈ fs, f.Sampled) (hend : ¬ EndsEmpty fs) :
    ∃ s', unpackFormat vm fmt (.byteArrayInputStream (record tag (padded fields.flatten payload))) =
        .ok (List.zipWith (decodeItem .bigEndian) fs
          (be 8 tag :: be 8 (padded fields.flatten payload).length :: fields), s') ∧
      s'.rest = payload ++ zeros (gap 8 (fields.flatten.length + payload.length)) ∧
      s'.kind = .byteArray := by
  have hrest : (InputStream.byteArrayInputStream
      (record tag (padded fields.flatten payload))).rest = _ :=
    record_padded tag fields payload
  refine ⟨_, unpackFormat_fields _ hnew hparts hs hrest (fun hx => hend hx.2.2), ?_, rfl⟩
  rw [InputStream.rest_advance, hrest, ← length_flatten_of_forall₂ hparts, List.drop_left]

/-- Reading the arrays of a record, which the end of the bytes may cut short of
nothing: with assertions enabled an empty last array must not stand there. -/
theorem unpackFormat_payload {vm : Jvm} {fmt : KString} {order : ByteOrder}
    {fs : List Format} {parts : List Bytes} {s : InputStream} {n : ℕ}
    (hnew : Struct3.new vm fmt = .ok ⟨order, fs⟩)
    (hparts : List.Forall₂ (fun f b => b.length = f.size) fs parts)
    (hs : ∀ f ∈ fs, f.Sampled) (hrest : s.rest = parts.flatten ++ zeros n)
    (hkind : s.kind = .byteArray) :
    unpackFormat vm fmt s =
      if vm.assertionsEnabled = true ∧ n = 0 ∧ EndsEmpty fs then .error .assertion
      else .ok (List.zipWith (decodeItem order) fs parts, s.advance (formatsSize fs)) := by
  have hnil : zeros n = [] ↔ n = 0 := by simp [zeros]
  rw [unpackFormat_eq hnew, unpack_eq hrest (length_flatten_of_forall₂ hparts) hs,
    decodeItems_flatten hparts, hkind]
  by_cases h : vm.assertionsEnabled = true ∧ n = 0 ∧ EndsEmpty fs
  · rw [if_pos h, if_pos ⟨⟨h.1, rfl⟩, hnil.mpr h.2.1, h.2.2⟩]
  · rw [if_neg h, if_neg (fun hx => h ⟨hx.1.1, hnil.mp hx.2.1, hx.2.2⟩)]

/-- An empty last array without padding after it. -/
theorem gap_eq_zero_and_length_iff {k : ℕ} {a z : Bytes} :
    (gap 8 (k + (a ++ z).length) = 0 ∧ z.length = 0) ↔ z = [] ∧ (k + a.length) % 8 = 0 := by
  rw [gap_eq_zero_iff (by omega), List.length_eq_zero_iff]
  constructor
  · rintro ⟨hmod, rfl⟩
    exact ⟨rfl, by simpa using hmod⟩
  · rintro ⟨rfl, hmod⟩
    exact ⟨by simpa using hmod, rfl⟩

/-! ## PropertyDescriptor -/

def Property.decoded (w : Property) (seq : Int32) : PropertyDescriptor :=
  { tag := 0
    numBytesFollowing := UInt64.ofNat w.body.length
    sequence := seq
    key := Utf8.cString w.key
    value := Utf8.cString w.value }

theorem Property.length_body (w : Property) :
    w.body.length = roundUp 8 (18 + w.key.length + w.value.length) := by
  rw [Property.body, WireDescriptor.length_padded]
  congr 1
  simp
  omega

theorem Property.ofStream_record (vm : Jvm) (w : Property)
    (h : (record 0 w.body).length ≤ intMax) (seq : Int32) :
    PropertyDescriptor.ofStream vm (.byteArrayInputStream (record 0 w.body)) seq =
      .ok (w.decoded seq) := by
  have hbody := w.length_body
  have hround := le_roundUp (p := 8) (by omega) (18 + w.key.length + w.value.length)
  rw [length_record] at h
  have hn : 18 + w.key.length + w.value.length ≤ intMax := by omega
  have hkey : w.key.length ≤ intMax := by omega
  have hvalue : w.value.length ≤ intMax := by omega
  obtain ⟨s', hinfo, hrest, -⟩ := unpackFormat_record 0
    [be 8 w.key.length, be 8 w.value.length] [w.key, [0], w.value, [0]].flatten
    (PropertyDescriptor.new_formatString vm) (by simp) (by decide) (by decide)
  have hparts : s'.rest = [w.key, [0], w.value].flatten ++
      ([0] ++ zeros (gap 8 ([be 8 w.key.length, be 8 w.value.length].flatten.length +
        [w.key, [0], w.value, [0]].flatten.length))) := by
    rw [hrest]
    simp
  have hpayload := unpackFormat_fields [w.key, [0], w.value] (new_sxs vm hkey hvalue) (by simp)
    (by simp [sampled_text, sampled_padding]) hparts (by simp)
  have hsize : roundToMultiple (32 - 16 + (UInt64.ofNat w.key.length).toUInt32 + 1 +
      (UInt64.ofNat w.value.length).toUInt32 + 1) 8 = UInt32.ofNat w.body.length := by
    have hsum : 32 - 16 + (UInt64.ofNat w.key.length).toUInt32 + 1 +
        (UInt64.ofNat w.value.length).toUInt32 + 1 =
          UInt32.ofNat (18 + w.key.length + w.value.length) := by
      simp only [UInt32.ofNat_add, UInt64.toUInt32_ofNat']
      have h18 : UInt32.ofNat 18 = 18 := rfl
      rw [h18]
      grind
    rw [hsum, roundToMultiple_eight hn, hbody]
  have hnbf : (UInt32.ofNat w.body.length).toUInt64 = UInt64.ofNat w.body.length := by
    rw [hbody, toUInt64_roundUp hn]
  have hbytes : (padded [be 8 w.key.length, be 8 w.value.length].flatten
      [w.key, [0], w.value, [0]].flatten).length = w.body.length := rfl
  unfold PropertyDescriptor.ofStream
  rw [Property.body, hinfo, ok_bind]
  simp only [List.zipWith_cons_cons, List.zipWith_nil_left, decodeItem_ulong, hbytes, hsize,
    hnbf]
  rw [if_neg (by simp)]
  simp only [UInt64.toUInt32_ofNat', toNat_uint32_ofNat hkey, toNat_uint32_ofNat hvalue,
    hpayload, ok_bind]
  rfl

/-! ## HashTreeDescriptor -/

def HashTree.decoded (w : HashTree) (seq : Int32) : HashTreeDescriptor :=
  { tag := 1
    numBytesFollowing := UInt64.ofNat w.body.length
    sequence := seq
    flags := w.flags
    dmVerityVersion := w.dmVerityVersion
    imageSize := w.imageSize
    treeOffset := w.treeOffset
    treeSize := w.treeSize
    dataBlockSize := w.dataBlockSize
    hashBlockSize := w.hashBlockSize
    fecNumRoots := w.fecNumRoots
    fecOffset := w.fecOffset
    fecSize := w.fecSize
    hashAlgorithm := Utf8.cString (extend 32 w.hashAlgorithm)
    partitionName := Utf8.cString w.partitionName
    salt := w.salt
    rootDigest := w.rootDigest }

/-- The record ends in an empty array, without padding after it. -/
def HashTree.EndsBare (w : HashTree) : Prop :=
  w.rootDigest = [] ∧ (164 + (w.partitionName ++ w.salt).length) % 8 = 0

instance (w : HashTree) : Decidable w.EndsBare := inferInstanceAs (Decidable (_ ∧ _))

theorem HashTree.length_fields (w : HashTree) : w.fields.length = 164 := by
  simp [HashTree.fields, length_extend w.algorithm_fits]

theorem HashTree.length_body (w : HashTree) :
    w.body.length =
      roundUp 8 (164 + w.partitionName.length + w.salt.length + w.rootDigest.length) := by
  rw [HashTree.body, WireDescriptor.length_padded, w.length_fields]
  congr 1
  simp
  omega

theorem HashTree.ofStream_record (vm : Jvm) (w : HashTree)
    (h : (record 1 w.body).length ≤ intMax) (seq : Int32) :
    HashTreeDescriptor.ofStream vm (.byteArrayInputStream (record 1 w.body)) seq =
      if vm.assertionsEnabled = true ∧ w.EndsBare then .error .assertion
      else .ok (w.decoded seq) := by
  have hbody := w.length_body
  have hround := le_roundUp (p := 8) (by omega)
    (164 + w.partitionName.length + w.salt.length + w.rootDigest.length)
  rw [length_record] at h
  have hn : 164 + w.partitionName.length + w.salt.length + w.rootDigest.length ≤ intMax := by
    omega
  have hname : w.partitionName.length ≤ intMax := by omega
  have hsalt : w.salt.length ≤ intMax := by omega
  have hdigest : w.rootDigest.length ≤ intMax := by omega
  obtain ⟨s', hinfo, hrest, hkind⟩ := unpackFormat_record 1
    [be 4 w.dmVerityVersion.toNat, be 8 w.imageSize.toNat, be 8 w.treeOffset.toNat,
      be 8 w.treeSize.toNat, be 4 w.dataBlockSize.toNat, be 4 w.hashBlockSize.toNat,
      be 4 w.fecNumRoots.toNat, be 8 w.fecOffset.toNat, be 8 w.fecSize.toNat,
      extend 32 w.hashAlgorithm, be 4 w.partitionName.length, be 4 w.salt.length,
      be 4 w.rootDigest.length, be 4 w.flags.toNat, zeros 60]
    [w.partitionName, w.salt, w.rootDigest].flatten
    (HashTreeDescriptor.new_formatString vm)
    (by simp [HashTreeDescriptor.formats, length_extend w.algorithm_fits]) (by decide)
    (by decide)
  have hpayload := unpackFormat_payload
    (new_sbb vm hname hsalt hdigest) (by simp) (by simp [sampled_text, sampled_bytes])
    hrest hkind
  have hsize : roundToMultiple (180 - 16 + UInt32.ofNat w.partitionName.length +
      UInt32.ofNat w.salt.length + UInt32.ofNat w.rootDigest.length) 8 =
        UInt32.ofNat w.body.length := by
    have hsum : 180 - 16 + UInt32.ofNat w.partitionName.length + UInt32.ofNat w.salt.length +
        UInt32.ofNat w.rootDigest.length = UInt32.ofNat
          (164 + w.partitionName.length + w.salt.length + w.rootDigest.length) := by
      simp only [UInt32.ofNat_add]
      rfl
    rw [hsum, roundToMultiple_eight hn, hbody]
  have hnbf : (UInt32.ofNat w.body.length).toUInt64 = UInt64.ofNat w.body.length := by
    rw [hbody, toUInt64_roundUp hn]
  have hbytes : (padded w.fields [w.partitionName, w.salt, w.rootDigest].flatten).length =
    w.body.length := rfl
  have hend : (vm.assertionsEnabled = true ∧
      gap 8 (w.fields.length + [w.partitionName, w.salt, w.rootDigest].flatten.length) = 0 ∧
      Struct3.EndsEmpty [.text w.partitionName.length, .bytes w.salt.length,
        .bytes w.rootDigest.length]) ↔ (vm.assertionsEnabled = true ∧ w.EndsBare) := by
    have hlast : Struct3.EndsEmpty [.text w.partitionName.length, .bytes w.salt.length,
        .bytes w.rootDigest.length] ↔ w.rootDigest.length = 0 := by simp [EndsEmpty]
    have hsplit : [w.partitionName, w.salt, w.rootDigest].flatten =
        w.partitionName ++ w.salt ++ w.rootDigest := by simp
    rw [hlast, hsplit, w.length_fields, gap_eq_zero_and_length_iff, EndsBare]
  rw [← HashTree.fields] at hinfo hpayload
  rw [← HashTree.body] at hinfo
  unfold HashTreeDescriptor.ofStream
  rw [hinfo, ok_bind]
  simp only [HashTreeDescriptor.formats, List.zipWith_cons_cons, List.zipWith_nil_left,
    decodeItem_ulong, decodeItem_uint, decodeItem_text, decodeItem_padding, hsize, hnbf]
  rw [if_neg (by simp)]
  simp only [toNat_uint32_ofNat hname, toNat_uint32_ofNat hsalt, toNat_uint32_ofNat hdigest,
    hpayload]
  by_cases hbare : vm.assertionsEnabled = true ∧ w.EndsBare
  · rw [if_pos hbare, if_pos (hend.mpr hbare), error_bind]
  · rw [if_neg hbare, if_neg (fun hx => hbare (hend.mp hx)), ok_bind]
    simp [HashTree.decoded]

/-! ## HashDescriptor -/

def Hash.decoded (w : Hash) (seq : Int32) : HashDescriptor :=
  { tag := 2
    numBytesFollowing := UInt64.ofNat w.body.length
    sequence := seq
    flags := w.flags
    partitionName := Utf8.cString w.partitionName
    hashAlgorithm := Utf8.cString (extend 32 w.hashAlgorithm)
    imageSize := w.imageSize
    salt := w.salt
    digest := w.digest
    partitionNameLen := UInt32.ofNat w.partitionName.length
    saltLen := UInt32.ofNat w.salt.length
    digestLen := UInt32.ofNat w.digest.length }

/-- The record ends in an empty array, without padding after it. -/
def Hash.EndsBare (w : Hash) : Prop :=
  w.digest = [] ∧ (116 + (w.partitionName ++ w.salt).length) % 8 = 0

instance (w : Hash) : Decidable w.EndsBare := inferInstanceAs (Decidable (_ ∧ _))

theorem Hash.length_fields (w : Hash) : w.fields.length = 116 := by
  simp [Hash.fields, length_extend w.algorithm_fits]

theorem Hash.length_body (w : Hash) :
    w.body.length =
      roundUp 8 (116 + w.partitionName.length + w.salt.length + w.digest.length) := by
  rw [Hash.body, WireDescriptor.length_padded, w.length_fields]
  congr 1
  simp
  omega

theorem Hash.ofStream_record (vm : Jvm) (w : Hash)
    (h : (record 2 w.body).length ≤ intMax) (seq : Int32) :
    HashDescriptor.ofStream vm (.byteArrayInputStream (record 2 w.body)) seq =
      if vm.assertionsEnabled = true ∧ w.EndsBare then .error .assertion
      else .ok (w.decoded seq) := by
  have hbody := w.length_body
  have hround := le_roundUp (p := 8) (by omega)
    (116 + w.partitionName.length + w.salt.length + w.digest.length)
  rw [length_record] at h
  have hn : 116 + w.partitionName.length + w.salt.length + w.digest.length ≤ intMax := by
    omega
  have hname : w.partitionName.length ≤ intMax := by omega
  have hsalt : w.salt.length ≤ intMax := by omega
  have hdigest : w.digest.length ≤ intMax := by omega
  obtain ⟨s', hinfo, hrest, hkind⟩ := unpackFormat_record 2
    [be 8 w.imageSize.toNat, extend 32 w.hashAlgorithm,
      be 4 w.partitionName.length, be 4 w.salt.length, be 4 w.digest.length,
      be 4 w.flags.toNat, zeros 60]
    [w.partitionName, w.salt, w.digest].flatten
    (HashDescriptor.new_formatString vm)
    (by simp [HashDescriptor.formats, length_extend w.algorithm_fits]) (by decide) (by decide)
  have hpayload := unpackFormat_payload
    (new_sbb vm hname hsalt hdigest) (by simp) (by simp [sampled_text, sampled_bytes])
    hrest hkind
  have hsize : (roundToMultipleLong (132 - 16 + (UInt32.ofNat w.partitionName.length +
      UInt32.ofNat w.salt.length + UInt32.ofNat w.digest.length).toUInt64.toInt64) 8).toUInt64 =
        UInt64.ofNat w.body.length := by
    have hlengths : (UInt32.ofNat w.partitionName.length + UInt32.ofNat w.salt.length +
        UInt32.ofNat w.digest.length).toUInt64.toInt64 =
          Int64.ofNat (w.partitionName.length + w.salt.length + w.digest.length) := by
      rw [← UInt32.ofNat_add, ← UInt32.ofNat_add, UInt32.toUInt64_ofNat' (by
        unfold intMax at hn
        simp only [UInt32.size]
        omega), UInt64.toInt64_ofNat']
    have hsum : 132 - 16 +
        Int64.ofNat (w.partitionName.length + w.salt.length + w.digest.length) = Int64.ofNat
          (116 + w.partitionName.length + w.salt.length + w.digest.length) := by
      have h116 : (132 : Int64) - 16 = Int64.ofNat 116 := rfl
      have hassoc : 116 + (w.partitionName.length + w.salt.length + w.digest.length) =
          116 + w.partitionName.length + w.salt.length + w.digest.length := by omega
      rw [h116, ← Int64.ofNat_add, hassoc]
    rw [hlengths, hsum, roundToMultipleLong_eight hn, Int64.toUInt64_ofNat', hbody]
  have hend : (vm.assertionsEnabled = true ∧
      gap 8 (w.fields.length + [w.partitionName, w.salt, w.digest].flatten.length) = 0 ∧
      Struct3.EndsEmpty [.text w.partitionName.length, .bytes w.salt.length,
        .bytes w.digest.length]) ↔ (vm.assertionsEnabled = true ∧ w.EndsBare) := by
    have hlast : Struct3.EndsEmpty [.text w.partitionName.length, .bytes w.salt.length,
        .bytes w.digest.length] ↔ w.digest.length = 0 := by simp [EndsEmpty]
    have hsplit : [w.partitionName, w.salt, w.digest].flatten =
        w.partitionName ++ w.salt ++ w.digest := by simp
    rw [hlast, hsplit, w.length_fields, gap_eq_zero_and_length_iff, EndsBare]
  rw [← Hash.fields] at hinfo hpayload
  rw [← Hash.body] at hinfo
  unfold HashDescriptor.ofStream
  rw [hinfo, ok_bind]
  simp only [HashDescriptor.formats, List.zipWith_cons_cons, List.zipWith_nil_left,
    decodeItem_ulong, decodeItem_uint, decodeItem_text, decodeItem_padding, hsize]
  rw [if_neg (by simp)]
  simp only [toNat_uint32_ofNat hname, toNat_uint32_ofNat hsalt, toNat_uint32_ofNat hdigest,
    hpayload]
  by_cases hbare : vm.assertionsEnabled = true ∧ w.EndsBare
  · rw [if_pos hbare, if_pos (hend.mpr hbare), error_bind]
  · rw [if_neg hbare, if_neg (fun hx => hbare (hend.mp hx)), ok_bind]
    simp [Hash.decoded, Jvm.assert_of_true]

/-! ## KernelCmdlineDescriptor -/

def KernelCmdline.decoded (w : KernelCmdline) (seq : Int32) : KernelCmdlineDescriptor :=
  { tag := 3
    numBytesFollowing := UInt64.ofNat w.body.length
    sequence := seq
    flags := w.flags
    cmdlineLength := UInt32.ofNat w.cmdline.length
    cmdline := Utf8.cString w.cmdline }

/-- The record ends in an empty text, without padding after it. -/
def KernelCmdline.EndsBare (w : KernelCmdline) : Prop := w.cmdline = []

instance (w : KernelCmdline) : Decidable w.EndsBare :=
  inferInstanceAs (Decidable (w.cmdline = []))

theorem KernelCmdline.length_body (w : KernelCmdline) :
    w.body.length = roundUp 8 (8 + w.cmdline.length) := by
  rw [KernelCmdline.body, WireDescriptor.length_padded]
  congr 1

theorem KernelCmdline.ofStream_record (vm : Jvm) (w : KernelCmdline)
    (h : (record 3 w.body).length ≤ intMax) (seq : Int32) :
    KernelCmdlineDescriptor.ofStream vm (.byteArrayInputStream (record 3 w.body)) seq =
      if vm.assertionsEnabled = true ∧ w.EndsBare then .error .assertion
      else .ok (w.decoded seq) := by
  have hbody := w.length_body
  have hround := le_roundUp (p := 8) (by omega) (8 + w.cmdline.length)
  rw [length_record] at h
  have hn : 8 + w.cmdline.length ≤ intMax := by omega
  have hcmdline : w.cmdline.length ≤ intMax := by omega
  obtain ⟨s', hinfo, hrest, hkind⟩ := unpackFormat_record 3
    [be 4 w.flags.toNat, be 4 w.cmdline.length] w.cmdline
    (KernelCmdlineDescriptor.new_formatString vm) (by simp) (by decide) (by decide)
  have hparts : s'.rest = [w.cmdline].flatten ++
      zeros (gap 8 ([be 4 w.flags.toNat, be 4 w.cmdline.length].flatten.length +
        w.cmdline.length)) := by
    rw [List.flatten_singleton]
    exact hrest
  have hpayload := unpackFormat_payload (new_s vm hcmdline) (by simp) (by simp [sampled_text])
    hparts hkind
  have hsize : roundToMultiple (24 - 16 + UInt32.ofNat w.cmdline.length) 8 =
      UInt32.ofNat w.body.length := by
    have hsum : 24 - 16 + UInt32.ofNat w.cmdline.length =
        UInt32.ofNat (8 + w.cmdline.length) := by
      rw [UInt32.ofNat_add]
      rfl
    rw [hsum, roundToMultiple_eight hn, hbody]
  have hnbf : (UInt32.ofNat w.body.length).toUInt64 = UInt64.ofNat w.body.length := by
    rw [hbody, toUInt64_roundUp hn]
  have hend : (vm.assertionsEnabled = true ∧
      gap 8 ([be 4 w.flags.toNat, be 4 w.cmdline.length].flatten.length +
        w.cmdline.length) = 0 ∧ Struct3.EndsEmpty [.text w.cmdline.length]) ↔
      (vm.assertionsEnabled = true ∧ w.EndsBare) := by
    have hlast : Struct3.EndsEmpty [.text w.cmdline.length] ↔ w.cmdline.length = 0 := by
      simp [EndsEmpty]
    have hbare := gap_eq_zero_and_length_iff (k := 8) (a := []) (z := w.cmdline)
    have hfields : [be 4 w.flags.toNat, be 4 w.cmdline.length].flatten.length = 8 := by simp
    rw [List.nil_append] at hbare
    rw [hlast, hfields, hbare, EndsBare]
    simp
  have hbytes : (padded [be 4 w.flags.toNat, be 4 w.cmdline.length].flatten
      w.cmdline).length = w.body.length := rfl
  rw [← KernelCmdline.body] at hinfo
  unfold KernelCmdlineDescriptor.ofStream
  rw [hinfo, ok_bind]
  simp only [List.zipWith_cons_cons, List.zipWith_nil_left, decodeItem_ulong, decodeItem_uint,
    hsize, hnbf]
  rw [if_neg (by simp)]
  simp only [toNat_uint32_ofNat hcmdline, hpayload]
  by_cases hbare : vm.assertionsEnabled = true ∧ w.EndsBare
  · rw [if_pos hbare, if_pos (hend.mpr hbare), error_bind]
  · rw [if_neg hbare, if_neg (fun hx => hbare (hend.mp hx)), ok_bind]
    simp [KernelCmdline.decoded]

/-! ## ChainPartitionDescriptor -/

def ChainPartition.decoded (crypto : Crypto) (w : ChainPartition) (seq : Int32) :
    ChainPartitionDescriptor :=
  { tag := 4
    numBytesFollowing := UInt64.ofNat w.body.length
    sequence := seq
    rollbackIndexLocation := w.rollbackIndexLocation
    partitionNameLen := UInt32.ofNat w.partitionName.length
    publicKeyLen := UInt32.ofNat w.pubkey.length
    partitionName := Utf8.cString w.partitionName
    pubkey := w.pubkey
    pubkeySha1 := toHexString (crypto.digest (units "SHA1") w.pubkey) }

/-- The record ends in an empty array, without padding after it. -/
def ChainPartition.EndsBare (w : ChainPartition) : Prop :=
  w.pubkey = [] ∧ (76 + w.partitionName.length) % 8 = 0

instance (w : ChainPartition) : Decidable w.EndsBare := inferInstanceAs (Decidable (_ ∧ _))

theorem ChainPartition.length_fields (w : ChainPartition) : w.fields.length = 76 := by
  simp [ChainPartition.fields]

theorem ChainPartition.length_body (w : ChainPartition) :
    w.body.length = roundUp 8 (76 + w.partitionName.length + w.pubkey.length) := by
  rw [ChainPartition.body, WireDescriptor.length_padded, w.length_fields]
  congr 1
  simp
  omega

/-- The constructor reads the reserved bytes as a string. -/
theorem ChainPartition.new_formatString (vm : Jvm) :
    Struct3.new vm (ChainPartitionDescriptor.formatString ++ units "64s") = .ok ⟨.bigEndian,
      [.one .ulong, .one .ulong, .one .uint, .one .uint, .one .uint, .text 64]⟩ := rfl

theorem ChainPartition.ofStream_record (vm : Jvm) (crypto : Crypto) (w : ChainPartition)
    (h : (record 4 w.body).length ≤ intMax) (seq : Int32) :
    ChainPartitionDescriptor.ofStream vm crypto (.byteArrayInputStream (record 4 w.body)) seq =
      if vm.assertionsEnabled = true ∧ w.EndsBare then .error .assertion
      else .ok (w.decoded crypto seq) := by
  have hbody := w.length_body
  have hround := le_roundUp (p := 8) (by omega) (76 + w.partitionName.length + w.pubkey.length)
  rw [length_record] at h
  have hn : 76 + w.partitionName.length + w.pubkey.length ≤ intMax := by omega
  have hname : w.partitionName.length ≤ intMax := by omega
  have hpubkey : w.pubkey.length ≤ intMax := by omega
  obtain ⟨s', hinfo, hrest, hkind⟩ := unpackFormat_record 4
    [be 4 w.rollbackIndexLocation.toNat, be 4 w.partitionName.length,
      be 4 w.pubkey.length, zeros 64]
    [w.partitionName, w.pubkey].flatten
    (ChainPartition.new_formatString vm) (by simp) (by decide) (by decide)
  have hpayload := unpackFormat_payload
    (new_sb vm hname hpubkey) (by simp) (by simp [sampled_text, sampled_bytes]) hrest hkind
  have hsize : roundToMultiple (92 - 16 + UInt32.ofNat w.partitionName.length +
      UInt32.ofNat w.pubkey.length) 8 = UInt32.ofNat w.body.length := by
    have hsum : 92 - 16 + UInt32.ofNat w.partitionName.length + UInt32.ofNat w.pubkey.length =
        UInt32.ofNat (76 + w.partitionName.length + w.pubkey.length) := by
      simp only [UInt32.ofNat_add]
      rfl
    rw [hsum, roundToMultiple_eight hn, hbody]
  have hnbf : (UInt32.ofNat w.body.length).toUInt64 = UInt64.ofNat w.body.length := by
    rw [hbody, toUInt64_roundUp hn]
  have hend : (vm.assertionsEnabled = true ∧
      gap 8 (w.fields.length + [w.partitionName, w.pubkey].flatten.length) = 0 ∧
      Struct3.EndsEmpty [.text w.partitionName.length, .bytes w.pubkey.length]) ↔
        (vm.assertionsEnabled = true ∧ w.EndsBare) := by
    have hlast : Struct3.EndsEmpty [.text w.partitionName.length, .bytes w.pubkey.length] ↔
        w.pubkey.length = 0 := by simp [EndsEmpty]
    have hsplit : [w.partitionName, w.pubkey].flatten = w.partitionName ++ w.pubkey := by simp
    rw [hlast, hsplit, w.length_fields, gap_eq_zero_and_length_iff, EndsBare]
  have hnew : Struct3.new vm ChainPartitionDescriptor.formatString =
      .ok ⟨.bigEndian, [.one .ulong, .one .ulong, .one .uint, .one .uint, .one .uint]⟩ := rfl
  rw [← ChainPartition.fields] at hinfo hpayload
  rw [← ChainPartition.body] at hinfo
  unfold ChainPartitionDescriptor.ofStream
  rw [hnew, ok_bind, if_neg (by decide), hinfo]
  simp only [List.zipWith_cons_cons, List.zipWith_nil_left, decodeItem_ulong, decodeItem_uint,
    decodeItem_text, ok_bind, hsize, hnbf]
  rw [if_neg (by simp)]
  simp only [toNat_uint32_ofNat hname, toNat_uint32_ofNat hpubkey, hpayload]
  by_cases hbare : vm.assertionsEnabled = true ∧ w.EndsBare
  · rw [if_pos hbare, if_pos (hend.mpr hbare), error_bind]
  · rw [if_neg hbare, if_neg (fun hx => hbare (hend.mp hx)), ok_bind]
    simp [ChainPartition.decoded]

end Wire

end Avb

end BootImageEditor
