import BootImageEditor.Avb.Descriptor

/-!
# What encoding a descriptor writes

`layout` is the byte string of a descriptor with exact sizes. A descriptor is
encoded whenever its layout fits an array and the name of its hash algorithm
fits its field, and then the layout is what is written: below the length limit
of arrays none of the integer types of the source overflows.
-/

namespace BootImageEditor

open Codec Fallible Struct3 Helper

namespace Avb

/-- A big-endian field of `w` bytes. -/
def be (w n : ℕ) : Bytes := ByteOrder.bigEndian.encode w n

@[simp] theorem length_be (w n : ℕ) : (be w n).length = w := ByteOrder.length_encode _ w n

/-! ## Header fields -/

/-- Packing by a format string whose formats are known. -/
theorem packFormat_eq_ok_iff {vm : Jvm} {fmt : KString} {order : ByteOrder}
    {fs : List Format} {args : List Value} {bs : Bytes}
    (hnew : Struct3.new vm fmt = .ok ⟨order, fs⟩) (hlen : args.length = fs.length)
    (hsize : formatsSize fs ≤ intMax) (hfill : AllFill fs args) :
    packFormat vm fmt args = .ok bs ↔ packItems vm order fs args = .ok bs := by
  rw [packFormat_eq hnew, pack_eq_ok_iff hfill]
  exact ⟨fun h => h.2.2, fun h => ⟨hlen, hsize, h⟩⟩

theorem length_of_packFormat {vm : Jvm} {fmt : KString} {order : ByteOrder}
    {fs : List Format} {args : List Value} {bs : Bytes}
    (hnew : Struct3.new vm fmt = .ok ⟨order, fs⟩) (hlen : args.length = fs.length)
    (hsize : formatsSize fs ≤ intMax) (hfill : AllFill fs args)
    (h : packFormat vm fmt args = .ok bs) : bs.length = formatsSize fs :=
  length_packItems ((packFormat_eq_ok_iff hnew hlen hsize hfill).mp h) hfill hlen

theorem packItems_cons {vm : Jvm} {order : ByteOrder} {f : Format} {fs : List Format}
    {arg : Value} {args : List Value} {b : Bytes} (h : packItem vm order f arg = .ok b) :
    packItems vm order (f :: fs) (arg :: args) = (do
      let rest ← packItems vm order fs args
      .ok (b ++ rest)) := by
  rw [packItems, h, ok_bind]

theorem toInt_int32_ofNat {n : ℕ} (h : n ≤ intMax) : (Int32.ofNat n).toInt = n :=
  Int32.toInt_ofNat_of_lt (by unfold intMax at h; omega)

theorem packItem_ulong (vm : Jvm) (n : UInt64) :
    packItem vm .bigEndian (.one .ulong) (.ulong n) = .ok (be 8 n.toNat) := rfl

theorem packItem_uint (vm : Jvm) (n : UInt32) :
    packItem vm .bigEndian (.one .uint) (.uint n) = .ok (be 4 n.toNat) := rfl

theorem packItem_padding (vm : Jvm) (n : ℕ) :
    packItem vm .bigEndian (.padding n) .null = .ok (zeros n) := rfl

theorem packItem_ulong_size (vm : Jvm) {α : Type*} {xs : List α} (h : xs.length ≤ intMax) :
    packItem vm .bigEndian (.one .ulong) (.int (int32Size xs)) = .ok (be 8 xs.length) := by
  have hint : (int32Size xs).toInt = xs.length := toInt_int32_ofNat h
  have hpack : packItem vm .bigEndian (.one .ulong) (.int (int32Size xs)) =
      packULong vm .bigEndian (.int (int32Size xs)) := rfl
  have h64 : (int32Size xs).toInt64 = Int64.ofNat xs.length := by
    apply Int64.toInt_inj.mp
    rw [Int32.toInt_toInt64, hint, Int64.toInt_ofNat_of_lt (by unfold intMax at h; omega)]
  rw [hpack, packULong, Jvm.assert_of_true vm (by simp [hint]), ok_bind, h64,
    Int64.toUInt64_ofNat', UInt64.toNat_ofNat_of_lt' (by
      unfold intMax at h
      simp only [UInt64.size]
      omega)]
  rfl

theorem packItem_uint_size (vm : Jvm) {α : Type*} {xs : List α} (h : xs.length ≤ intMax) :
    packItem vm .bigEndian (.one .uint) (.int (int32Size xs)) = .ok (be 4 xs.length) := by
  have hint : (int32Size xs).toInt = xs.length := toInt_int32_ofNat h
  have hpack : packItem vm .bigEndian (.one .uint) (.int (int32Size xs)) =
      packUInt vm .bigEndian (.int (int32Size xs)) := rfl
  rw [hpack, packUInt, Jvm.assert_of_true vm (by simp [hint]), ok_bind, int32Size,
    Int32.toUInt32_ofNat', UInt32.toNat_ofNat_of_lt' (by
      unfold intMax at h
      simp only [UInt32.size]
      omega)]
  rfl

theorem packItem_uint_size' (vm : Jvm) {α : Type*} {xs : List α} (h : xs.length ≤ intMax) :
    packItem vm .bigEndian (.one .uint) (.uint (uint32Size xs)) = .ok (be 4 xs.length) := by
  rw [packItem_uint, uint32Size, UInt32.toNat_ofNat_of_lt' (by
    unfold intMax at h
    simp only [UInt32.size]
    omega)]

theorem packItem_ulong_long (vm : Jvm) {n : ℕ} (h : n < 2 ^ 63) :
    packItem vm .bigEndian (.one .ulong) (.long (Int64.ofNat n)) = .ok (be 8 n) := by
  have hpack : packItem vm .bigEndian (.one .ulong) (.long (Int64.ofNat n)) =
      packULong vm .bigEndian (.long (Int64.ofNat n)) := rfl
  rw [hpack, packULong, Jvm.assert_of_true vm (by simp [Int64.toInt_ofNat_of_lt h]), ok_bind,
    Int64.toUInt64_ofNat', UInt64.toNat_ofNat_of_lt' (by simp only [UInt64.size]; omega)]
  rfl

/-- A string field takes the bytes of the text and zeros, if they fit. -/
theorem packItem_text (vm : Jvm) (n : ℕ) (s : KString) :
    packItem vm .bigEndian (.text n) (.string s) =
      if (Utf8.encode s).length ≤ n then .ok (extend n (Utf8.encode s))
      else .error (.illegalArgument
        s!"arg length [{(Utf8.encode s).length}] exceeds limit: {n}") := by
  have hpack : packItem vm .bigEndian (.text n) (.string s) =
      appendByteArray (Utf8.encode s) n := rfl
  rw [hpack, appendByteArray]
  split
  · next h => rw [if_neg (by omega)]
  · next h => rw [if_pos (by omega)]; rfl

theorem length_extend {n : ℕ} {bs : Bytes} (h : bs.length ≤ n) :
    (extend n bs).length = n := by
  simp [extend]
  omega

/-! ## Sizes -/

theorem roundToMultipleLong_eight {n : ℕ} (h : n ≤ intMax) :
    roundToMultipleLong (Int64.ofNat n) 8 = Int64.ofNat (roundUp 8 n) :=
  roundToMultipleLong_ofNat (p := 8) (by omega) (by unfold intMax at h; omega)
    (by unfold intMax; omega)

theorem roundUp_eight_lt {n : ℕ} (h : n ≤ intMax) : roundUp 8 n < 2 ^ 32 := by
  have := roundUp_lt (p := 8) (by omega) n
  unfold intMax at h
  omega

theorem toNat_uint64_ofNat {n : ℕ} (h : n < 2 ^ 32) : (UInt64.ofNat n).toNat = n :=
  UInt64.toNat_ofNat_of_lt' (by simp only [UInt64.size]; omega)

/-- Packing `n` rounded up to a multiple of eight less `n`, as a `ULong`. -/
theorem packX_gap (vm : Jvm) {n : ℕ} (h : n ≤ intMax) {arg : Value}
    (harg : arg = .null ∨ arg = .int 0) :
    packX vm (UInt64.ofNat (roundUp 8 n) - UInt64.ofNat n).toNat arg =
      .ok (zeros (gap 8 n)) := by
  have hle := le_roundUp (p := 8) (by omega) n
  have hlt := roundUp_eight_lt h
  have hgap : gap 8 n = roundUp 8 n - n := rfl
  rw [← UInt64.ofNat_sub hle, toNat_uint64_ofNat (by omega), ← hgap]
  refine packX_zero harg ?_
  have := roundUp_lt (p := 8) (by omega) n
  unfold intMax
  omega

/-- The same as a `Long`. -/
theorem packX_gap_long (vm : Jvm) {n : ℕ} (h : n ≤ intMax) :
    packX vm (Int64.ofNat (roundUp 8 n) - Int64.ofNat n).toInt .null =
      .ok (zeros (gap 8 n)) := by
  have hle := le_roundUp (p := 8) (by omega) n
  have hlt := roundUp_eight_lt h
  have hgap : gap 8 n = roundUp 8 n - n := rfl
  rw [← Int64.ofNat_sub _ _ hle, Int64.toInt_ofNat_of_lt (by omega), ← hgap]
  refine packX_zero (.inl rfl) ?_
  have := roundUp_lt (p := 8) (by omega) n
  unfold intMax
  omega

theorem toInt64_int32Size {α : Type*} {xs : List α} (h : xs.length ≤ intMax) :
    (int32Size xs).toInt64 = Int64.ofNat xs.length := by
  apply Int64.toInt_inj.mp
  rw [Int32.toInt_toInt64, int32Size, toInt_int32_ofNat h,
    Int64.toInt_ofNat_of_lt (by unfold intMax at h; omega)]

/-- A joined array bounds each of its parts. -/
theorem length_le_of_join {source : List Bytes} {bs : Bytes} (h : join source = .ok bs) :
    (source.map List.length).sum ≤ intMax := by
  have h' := (join_eq_ok_iff.mp h).1
  rwa [List.length_flatten] at h'

/-! ## Layouts -/

namespace PropertyDescriptor

def payloadLength (d : PropertyDescriptor) : ℕ := 18 + d.key.length + d.value.length

def header (d : PropertyDescriptor) : Bytes :=
  [be 8 0, be 8 (roundUp 8 d.payloadLength), be 8 d.key.length, be 8 d.value.length].flatten

def layout (d : PropertyDescriptor) : Bytes :=
  [d.header, Utf8.encode d.key, [0], Utf8.encode d.value, [0],
    zeros (gap 8 d.payloadLength)].flatten

theorem payloadSize_eq {d : PropertyDescriptor} (h : d.payloadLength ≤ intMax) :
    d.payloadSize = UInt64.ofNat d.payloadLength := by
  have h32 : 32 + uint32Size d.key + uint32Size d.value + 2 - 16 =
      UInt32.ofNat d.payloadLength := by
    have heq : UInt32.ofNat d.payloadLength = 18 + uint32Size d.key + uint32Size d.value := by
      simp only [payloadLength, UInt32.ofNat_add]
      rfl
    rw [heq]
    grind
  rw [payloadSize, h32]
  exact UInt32.toUInt64_ofNat' (by unfold intMax at h; simp only [UInt32.size]; omega)

theorem new_formatString (vm : Jvm) :
    Struct3.new vm formatString =
      .ok ⟨.bigEndian, [.one .ulong, .one .ulong, .one .ulong, .one .ulong]⟩ := rfl

theorem pack_header (vm : Jvm) {d : PropertyDescriptor} (h : d.payloadLength ≤ intMax) :
    packFormat vm formatString [.ulong 0, .ulong (UInt64.ofNat (roundUp 8 d.payloadLength)),
      .int (int32Size d.key), .int (int32Size d.value)] = .ok d.header := by
  have hkey : d.key.length ≤ intMax := by unfold payloadLength at h; omega
  have hvalue : d.value.length ≤ intMax := by unfold payloadLength at h; omega
  rw [packFormat_eq_ok_iff (new_formatString vm) rfl (by decide)
      (by simp [AllFill, Fills, Format.one]),
    packItems_cons (packItem_ulong vm _), packItems_cons (packItem_ulong vm _),
    packItems_cons (packItem_ulong_size vm hkey), packItems_cons (packItem_ulong_size vm hvalue),
    toNat_uint64_ofNat (roundUp_eight_lt h)]
  simp [packItems, header]

theorem encode_of_le (vm : Jvm) {d : PropertyDescriptor} (h : d.payloadLength ≤ intMax) :
    d.encode vm = join [d.header, Utf8.encode d.key, [0], Utf8.encode d.value, [0],
      zeros (gap 8 d.payloadLength)] := by
  unfold encode
  rw [new_formatString, ok_bind, if_neg (by decide), payloadSize_eq h]
  simp only [UInt64.toInt64_ofNat', roundToMultipleLong_eight h, Int64.toUInt64_ofNat',
    packX_gap vm h (.inr rfl), pack_header vm h, ok_bind]

theorem payloadLength_le_of_encode {vm : Jvm} {d : PropertyDescriptor} {bs : Bytes}
    (h : d.encode vm = .ok bs) : d.payloadLength ≤ intMax := by
  unfold encode at h
  rw [new_formatString, ok_bind, if_neg (by decide)] at h
  obtain ⟨padding, -, h⟩ := bind_eq_ok.mp h
  obtain ⟨desc, hdesc, h⟩ := bind_eq_ok.mp h
  have hlen := length_of_packFormat (new_formatString vm) rfl (by decide)
    (by simp [AllFill, Fills, Format.one]) hdesc
  have hsum := length_le_of_join h
  have hkey := Utf8.length_le_length_encode d.key
  have hvalue := Utf8.length_le_length_encode d.value
  have h32 : formatsSize [.one .ulong, .one .ulong, .one .ulong, .one .ulong] = 32 := rfl
  simp only [List.map_cons, List.map_nil, List.sum_cons, List.sum_nil, List.length_cons,
    List.length_nil] at hsum
  unfold payloadLength
  omega

theorem encode_eq_ok_iff {vm : Jvm} {d : PropertyDescriptor} {bs : Bytes} :
    d.encode vm = .ok bs ↔ d.layout.length ≤ intMax ∧ bs = d.layout := by
  constructor
  · intro h
    rw [encode_of_le vm (payloadLength_le_of_encode h)] at h
    exact join_eq_ok_iff.mp h
  · rintro ⟨hlen, rfl⟩
    have hkey := Utf8.length_le_length_encode d.key
    have hvalue := Utf8.length_le_length_encode d.value
    have hsmall : d.payloadLength ≤ intMax := by
      simp [layout, header] at hlen
      unfold payloadLength
      omega
    rw [encode_of_le vm hsmall]
    exact join_of_le hlen

end PropertyDescriptor

namespace HashTreeDescriptor

def payloadLength (d : HashTreeDescriptor) : ℕ :=
  164 + d.partitionName.length + d.salt.length + d.rootDigest.length

def header (d : HashTreeDescriptor) : Bytes :=
  [be 8 1, be 8 (roundUp 8 d.payloadLength), be 4 d.dmVerityVersion.toNat,
    be 8 d.imageSize.toNat, be 8 d.treeOffset.toNat, be 8 d.treeSize.toNat,
    be 4 d.dataBlockSize.toNat, be 4 d.hashBlockSize.toNat, be 4 d.fecNumRoots.toNat,
    be 8 d.fecOffset.toNat, be 8 d.fecSize.toNat, extend 32 (Utf8.encode d.hashAlgorithm),
    be 4 d.partitionName.length, be 4 d.salt.length, be 4 d.rootDigest.length,
    be 4 d.flags.toNat, zeros 60].flatten

def layout (d : HashTreeDescriptor) : Bytes :=
  [d.header, Utf8.encode d.partitionName, d.salt, d.rootDigest,
    zeros (gap 8 d.payloadLength)].flatten

theorem payloadSize_eq {d : HashTreeDescriptor} (h : d.payloadLength ≤ intMax) :
    d.payloadSize = UInt64.ofNat d.payloadLength := by
  unfold payloadLength at h
  rw [payloadSize, toInt64_int32Size (by omega), toInt64_int32Size (by omega),
    toInt64_int32Size (by omega), ← Int64.toUInt64_ofNat']
  congr 1
  simp only [payloadLength, Int64.ofNat_add]
  have h164 : Int64.ofNat 164 = 164 := rfl
  rw [h164]
  grind

def formats : List Format :=
  [.one .ulong, .one .ulong, .one .uint, .one .ulong, .one .ulong, .one .ulong, .one .uint,
    .one .uint, .one .uint, .one .ulong, .one .ulong, .text 32, .one .uint, .one .uint,
    .one .uint, .one .uint, .padding 60]

theorem new_formatString (vm : Jvm) :
    Struct3.new vm formatString = .ok ⟨.bigEndian, formats⟩ := rfl

theorem length_header {d : HashTreeDescriptor}
    (h : (Utf8.encode d.hashAlgorithm).length ≤ 32) : d.header.length = 180 := by
  simp [header, length_extend h]

theorem pack_header {vm : Jvm} {d : HashTreeDescriptor} (h : d.payloadLength ≤ intMax)
    {bs : Bytes} :
    packFormat vm formatString
      [.ulong 1, .ulong (UInt64.ofNat (roundUp 8 d.payloadLength)), .uint d.dmVerityVersion,
        .ulong d.imageSize, .ulong d.treeOffset, .ulong d.treeSize, .uint d.dataBlockSize,
        .uint d.hashBlockSize, .uint d.fecNumRoots, .ulong d.fecOffset, .ulong d.fecSize,
        .string d.hashAlgorithm, .int (int32Size d.partitionName), .int (int32Size d.salt),
        .int (int32Size d.rootDigest), .uint d.flags, .null] = .ok bs ↔
      (Utf8.encode d.hashAlgorithm).length ≤ 32 ∧ bs = d.header := by
  have hname : d.partitionName.length ≤ intMax := by unfold payloadLength at h; omega
  have hsalt : d.salt.length ≤ intMax := by unfold payloadLength at h; omega
  have hdigest : d.rootDigest.length ≤ intMax := by unfold payloadLength at h; omega
  rw [packFormat_eq_ok_iff (new_formatString vm) rfl (by decide)
    (by simp [AllFill, Fills, formats, Format.one, Format.text, Format.padding])]
  unfold formats
  by_cases halg : (Utf8.encode d.hashAlgorithm).length ≤ 32
  · have htext : packItem vm .bigEndian (.text 32) (.string d.hashAlgorithm) =
        .ok (extend 32 (Utf8.encode d.hashAlgorithm)) := by
      rw [packItem_text, if_pos halg]
    simp only [packItems, packItem_ulong, packItem_uint, htext, packItem_uint_size vm hname,
      packItem_uint_size vm hsalt, packItem_uint_size vm hdigest, packItem_padding, ok_bind,
      toNat_uint64_ofNat (roundUp_eight_lt h), Except.ok.injEq]
    rw [eq_comm]
    simp [header, halg]
  · have htext : packItem vm .bigEndian (.text 32) (.string d.hashAlgorithm) =
        .error (.illegalArgument
          s!"arg length [{(Utf8.encode d.hashAlgorithm).length}] exceeds limit: {32}") := by
      rw [packItem_text, if_neg halg]
    simp only [packItems, packItem_ulong, packItem_uint, htext, ok_bind, error_bind]
    simp [halg]

theorem encode_eq_ok_iff_of_le {vm : Jvm} {d : HashTreeDescriptor}
    (h : d.payloadLength ≤ intMax) {bs : Bytes} :
    d.encode vm = .ok bs ↔ (Utf8.encode d.hashAlgorithm).length ≤ 32 ∧
      join [d.header, Utf8.encode d.partitionName, d.salt, d.rootDigest,
        zeros (gap 8 d.payloadLength)] = .ok bs := by
  unfold encode
  rw [payloadSize_eq h]
  simp only [UInt64.toInt64_ofNat', roundToMultipleLong_eight h, Int64.toUInt64_ofNat',
    packX_gap_long vm h, ok_bind]
  constructor
  · intro hbs
    obtain ⟨desc, hdesc, hjoin⟩ := bind_eq_ok.mp hbs
    obtain ⟨halg, hheader⟩ := (pack_header h).mp hdesc
    rw [hheader] at hjoin
    exact ⟨halg, hjoin⟩
  · rintro ⟨halg, hjoin⟩
    exact bind_eq_ok.mpr ⟨d.header, (pack_header h).mpr ⟨halg, rfl⟩, hjoin⟩

theorem payloadLength_le_of_encode {vm : Jvm} {d : HashTreeDescriptor} {bs : Bytes}
    (h : d.encode vm = .ok bs) : d.payloadLength ≤ intMax := by
  obtain ⟨desc, hdesc, h⟩ := bind_eq_ok.mp h
  obtain ⟨padding, -, h⟩ := bind_eq_ok.mp h
  have hlen := length_of_packFormat (new_formatString vm) rfl (by decide)
    (by simp [AllFill, Fills, formats, Format.one, Format.text, Format.padding]) hdesc
  have hsum := length_le_of_join h
  have hname := Utf8.length_le_length_encode d.partitionName
  have hsize : formatsSize formats = 180 := rfl
  simp only [List.map_cons, List.map_nil, List.sum_cons, List.sum_nil] at hsum
  unfold payloadLength
  omega

theorem encode_eq_ok_iff {vm : Jvm} {d : HashTreeDescriptor} {bs : Bytes} :
    d.encode vm = .ok bs ↔ (Utf8.encode d.hashAlgorithm).length ≤ 32 ∧
      d.layout.length ≤ intMax ∧ bs = d.layout := by
  constructor
  · intro h
    obtain ⟨halg, hjoin⟩ := (encode_eq_ok_iff_of_le (payloadLength_le_of_encode h)).mp h
    exact ⟨halg, join_eq_ok_iff.mp hjoin⟩
  · rintro ⟨halg, hlen, hbs⟩
    have hname := Utf8.length_le_length_encode d.partitionName
    have hsmall : d.payloadLength ≤ intMax := by
      simp only [layout, List.length_flatten, List.map_cons, List.map_nil, List.sum_cons,
        List.sum_nil, length_header halg] at hlen
      unfold payloadLength
      omega
    rw [hbs]
    exact (encode_eq_ok_iff_of_le hsmall).mpr ⟨halg, join_of_le hlen⟩

end HashTreeDescriptor

namespace HashDescriptor

def payloadLength (d : HashDescriptor) : ℕ :=
  116 + d.partitionName.length + d.salt.length + d.digest.length

def header (d : HashDescriptor) : Bytes :=
  [be 8 2, be 8 (roundUp 8 d.payloadLength), be 8 d.imageSize.toNat,
    extend 32 (Utf8.encode d.hashAlgorithm), be 4 d.partitionName.length, be 4 d.salt.length,
    be 4 d.digest.length, be 4 d.flags.toNat, zeros 60].flatten

def layout (d : HashDescriptor) : Bytes :=
  [d.header, Utf8.encode d.partitionName, d.salt, d.digest,
    zeros (gap 8 d.payloadLength)].flatten

theorem length_header {d : HashDescriptor}
    (h : (Utf8.encode d.hashAlgorithm).length ≤ 32) : d.header.length = 132 := by
  simp [header, length_extend h]

/-- With the sixteen bytes that the size leaves out, the sum is still an `Int`. -/
theorem payloadBytesFollowing_eq {d : HashDescriptor} (h : d.payloadLength + 16 ≤ intMax) :
    d.payloadBytesFollowing = Int64.ofNat d.payloadLength := by
  have hsum : 132 + int32Size d.partitionName + int32Size d.salt + int32Size d.digest =
      Int32.ofNat (d.payloadLength + 16) := by
    simp only [payloadLength, Int32.ofNat_add, int32Size]
    have h116 : Int32.ofNat 116 = 116 := rfl
    have h16 : Int32.ofNat 16 = 16 := rfl
    rw [h116, h16]
    grind
  have h64 : (Int32.ofNat (d.payloadLength + 16)).toInt64 =
      Int64.ofNat (d.payloadLength + 16) := by
    apply Int64.toInt_inj.mp
    rw [Int32.toInt_toInt64, toInt_int32_ofNat h,
      Int64.toInt_ofNat_of_lt (by unfold intMax at h; omega)]
  rw [payloadBytesFollowing, hsum, h64, Int64.ofNat_add]
  have h16 : Int64.ofNat 16 = 16 := rfl
  rw [h16]
  grind

theorem nextNumBytesFollowing_eq {d : HashDescriptor} (h : d.payloadLength + 16 ≤ intMax) :
    d.nextNumBytesFollowing = UInt64.ofNat (roundUp 8 d.payloadLength) := by
  rw [nextNumBytesFollowing, payloadBytesFollowing_eq h, roundToMultipleLong_eight (by omega),
    Int64.toUInt64_ofNat']

def formats : List Format :=
  [.one .ulong, .one .ulong, .one .ulong, .text 32, .one .uint, .one .uint, .one .uint,
    .one .uint, .padding 60]

theorem new_formatString (vm : Jvm) :
    Struct3.new vm formatString = .ok ⟨.bigEndian, formats⟩ := rfl

theorem pack_header {vm : Jvm} {d : HashDescriptor} (h : d.payloadLength ≤ intMax)
    {bs : Bytes} :
    packFormat vm formatString
      [.ulong 2, .ulong (UInt64.ofNat (roundUp 8 d.payloadLength)), .ulong d.imageSize,
        .string d.hashAlgorithm, .int (int32Size d.partitionName), .int (int32Size d.salt),
        .int (int32Size d.digest), .uint d.flags, .null] = .ok bs ↔
      (Utf8.encode d.hashAlgorithm).length ≤ 32 ∧ bs = d.header := by
  have hname : d.partitionName.length ≤ intMax := by unfold payloadLength at h; omega
  have hsalt : d.salt.length ≤ intMax := by unfold payloadLength at h; omega
  have hdigest : d.digest.length ≤ intMax := by unfold payloadLength at h; omega
  rw [packFormat_eq_ok_iff (new_formatString vm) rfl (by decide)
    (by simp [AllFill, Fills, formats, Format.one, Format.text, Format.padding])]
  unfold formats
  by_cases halg : (Utf8.encode d.hashAlgorithm).length ≤ 32
  · have htext : packItem vm .bigEndian (.text 32) (.string d.hashAlgorithm) =
        .ok (extend 32 (Utf8.encode d.hashAlgorithm)) := by
      rw [packItem_text, if_pos halg]
    simp only [packItems, packItem_ulong, packItem_uint, htext, packItem_uint_size vm hname,
      packItem_uint_size vm hsalt, packItem_uint_size vm hdigest, packItem_padding, ok_bind,
      toNat_uint64_ofNat (roundUp_eight_lt h), Except.ok.injEq]
    rw [eq_comm]
    simp [header, halg]
  · have htext : packItem vm .bigEndian (.text 32) (.string d.hashAlgorithm) =
        .error (.illegalArgument
          s!"arg length [{(Utf8.encode d.hashAlgorithm).length}] exceeds limit: {32}") := by
      rw [packItem_text, if_neg halg]
    simp only [packItems, packItem_ulong, htext, ok_bind, error_bind]
    simp [halg]

theorem encode_eq_ok_iff_of_le {vm : Jvm} {d : HashDescriptor}
    (h : d.payloadLength + 16 ≤ intMax) {bs : Bytes} :
    d.encode vm = .ok bs ↔ (Utf8.encode d.hashAlgorithm).length ≤ 32 ∧
      join [d.header, Utf8.encode d.partitionName, d.salt, d.digest,
        zeros (gap 8 d.payloadLength)] = .ok bs := by
  have h' : d.payloadLength ≤ intMax := by omega
  have hcut : (UInt64.ofNat d.payloadLength).toUInt32.toUInt64 =
      UInt64.ofNat d.payloadLength := by
    rw [UInt64.toUInt32_ofNat']
    exact UInt32.toUInt64_ofNat' (by unfold intMax at h'; simp only [UInt32.size]; omega)
  unfold encode
  rw [nextNumBytesFollowing_eq h, payloadBytesFollowing_eq h]
  simp only [Int64.toUInt64_ofNat', hcut, packX_gap vm h' (.inl rfl), ok_bind]
  constructor
  · intro hbs
    obtain ⟨desc, hdesc, hjoin⟩ := bind_eq_ok.mp hbs
    obtain ⟨halg, hheader⟩ := (pack_header h').mp hdesc
    rw [hheader] at hjoin
    exact ⟨halg, hjoin⟩
  · rintro ⟨halg, hjoin⟩
    exact bind_eq_ok.mpr ⟨d.header, (pack_header h').mpr ⟨halg, rfl⟩, hjoin⟩

theorem payloadLength_le_of_encode {vm : Jvm} {d : HashDescriptor} {bs : Bytes}
    (h : d.encode vm = .ok bs) : d.payloadLength + 16 ≤ intMax := by
  obtain ⟨desc, hdesc, h⟩ := bind_eq_ok.mp h
  obtain ⟨padding, -, h⟩ := bind_eq_ok.mp h
  have hlen := length_of_packFormat (new_formatString vm) rfl (by decide)
    (by simp [AllFill, Fills, formats, Format.one, Format.text, Format.padding]) hdesc
  have hsum := length_le_of_join h
  have hname := Utf8.length_le_length_encode d.partitionName
  have hsize : formatsSize formats = 132 := rfl
  simp only [List.map_cons, List.map_nil, List.sum_cons, List.sum_nil] at hsum
  unfold payloadLength
  omega

theorem encode_eq_ok_iff {vm : Jvm} {d : HashDescriptor} {bs : Bytes} :
    d.encode vm = .ok bs ↔ (Utf8.encode d.hashAlgorithm).length ≤ 32 ∧
      d.layout.length ≤ intMax ∧ bs = d.layout := by
  constructor
  · intro h
    obtain ⟨halg, hjoin⟩ := (encode_eq_ok_iff_of_le (payloadLength_le_of_encode h)).mp h
    exact ⟨halg, join_eq_ok_iff.mp hjoin⟩
  · rintro ⟨halg, hlen, hbs⟩
    have hname := Utf8.length_le_length_encode d.partitionName
    have hsmall : d.payloadLength + 16 ≤ intMax := by
      simp only [layout, List.length_flatten, List.map_cons, List.map_nil, List.sum_cons,
        List.sum_nil, length_header halg] at hlen
      unfold payloadLength
      omega
    rw [hbs]
    exact (encode_eq_ok_iff_of_le hsmall).mpr ⟨halg, join_of_le hlen⟩

end HashDescriptor

namespace KernelCmdlineDescriptor

def payloadLength (d : KernelCmdlineDescriptor) : ℕ := 8 + (Utf8.encode d.cmdline).length

def header (d : KernelCmdlineDescriptor) : Bytes :=
  [be 8 3, be 8 (roundUp 8 d.payloadLength), be 4 d.flags.toNat, be 4 d.cmdline.length].flatten

def layout (d : KernelCmdlineDescriptor) : Bytes :=
  [d.header, Utf8.encode d.cmdline, zeros (gap 8 d.payloadLength)].flatten

theorem length_header (d : KernelCmdlineDescriptor) : d.header.length = 24 := by
  simp [header]

theorem payloadSize_eq {d : KernelCmdlineDescriptor} (h : d.payloadLength ≤ intMax) :
    d.payloadSize.toInt64 = Int64.ofNat d.payloadLength := by
  have hsum : d.payloadSize = Int32.ofNat d.payloadLength := by
    simp only [payloadSize, payloadLength, Int32.ofNat_add, int32Size]
    rfl
  apply Int64.toInt_inj.mp
  rw [hsum, Int32.toInt_toInt64, toInt_int32_ofNat h,
    Int64.toInt_ofNat_of_lt (by unfold intMax at h; omega)]

theorem new_formatString (vm : Jvm) :
    Struct3.new vm formatString =
      .ok ⟨.bigEndian, [.one .ulong, .one .ulong, .one .uint, .one .uint]⟩ := rfl

theorem pack_header (vm : Jvm) {d : KernelCmdlineDescriptor} (h : d.payloadLength ≤ intMax) :
    packFormat vm formatString [.ulong 3, .long (Int64.ofNat (roundUp 8 d.payloadLength)),
      .uint d.flags, .int (int32Size d.cmdline)] = .ok d.header := by
  have hround := roundUp_eight_lt h
  have hcmdline : d.cmdline.length ≤ intMax := by
    have hle := Utf8.length_le_length_encode d.cmdline
    unfold payloadLength at h
    omega
  rw [packFormat_eq_ok_iff (new_formatString vm) rfl (by decide)
    (by simp [AllFill, Fills, Format.one])]
  simp only [packItems, packItem_ulong, packItem_uint, packItem_uint_size vm hcmdline, ok_bind,
    packItem_ulong_long vm (n := roundUp 8 d.payloadLength) (by omega)]
  simp [header]

theorem encode_of_le (vm : Jvm) {d : KernelCmdlineDescriptor} (h : d.payloadLength ≤ intMax) :
    d.encode vm = join [d.header, Utf8.encode d.cmdline, zeros (gap 8 d.payloadLength)] := by
  unfold encode
  rw [payloadSize_eq h]
  simp only [roundToMultipleLong_eight h, packX_gap_long vm h, pack_header vm h, ok_bind]

theorem payloadLength_le_of_encode {vm : Jvm} {d : KernelCmdlineDescriptor} {bs : Bytes}
    (h : d.encode vm = .ok bs) : d.payloadLength ≤ intMax := by
  obtain ⟨desc, hdesc, h⟩ := bind_eq_ok.mp h
  obtain ⟨padding, -, h⟩ := bind_eq_ok.mp h
  have hlen := length_of_packFormat (new_formatString vm) rfl (by decide)
    (by simp [AllFill, Fills, Format.one]) hdesc
  have hsum := length_le_of_join h
  have hsize : formatsSize [.one .ulong, .one .ulong, .one .uint, .one .uint] = 24 := rfl
  simp only [List.map_cons, List.map_nil, List.sum_cons, List.sum_nil] at hsum
  unfold payloadLength
  omega

theorem encode_eq_ok_iff {vm : Jvm} {d : KernelCmdlineDescriptor} {bs : Bytes} :
    d.encode vm = .ok bs ↔ d.layout.length ≤ intMax ∧ bs = d.layout := by
  constructor
  · intro h
    rw [encode_of_le vm (payloadLength_le_of_encode h)] at h
    exact join_eq_ok_iff.mp h
  · rintro ⟨hlen, hbs⟩
    have hsmall : d.payloadLength ≤ intMax := by
      simp only [layout, List.length_flatten, List.map_cons, List.map_nil, List.sum_cons,
        List.sum_nil, length_header] at hlen
      unfold payloadLength
      omega
    rw [hbs, encode_of_le vm hsmall]
    exact join_of_le hlen

end KernelCmdlineDescriptor

namespace ChainPartitionDescriptor

def payloadLength (d : ChainPartitionDescriptor) : ℕ :=
  76 + d.partitionName.length + d.pubkey.length

def header (d : ChainPartitionDescriptor) : Bytes :=
  [be 8 4, be 8 (roundUp 8 d.payloadLength), be 4 d.rollbackIndexLocation.toNat,
    be 4 d.partitionName.length, be 4 d.pubkey.length, zeros 64].flatten

def layout (d : ChainPartitionDescriptor) : Bytes :=
  [d.header, Utf8.encode d.partitionName, d.pubkey, zeros (gap 8 d.payloadLength)].flatten

theorem length_header (d : ChainPartitionDescriptor) : d.header.length = 92 := by
  simp [header]

theorem payloadSize_eq {d : ChainPartitionDescriptor} (h : d.payloadLength ≤ intMax) :
    d.payloadSize = UInt64.ofNat d.payloadLength := by
  have h32 : 92 + uint32Size d.partitionName + uint32Size d.pubkey - 16 =
      UInt32.ofNat d.payloadLength := by
    have heq : UInt32.ofNat d.payloadLength =
        76 + uint32Size d.partitionName + uint32Size d.pubkey := by
      simp only [payloadLength, UInt32.ofNat_add]
      rfl
    rw [heq]
    grind
  rw [payloadSize, h32]
  exact UInt32.toUInt64_ofNat' (by unfold intMax at h; simp only [UInt32.size]; omega)

def formats : List Format :=
  [.one .ulong, .one .ulong, .one .uint, .one .uint, .one .uint, .padding 64]

theorem new_formatString (vm : Jvm) :
    Struct3.new vm (formatString ++ units "64x") = .ok ⟨.bigEndian, formats⟩ := rfl

theorem pack_header (vm : Jvm) {d : ChainPartitionDescriptor} (h : d.payloadLength ≤ intMax) :
    packFormat vm (formatString ++ units "64x")
      [.ulong 4, .ulong (UInt64.ofNat (roundUp 8 d.payloadLength)),
        .uint d.rollbackIndexLocation, .uint (uint32Size d.partitionName),
        .uint (uint32Size d.pubkey), .null] = .ok d.header := by
  have hname : d.partitionName.length ≤ intMax := by unfold payloadLength at h; omega
  have hpubkey : d.pubkey.length ≤ intMax := by unfold payloadLength at h; omega
  rw [packFormat_eq_ok_iff (new_formatString vm) rfl (by decide)
    (by simp [AllFill, Fills, formats, Format.one, Format.padding])]
  unfold formats
  simp only [packItems, packItem_ulong, packItem_uint_size' vm hname,
    packItem_uint_size' vm hpubkey, packItem_uint vm d.rollbackIndexLocation, packItem_padding,
    ok_bind, toNat_uint64_ofNat (roundUp_eight_lt h)]
  simp [header]

theorem encode_of_le (vm : Jvm) {d : ChainPartitionDescriptor} (h : d.payloadLength ≤ intMax) :
    d.encode vm = join [d.header, Utf8.encode d.partitionName, d.pubkey,
      zeros (gap 8 d.payloadLength)] := by
  unfold encode
  rw [payloadSize_eq h]
  simp only [UInt64.toInt64_ofNat', roundToMultipleLong_eight h, Int64.toUInt64_ofNat',
    packX_gap vm h (.inl rfl), pack_header vm h, ok_bind]

theorem payloadLength_le_of_encode {vm : Jvm} {d : ChainPartitionDescriptor} {bs : Bytes}
    (h : d.encode vm = .ok bs) : d.payloadLength ≤ intMax := by
  obtain ⟨desc, hdesc, h⟩ := bind_eq_ok.mp h
  obtain ⟨padding, -, h⟩ := bind_eq_ok.mp h
  have hlen := length_of_packFormat (new_formatString vm) rfl (by decide)
    (by simp [AllFill, Fills, formats, Format.one, Format.padding]) hdesc
  have hsum := length_le_of_join h
  have hname := Utf8.length_le_length_encode d.partitionName
  have hsize : formatsSize formats = 92 := rfl
  simp only [List.map_cons, List.map_nil, List.sum_cons, List.sum_nil] at hsum
  unfold payloadLength
  omega

theorem encode_eq_ok_iff {vm : Jvm} {d : ChainPartitionDescriptor} {bs : Bytes} :
    d.encode vm = .ok bs ↔ d.layout.length ≤ intMax ∧ bs = d.layout := by
  constructor
  · intro h
    rw [encode_of_le vm (payloadLength_le_of_encode h)] at h
    exact join_eq_ok_iff.mp h
  · rintro ⟨hlen, hbs⟩
    have hname := Utf8.length_le_length_encode d.partitionName
    have hsmall : d.payloadLength ≤ intMax := by
      simp only [layout, List.length_flatten, List.map_cons, List.map_nil, List.sum_cons,
        List.sum_nil, length_header] at hlen
      unfold payloadLength
      omega
    rw [hbs, encode_of_le vm hsmall]
    exact join_of_le hlen

end ChainPartitionDescriptor

namespace UnknownDescriptor

def layout (d : UnknownDescriptor) : Bytes :=
  [[be 8 d.tag.toNat, be 8 d.data.length].flatten, d.data].flatten

theorem new_formatString (vm : Jvm) :
    Struct3.new vm formatString = .ok ⟨.bigEndian, [.one .ulong, .one .ulong]⟩ := rfl

theorem encode_of_le (vm : Jvm) {d : UnknownDescriptor} (h : d.data.length ≤ intMax) :
    d.encode vm = join [[be 8 d.tag.toNat, be 8 d.data.length].flatten, d.data] := by
  have hpack : packFormat vm formatString
      [.ulong d.tag, .long (int32Size d.data).toInt64] =
        .ok [be 8 d.tag.toNat, be 8 d.data.length].flatten := by
    rw [packFormat_eq_ok_iff (new_formatString vm) rfl (by decide)
      (by simp [AllFill, Fills, Format.one]), toInt64_int32Size h]
    simp only [packItems, packItem_ulong, ok_bind,
      packItem_ulong_long vm (n := d.data.length) (by unfold intMax at h; omega)]
    simp
  unfold encode
  rw [hpack, ok_bind]

theorem encode_eq_ok_iff {vm : Jvm} {d : UnknownDescriptor} {bs : Bytes} :
    d.encode vm = .ok bs ↔ d.layout.length ≤ intMax ∧ bs = d.layout := by
  constructor
  · intro h
    have hsmall : d.data.length ≤ intMax := by
      obtain ⟨header, -, h⟩ := bind_eq_ok.mp h
      have hsum := length_le_of_join h
      simp only [List.map_cons, List.map_nil, List.sum_cons, List.sum_nil] at hsum
      omega
    rw [encode_of_le vm hsmall] at h
    exact join_eq_ok_iff.mp h
  · rintro ⟨hlen, hbs⟩
    have hsmall : d.data.length ≤ intMax := by
      simp only [layout, List.length_flatten, List.map_cons, List.map_nil, List.sum_cons,
        List.sum_nil] at hlen
      omega
    rw [hbs, encode_of_le vm hsmall]
    exact join_of_le hlen

end UnknownDescriptor

namespace AnyDescriptor

def layout : AnyDescriptor → Bytes
  | property d => d.layout
  | hashTree d => d.layout
  | hash d => d.layout
  | kernelCmdline d => d.layout
  | chainPartition d => d.layout
  | unknown d => d.layout

/-- The name of the hash algorithm, where there is one, fits its field. -/
def AlgorithmFits : AnyDescriptor → Prop
  | hashTree d => (Utf8.encode d.hashAlgorithm).length ≤ 32
  | hash d => (Utf8.encode d.hashAlgorithm).length ≤ 32
  | _ => True

instance (d : AnyDescriptor) : Decidable d.AlgorithmFits :=
  match d with
  | hashTree d => inferInstanceAs (Decidable ((Utf8.encode d.hashAlgorithm).length ≤ 32))
  | hash d => inferInstanceAs (Decidable ((Utf8.encode d.hashAlgorithm).length ≤ 32))
  | property _ => isTrue trivial
  | kernelCmdline _ => isTrue trivial
  | chainPartition _ => isTrue trivial
  | unknown _ => isTrue trivial

theorem encode_eq_ok_iff {vm : Jvm} {d : AnyDescriptor} {bs : Bytes} :
    d.encode vm = .ok bs ↔ d.AlgorithmFits ∧ d.layout.length ≤ intMax ∧ bs = d.layout := by
  cases d with
  | property d => exact PropertyDescriptor.encode_eq_ok_iff.trans (and_iff_right trivial).symm
  | hashTree d => exact HashTreeDescriptor.encode_eq_ok_iff
  | hash d => exact HashDescriptor.encode_eq_ok_iff
  | kernelCmdline d =>
      exact KernelCmdlineDescriptor.encode_eq_ok_iff.trans (and_iff_right trivial).symm
  | chainPartition d =>
      exact ChainPartitionDescriptor.encode_eq_ok_iff.trans (and_iff_right trivial).symm
  | unknown d => exact UnknownDescriptor.encode_eq_ok_iff.trans (and_iff_right trivial).symm

end AnyDescriptor

end Avb

end BootImageEditor
