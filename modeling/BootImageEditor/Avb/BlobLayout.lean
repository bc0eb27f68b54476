import BootImageEditor.Library.Segments
import BootImageEditor.Avb.DescriptorSection

/-!
# What encoding the blobs writes

The header and the footer are records of fixed fields. The auxiliary block holds the
descriptors, the public key and the key metadata one after the other, filled up with
zeros to a multiple of 64; the authentication block holds hash and signature in the
same way.
-/

namespace BootImageEditor

open Codec Fallible Struct3 Helper

namespace Avb

theorem decodeItem_one_uint (order : ByteOrder) (bs : Bytes) :
    decodeItem order (.one .uint) bs = .uint (toUInt order bs) := rfl

theorem decodeItem_one_ulong (order : ByteOrder) (bs : Bytes) :
    decodeItem order (.one .ulong) bs = .ulong (toULong order bs) := rfl

/-! ## Footer -/

namespace Footer

def magicBytes : Bytes := [0x41, 0x56, 0x42, 0x66]

def fields (f : Footer) : List Bytes :=
  [magicBytes, be 4 f.versionMajor.toNat, be 4 f.versionMinor.toNat,
    be 8 f.originalImageSize.toNat, be 8 f.vbMetaOffset.toNat, be 8 f.vbMetaSize.toNat,
    zeros 28]

def layout (f : Footer) : Bytes := f.fields.flatten

@[simp] theorem length_layout (f : Footer) : f.layout.length = 64 := by
  simp [layout, fields, magicBytes]

def formats : List Format :=
  [.text 4, .one .uint, .one .uint, .one .ulong, .one .ulong, .one .ulong, .padding 28]

theorem new_formatString (vm : Jvm) :
    Struct3.new vm formatString = .ok ⟨.bigEndian, formats⟩ := rfl

theorem packItem_magic (vm : Jvm) :
    packItem vm .bigEndian (.text 4) (.string magic) = .ok magicBytes := rfl

theorem encode_eq (vm : Jvm) (f : Footer) : f.encode vm = .ok f.layout := by
  unfold encode
  rw [packFormat_eq_ok_iff (new_formatString vm) rfl (by decide)
    (by simp [AllFill, Fills, formats, Format.one, Format.text, Format.padding])]
  unfold formats
  simp only [packItems, packItem_magic, packItem_uint, packItem_ulong, packItem_padding, ok_bind]
  simp [layout, fields]

/-- The footer that 64 bytes stand for. -/
def decoded (bs : Bytes) : Footer :=
  { versionMajor := toUInt .bigEndian (slice 4 4 bs)
    versionMinor := toUInt .bigEndian (slice 8 4 bs)
    originalImageSize := toULong .bigEndian (slice 12 8 bs)
    vbMetaOffset := toULong .bigEndian (slice 20 8 bs)
    vbMetaSize := toULong .bigEndian (slice 28 8 bs) }

theorem cString_eq_magic_iff {bs : Bytes} (h : bs.length = 4) :
    Utf8.cString bs = magic ↔ bs = magicBytes :=
  Utf8.cString_eq_iff (by decide +kernel) h

/-- `Footer(iS)` looks at the magic and takes the other fields as they are. -/
theorem ofStream_eq (vm : Jvm) {s : InputStream} {bs r : Bytes} (hrest : s.rest = bs ++ r)
    (hlen : bs.length = 64) :
    ofStream vm s = if bs.take 4 = magicBytes then .ok (decoded bs)
      else .error (.illegalArgument "stream doesn't look like valid AVB Footer") := by
  have hinfo : unpackFormat vm formatString s =
      .ok (decodeItems .bigEndian formats bs, s.advance 64) := by
    rw [unpackFormat_eq (new_formatString vm),
      @unpack_eq vm ⟨.bigEndian, formats⟩ s bs r hrest hlen (by decide),
      if_neg (fun h => absurd h.2.2 (by decide))]
    rfl
  have hmagic : Utf8.cString (bs.take 4) = magic ↔ bs.take 4 = magicBytes :=
    cString_eq_magic_iff (by simp [hlen])
  unfold ofStream
  rw [hinfo, ok_bind]
  simp only [decodeItems, formats]
  rw [Jvm.assert_of_true _ (by simp), ok_bind]
  simp only [List.drop_drop, size_text, size_one_uint, size_one_ulong, decodeItem_text,
    decodeItem_one_uint, decodeItem_one_ulong]
  by_cases h : bs.take 4 = magicBytes
  · rw [if_pos h, if_neg (by rw [hmagic.mpr h]; simp)]
    rfl
  · rw [if_neg h, if_pos (fun h' => h (hmagic.mp h'))]
    rfl

/-- A field of a record that ends with it. -/
theorem slice_of_flatten (fields : List Bytes) (i : ℕ) {offset : ℕ} {field : Bytes}
    (h : fields[i]? = some field) (hoffset : ((fields.take i).map List.length).sum = offset) :
    slice offset field.length fields.flatten = field := by
  have hslice := slice_flatten h []
  rwa [hoffset, List.append_nil] at hslice

theorem decoded_layout (f : Footer) : decoded f.layout = f := by
  have hmajor : slice 4 4 f.layout = be 4 f.versionMajor.toNat :=
    slice_of_flatten f.fields 1 rfl rfl
  have hminor : slice 8 4 f.layout = be 4 f.versionMinor.toNat :=
    slice_of_flatten f.fields 2 rfl rfl
  have hsize : slice 12 8 f.layout = be 8 f.originalImageSize.toNat :=
    slice_of_flatten f.fields 3 rfl rfl
  have hoffset : slice 20 8 f.layout = be 8 f.vbMetaOffset.toNat :=
    slice_of_flatten f.fields 4 rfl rfl
  have hvbmeta : slice 28 8 f.layout = be 8 f.vbMetaSize.toNat :=
    slice_of_flatten f.fields 5 rfl rfl
  rw [decoded, hmajor, hminor, hsize, hoffset, hvbmeta]
  simp only [be, toUInt_encode, toULong_encode]

theorem ofStream_layout (vm : Jvm) {s : InputStream} {f : Footer} {r : Bytes}
    (hrest : s.rest = f.layout ++ r) : ofStream vm s = .ok f := by
  have hmagic : f.layout.take 4 = magicBytes := by
    rw [layout, fields, List.flatten_cons]
    exact List.take_left' rfl
  rw [ofStream_eq vm hrest f.length_layout, if_pos hmagic, decoded_layout]

end Footer

/-! ## Header -/

namespace Header

def magicBytes : Bytes := [0x41, 0x56, 0x42, 0x30]

def fields (h : Header) : List Bytes :=
  [magicBytes, be 4 h.requiredLibavbVersionMajor.toNat, be 4 h.requiredLibavbVersionMinor.toNat,
    be 8 h.authenticationDataBlockSize.toNat, be 8 h.auxiliaryDataBlockSize.toNat,
    be 4 h.algorithmType.toNat, be 8 h.hashOffset.toNat, be 8 h.hashSize.toNat,
    be 8 h.signatureOffset.toNat, be 8 h.signatureSize.toNat, be 8 h.publicKeyOffset.toNat,
    be 8 h.publicKeySize.toNat, be 8 h.publicKeyMetadataOffset.toNat,
    be 8 h.publicKeyMetadataSize.toNat, be 8 h.descriptorsOffset.toNat,
    be 8 h.descriptorsSize.toNat, be 8 h.rollbackIndex.toNat, be 4 h.flags.toNat, zeros 4,
    extend 47 (Utf8.encode h.releaseString), [0], zeros 80]

def layout (h : Header) : Bytes := h.fields.flatten

def formats : List Format :=
  [.text 4, .one .uint, .one .uint, .one .ulong, .one .ulong, .one .uint, .one .ulong,
    .one .ulong, .one .ulong, .one .ulong, .one .ulong, .one .ulong, .one .ulong, .one .ulong,
    .one .ulong, .one .ulong, .one .ulong, .one .uint, .padding 4, .text 47, .padding 1,
    .padding 80]

theorem length_layout {h : Header} (hrelease : (Utf8.encode h.releaseString).length ≤ 47) :
    h.layout.length = 256 := by
  simp [layout, fields, magicBytes, length_extend hrelease]

theorem new_formatString (vm : Jvm) :
    Struct3.new vm formatString = .ok ⟨.bigEndian, formats⟩ := rfl

theorem packItem_magic (vm : Jvm) :
    packItem vm .bigEndian (.text 4) (.string magic) = .ok magicBytes := rfl

/-- The header is encoded when the release string leaves room for its terminator. -/
theorem encode_eq_ok_iff {vm : Jvm} {h : Header} {bs : Bytes} :
    h.encode vm = .ok bs ↔ (Utf8.encode h.releaseString).length ≤ 47 ∧ bs = h.layout := by
  unfold encode
  rw [packFormat_eq_ok_iff (new_formatString vm) rfl (by decide)
    (by simp [AllFill, Fills, formats, Format.one, Format.text, Format.padding])]
  unfold formats
  by_cases hrelease : (Utf8.encode h.releaseString).length ≤ 47
  · have htext : packItem vm .bigEndian (.text 47) (.string h.releaseString) =
        .ok (extend 47 (Utf8.encode h.releaseString)) := by
      rw [packItem_text, if_pos hrelease]
    simp only [packItems, packItem_magic, packItem_ulong, packItem_uint, htext,
      packItem_padding, ok_bind, Except.ok.injEq]
    rw [eq_comm]
    simp [layout, fields, hrelease, zeros]
  · have htext : packItem vm .bigEndian (.text 47) (.string h.releaseString) =
        .error (.illegalArgument
          s!"arg length [{(Utf8.encode h.releaseString).length}] exceeds limit: {47}") := by
      rw [packItem_text, if_neg hrelease]
    simp only [packItems, packItem_magic, packItem_ulong, packItem_uint, packItem_padding, htext,
      ok_bind, error_bind]
    simp [hrelease]

/-- Reading a header back; the release string is a text that fits its field. -/
theorem ofStream_layout (vm : Jvm) {s : InputStream} {h : Header} {r : Bytes}
    (hascii : Utf8.Ascii h.releaseString) (hlen : h.releaseString.length ≤ 47)
    (hrest : s.rest = h.layout ++ r) : ofStream vm s = .ok h := by
  have henc : (Utf8.encode h.releaseString).length ≤ 47 := by
    rw [Utf8.length_encode_ascii hascii]
    exact hlen
  have hzero : (0 : UInt16) ∉ h.releaseString := by
    intro hmem
    exact absurd (hascii 0 hmem).1 (by decide)
  have hrelease : Utf8.cString (extend 47 (Utf8.encode h.releaseString)) = h.releaseString :=
    Utf8.cString_encode_zeros (Utf8.wellFormed_ascii hascii) hzero _
  have hmagic : Utf8.cString magicBytes = magic := rfl
  have hinfo := unpackFormat_fields h.fields
    (new_formatString vm)
    (by simp [formats, fields, magicBytes, length_extend henc]) (by decide) hrest
    (fun h => absurd h.2.2 (by decide))
  unfold ofStream
  rw [hinfo, ok_bind]
  simp only [formats, fields, List.zipWith_cons_cons, List.zipWith_nil_left, decodeItem_ulong,
    decodeItem_uint, decodeItem_text, UInt64.ofNat_toNat, UInt32.ofNat_toNat, hrelease, hmagic]
  rw [Jvm.assert_of_true _ (by simp), ok_bind]
  simp

end Header

/-! ## Keys and signatures -/

/-- Key encoding, digest and signature return arrays of the lengths the algorithm
declares. -/
structure Crypto.Conforms (crypto : Crypto) (alg : Algorithm) : Prop where
  key : 0 < alg.publicKeyNumBytes → ∃ algKey encodedKey,
    crypto.readAllBytes alg.defaultKey = .ok algKey ∧
      crypto.encodeRSAkey algKey = .ok encodedKey ∧ encodedKey.length = alg.publicKeyNumBytes
  digest : ∀ hasher, pyAlg2java alg.hashName = .ok hasher →
    ∀ data, (crypto.digest hasher data).length = alg.hashNumBytes
  sign : 0 < alg.signatureNumBytes → ∀ data, ∃ signature,
    crypto.rawSign (AuthBlob.signingKey alg) data = .ok signature ∧
      signature.length = alg.signatureNumBytes

namespace AuxBlob

theorem encodePubKey_of_conforms (vm : Jvm) {crypto : Crypto} {alg : Algorithm}
    (h : crypto.Conforms alg) :
    ∃ key, encodePubKey vm crypto alg = .ok key ∧ key.length = alg.publicKeyNumBytes := by
  unfold encodePubKey
  by_cases hpos : 0 < alg.publicKeyNumBytes
  · obtain ⟨algKey, encodedKey, hread, henc, hlen⟩ := h.key hpos
    refine ⟨encodedKey, ?_, hlen⟩
    rw [if_pos hpos, hread, ok_bind, henc, ok_bind, Jvm.assert_of_true vm (by simp [hlen])]
    rfl
  · exact ⟨[], by rw [if_neg hpos], by simp; omega⟩

/-! ## Auxiliary block -/

/-- The content of the block before it is filled up. -/
def content (desc key pkmd : Bytes) : Bytes := [desc, key, pkmd].flatten

theorem length_content (desc key pkmd : Bytes) :
    (content desc key pkmd).length = desc.length + key.length + pkmd.length := by
  simp [content]
  omega

theorem auxSize_eq {a b c : Bytes} (h : a.length + b.length + c.length ≤ intMax) :
    roundToMultipleLong (int32Size a + int32Size b + int32Size c).toInt64 64 =
      Int64.ofNat (roundUp 64 (a.length + b.length + c.length)) := by
  have hsum : int32Size a + int32Size b + int32Size c =
      Int32.ofNat (a.length + b.length + c.length) := by
    simp only [int32Size, Int32.ofNat_add]
  have hlong : (Int32.ofNat (a.length + b.length + c.length)).toInt64 =
      Int64.ofNat (a.length + b.length + c.length) := by
    apply Int64.toInt_inj.mp
    rw [Int32.toInt_toInt64, toInt_int32_ofNat h,
      Int64.toInt_ofNat_of_lt (by unfold intMax at h; omega)]
  unfold intMax at h
  rw [hsum, hlong]
  exact roundToMultipleLong_ofNat (p := 64) (by omega) (by omega) (by unfold intMax; omega)

theorem pack_bytes {vm : Jvm} {n : ℕ} {data : Bytes} (hn : n ≤ intMax) (hdata : data.length ≤ n) :
    Struct3.pack vm ⟨.littleEndian, [Format.bytes n]⟩ [.byteArray data] = .ok (extend n data) := by
  have hitem : packItem vm .littleEndian (Format.bytes n) (.byteArray data) =
      appendByteArray data n := rfl
  rw [pack_eq_ok_iff (by simp [AllFill, Fills, Format.bytes])]
  refine ⟨rfl, by simpa [formatsSize] using hn, ?_⟩
  rw [packItems, hitem, appendByteArray, if_neg (by omega)]
  simp [packItems, extend, zeros, appendPadding]

/-- `encode(alg)` writes descriptors, key and metadata, filled up to a multiple of 64, when
the result fits an array. -/
theorem encode_eq_ok_iff {vm : Jvm} {crypto : Crypto} {alg : Algorithm} {aux : AuxBlob}
    {bs : Bytes} :
    aux.encode vm crypto alg = .ok bs ↔ ∃ desc key, aux.encodeDescriptors vm = .ok desc ∧
      encodePubKey vm crypto alg = .ok key ∧
      roundUp 64 (desc.length + key.length + aux.pkmd.length) ≤ intMax ∧
      bs = extend (roundUp 64 (desc.length + key.length + aux.pkmd.length))
        (content desc key aux.pkmd) := by
  constructor
  · intro h
    obtain ⟨desc, hdesc, h⟩ := bind_eq_ok.mp h
    obtain ⟨key, hkey, h⟩ := bind_eq_ok.mp h
    obtain ⟨st, hst, h⟩ := bind_eq_ok.mp h
    obtain ⟨joined, hjoin, h⟩ := bind_eq_ok.mp h
    obtain ⟨hlen, hjoined⟩ := join_eq_ok_iff.mp hjoin
    rw [← content, length_content] at hlen
    have hround := le_roundUp (p := 64) (by omega) (desc.length + key.length + aux.pkmd.length)
    have hlt := roundUp_lt (p := 64) (by omega) (desc.length + key.length + aux.pkmd.length)
    rw [auxSize_eq hlen, Int64.toInt_ofNat_of_lt (by unfold intMax at hlen; omega),
      new_template_b, Int.natAbs_natCast] at hst
    split at hst
    · next hfit =>
        cases hst
        rw [pack_bytes hfit (by rw [hjoined, ← content, length_content]; exact hround)] at h
        cases h
        exact ⟨desc, key, hdesc, hkey, hfit, by rw [hjoined, content]⟩
    · cases hst
  · rintro ⟨desc, key, hdesc, hkey, hfit, hbs⟩
    have hround := le_roundUp (p := 64) (by omega) (desc.length + key.length + aux.pkmd.length)
    have hlen : desc.length + key.length + aux.pkmd.length ≤ intMax := hround.trans hfit
    have hcontent := length_content desc key aux.pkmd
    have hst : Struct3.new vm (template (Int64.ofNat (roundUp 64
        (desc.length + key.length + aux.pkmd.length))).toInt ++ units "b") =
        .ok ⟨.littleEndian, [Format.bytes (roundUp 64
          (desc.length + key.length + aux.pkmd.length))]⟩ := by
      rw [Int64.toInt_ofNat_of_lt (by unfold intMax at hfit; omega), new_template_b,
        Int.natAbs_natCast, if_pos hfit]
    unfold encode
    rw [hdesc, ok_bind, hkey, ok_bind, auxSize_eq hlen]
    simp only [hst, ok_bind]
    rw [join_of_le (by rw [← content, hcontent]; exact hlen), ok_bind, ← content,
      pack_bytes hfit (by rw [hcontent]; exact hround), hbs]

theorem length_extend_content (desc key pkmd : Bytes) :
    (extend (roundUp 64 (desc.length + key.length + pkmd.length))
      (content desc key pkmd)).length = roundUp 64 (desc.length + key.length + pkmd.length) :=
  length_extend (by rw [length_content]; exact le_roundUp (by omega) _)

end AuxBlob

/-! ## Authentication block -/

namespace AuthBlob

/-- Hash and signature, filled up to a multiple of 64. -/
def block (hash signature : Bytes) : Bytes :=
  [hash, signature, zeros (gap 64 (hash.length + signature.length))].flatten

theorem length_block (hash signature : Bytes) :
    (block hash signature).length = roundUp 64 (hash.length + signature.length) := by
  have h := add_gap (p := 64) (by omega) (hash.length + signature.length)
  simp only [block, List.length_flatten, List.map_cons, List.map_nil, List.sum_cons,
    List.sum_nil, length_zeros]
  omega

theorem slices_block (hash signature : Bytes) :
    slice 0 hash.length (block hash signature) = hash ∧
    slice hash.length signature.length (block hash signature) = signature := by
  rw [block]
  simp only [List.flatten_cons]
  exact ⟨slice_zero _ _ rfl, slice_middle _ _ _ rfl rfl⟩

theorem authBlockSize_eq {alg : Algorithm} (h : alg.hashNumBytes + alg.signatureNumBytes < 4096) :
    roundToMultipleLong
        (Int32.ofNat alg.hashNumBytes + Int32.ofNat alg.signatureNumBytes).toInt64 64 =
      Int64.ofNat (roundUp 64 (alg.hashNumBytes + alg.signatureNumBytes)) := by
  have hlong : (Int32.ofNat (alg.hashNumBytes + alg.signatureNumBytes)).toInt64 =
      Int64.ofNat (alg.hashNumBytes + alg.signatureNumBytes) := by
    apply Int64.toInt_inj.mp
    rw [Int32.toInt_toInt64, toInt_int32_ofNat (by unfold intMax; omega),
      Int64.toInt_ofNat_of_lt (by omega)]
  rw [← Int32.ofNat_add, hlong]
  exact roundToMultipleLong_ofNat (p := 64) (by omega) (by omega) (by unfold intMax; omega)

/-- Nothing is written for an algorithm without hash and signature. -/
theorem createBlob_none (vm : Jvm) (crypto : Crypto) (header aux : Bytes) :
    createBlob vm crypto header aux (units "NONE") = .ok [] := rfl

/-- Hash and signature of a signing algorithm. -/
theorem createBlob_of_conforms (vm : Jvm) {crypto : Crypto} {alg : Algorithm}
    (hmem : alg ∈ Algorithms.algMap) (hsigned : alg ≠ Algorithms.none)
    (hcrypto : crypto.Conforms alg) (header aux : Bytes) :
    ∃ hasher signature, pyAlg2java alg.hashName = .ok hasher ∧
      crypto.rawSign (signingKey alg)
        (alg.padding ++ crypto.digest hasher (header ++ aux)) = .ok signature ∧
      (crypto.digest hasher (header ++ aux)).length = alg.hashNumBytes ∧
      signature.length = alg.signatureNumBytes ∧
      createBlob vm crypto header aux alg.name =
        .ok (block (crypto.digest hasher (header ++ aux)) signature) := by
  obtain ⟨hshape, hsmall, -⟩ := Algorithms.shape_of_mem alg hmem
  obtain ⟨hname, hhash, hsig, -, hdigest⟩ := hshape.resolve_left hsigned
  have hpadding := Algorithms.length_padding_of_mem alg hmem
  obtain ⟨hasher, hhasher⟩ : ∃ hasher, pyAlg2java alg.hashName = .ok hasher := by
    rcases hdigest with ⟨h, -⟩ | ⟨h, -⟩
    · exact ⟨units "sha-256", by rw [h]; rfl⟩
    · exact ⟨units "sha-512", by rw [h]; rfl⟩
  have hlen := hcrypto.digest hasher hhasher (header ++ aux)
  obtain ⟨signature, hsign, hsigLen⟩ := hcrypto.sign hsig
    (alg.padding ++ crypto.digest hasher (header ++ aux))
  refine ⟨hasher, signature, hhasher, hsign, hlen, hsigLen, ?_⟩
  obtain ⟨binaryHash, hbinary⟩ : ∃ b, crypto.digest hasher (header ++ aux) = b := ⟨_, rfl⟩
  rw [hbinary] at hlen hsign ⊢
  have hround := roundUp_lt (p := 64) (by omega) (alg.hashNumBytes + alg.signatureNumBytes)
  have hle := le_roundUp (p := 64) (by omega) (alg.hashNumBytes + alg.signatureNumBytes)
  have hnonzero : ¬ Int64.ofNat (roundUp 64 (alg.hashNumBytes + alg.signatureNumBytes)) = 0 := by
    rw [← Int64.toInt_inj, Int64.toInt_ofNat_of_lt (by omega), Int64.toInt_zero]
    omega
  have htoSign : join [alg.padding, binaryHash] = .ok (alg.padding ++ binaryHash) := by
    rw [join_of_le (by simp [intMax]; omega)]
    simp
  have hauth : join [binaryHash, signature] = .ok (binaryHash ++ signature) := by
    rw [join_of_le (by simp [intMax]; omega)]
    simp
  have hsize : (int32Size (binaryHash ++ signature)).toInt64 =
      Int64.ofNat (alg.hashNumBytes + alg.signatureNumBytes) := by
    rw [toInt64_int32Size (by rw [List.length_append]; unfold intMax; omega), List.length_append,
      hlen, hsigLen]
  have hpad : packX vm (Int64.ofNat (roundUp 64 (alg.hashNumBytes + alg.signatureNumBytes)) -
      Int64.ofNat (alg.hashNumBytes + alg.signatureNumBytes)).toInt (.int 0) =
        .ok (zeros (gap 64 (alg.hashNumBytes + alg.signatureNumBytes))) := by
    have hgap : gap 64 (alg.hashNumBytes + alg.signatureNumBytes) =
      roundUp 64 (alg.hashNumBytes + alg.signatureNumBytes) -
        (alg.hashNumBytes + alg.signatureNumBytes) := rfl
    rw [← Int64.ofNat_sub _ _ hle, Int64.toInt_ofNat_of_lt (by omega), ← hgap]
    exact packX_zero (.inr rfl) (by unfold intMax; omega)
  have hblock : join [binaryHash ++ signature,
      zeros (gap 64 (alg.hashNumBytes + alg.signatureNumBytes))] =
        .ok (block binaryHash signature) := by
    rw [join_of_le (by simp [intMax]; unfold gap; omega), block, hlen, hsigLen]
    simp
  unfold createBlob
  rw [Algorithms.getByName_name alg hmem]
  simp only [authBlockSize_eq hsmall]
  rw [if_neg hnonzero, if_pos hname]
  simp only [hhasher, hbinary, htoSign, hsign, hauth, hsize, hpad, ok_bind]
  exact hblock

/-- The authentication block: nothing, or hash and signature of header and auxiliary
block. -/
theorem createBlob_cases (vm : Jvm) {crypto : Crypto} {alg : Algorithm}
    (hmem : alg ∈ Algorithms.algMap) (hcrypto : crypto.Conforms alg) (header aux : Bytes) :
    ∃ auth, createBlob vm crypto header aux alg.name = .ok auth ∧
      ((alg = Algorithms.none ∧ auth = []) ∨
      (alg ≠ Algorithms.none ∧ ∃ hasher signature, pyAlg2java alg.hashName = .ok hasher ∧
        crypto.rawSign (signingKey alg)
          (alg.padding ++ crypto.digest hasher (header ++ aux)) = .ok signature ∧
        (crypto.digest hasher (header ++ aux)).length = alg.hashNumBytes ∧
        signature.length = alg.signatureNumBytes ∧
        auth = block (crypto.digest hasher (header ++ aux)) signature)) := by
  by_cases halg : alg = Algorithms.none
  · refine ⟨[], ?_, Or.inl ⟨halg, rfl⟩⟩
    have hname : alg.name = units "NONE" := by rw [halg]; rfl
    rw [hname, createBlob_none]
  · obtain ⟨hasher, signature, hhasher, hsign, hlen, hsigLen, hcreate⟩ :=
      createBlob_of_conforms vm hmem halg hcrypto header aux
    exact ⟨_, hcreate, Or.inr ⟨halg, hasher, signature, hhasher, hsign, hlen, hsigLen, rfl⟩⟩

theorem length_of_createBlob {vm : Jvm} {crypto : Crypto} {alg : Algorithm}
    (hmem : alg ∈ Algorithms.algMap) (hcrypto : crypto.Conforms alg) {header aux auth : Bytes}
    (h : createBlob vm crypto header aux alg.name = .ok auth) :
    auth.length = roundUp 64 (alg.hashNumBytes + alg.signatureNumBytes) := by
  obtain ⟨auth', hcreate, hcases⟩ := createBlob_cases vm hmem hcrypto header aux
  rw [Except.ok.inj (h.symm.trans hcreate)]
  rcases hcases with ⟨halg, hauth⟩ | ⟨-, hasher, signature, -, -, hlen, hsigLen, hauth⟩
  · rw [hauth, halg]
    rfl
  · rw [hauth, length_block, hlen, hsigLen]

end AuthBlob

end Avb

end BootImageEditor
