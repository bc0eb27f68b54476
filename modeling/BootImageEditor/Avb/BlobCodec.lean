import BootImageEditor.Struct3.Repack
import BootImageEditor.Avb.BlobLayout

/-!
# The codecs of header and footer

A header or footer is read back as it was written, and a block that is accepted is written back
as it was read, if it has zeros where the decoder does not look. The decoder takes the fields by
their place in a list; `cutAt` is that cut of a block.
-/

namespace BootImageEditor

open Codec Fallible Struct3 Helper

namespace Struct3

/-- The bytes of each format, from an offset on. -/
def cutAt : ℕ → List Format → Bytes → List Bytes
  | _, [], _ => []
  | offset, f :: fs, bs => slice offset f.size bs :: cutAt (offset + f.size) fs bs

theorem flatten_cutAt (offset : ℕ) (fs : List Format) {bs : Bytes}
    (h : bs.length = offset + formatsSize fs) : (cutAt offset fs bs).flatten = bs.drop offset := by
  induction fs generalizing offset with
  | nil =>
      rw [cutAt, List.flatten_nil, List.drop_of_length_le (by simp [h])]
  | cons f fs ih =>
      rw [formatsSize_cons] at h
      rw [cutAt, List.flatten_cons, ih _ (by omega), slice, ← List.drop_drop,
        List.take_append_drop]

theorem forall₂_cutAt (offset : ℕ) (fs : List Format) {bs : Bytes}
    (h : offset + formatsSize fs ≤ bs.length) :
    List.Forall₂ (fun f b => b.length = f.size) fs (cutAt offset fs bs) := by
  induction fs generalizing offset with
  | nil => exact .nil
  | cons f fs ih =>
      rw [formatsSize_cons] at h
      exact .cons (length_slice (by omega)) (ih _ (by omega))

end Struct3

namespace Avb

theorem be_toUInt_slice {offset : ℕ} {bs : Bytes} (h : offset + 4 ≤ bs.length) :
    be 4 (toUInt .bigEndian (slice offset 4 bs)).toNat = slice offset 4 bs :=
  encode_toUInt .bigEndian (length_slice h)

theorem be_toULong_slice {offset : ℕ} {bs : Bytes} (h : offset + 8 ≤ bs.length) :
    be 8 (toULong .bigEndian (slice offset 8 bs)).toNat = slice offset 8 bs :=
  encode_toULong .bigEndian (length_slice h)

/-! ## Footer -/

namespace Footer

/-- An accepted block with zeros in its padding is the layout of what it stands for. -/
theorem layout_decoded {bs : Bytes} (hlen : bs.length = 64) (hmagic : bs.take 4 = magicBytes)
    (hpadding : slice 36 28 bs = zeros 28) : (decoded bs).layout = bs := by
  have hfields : (decoded bs).fields = cutAt 0 formats bs := by
    have hcut : cutAt 0 formats bs = [slice 0 4 bs, slice 4 4 bs, slice 8 4 bs, slice 12 8 bs,
        slice 20 8 bs, slice 28 8 bs, slice 36 28 bs] := rfl
    have hfirst : slice 0 4 bs = magicBytes := hmagic
    rw [hcut, hfirst, hpadding]
    simp (disch := omega) only [fields, decoded, be_toUInt_slice, be_toULong_slice]
  rw [layout, hfields, flatten_cutAt 0 formats (by rw [hlen]; rfl), List.drop_zero]

end Footer

/-! ## Header -/

namespace Header

/-- The header that 256 bytes stand for. -/
def decoded (bs : Bytes) : Header :=
  { requiredLibavbVersionMajor := toUInt .bigEndian (slice 4 4 bs)
    requiredLibavbVersionMinor := toUInt .bigEndian (slice 8 4 bs)
    authenticationDataBlockSize := toULong .bigEndian (slice 12 8 bs)
    auxiliaryDataBlockSize := toULong .bigEndian (slice 20 8 bs)
    algorithmType := toUInt .bigEndian (slice 28 4 bs)
    hashOffset := toULong .bigEndian (slice 32 8 bs)
    hashSize := toULong .bigEndian (slice 40 8 bs)
    signatureOffset := toULong .bigEndian (slice 48 8 bs)
    signatureSize := toULong .bigEndian (slice 56 8 bs)
    publicKeyOffset := toULong .bigEndian (slice 64 8 bs)
    publicKeySize := toULong .bigEndian (slice 72 8 bs)
    publicKeyMetadataOffset := toULong .bigEndian (slice 80 8 bs)
    publicKeyMetadataSize := toULong .bigEndian (slice 88 8 bs)
    descriptorsOffset := toULong .bigEndian (slice 96 8 bs)
    descriptorsSize := toULong .bigEndian (slice 104 8 bs)
    rollbackIndex := toULong .bigEndian (slice 112 8 bs)
    flags := toUInt .bigEndian (slice 120 4 bs)
    releaseString := Utf8.cString (slice 128 47 bs) }

theorem cutAt_formats (bs : Bytes) : cutAt 0 formats bs =
    [slice 0 4 bs, slice 4 4 bs, slice 8 4 bs, slice 12 8 bs, slice 20 8 bs, slice 28 4 bs,
      slice 32 8 bs, slice 40 8 bs, slice 48 8 bs, slice 56 8 bs, slice 64 8 bs, slice 72 8 bs,
      slice 80 8 bs, slice 88 8 bs, slice 96 8 bs, slice 104 8 bs, slice 112 8 bs, slice 120 4 bs,
      slice 124 4 bs, slice 128 47 bs, slice 175 1 bs, slice 176 80 bs] := rfl

theorem cString_eq_magic_iff {bs : Bytes} (h : bs.length = 4) :
    Utf8.cString bs = magic ↔ bs = magicBytes :=
  Utf8.cString_eq_iff (by decide +kernel) h

/-- `Header(iS)` looks at the magic and takes the other fields as they are. -/
theorem ofStream_eq (vm : Jvm) {s : InputStream} {bs r : Bytes} (hrest : s.rest = bs ++ r)
    (hlen : bs.length = 256) :
    ofStream vm s = if bs.take 4 = magicBytes then .ok (decoded bs)
      else .error (.illegalArgument "stream doesn't look like valid VBMeta Header") := by
  have hflat : (cutAt 0 formats bs).flatten = bs := by
    rw [flatten_cutAt 0 formats (by rw [hlen]; rfl), List.drop_zero]
  have hinfo := @unpackFormat_fields vm formatString .bigEndian formats (cutAt 0 formats bs) s r
    (new_formatString vm) (forall₂_cutAt 0 formats (by rw [hlen]; decide)) (by decide)
    (by rw [hflat]; exact hrest) (fun h => absurd h.2.2 (by decide))
  have hmagic : Utf8.cString (slice 0 4 bs) = magic ↔ bs.take 4 = magicBytes :=
    cString_eq_magic_iff (length_slice (by omega))
  unfold ofStream
  rw [hinfo, ok_bind, cutAt_formats]
  simp only [formats, List.zipWith_cons_cons, List.zipWith_nil_left, decodeItem_one_uint,
    decodeItem_one_ulong, decodeItem_text]
  rw [Jvm.assert_of_true _ (by simp), ok_bind]
  by_cases h : bs.take 4 = magicBytes
  · rw [if_pos h, if_neg (by rw [hmagic.mpr h]; simp)]
    rfl
  · rw [if_neg h, if_pos (fun h' => h (hmagic.mp h'))]
    rfl

/-- A block with zeros where the decoder does not look: in the reserved bytes and behind the
release string. -/
structure ZeroFilled (bs : Bytes) : Prop where
  reserved : slice 124 4 bs = zeros 4
  release : ∃ text, Utf8.AsciiBytes text ∧ text.length ≤ 47 ∧ slice 128 47 bs = extend 47 text
  terminator : slice 175 1 bs = [0]
  padding : slice 176 80 bs = zeros 80

/-- The text of a zero-filled release string is written as it was read. -/
theorem encode_releaseString {bs : Bytes} (h : ZeroFilled bs) :
    (Utf8.encode (decoded bs).releaseString).length ≤ 47 ∧
      extend 47 (Utf8.encode (decoded bs).releaseString) = slice 128 47 bs := by
  obtain ⟨text, hascii, hlen, hslice⟩ := h.release
  have hwell := Utf8.wellFormed_ascii (Utf8.ascii_cString hascii)
  have hzero : (0 : UInt16) ∉ Utf8.cString text := by
    intro hmem
    exact absurd (Utf8.ascii_cString hascii 0 hmem).1 (by decide)
  have hread : (decoded bs).releaseString = Utf8.cString text := by
    have hback := Utf8.cString_encode_zeros hwell hzero (47 - text.length)
    rw [Utf8.encode_cString_of_ascii hascii] at hback
    rw [decoded, hslice]
    exact hback
  rw [hread, Utf8.encode_cString_of_ascii hascii]
  exact ⟨hlen, hslice.symm⟩

theorem layout_decoded {bs : Bytes} (hlen : bs.length = 256) (hmagic : bs.take 4 = magicBytes)
    (h : ZeroFilled bs) : (decoded bs).layout = bs := by
  have hfields : (decoded bs).fields = cutAt 0 formats bs := by
    have hfirst : slice 0 4 bs = magicBytes := hmagic
    rw [cutAt_formats, hfirst, h.reserved, h.terminator, h.padding,
      ← (encode_releaseString h).2]
    simp (disch := omega) only [fields, decoded, be_toUInt_slice, be_toULong_slice]
  rw [layout, hfields, flatten_cutAt 0 formats (by rw [hlen]; rfl), List.drop_zero]

end Header

/-! ## Both codecs -/

/-- What makes a pair of a decoder and an encoder a bijection between the values and the blocks
with zeros in their gaps. -/
structure Bijective {α : Type} (size : ℕ) (magicBytes : Bytes) (encode : α → Result Bytes)
    (ofStream : InputStream → Result α) (Value : α → Prop) (Gaps : Bytes → Prop) : Prop where
  /-- Every value is encoded in a block that is decoded to it. -/
  decode_encode : ∀ a, Value a → ∃ bs, encode a = .ok bs ∧ bs.length = size ∧
    ∀ (s : InputStream) (r : Bytes), s.rest = bs ++ r → ofStream s = .ok a
  /-- Every accepted block is the encoding of what it is decoded to. -/
  encode_decode : ∀ (bs r : Bytes) (s : InputStream) (a : α), bs.length = size →
    s.rest = bs ++ r → Gaps bs → ofStream s = .ok a → encode a = .ok bs
  /-- A block without the magic is rejected. -/
  reject : ∀ (bs r : Bytes) (s : InputStream), bs.length = size → s.rest = bs ++ r →
    bs.take 4 ≠ magicBytes → ∃ message, ofStream s = .error (.illegalArgument message)

theorem Footer.bijective (vm : Jvm) :
    Bijective 64 magicBytes (encode vm) (ofStream vm) (fun _ => True)
      (fun bs => slice 36 28 bs = zeros 28) where
  decode_encode f _ := ⟨f.layout, encode_eq vm f, f.length_layout, fun _ _ => ofStream_layout vm⟩
  encode_decode bs r s f hlen hrest hgaps h := by
    rw [ofStream_eq vm hrest hlen] at h
    by_cases hmagic : bs.take 4 = magicBytes
    · rw [if_pos hmagic] at h
      cases h
      rw [encode_eq, layout_decoded hlen hmagic hgaps]
    · rw [if_neg hmagic] at h
      cases h
  reject bs r s hlen hrest hmagic := by
    rw [ofStream_eq vm hrest hlen, if_neg hmagic]
    exact ⟨_, rfl⟩

theorem Header.bijective (vm : Jvm) :
    Bijective 256 magicBytes (encode vm) (ofStream vm)
      (fun h => Utf8.Ascii h.releaseString ∧ h.releaseString.length ≤ 47) ZeroFilled where
  decode_encode h hvalue := by
    obtain ⟨hascii, hlen⟩ := hvalue
    have hrelease : (Utf8.encode h.releaseString).length ≤ 47 := by
      rw [Utf8.length_encode_ascii hascii]
      exact hlen
    exact ⟨h.layout, encode_eq_ok_iff.mpr ⟨hrelease, rfl⟩, length_layout hrelease,
      fun _ _ => ofStream_layout vm hascii hlen⟩
  encode_decode bs r s h hlen hrest hgaps hread := by
    rw [ofStream_eq vm hrest hlen] at hread
    by_cases hmagic : bs.take 4 = magicBytes
    · rw [if_pos hmagic] at hread
      cases hread
      exact encode_eq_ok_iff.mpr
        ⟨(encode_releaseString hgaps).1, (layout_decoded hlen hmagic hgaps).symm⟩
    · rw [if_neg hmagic] at hread
      cases hread
  reject bs r s hlen hrest hmagic := by
    rw [ofStream_eq vm hrest hlen, if_neg hmagic]
    exact ⟨_, rfl⟩

/-- The codecs of the vbmeta header and of the footer are bijective. -/
theorem blobCodecs_bijective (vm : Jvm) :
    Bijective 256 Header.magicBytes (Header.encode vm) (Header.ofStream vm)
        (fun h => Utf8.Ascii h.releaseString ∧ h.releaseString.length ≤ 47)
        Header.ZeroFilled ∧
      Bijective 64 Footer.magicBytes (Footer.encode vm) (Footer.ofStream vm) (fun _ => True)
        (fun bs => slice 36 28 bs = zeros 28) :=
  ⟨Header.bijective vm, Footer.bijective vm⟩

end Avb

end BootImageEditor
