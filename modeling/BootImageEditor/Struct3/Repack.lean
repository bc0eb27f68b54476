import BootImageEditor.Struct3.Integers

/-!
# Packing what was unpacked

For a format without padding and text, every decoded value is packed into the bytes it was
decoded from, except a character of a byte with the top bit set: `getChar` extends the sign, and
`pack` then refuses the character as wider than 8 bits.
-/

namespace BootImageEditor

open Codec Fallible

namespace Struct3

/-- The codes whose values keep all their bytes: `c`, `b`, `B` and the integers. -/
def Plain (f : Format) : Prop := f.typeName ≠ .random ∧ f.typeName ≠ .string

/-- The bytes that stand at a `c` have their top bit clear. -/
def LowChars : List Format → Bytes → Prop
  | [], _ => True
  | f :: fs, bs =>
      (f.typeName = .char → (bs.headD 0).toNat < 0x80) ∧ LowChars fs (bs.drop f.size)

theorem encode_decode (order : ByteOrder) (bs : Bytes) :
    order.encode bs.length (order.decode bs) = bs := by
  cases order with
  | littleEndian => exact leBytes_ofLeBytes bs
  | bigEndian =>
      have h := leBytes_ofLeBytes bs.reverse
      rw [List.length_reverse] at h
      rw [ByteOrder.encode, ByteOrder.decode, h, List.reverse_reverse]

/-! ## One item -/

/-- `getChar`: the character of a byte with its top bit set is beyond 8 bits. -/
theorem toNat_toChar (data : Bytes) :
    (toChar data).toNat =
      if (data.headD 0).toNat < 0x80 then (data.headD 0).toNat
      else (data.headD 0).toNat + 0xFF00 := by
  have hword : ∀ b : UInt8, b.toInt8.toInt16.toUInt16.toNat =
      if b.toNat < 0x80 then b.toNat else b.toNat + 0xFF00 := by
    intro b
    have hnum := natCast_toUInt16 b.toInt8.toInt16
    have hbyte : b.toInt8.toInt = b.toBitVec.toInt := rfl
    have hnat : b.toBitVec.toNat = b.toNat := rfl
    have hlt := b.toNat_lt
    rw [Int8.toInt_toInt16, hbyte, BitVec.toInt_eq_toNat_cond, hnat] at hnum
    split at hnum <;> split <;> omega
  exact hword (data.headD 0)

theorem packChar_toChar {vm : Jvm} {bs : Bytes} (hlen : bs.length = 1) :
    packChar vm (.char (toChar bs)) =
      if ¬ (bs.headD 0).toNat < 0x80 then
        .error (.illegalArgument s!"arg[{(toChar bs).toNat}] exceeds 8-bit bound")
      else .ok bs := by
  obtain ⟨b, rfl⟩ := List.length_eq_one_iff.mp hlen
  have hnat := toNat_toChar [b]
  have hlt := b.toNat_lt
  rw [List.headD_cons] at hnat ⊢
  rw [packChar]
  by_cases hb : b.toNat < 0x80
  · rw [if_pos hb] at hnat
    have hbyte : (toChar [b]).toUInt8 = b := by
      apply UInt8.toNat_inj.mp
      rw [UInt16.toNat_toUInt8, hnat]
      omega
    rw [if_pos (by omega), if_neg (by omega), hbyte]
  · rw [if_neg hb] at hnat
    rw [if_neg (by omega), if_pos hb]

theorem appendByteArray_of_length {bs : Bytes} {n : ℕ} (h : bs.length = n) :
    appendByteArray bs n = .ok bs := by
  rw [appendByteArray, if_neg (by omega), h, Nat.sub_self]
  simp [appendPadding]

theorem encode_toUShort (order : ByteOrder) {bs : Bytes} (hlen : bs.length = 2) :
    order.encode 2 (toUShort order bs).toNat = bs := by
  have hlt := order.decode_lt bs
  rw [hlen] at hlt
  rw [toUShort, UInt16.toNat_ofNat_of_lt' (by simpa using hlt), ← hlen, encode_decode]

theorem encode_toUInt (order : ByteOrder) {bs : Bytes} (hlen : bs.length = 4) :
    order.encode 4 (toUInt order bs).toNat = bs := by
  have hlt := order.decode_lt bs
  rw [hlen] at hlt
  rw [toUInt, UInt32.toNat_ofNat_of_lt' (by simpa using hlt), ← hlen, encode_decode]

theorem encode_toULong (order : ByteOrder) {bs : Bytes} (hlen : bs.length = 8) :
    order.encode 8 (toULong order bs).toNat = bs := by
  have hlt := order.decode_lt bs
  rw [hlen] at hlt
  rw [toULong, UInt64.toNat_ofNat_of_lt' (by simpa using hlt), ← hlen, encode_decode]

/-- The bytes of an item are what its value is packed into, or a character is refused. -/
theorem packItem_decodeItem {vm : Jvm} {order : ByteOrder} {f : Format} {bs : Bytes}
    (hlen : bs.length = f.size) (hplain : Plain f) :
    packItem vm order f (decodeItem order f bs) =
      if f.typeName = .char ∧ ¬ (bs.headD 0).toNat < 0x80 then
        .error (.illegalArgument s!"arg[{(toChar bs).toNat}] exceeds 8-bit bound")
      else .ok bs := by
  have hsize : f.size = f.typeName.width * f.multiple := rfl
  have hexp : f.typeName.primitive = false → f.size = f.typeName.width :=
    Format.size_of_exploded
  obtain ⟨hrandom, hstring⟩ := hplain
  unfold packItem decodeItem
  cases htype : f.typeName <;>
    simp only [htype, FormatType.primitive, FormatType.width, Nat.one_mul, true_and, false_and,
      reduceCtorEq, if_false, ne_eq, not_true_eq_false] at hsize hexp hrandom hstring ⊢
  case byte | ubyte => exact appendByteArray_of_length (hlen.trans hsize)
  case char => exact packChar_toChar (hlen.trans (hexp trivial))
  case short =>
    simp only [packShort, toShort, UInt16.toUInt16_toInt16]
    exact congrArg Except.ok (encode_toUShort order (hlen.trans (hexp trivial)))
  case ushort =>
    exact congrArg Except.ok (encode_toUShort order (hlen.trans (hexp trivial)))
  case int =>
    simp only [packInt, toInt, UInt32.toUInt32_toInt32]
    exact congrArg Except.ok (encode_toUInt order (hlen.trans (hexp trivial)))
  case uint =>
    exact congrArg Except.ok (encode_toUInt order (hlen.trans (hexp trivial)))
  case long =>
    simp only [packLong, toLong, UInt64.toUInt64_toInt64]
    exact congrArg Except.ok (encode_toULong order (hlen.trans (hexp trivial)))
  case ulong =>
    exact congrArg Except.ok (encode_toULong order (hlen.trans (hexp trivial)))

theorem fills_decodeItem (order : ByteOrder) (f : Format) (bs : Bytes) :
    Fills f (decodeItem order f bs) := by
  intro htype
  rw [decodeItem, htype]
  exact trivial

theorem headD_take_char {f : Format} (h : f.typeName = .char) (bs : Bytes) :
    (bs.take f.size).headD 0 = bs.headD 0 := by
  have hone : f.size = 1 := by
    rw [Format.size_of_exploded (by rw [h]; rfl), h]
    rfl
  rw [hone]
  cases bs with
  | nil => rfl
  | cons b bs => rfl

/-! ## Lists of formats -/

theorem length_decodeItems (order : ByteOrder) (fs : List Format) (bs : Bytes) :
    (decodeItems order fs bs).length = fs.length := by
  induction fs generalizing bs with
  | nil => rfl
  | cons f fs ih => rw [decodeItems, List.length_cons, ih, List.length_cons]

theorem allFill_decodeItems (order : ByteOrder) (fs : List Format) (bs : Bytes) :
    AllFill fs (decodeItems order fs bs) := by
  induction fs generalizing bs with
  | nil => exact trivial
  | cons f fs ih => exact ⟨fills_decodeItem order f _, ih _⟩

theorem packItems_decodeItems_iff {vm : Jvm} {order : ByteOrder} {fs : List Format} {bs : Bytes}
    (hlen : bs.length = formatsSize fs) (hplain : ∀ f ∈ fs, Plain f) :
    packItems vm order fs (decodeItems order fs bs) = .ok bs ↔ LowChars fs bs := by
  induction fs generalizing bs with
  | nil =>
      rw [formatsSize_nil, List.length_eq_zero_iff] at hlen
      subst hlen
      exact ⟨fun _ => trivial, fun _ => rfl⟩
  | cons f fs ih =>
      rw [formatsSize_cons] at hlen
      have htake : (bs.take f.size).length = f.size := by simp [hlen]
      have hdrop : packItems vm order fs (decodeItems order fs (bs.drop f.size)) =
            .ok (bs.drop f.size) ↔ LowChars fs (bs.drop f.size) :=
        ih (by simp [hlen]) (fun g hg => hplain g (by simp [hg]))
      rw [decodeItems, packItems, packItem_decodeItem htake (hplain f (by simp)), LowChars]
      by_cases hbad : f.typeName = .char ∧ ¬ ((bs.take f.size).headD 0).toNat < 0x80
      · rw [if_pos hbad, error_bind]
        rw [headD_take_char hbad.1] at hbad
        constructor
        · intro h
          cases h
        · rintro ⟨h, -⟩
          exact absurd (h hbad.1) hbad.2
      · rw [if_neg hbad, ok_bind, ← hdrop]
        constructor
        · intro h
          obtain ⟨rest, hrest, h⟩ := bind_eq_ok.mp h
          have happ : bs.take f.size ++ rest = bs.take f.size ++ bs.drop f.size := by
            rw [List.take_append_drop]
            exact Except.ok.inj h
          rw [List.append_cancel_left happ] at hrest
          refine ⟨?_, hrest⟩
          intro hchar
          rw [← headD_take_char hchar]
          exact not_not.mp (fun h => hbad ⟨hchar, h⟩)
        · rintro ⟨-, h⟩
          rw [h, ok_bind, List.take_append_drop]

/-! ## Through a stream -/

/-- What `unpack` returns fills the formats, whatever was read. -/
theorem fills_of_unpackItem {vm : Jvm} {order : ByteOrder} {f : Format} {s s' : InputStream}
    {v : Value} (h : unpackItem vm order f s = .ok (v, s')) : Fills f v := by
  intro htype
  rw [unpackItem, htype] at h
  obtain ⟨⟨data, s₁⟩, -, h⟩ := bind_eq_ok.mp h
  cases h
  exact trivial

theorem allFill_of_unpackLoop {vm : Jvm} {order : ByteOrder} {fs : List Format}
    {s s' : InputStream} {vs : List Value} (h : unpackLoop vm order fs s = .ok (vs, s')) :
    AllFill fs vs := by
  induction fs generalizing s vs with
  | nil => exact trivial
  | cons f fs ih =>
      obtain ⟨⟨v, s₁⟩, hv, h⟩ := bind_eq_ok.mp h
      obtain ⟨⟨vs', s₂⟩, hvs, h⟩ := bind_eq_ok.mp h
      cases h
      exact ⟨fills_of_unpackItem hv, ih hvs⟩

/-- Unpacking a string of `calcSize()` bytes and packing the values gives the bytes back exactly
when the size has not overflowed, no byte at a `c` has its top bit set, and no assertion catches
an item of no bytes at the end of a byte array. -/
theorem repack_iff {vm : Jvm} {fmt : KString} {st : Struct3} {bs : Bytes} {s : InputStream}
    (hnew : new vm fmt = .ok st) (hplain : ∀ f ∈ st.formats, Plain f)
    (hlen : (bs.length : ℤ) = st.calcSize.toInt) (hs : s.rest = bs) :
    (∃ values s', unpackFormat vm fmt s = .ok (values, s') ∧
        packFormat vm fmt values = .ok bs) ↔
      formatsSize st.formats ≤ intMax ∧ LowChars st.formats bs ∧
        ¬ (StrictAtEnd vm s.kind ∧ EndsEmpty st.formats) := by
  have hsampled : ∀ f ∈ st.formats, f.Sampled :=
    fun f hf htype => absurd htype (hplain f hf).1
  have hrest : s.rest = bs ++ [] := by rw [hs, List.append_nil]
  have hexact : formatsSize st.formats ≤ intMax → bs.length = formatsSize st.formats := by
    intro hsize
    rw [calcSize_toInt hsize] at hlen
    exact Int.ofNat_inj.mp hlen
  simp only [unpackFormat_eq hnew, packFormat_eq hnew]
  constructor
  · rintro ⟨values, s', hunpack, hpack⟩
    obtain ⟨-, hsize, hitems⟩ := (pack_eq_ok_iff (allFill_of_unpackLoop hunpack)).mp hpack
    rw [unpack_eq hrest (hexact hsize) hsampled] at hunpack
    obtain ⟨hstrict, hunpack⟩ := ite_error_eq_ok_iff.mp hunpack
    cases hunpack
    refine ⟨hsize, (packItems_decodeItems_iff (hexact hsize) hplain).mp hitems, ?_⟩
    rintro ⟨hend, hempty⟩
    exact hstrict ⟨hend, rfl, hempty⟩
  · rintro ⟨hsize, hlow, hend⟩
    refine ⟨decodeItems st.byteOrder st.formats bs, s.advance (formatsSize st.formats), ?_, ?_⟩
    · rw [unpack_eq hrest (hexact hsize) hsampled, if_neg (fun h => hend ⟨h.1, h.2.2⟩)]
    · exact (pack_eq_ok_iff (allFill_decodeItems _ _ _)).mpr
        ⟨length_decodeItems _ _ _, hsize,
          (packItems_decodeItems_iff (hexact hsize) hplain).mpr hlow⟩

theorem repack_iff_char_short :
    (∃ values s', unpackFormat ⟨true, .littleEndian⟩ (units ">ch")
          (.byteArrayInputStream [0x41, 0x80, 0x01]) = .ok (values, s') ∧
        packFormat ⟨true, .littleEndian⟩ (units ">ch") values = .ok [0x41, 0x80, 0x01]) ↔
      formatsSize [.one .char, .one .short] ≤ intMax ∧
        LowChars [.one .char, .one .short] [0x41, 0x80, 0x01] ∧
          ¬ (StrictAtEnd ⟨true, .littleEndian⟩ .byteArray ∧
            EndsEmpty [.one .char, .one .short]) := by
  have hnew : new ⟨true, .littleEndian⟩ (units ">ch") =
      .ok ⟨.bigEndian, [.one .char, .one .short]⟩ := by decide +kernel
  exact repack_iff hnew (by unfold Plain; decide) rfl rfl

/-- The byte 0x80 is read as the character U+FF80, which `pack` refuses. -/
theorem repack_char_refused :
    unpackFormat ⟨true, .littleEndian⟩ (units "c") (.byteArrayInputStream [0x80]) =
        .ok ([.char 0xFF80], (InputStream.byteArrayInputStream [0x80]).advance 1) ∧
      packFormat ⟨true, .littleEndian⟩ (units "c") [.char 0xFF80] =
        .error (.illegalArgument "arg[65408] exceeds 8-bit bound") := by
  decide +kernel

end Struct3

end BootImageEditor
