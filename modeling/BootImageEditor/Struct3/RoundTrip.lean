import BootImageEditor.Struct3.Unpack

/-!
# Packing and unpacking are inverse

`readBack f v` is the value that unpacking makes of what packing wrote for the
argument `v`: the argument itself when it has the type that unpacking returns,
otherwise its conversion to that type. `decodeItems_packItems` is the round trip
over a list of formats, and the theorems on `formatString` transport it to
format strings written item by item.
-/

namespace BootImageEditor

open Codec Fallible

namespace Struct3

/-- Arrays come back at the size of their item. -/
def extend (multiple : ℕ) (bs : Bytes) : Bytes := bs ++ zeros (multiple - bs.length)

def readBack (f : Format) (arg : Value) : Value :=
  match f.typeName, arg with
  | .random, .byte b => .byte b
  | .random, .int n => .byte n.toInt8
  | .random, _ => .byte 0
  | .byte, .byteArray bs => .byteArray (extend f.multiple bs)
  | .byte, .intArray ns => .byteArray (extend f.multiple (ns.map (·.toInt8.toUInt8)))
  | .ubyte, .byteArray bs => .ubyteArray (extend f.multiple bs)
  | .ubyte, .ubyteArray bs => .ubyteArray (extend f.multiple bs)
  | .ubyte, .intArray ns => .ubyteArray (extend f.multiple (ns.map (·.toUInt32.toUInt8)))
  | .char, .char c => .char (toChar [c.toUInt8])
  | .short, .int n => .short n.toInt16
  | .ushort, .int n => .ushort n.toInt16.toUInt16
  | .ushort, .uint n => .ushort n.toUInt16
  | .uint, .int n => .uint n.toUInt32
  | .uint, .long n => .uint n.toInt32.toUInt32
  | .long, .int n => .long n.toInt64
  | .ulong, .int n => .ulong n.toInt64.toUInt64
  | .ulong, .long n => .ulong n.toUInt64
  | _, arg => arg

/-- Strings that survive the round trip: no lone surrogate and no terminator
inside. -/
def Text (arg : Value) : Prop :=
  ∀ s, arg = .string s → Utf8.WellFormed s ∧ (0 : UInt16) ∉ s

theorem appendByteArray_eq {bs out : Bytes} {n : ℕ}
    (h : appendByteArray bs n = .ok out) : out = extend n bs := by
  unfold appendByteArray at h
  split at h
  · cases h
  · cases h
    rfl

theorem appendIntArray_eq {ns : List Int32} {out : Bytes} {n : ℕ}
    (h : appendIntArray ns n = .ok out) : out = extend n (ns.map (·.toInt8.toUInt8)) := by
  obtain ⟨arg2, hmap, h⟩ := bind_eq_ok.mp h
  rw [appendByteArray_eq h, mapM_guard_eq hmap]

theorem appendUIntArray_eq {ns : List Int32} {out : Bytes} {n : ℕ}
    (h : appendUIntArray ns n = .ok out) : out = extend n (ns.map (·.toUInt32.toUInt8)) := by
  obtain ⟨arg2, hmap, h⟩ := bind_eq_ok.mp h
  rw [appendByteArray_eq h, mapM_guard_eq hmap]

/-! ## Numbers of each width -/

theorem toUShort_encode (order : ByteOrder) (n : UInt16) :
    toUShort order (order.encode 2 n.toNat) = n := by
  rw [toUShort, ByteOrder.decode_encode_of_lt order n.toNat_lt, UInt16.ofNat_toNat]

theorem toShort_encode (order : ByteOrder) (n : Int16) :
    toShort order (order.encode 2 n.toUInt16.toNat) = n := by
  have h := toUShort_encode order n.toUInt16
  rw [toUShort] at h
  rw [toShort, h, Int16.toInt16_toUInt16]

theorem toUInt_encode (order : ByteOrder) (n : UInt32) :
    toUInt order (order.encode 4 n.toNat) = n := by
  rw [toUInt, ByteOrder.decode_encode_of_lt order n.toNat_lt, UInt32.ofNat_toNat]

theorem toInt_encode (order : ByteOrder) (n : Int32) :
    toInt order (order.encode 4 n.toUInt32.toNat) = n := by
  have h := toUInt_encode order n.toUInt32
  rw [toUInt] at h
  rw [toInt, h, Int32.toInt32_toUInt32]

theorem toULong_encode (order : ByteOrder) (n : UInt64) :
    toULong order (order.encode 8 n.toNat) = n := by
  rw [toULong, ByteOrder.decode_encode_of_lt order n.toNat_lt, UInt64.ofNat_toNat]

theorem toLong_encode (order : ByteOrder) (n : Int64) :
    toLong order (order.encode 8 n.toUInt64.toNat) = n := by
  have h := toULong_encode order n.toUInt64
  rw [toULong] at h
  rw [toLong, h, Int64.toInt64_toUInt64]

/-! ## One item -/

/-- What one item packs is read back as `readBack` says. -/
theorem decodeItem_packItem {vm : Jvm} {order : ByteOrder} {f : Format} {arg : Value}
    {bs : Bytes} (h : packItem vm order f arg = .ok bs) (hf : Fills f arg)
    (hs : f.Sampled) (ht : Text arg) : decodeItem order f bs = readBack f arg := by
  unfold packItem at h
  unfold decodeItem readBack
  cases htype : f.typeName <;> simp only [htype] at h ⊢
  case random =>
    have hpos : ∃ k, f.multiple = k + 1 := ⟨f.multiple - 1, by have := hs htype; omega⟩
    obtain ⟨k, hk⟩ := hpos
    rw [hk] at h
    unfold packPadding appendPadding at h
    cases arg <;> cases h <;> simp [List.replicate_succ]
  case byte =>
    unfold packByteArray at h
    cases arg <;> simp only [reduceCtorEq] at h
    · rw [appendByteArray_eq h]
    · rw [appendIntArray_eq h]
  case ubyte =>
    unfold packUByteArray at h
    cases arg <;> simp only [reduceCtorEq] at h
    · rw [appendByteArray_eq h]
    · rw [appendByteArray_eq h]
    · rw [appendUIntArray_eq h]
  case string =>
    unfold packString at h
    cases arg <;> simp only [reduceCtorEq] at h
    case string s =>
      obtain ⟨hwf, hnul⟩ := ht s rfl
      rw [appendByteArray_eq h, toCString, extend, zeros, Utf8.cString_encode_zeros hwf hnul]
  case char =>
    unfold packChar at h
    cases arg <;> simp only [reduceCtorEq] at h
    case char c =>
      split at h <;> cases h
      rfl
  case short =>
    unfold packShort at h
    cases arg <;> simp only [reduceCtorEq] at h
    case short n =>
      cases h
      rw [toShort_encode]
    case int n =>
      obtain ⟨-, -, h⟩ := bind_eq_ok.mp h
      cases h
      rw [toShort_encode]
  case ushort =>
    have hf := hf htype
    unfold packUShort at h
    cases arg <;> simp only at hf h
    case ushort n =>
      cases h
      rw [toUShort_encode]
    case int n =>
      obtain ⟨-, -, h⟩ := bind_eq_ok.mp h
      cases h
      rw [toUShort_encode]
    case uint n =>
      obtain ⟨-, -, h⟩ := bind_eq_ok.mp h
      cases h
      rw [toUShort_encode]
  case int =>
    unfold packInt at h
    cases arg <;> simp only [reduceCtorEq] at h
    case int n =>
      cases h
      rw [toInt_encode]
  case uint =>
    unfold packUInt at h
    cases arg <;> simp only [reduceCtorEq] at h
    case int n =>
      obtain ⟨-, -, h⟩ := bind_eq_ok.mp h
      cases h
      rw [toUInt_encode]
    case uint n =>
      cases h
      rw [toUInt_encode]
    case long n =>
      obtain ⟨-, -, h⟩ := bind_eq_ok.mp h
      cases h
      rw [toUInt_encode]
  case long =>
    unfold packLong at h
    cases arg <;> simp only [reduceCtorEq] at h
    case int n =>
      cases h
      rw [toLong_encode]
    case long n =>
      cases h
      rw [toLong_encode]
  case ulong =>
    unfold packULong at h
    cases arg <;> simp only [reduceCtorEq] at h
    case int n =>
      obtain ⟨-, -, h⟩ := bind_eq_ok.mp h
      cases h
      rw [toULong_encode]
    case long n =>
      obtain ⟨-, -, h⟩ := bind_eq_ok.mp h
      cases h
      rw [toULong_encode]
    case ulong n =>
      cases h
      rw [toULong_encode]

/-! ## Lists of formats -/

def readBackAll : List Format → List Value → List Value
  | f :: fs, arg :: args => readBack f arg :: readBackAll fs args
  | _, _ => []

theorem decodeItems_packItems {vm : Jvm} {order : ByteOrder} {fs : List Format}
    {args : List Value} {bs : Bytes} (h : packItems vm order fs args = .ok bs)
    (hlen : args.length = fs.length) (hfill : AllFill fs args)
    (hs : ∀ f ∈ fs, f.Sampled) (ht : ∀ arg ∈ args, Text arg) :
    decodeItems order fs bs = readBackAll fs args := by
  induction fs generalizing args bs with
  | nil => rfl
  | cons f fs ih =>
      cases args with
      | nil => simp at hlen
      | cons arg args =>
          obtain ⟨b, hb, h⟩ := bind_eq_ok.mp h
          obtain ⟨bs', hbs, h⟩ := bind_eq_ok.mp h
          cases h
          have hsize : b.length = f.size := length_packItem hb hfill.1
          rw [decodeItems, List.take_left' hsize, List.drop_left' hsize, readBackAll,
            decodeItem_packItem hb hfill.1 (hs f (by simp)) (ht arg (by simp)),
            ih hbs (by simpa using hlen) hfill.2 (fun g hg => hs g (by simp [hg]))
              (fun v hv => ht v (by simp [hv]))]

/-- Unpacking what was packed, with anything after it: the values of `readBack`,
and the stream just past the packed bytes. -/
theorem unpack_pack {vm vm' : Jvm} {st : Struct3} {args : List Value} {bs r : Bytes}
    {s : InputStream} (h : st.pack vm args = .ok bs) (hrest : s.rest = bs ++ r)
    (hfill : AllFill st.formats args) (hs : ∀ f ∈ st.formats, f.Sampled)
    (ht : ∀ arg ∈ args, Text arg) :
    st.unpack vm' s =
      if StrictAtEnd vm' s.kind ∧ r = [] ∧ EndsEmpty st.formats then .error .assertion
      else .ok (readBackAll st.formats args, s.advance (formatsSize st.formats)) := by
  obtain ⟨hlen, -, hitems⟩ := (pack_eq_ok_iff hfill).mp h
  rw [unpack_eq hrest (length_packItems hitems hfill hlen) hs,
    decodeItems_packItems hitems hlen hfill hs ht]

/-! ## Texts of any kind -/

/-- A value without its text. -/
def withoutText : Value → Value
  | .string _ => .string []
  | arg => arg

/-- Apart from texts, what one item packs is read back. -/
theorem withoutText_decodeItem {vm : Jvm} {order : ByteOrder} {f : Format} {arg : Value}
    {bs : Bytes} (h : packItem vm order f arg = .ok bs) (hf : Fills f arg) (hs : f.Sampled) :
    withoutText (decodeItem order f bs) = withoutText (readBack f arg) := by
  by_cases htext : ∃ s, arg = .string s
  · obtain ⟨s, rfl⟩ := htext
    have hstring : f.typeName = .string := by
      unfold packItem at h
      cases htype : f.typeName <;> rw [htype] at h <;>
        first | rfl | cases h | exact (hf htype).elim
    unfold decodeItem readBack
    simp only [hstring]
    rfl
  · rw [decodeItem_packItem h hf hs (fun s hs => absurd ⟨s, hs⟩ htext)]

theorem map_withoutText_decodeItems {vm : Jvm} {order : ByteOrder} {fs : List Format}
    {args : List Value} {bs : Bytes} (h : packItems vm order fs args = .ok bs)
    (hlen : args.length = fs.length) (hfill : AllFill fs args) (hs : ∀ f ∈ fs, f.Sampled) :
    (decodeItems order fs bs).map withoutText = (readBackAll fs args).map withoutText := by
  induction fs generalizing args bs with
  | nil => rfl
  | cons f fs ih =>
      cases args with
      | nil => simp at hlen
      | cons arg args =>
          obtain ⟨b, hb, h⟩ := bind_eq_ok.mp h
          obtain ⟨bs', hbs, h⟩ := bind_eq_ok.mp h
          cases h
          have hsize : b.length = f.size := length_packItem hb hfill.1
          rw [decodeItems, List.take_left' hsize, List.drop_left' hsize, readBackAll,
            List.map_cons, List.map_cons, withoutText_decodeItem hb hfill.1 (hs f (by simp)),
            ih hbs (by simpa using hlen) hfill.2 (fun g hg => hs g (by simp [hg]))]

end Struct3

end BootImageEditor
