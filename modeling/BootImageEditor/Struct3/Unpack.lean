import BootImageEditor.Struct3.Pack

/-!
# Unpacking

`unpack` reads the formats off a stream one after the other. `decodeItem` is
the value a format makes of its bytes and `decodeItems` cuts a byte string along
a list of formats; `unpackLoop_eq` says that a stream holding enough bytes gives
exactly these values, unless assertions are enabled and an item of no bytes
stands at the end of a `ByteArrayInputStream`, whose `read` then returns `-1`.
-/

namespace BootImageEditor

open Codec Fallible

namespace Struct3

/-! ## Values from bytes -/

def toChar (data : Bytes) : UInt16 := (data.headD 0).toInt8.toInt16.toUInt16

def toShort (order : ByteOrder) (data : Bytes) : Int16 :=
  (UInt16.ofNat (order.decode data)).toInt16

def toInt (order : ByteOrder) (data : Bytes) : Int32 :=
  (UInt32.ofNat (order.decode data)).toInt32

def toLong (order : ByteOrder) (data : Bytes) : Int64 :=
  (UInt64.ofNat (order.decode data)).toInt64

def toUShort (order : ByteOrder) (data : Bytes) : UInt16 :=
  UInt16.ofNat (order.decode data)

def toUInt (order : ByteOrder) (data : Bytes) : UInt32 :=
  UInt32.ofNat (order.decode data)

def toULong (order : ByteOrder) (data : Bytes) : UInt64 :=
  UInt64.ofNat (order.decode data)

def toCString (data : Bytes) : KString := Utf8.cString data

/-! ## Reading a stream -/

/-- `val data = ByteArray(n); assert(n == this.read(data))`. -/
def readFully (vm : Jvm) (s : InputStream) (n : ℕ) : Result (Bytes × InputStream) := do
  let (count, data, s) := s.read n
  vm.assert (decide (count = n))
  .ok (data, s)

def getWith (vm : Jvm) (n : ℕ) (value : Bytes → Value) (s : InputStream) :
    Result (Value × InputStream) := do
  let (data, s) ← readFully vm s n
  .ok (value data, s)

def getChar (vm : Jvm) (s : InputStream) : Result (Value × InputStream) :=
  getWith vm 1 (fun data => .char (toChar data)) s

def getShort (vm : Jvm) (order : ByteOrder) (s : InputStream) :
    Result (Value × InputStream) :=
  getWith vm 2 (fun data => .short (toShort order data)) s

def getInt (vm : Jvm) (order : ByteOrder) (s : InputStream) :
    Result (Value × InputStream) :=
  getWith vm 4 (fun data => .int (toInt order data)) s

def getLong (vm : Jvm) (order : ByteOrder) (s : InputStream) :
    Result (Value × InputStream) :=
  getWith vm 8 (fun data => .long (toLong order data)) s

def getUShort (vm : Jvm) (order : ByteOrder) (s : InputStream) :
    Result (Value × InputStream) :=
  getWith vm 2 (fun data => .ushort (toUShort order data)) s

def getUInt (vm : Jvm) (order : ByteOrder) (s : InputStream) :
    Result (Value × InputStream) :=
  getWith vm 4 (fun data => .uint (toUInt order data)) s

def getULong (vm : Jvm) (order : ByteOrder) (s : InputStream) :
    Result (Value × InputStream) :=
  getWith vm 8 (fun data => .ulong (toULong order data)) s

def getByteArray (vm : Jvm) (inSize : ℕ) (s : InputStream) :
    Result (Value × InputStream) :=
  getWith vm inSize .byteArray s

def getUByteArray (vm : Jvm) (inSize : ℕ) (s : InputStream) :
    Result (Value × InputStream) :=
  getWith vm inSize .ubyteArray s

def getCString (vm : Jvm) (inSize : ℕ) (s : InputStream) :
    Result (Value × InputStream) :=
  getWith vm inSize (fun data => .string (toCString data)) s

/-- `getPadding`: the first byte is read and the others are skipped. -/
def getPadding (vm : Jvm) (inSize : ℕ) (s : InputStream) :
    Result (Value × InputStream) := do
  let (data, s) ← readFully vm s 1
  let (skipped, s) ← s.skip ((inSize : ℤ) - 1)
  vm.assert (decide ((inSize : ℤ) - 1 = skipped))
  .ok (.byte (data.headD 0).toInt8, s)

def unpackItem (vm : Jvm) (order : ByteOrder) (f : Format) (s : InputStream) :
    Result (Value × InputStream) :=
  match f.typeName with
  | .random => getPadding vm f.multiple s
  | .byte => getByteArray vm f.multiple s
  | .ubyte => getUByteArray vm f.multiple s
  | .char => getChar vm s
  | .string => getCString vm f.multiple s
  | .short => getShort vm order s
  | .ushort => getUShort vm order s
  | .int => getInt vm order s
  | .uint => getUInt vm order s
  | .long => getLong vm order s
  | .ulong => getULong vm order s

def unpackLoop (vm : Jvm) (order : ByteOrder) :
    List Format → InputStream → Result (List Value × InputStream)
  | [], s => .ok ([], s)
  | f :: fs, s => do
      let (value, s) ← unpackItem vm order f s
      let (values, s) ← unpackLoop vm order fs s
      .ok (value :: values, s)

/-- `unpack(iS)`. -/
def unpack (vm : Jvm) (st : Struct3) (s : InputStream) :
    Result (List Value × InputStream) :=
  unpackLoop vm st.byteOrder st.formats s

/-- `Struct3(inFormatString).unpack(iS)`. -/
def unpackFormat (vm : Jvm) (inFormatString : KString) (s : InputStream) :
    Result (List Value × InputStream) := do
  let st ← new vm inFormatString
  st.unpack vm s

theorem unpackFormat_eq {vm : Jvm} {fmt : KString} {st : Struct3}
    (h : new vm fmt = .ok st) (s : InputStream) :
    unpackFormat vm fmt s = st.unpack vm s := by
  rw [unpackFormat, h, ok_bind]

/-! ## Unpacking as a cut of a byte string -/

def decodeItem (order : ByteOrder) (f : Format) (data : Bytes) : Value :=
  match f.typeName with
  | .random => .byte (data.headD 0).toInt8
  | .byte => .byteArray data
  | .ubyte => .ubyteArray data
  | .char => .char (toChar data)
  | .string => .string (toCString data)
  | .short => .short (toShort order data)
  | .ushort => .ushort (toUShort order data)
  | .int => .int (toInt order data)
  | .uint => .uint (toUInt order data)
  | .long => .long (toLong order data)
  | .ulong => .ulong (toULong order data)

def decodeItems (order : ByteOrder) : List Format → Bytes → List Value
  | [], _ => []
  | f :: fs, bs => decodeItem order f (bs.take f.size) :: decodeItems order fs (bs.drop f.size)

/-- A read of no bytes at the end of the stream fails: assertions are enabled
and the stream is a `ByteArrayInputStream`. -/
def StrictAtEnd (vm : Jvm) (kind : StreamKind) : Prop :=
  vm.assertionsEnabled = true ∧ kind = .byteArray

instance (vm : Jvm) (kind : StreamKind) : Decidable (StrictAtEnd vm kind) :=
  inferInstanceAs (Decidable (vm.assertionsEnabled = true ∧ kind = .byteArray))

theorem readFully_of_append {vm : Jvm} {s : InputStream} {bs r : Bytes}
    (h : s.rest = bs ++ r) (hpos : 0 < bs.length) :
    readFully vm s bs.length = .ok (bs, s.advance bs.length) := by
  rw [readFully, InputStream.read_of_append h hpos]
  simp [Jvm.assert_of_true]

theorem readFully_zero (vm : Jvm) (s : InputStream) :
    readFully vm s 0 =
      if StrictAtEnd vm s.kind ∧ s.rest = [] then .error .assertion else .ok ([], s) := by
  rw [readFully, InputStream.read, if_pos rfl]
  by_cases hend : s.kind = .byteArray ∧ s.rest = []
  · rw [if_pos hend]
    by_cases hvm : vm.assertionsEnabled = true
    · rw [if_pos ⟨⟨hvm, hend.1⟩, hend.2⟩]
      simp [Jvm.assert, hvm]
    · rw [if_neg (fun h => hvm h.1.1)]
      simp [Jvm.assert, hvm]
  · rw [if_neg hend, if_neg (fun h => hend ⟨h.1.2, h.2⟩)]
    simp [Jvm.assert_of_true]

theorem getWith_of_append {vm : Jvm} {s : InputStream} {bs r : Bytes} {n : ℕ}
    (h : s.rest = bs ++ r) (hn : bs.length = n) (value : Bytes → Value) :
    getWith vm n value s =
      if StrictAtEnd vm s.kind ∧ s.rest = [] then .error .assertion
      else .ok (value bs, s.advance n) := by
  subst hn
  rw [getWith]
  rcases Nat.eq_zero_or_pos bs.length with hzero | hpos
  · rw [hzero, readFully_zero]
    obtain rfl := List.length_eq_zero_iff.mp hzero
    split <;> simp
  · have hne : s.rest ≠ [] := by
      rw [h]
      exact List.append_ne_nil_of_left_ne_nil (List.length_pos_iff.mp hpos) r
    rw [readFully_of_append h hpos, if_neg (fun hstrict => hne hstrict.2)]
    simp

theorem getPadding_of_append {vm : Jvm} {s : InputStream} {bs r : Bytes}
    (h : s.rest = bs ++ r) (hpos : 1 ≤ bs.length) :
    getPadding vm bs.length s =
      .ok (.byte (bs.headD 0).toInt8, s.advance bs.length) := by
  cases bs with
  | nil => simp at hpos
  | cons b bs =>
      have hcons : s.rest = [b] ++ (bs ++ r) := h
      have hfirst : readFully vm s 1 = .ok ([b], s.advance 1) :=
        readFully_of_append hcons (by simp)
      have hskip : (s.advance 1).skip ((((b :: bs).length : ℕ) : ℤ) - 1) =
          .ok ((bs.length : ℤ), (s.advance 1).advance bs.length) := by
        rw [List.length_cons, Nat.cast_succ, add_sub_cancel_right]
        exact InputStream.skip_of_le (by simp [h])
      rw [getPadding, hfirst, ok_bind]
      simp only [hskip, ok_bind]
      rw [Jvm.assert_of_true _ (by simp), ok_bind, InputStream.advance_advance,
        List.length_cons, Nat.add_comm 1]
      rfl

/-- One item: a stream with enough bytes gives the decoded value and moves past
the bytes of the item. -/
theorem unpackItem_eq {vm : Jvm} {order : ByteOrder} {f : Format} {s : InputStream}
    {bs r : Bytes} (h : s.rest = bs ++ r) (hlen : bs.length = f.size) (hf : f.Sampled) :
    unpackItem vm order f s =
      if StrictAtEnd vm s.kind ∧ s.rest = [] then .error .assertion
      else .ok (decodeItem order f bs, s.advance f.size) := by
  have hsize : f.size = f.typeName.width * f.multiple := rfl
  have hexp : f.typeName.primitive = false → f.size = f.typeName.width :=
    Format.size_of_exploded
  unfold unpackItem decodeItem
  cases htype : f.typeName <;>
    simp only [htype, FormatType.primitive, FormatType.width, Nat.one_mul] at hsize hexp ⊢
  case random =>
    have hpos : 1 ≤ bs.length := hlen ▸ hsize ▸ hf htype
    have hne : s.rest ≠ [] := by
      rw [h]
      exact List.append_ne_nil_of_left_ne_nil (List.length_pos_iff.mp hpos) r
    rw [← hsize, ← hlen, getPadding_of_append h hpos, if_neg (fun hstrict => hne hstrict.2)]
  case byte | ubyte | string =>
    rw [← hsize]
    exact getWith_of_append h hlen _
  all_goals
    rw [hexp trivial] at hlen ⊢
    exact getWith_of_append h hlen _

/-- A list of formats whose last item takes no bytes. -/
def EndsEmpty : List Format → Prop
  | [] => False
  | [f] => f.size = 0
  | _ :: f :: fs => EndsEmpty (f :: fs)

instance EndsEmpty.decidable : (fs : List Format) → Decidable (EndsEmpty fs)
  | [] => inferInstanceAs (Decidable False)
  | [f] => inferInstanceAs (Decidable (f.size = 0))
  | _ :: f :: fs => EndsEmpty.decidable (f :: fs)

theorem endsEmpty_of_size_zero {f : Format} {fs : List Format}
    (h : formatsSize (f :: fs) = 0) : EndsEmpty (f :: fs) := by
  induction fs generalizing f with
  | nil => simpa [EndsEmpty] using h
  | cons g fs ih => exact ih (by simp only [formatsSize_cons] at h ⊢; omega)

theorem endsEmpty_cons {f : Format} {fs : List Format} (h : fs ≠ []) :
    EndsEmpty (f :: fs) ↔ EndsEmpty fs := by
  cases fs with
  | nil => exact absurd rfl h
  | cons g fs => exact Iff.rfl

/-- A stream that holds the bytes of all formats gives the decoded values and
moves past exactly these bytes, or fails at an item of no bytes at the end of a
byte array. -/
theorem unpackLoop_eq {vm : Jvm} {order : ByteOrder} {fs : List Format}
    {s : InputStream} {bs r : Bytes} (h : s.rest = bs ++ r)
    (hlen : bs.length = formatsSize fs) (hfs : ∀ f ∈ fs, f.Sampled) :
    unpackLoop vm order fs s =
      if StrictAtEnd vm s.kind ∧ r = [] ∧ EndsEmpty fs then .error .assertion
      else .ok (decodeItems order fs bs, s.advance (formatsSize fs)) := by
  induction fs generalizing s bs with
  | nil => simp [unpackLoop, decodeItems, EndsEmpty]
  | cons f fs ih =>
      rw [formatsSize_cons] at hlen
      have hitem : s.rest = bs.take f.size ++ (bs.drop f.size ++ r) := by
        rw [h, ← List.append_assoc, List.take_append_drop]
      have htake : (bs.take f.size).length = f.size := by simp [hlen]
      have hnext : (s.advance f.size).rest = bs.drop f.size ++ r := by
        rw [InputStream.rest_advance, hitem, List.drop_left' htake]
      rw [unpackLoop, unpackItem_eq hitem htake (hfs f (by simp))]
      by_cases hend : StrictAtEnd vm s.kind ∧ s.rest = []
      · -- no byte is left: this item and all later ones are empty
        have hnil : bs = [] ∧ r = [] := List.append_eq_nil_iff.mp (h ▸ hend.2)
        have hempty : EndsEmpty (f :: fs) := by
          apply endsEmpty_of_size_zero
          rw [formatsSize_cons, ← hlen, hnil.1, List.length_nil]
        rw [if_pos hend, if_pos ⟨hend.1, hnil.2, hempty⟩, error_bind]
      · rw [if_neg hend, ok_bind]
        simp only
        have hrest := ih hnext (by simp [hlen]) (fun g hg => hfs g (by simp [hg]))
        by_cases hfs' : fs = []
        · subst hfs'
          have hiff : ¬ (StrictAtEnd vm s.kind ∧ r = [] ∧ EndsEmpty [f]) := by
            rintro ⟨hstrict, rfl, hsize⟩
            have hbs : bs.length = 0 := by
              rw [hlen, formatsSize_nil, Nat.add_zero]
              exact hsize
            exact hend ⟨hstrict, by simp [h, List.length_eq_zero_iff.mp hbs]⟩
          rw [hrest, if_neg (fun hx => hx.2.2), if_neg hiff]
          simp [decodeItems]
        · by_cases hstuck : StrictAtEnd vm (s.advance f.size).kind ∧ r = [] ∧ EndsEmpty fs
          · rw [hrest, if_pos hstuck, error_bind, if_pos (by rwa [endsEmpty_cons hfs'])]
          · rw [hrest, if_neg hstuck, if_neg (by rwa [endsEmpty_cons hfs'])]
            simp [decodeItems]

theorem unpack_eq {vm : Jvm} {st : Struct3} {s : InputStream} {bs r : Bytes}
    (h : s.rest = bs ++ r) (hlen : bs.length = formatsSize st.formats)
    (hfs : ∀ f ∈ st.formats, f.Sampled) :
    st.unpack vm s =
      if StrictAtEnd vm s.kind ∧ r = [] ∧ EndsEmpty st.formats then .error .assertion
      else .ok (decodeItems st.byteOrder st.formats bs,
        s.advance (formatsSize st.formats)) :=
  unpackLoop_eq h hlen hfs

end Struct3

end BootImageEditor
