import BootImageEditor.Struct3.RoundTrip

/-!
# Integers through a format

Every integer code takes arguments of two or three integer types, each with its own range
assertion and its own narrowing. With assertions enabled all of them keep the number, but one:
the assertion of `I` and `L` on a `Long` looks at the sign only, and `toInt()` then drops the
high half.
-/

namespace BootImageEditor

open Codec Fallible

/-- `h`, `H`, `i`, `l`, `I`, `L`, `q` and `Q`. -/
def FormatType.integer : FormatType → Bool
  | short | ushort | int | uint | long | ulong => true
  | _ => false

/-- The number a value of an integer type stands for. -/
def Value.number : Value → Option ℤ
  | .short n => some n.toInt
  | .ushort n => some n.toNat
  | .int n => some n.toInt
  | .uint n => some n.toNat
  | .long n => some n.toInt
  | .ulong n => some n.toNat
  | _ => none

namespace Struct3

/-- An `I` or `L` item is given a `Long` of more than 32 bits. -/
def CutLong (f : Format) (arg : Value) : Prop :=
  f.typeName = .uint ∧ ∃ n : Int64, arg = .long n ∧ 2 ^ 32 ≤ n.toInt

/-! ## One item -/

/-- With assertions enabled an argument that is packed fills its item. -/
theorem fills_of_packItem {vm : Jvm} {order : ByteOrder} {f : Format} {arg : Value} {bs : Bytes}
    (hvm : vm.assertionsEnabled = true) (h : packItem vm order f arg = .ok bs) :
    Fills f arg := by
  intro htype
  rw [packItem, htype] at h
  simp only [packUShort, hvm, if_true] at h
  cases arg <;> simp at h ⊢

theorem allFill_of_packItems {vm : Jvm} {order : ByteOrder} {fs : List Format}
    {args : List Value} {bs : Bytes} (hvm : vm.assertionsEnabled = true)
    (h : packItems vm order fs args = .ok bs) : AllFill fs args := by
  induction fs generalizing args bs with
  | nil => exact trivial
  | cons f fs ih =>
      cases args with
      | nil => exact trivial
      | cons arg args =>
          obtain ⟨b, hb, h⟩ := bind_eq_ok.mp h
          obtain ⟨bs', hbs, -⟩ := bind_eq_ok.mp h
          exact ⟨fills_of_packItem hvm hb, ih hbs⟩

/-- With assertions enabled a condition that is asserted holds afterwards. -/
theorem of_assert {vm : Jvm} {condition : Bool} {u : Unit} (hvm : vm.assertionsEnabled = true)
    (h : vm.assert condition = .ok u) : condition = true := by
  rcases (vm.assert_eq_ok_iff condition u).mp h with h | h
  · exact h
  · rw [hvm] at h
    cases h

theorem size_pos_of_integer {f : Format} (hf : f.typeName.integer = true) : 0 < f.size := by
  have hexp : f.typeName.primitive = false := by
    cases htype : f.typeName <;> simp [htype, FormatType.integer, FormatType.primitive] at hf ⊢
  rw [Format.size_of_exploded hexp]
  cases f.typeName <;> simp [FormatType.width]

/-- With assertions enabled what is packed fills its formats. -/
theorem allFill_of_pack {vm : Jvm} {st : Struct3} {args : List Value} {bs : Bytes}
    (hvm : vm.assertionsEnabled = true) (h : st.pack vm args = .ok bs) :
    AllFill st.formats args := by
  unfold pack at h
  by_cases hlen : args.length = st.formats.length
  · rw [if_neg (by simpa using hlen)] at h
    obtain ⟨bf, halloc, h⟩ := bind_eq_ok.mp h
    obtain ⟨bf', hloop, -⟩ := bind_eq_ok.mp h
    have hnil := (capacity_allocate halloc).1
    obtain ⟨out, hout, -, -⟩ := (packLoop_eq_ok_iff (by simp [hnil])).mp hloop
    exact allFill_of_packItems hvm hout
  · rw [if_pos (by simpa using hlen)] at h
    cases h

/-! ## Narrowing -/

theorem natCast_toUInt16 (n : Int16) : (n.toUInt16.toNat : ℤ) = n.toInt % 2 ^ 16 := by
  have hword : (n.toUInt16.toNat : ℤ) = n.toBitVec.toNat := rfl
  have hint : n.toInt = n.toBitVec.toInt := rfl
  have hlt := n.toBitVec.isLt
  rw [hword, hint, BitVec.toInt_eq_toNat_cond]
  split <;> omega

theorem natCast_toUInt32 (n : Int32) : (n.toUInt32.toNat : ℤ) = n.toInt % 2 ^ 32 := by
  have hword : (n.toUInt32.toNat : ℤ) = n.toBitVec.toNat := rfl
  have hint : n.toInt = n.toBitVec.toInt := rfl
  have hlt := n.toBitVec.isLt
  rw [hword, hint, BitVec.toInt_eq_toNat_cond]
  split <;> omega

theorem natCast_toUInt64 (n : Int64) : (n.toUInt64.toNat : ℤ) = n.toInt % 2 ^ 64 := by
  have hword : (n.toUInt64.toNat : ℤ) = n.toBitVec.toNat := rfl
  have hint : n.toInt = n.toBitVec.toInt := rfl
  have hlt := n.toBitVec.isLt
  rw [hword, hint, BitVec.toInt_eq_toNat_cond]
  split <;> omega

/-- `toShort()` of an `Int`, as an unsigned number. -/
theorem natCast_toInt16_toUInt16 (n : Int32) :
    (n.toInt16.toUInt16.toNat : ℤ) = n.toInt % 2 ^ 16 := by
  rw [natCast_toUInt16, Int32.toInt_toInt16]
  exact Int.bmod_emod

/-- `toInt()` of a `Long`, as an unsigned number. -/
theorem natCast_toInt32_toUInt32 (n : Int64) :
    (n.toInt32.toUInt32.toNat : ℤ) = n.toInt % 2 ^ 32 := by
  rw [natCast_toUInt32, Int64.toInt_toInt32]
  exact Int.bmod_emod

/-- What is read back is the number that was packed, but for the high half of a long
argument. -/
theorem number_readBack {vm : Jvm} {order : ByteOrder} {f : Format} {arg : Value} {bs : Bytes}
    {k : ℤ} (hvm : vm.assertionsEnabled = true) (hf : f.typeName.integer = true)
    (hk : arg.number = some k) (h : packItem vm order f arg = .ok bs) :
    (readBack f arg).number = some k ↔ ¬ CutLong f arg := by
  unfold packItem at h
  unfold readBack CutLong
  cases htype : f.typeName <;> simp only [htype, FormatType.integer, reduceCtorEq] at hf h ⊢
  case short =>
    unfold packShort at h
    cases arg <;> simp only [Value.number, reduceCtorEq, Option.some.injEq] at hk h <;>
      subst hk
    case short n => simp [Value.number]
    case int n =>
      obtain ⟨u, hassert, -⟩ := bind_eq_ok.mp h
      have hrange := of_assert hvm hassert
      simp only [Bool.and_eq_true, decide_eq_true_eq] at hrange
      have hnum : n.toInt16.toInt = n.toInt := by
        rw [Int32.toInt_toInt16, Int.bmod_def]
        split <;> omega
      simp [Value.number, hnum]
  case ushort =>
    unfold packUShort at h
    simp only [hvm, if_true] at h
    cases arg <;> simp only [Value.number, reduceCtorEq, Option.some.injEq] at hk h <;>
      subst hk
    case ushort n => simp [Value.number]
    case int n =>
      obtain ⟨u, hassert, -⟩ := bind_eq_ok.mp h
      have hrange := of_assert hvm hassert
      simp only [Bool.and_eq_true, decide_eq_true_eq] at hrange
      have hnum := natCast_toInt16_toUInt16 n
      simp only [Value.number, Option.some.injEq, false_and, not_false_eq_true, iff_true]
      omega
    case uint n =>
      obtain ⟨u, hassert, -⟩ := bind_eq_ok.mp h
      have hrange := of_assert hvm hassert
      simp only [decide_eq_true_eq] at hrange
      have hnum := UInt32.toNat_toUInt16 n
      simp only [Value.number, Option.some.injEq, false_and, not_false_eq_true, iff_true]
      omega
  case int =>
    unfold packInt at h
    cases arg <;> simp only [Value.number, reduceCtorEq, Option.some.injEq] at hk h
    subst hk
    case int n => simp [Value.number]
  case uint =>
    unfold packUInt at h
    cases arg <;> simp only [Value.number, reduceCtorEq, Option.some.injEq] at hk h <;>
      subst hk
    case uint n => simp [Value.number]
    case int n =>
      obtain ⟨u, hassert, -⟩ := bind_eq_ok.mp h
      have hrange := of_assert hvm hassert
      simp only [decide_eq_true_eq] at hrange
      have hlt := n.toInt_lt
      have hnum := natCast_toUInt32 n
      simp only [Value.number, Option.some.injEq, true_and, reduceCtorEq, false_and,
        exists_false, not_false_eq_true, iff_true]
      omega
    case long n =>
      -- the assertion bounds the argument below only
      obtain ⟨u, hassert, -⟩ := bind_eq_ok.mp h
      have hrange := of_assert hvm hassert
      simp only [decide_eq_true_eq] at hrange
      have hnum := natCast_toInt32_toUInt32 n
      simp only [Value.number, Option.some.injEq, true_and, Value.long.injEq, exists_eq_left']
      omega
  case long =>
    unfold packLong at h
    cases arg <;> simp only [Value.number, reduceCtorEq, Option.some.injEq] at hk h <;>
      subst hk
    case long n => simp [Value.number]
    case int n => simp [Value.number, Int32.toInt_toInt64]
  case ulong =>
    unfold packULong at h
    cases arg <;> simp only [Value.number, reduceCtorEq, Option.some.injEq] at hk h <;>
      subst hk
    case ulong n => simp [Value.number]
    case int n =>
      obtain ⟨u, hassert, -⟩ := bind_eq_ok.mp h
      have hrange := of_assert hvm hassert
      simp only [decide_eq_true_eq] at hrange
      have hlt := n.toInt_lt
      have hnum := natCast_toUInt64 n.toInt64
      rw [Int32.toInt_toInt64] at hnum
      simp only [Value.number, Option.some.injEq, false_and, not_false_eq_true, iff_true]
      omega
    case long n =>
      obtain ⟨u, hassert, -⟩ := bind_eq_ok.mp h
      have hrange := of_assert hvm hassert
      simp only [decide_eq_true_eq] at hrange
      have hlt := n.toInt_lt
      have hnum := natCast_toUInt64 n
      simp only [Value.number, Option.some.injEq, false_and, not_false_eq_true, iff_true]
      omega

/-- The bytes of an integer item give the number back, or packing throws, unless a `Long`
is cut. -/
theorem packItem_number_iff {vm : Jvm} {order : ByteOrder} {f : Format} {arg : Value} {k : ℤ}
    (hvm : vm.assertionsEnabled = true) (hf : f.typeName.integer = true)
    (hk : arg.number = some k) :
    (∀ bs, packItem vm order f arg = .ok bs →
      (decodeItem order f bs).number = some k) ↔ ¬ CutLong f arg := by
  have hsampled : f.Sampled := by
    intro htype
    rw [htype] at hf
    cases hf
  have htext : Text arg := by
    intro s harg
    rw [harg] at hk
    cases hk
  constructor
  · rintro h ⟨htype, n, rfl, hn⟩
    have hpack : packItem vm order f (.long n) = .ok (order.encode 4 n.toInt32.toUInt32.toNat) := by
      rw [packItem, htype]
      simp only [packUInt]
      rw [Jvm.assert_of_true _ (by simp; omega), ok_bind]
    have hback := h _ hpack
    rw [decodeItem_packItem hpack (fills_of_packItem hvm hpack) hsampled htext] at hback
    exact (number_readBack hvm hf hk hpack).mp hback ⟨htype, n, rfl, hn⟩
  · intro hcut bs hpack
    rw [decodeItem_packItem hpack (fills_of_packItem hvm hpack) hsampled htext]
    exact (number_readBack hvm hf hk hpack).mpr hcut

/-! ## A field of a packed format -/

/-- The bytes of the item at a position stand behind those of the items before it. -/
theorem drop_packItems {vm : Jvm} {order : ByteOrder} {fs : List Format} {args : List Value}
    {bs : Bytes} {i : ℕ} {f : Format} {arg : Value} (h : packItems vm order fs args = .ok bs)
    (hfill : AllFill fs args) (hf : fs[i]? = some f) (harg : args[i]? = some arg) :
    ∃ b r, packItem vm order f arg = .ok b ∧
      bs.drop (formatsSize (fs.take i)) = b ++ r := by
  induction fs generalizing args bs i with
  | nil => simp at hf
  | cons g fs ih =>
      cases args with
      | nil => simp at harg
      | cons a args =>
          obtain ⟨b, hb, h⟩ := bind_eq_ok.mp h
          obtain ⟨bs', hbs, h⟩ := bind_eq_ok.mp h
          cases h
          cases i with
          | zero =>
              cases hf
              cases harg
              exact ⟨b, bs', hb, rfl⟩
          | succ i =>
              obtain ⟨c, r, hc, hdrop⟩ := ih hbs hfill.2 (by simpa using hf) (by simpa using harg)
              refine ⟨c, r, hc, ?_⟩
              rw [List.take_succ_cons, formatsSize_cons, ← length_packItem hb hfill.1,
                ← List.drop_drop, List.drop_left, hdrop]

/-- Integers through a whole format, with assertions enabled: each integer item by itself gives
its number back or is refused, unless a `Long` of more than 32 bits is given to an `I` or `L`
item; and a packed format, read at the item, gives the number under the same condition. -/
theorem pack_number_iff {vm : Jvm} {fmt : KString} {st : Struct3} {args : List Value} {i : ℕ}
    {f : Format} {arg : Value} {k : ℤ} (hvm : vm.assertionsEnabled = true)
    (hnew : new vm fmt = .ok st) (hf : st.formats[i]? = some f) (harg : args[i]? = some arg)
    (hint : f.typeName.integer = true) (hk : arg.number = some k) :
    ((∀ bs, packItem vm st.byteOrder f arg = .ok bs →
        (decodeItem st.byteOrder f bs).number = some k) ↔ ¬ CutLong f arg) ∧
      ∀ bs, packFormat vm fmt args = .ok bs →
        ∀ (vm' : Jvm) (s : InputStream),
          s.rest = bs.drop (formatsSize (st.formats.take i)) →
            ∃ v, unpackItem vm' st.byteOrder f s = .ok (v, s.advance f.size) ∧
              (v.number = some k ↔ ¬ CutLong f arg) := by
  refine ⟨packItem_number_iff hvm hint hk, ?_⟩
  intro bs hpack vm' s hs
  rw [packFormat_eq hnew] at hpack
  have hsampled : f.Sampled := by
    intro htype
    rw [htype] at hint
    cases hint
  have htext : Text arg := by
    intro t hargt
    rw [hargt] at hk
    cases hk
  have hfill : AllFill st.formats args := allFill_of_pack hvm hpack
  obtain ⟨-, -, hitems⟩ := (pack_eq_ok_iff hfill).mp hpack
  obtain ⟨b, r, hb, hdrop⟩ := drop_packItems hitems hfill hf harg
  have hfills := fills_of_packItem hvm hb
  have hlen : b.length = f.size := length_packItem hb hfills
  have hrest : s.rest = b ++ r := hs.trans hdrop
  have hpos : 0 < b.length := by
    rw [hlen]
    exact size_pos_of_integer hint
  have hne : s.rest ≠ [] := by
    rw [hrest]
    exact List.append_ne_nil_of_left_ne_nil (List.length_pos_iff.mp hpos) r
  refine ⟨decodeItem st.byteOrder f b, ?_, ?_⟩
  · rw [unpackItem_eq hrest hlen hsampled, if_neg (fun hstrict => hne hstrict.2)]
  · rw [decodeItem_packItem hb hfills hsampled htext]
    exact number_readBack hvm hint hk hb

theorem pack_number_iff_byte_uint :
    ((∀ bs, packItem ⟨true, .littleEndian⟩ .bigEndian (.one .uint) (.uint 7) = .ok bs →
        (decodeItem .bigEndian (.one .uint) bs).number = some 7) ↔
          ¬ CutLong (.one .uint) (.uint 7)) ∧
      ∀ bs, packFormat ⟨true, .littleEndian⟩ (units ">2bI") [.byteArray [1], .uint 7] = .ok bs →
        ∀ (vm' : Jvm) (s : InputStream),
          s.rest = bs.drop (formatsSize [.bytes 2]) →
            ∃ v, unpackItem vm' .bigEndian (.one .uint) s =
                .ok (v, s.advance (Format.one .uint).size) ∧
              (v.number = some 7 ↔ ¬ CutLong (.one .uint) (.uint 7)) := by
  have hnew : new ⟨true, .littleEndian⟩ (units ">2bI") =
      .ok ⟨.bigEndian, [.bytes 2, .one .uint]⟩ := by decide +kernel
  exact pack_number_iff (i := 1) rfl hnew rfl rfl rfl rfl

/-- A `Long` of 2^32 is packed as the `UInt` 0. -/
theorem pack_uint_cuts_long :
    packFormat ⟨true, .littleEndian⟩ (units "I") [.long 4294967296] = .ok [0, 0, 0, 0] ∧
      unpackFormat ⟨true, .littleEndian⟩ (units "I") (.byteArrayInputStream [0, 0, 0, 0]) =
        .ok ([.uint 0], (InputStream.byteArrayInputStream [0, 0, 0, 0]).advance 4) := by
  decide +kernel

end Struct3

end BootImageEditor
