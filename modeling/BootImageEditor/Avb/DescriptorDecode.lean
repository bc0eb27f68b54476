import BootImageEditor.Avb.DescriptorFraming

/-!
# What the constructors of descriptors accept

A constructor reads the fixed part, compares `num_bytes_following` with the size it computes
from the declared lengths, and reads the fields by these lengths. The lengths come from the
stream, and the computation is in 32 bits. `Exact` compares the result with the declared
lengths as they stand in the stream.
-/

namespace BootImageEditor

open Codec Fallible Struct3 Helper

namespace Avb

/-! ## Reading from the start of a stream -/

theorem decodeItems_take {order : ByteOrder} {fs : List Format} {n : ℕ} {bs : Bytes}
    (h : formatsSize fs ≤ n) : decodeItems order fs (bs.take n) = decodeItems order fs bs := by
  induction fs generalizing n bs with
  | nil => rfl
  | cons f fs ih =>
      rw [formatsSize_cons] at h
      rw [decodeItems, decodeItems, List.take_take, Nat.min_eq_left (by omega), List.drop_take,
        ih (by omega)]

/-- Unpacking from a stream that holds all fields. -/
theorem unpackFormat_inv {vm : Jvm} {fmt : KString} {order : ByteOrder} {fs : List Format}
    {s s' : InputStream} {info : List Value} (hnew : Struct3.new vm fmt = .ok ⟨order, fs⟩)
    (hs : ∀ f ∈ fs, f.Sampled) (hlen : formatsSize fs ≤ s.rest.length)
    (h : unpackFormat vm fmt s = .ok (info, s')) :
    info = decodeItems order fs s.rest ∧ s' = s.advance (formatsSize fs) := by
  have hrest : s.rest = s.rest.take (formatsSize fs) ++ s.rest.drop (formatsSize fs) :=
    (List.take_append_drop _ _).symm
  have htake : (s.rest.take (formatsSize fs)).length = formatsSize fs := by
    rw [List.length_take, Nat.min_eq_left hlen]
  rw [unpackFormat_eq hnew, unpack_eq hrest htake hs] at h
  split at h
  · cases h
  · cases h
    exact ⟨decodeItems_take le_rfl, rfl⟩

theorem count_le_of_scan {c : Code} {n : ℕ} {cs : KString} {fs : List Format}
    (h : scan [] (decimal n ++ c.letter :: cs) = .ok fs) :
    n ≤ intMax ∧ ∃ gs, scan [] cs = .ok gs := by
  rw [scan_counted] at h
  by_cases hn : n ≤ intMax
  · rw [if_pos hn] at h
    obtain ⟨gs, hgs, -⟩ := bind_eq_ok.mp h
    exact ⟨hn, gs, hgs⟩
  · rw [if_neg hn] at h
    cases h

theorem scan_of_unpackFormat {vm : Jvm} {n : ℕ} {cs : KString} {s : InputStream}
    {p : List Value × InputStream} (h : unpackFormat vm (decimal n ++ cs) s = .ok p) :
    ∃ fs, scan [] (decimal n ++ cs) = .ok fs := by
  obtain ⟨st, hst, -⟩ := bind_eq_ok.mp h
  rw [new_decimal_append] at hst
  obtain ⟨fs, hfs, -⟩ := bind_eq_ok.mp hst
  exact ⟨fs, hfs⟩

/-- A template of one text. -/
theorem unpackFormat_s_inv {vm : Jvm} {a : ℕ} {s s' : InputStream} {info : List Value}
    (h : unpackFormat vm (decimal a ++ units "s") s = .ok (info, s')) :
    a ≤ intMax ∧ (a ≤ s.rest.length → info = [.string (Utf8.cString (slice 0 a s.rest))]) := by
  obtain ⟨fs, hfs⟩ := scan_of_unpackFormat h
  have ha := (count_le_of_scan (c := .s) hfs).1
  refine ⟨ha, fun hlen => ?_⟩
  rw [(unpackFormat_inv (new_s vm ha) (by simp [sampled_text]) (by simpa using hlen) h).1]
  simp [decodeItems, slice]

/-- A template of a text and an array. -/
theorem unpackFormat_sb_inv {vm : Jvm} {a b : ℕ} {s s' : InputStream} {info : List Value}
    (h : unpackFormat vm (decimal a ++ units "s" ++ decimal b ++ units "b") s = .ok (info, s')) :
    a ≤ intMax ∧ b ≤ intMax ∧ (a + b ≤ s.rest.length →
      info = [.string (Utf8.cString (slice 0 a s.rest)), .byteArray (slice a b s.rest)]) := by
  have hfmt : decimal a ++ units "s" ++ decimal b ++ units "b" =
      decimal a ++ Code.s.letter :: (decimal b ++ [Code.b.letter]) := by
    rw [List.append_assoc, List.append_assoc]
    rfl
  obtain ⟨fs, hfs⟩ := scan_of_unpackFormat (hfmt ▸ h)
  obtain ⟨ha, gs, hgs⟩ := count_le_of_scan hfs
  have hb := (count_le_of_scan hgs).1
  refine ⟨ha, hb, fun hlen => ?_⟩
  rw [(unpackFormat_inv (new_sb vm ha hb) (by simp [sampled_text, sampled_bytes])
    (by simpa using hlen) h).1]
  simp [decodeItems, slice]

/-- A template of a text and two arrays. -/
theorem unpackFormat_sbb_inv {vm : Jvm} {a b c : ℕ} {s s' : InputStream} {info : List Value}
    (h : unpackFormat vm (decimal a ++ units "s" ++ decimal b ++ units "b" ++ decimal c ++
      units "b") s = .ok (info, s')) :
    a ≤ intMax ∧ b ≤ intMax ∧ c ≤ intMax ∧ (a + b + c ≤ s.rest.length →
      info = [.string (Utf8.cString (slice 0 a s.rest)), .byteArray (slice a b s.rest),
        .byteArray (slice (a + b) c s.rest)]) := by
  have hfmt : decimal a ++ units "s" ++ decimal b ++ units "b" ++ decimal c ++ units "b" =
      decimal a ++ Code.s.letter :: (decimal b ++ Code.b.letter ::
        (decimal c ++ [Code.b.letter])) := by
    rw [List.append_assoc, List.append_assoc, List.append_assoc, List.append_assoc]
    rfl
  obtain ⟨fs, hfs⟩ := scan_of_unpackFormat (hfmt ▸ h)
  obtain ⟨ha, gs, hgs⟩ := count_le_of_scan hfs
  obtain ⟨hb, gs', hgs'⟩ := count_le_of_scan hgs
  have hc := (count_le_of_scan hgs').1
  refine ⟨ha, hb, hc, fun hlen => ?_⟩
  rw [(unpackFormat_inv (new_sbb vm ha hb hc) (by simp [sampled_text, sampled_bytes])
    (by simp; omega) h).1]
  simp [decodeItems, slice, List.drop_drop]

/-- A template of two texts with a byte between them. -/
theorem unpackFormat_sxs_inv {vm : Jvm} {a b : ℕ} {s s' : InputStream} {info : List Value}
    (h : unpackFormat vm (decimal a ++ units "sx" ++ decimal b ++ units "s") s =
      .ok (info, s')) :
    a ≤ intMax ∧ b ≤ intMax ∧ (a + 1 + b ≤ s.rest.length → ∃ x,
      info = [.string (Utf8.cString (slice 0 a s.rest)), x,
        .string (Utf8.cString (slice (a + 1) b s.rest))]) := by
  have hfmt : decimal a ++ units "sx" ++ decimal b ++ units "s" =
      decimal a ++ Code.s.letter :: Code.x.letter :: (decimal b ++ [Code.s.letter]) := by
    rw [List.append_assoc, List.append_assoc]
    rfl
  obtain ⟨fs, hfs⟩ := scan_of_unpackFormat (hfmt ▸ h)
  obtain ⟨ha, gs, hgs⟩ := count_le_of_scan hfs
  rw [scan_single] at hgs
  obtain ⟨gs', hgs', -⟩ := bind_eq_ok.mp hgs
  have hb := (count_le_of_scan hgs').1
  refine ⟨ha, hb, fun hlen => ?_⟩
  rw [(unpackFormat_inv (new_sxs vm ha hb) (by simp [sampled_text, sampled_padding])
    (by simp; omega) h).1]
  simp [decodeItems, slice, List.drop_drop]

/-! ## Declared lengths -/

theorem readField_lt (bs : Bytes) (offset w : ℕ) : readField bs offset w < 256 ^ w := by
  have hlt := ByteOrder.decode_lt .bigEndian (slice offset w bs)
  have hle : (slice offset w bs).length ≤ w := by
    rw [slice, List.length_take]
    exact Nat.min_le_left _ _
  exact lt_of_lt_of_le hlt (Nat.pow_le_pow_right (by omega) hle)

theorem toNat_ofNat_readField (bs : Bytes) (offset : ℕ) :
    (UInt64.ofNat (readField bs offset 8)).toNat = readField bs offset 8 :=
  UInt64.toNat_ofNat_of_lt' (readField_lt bs offset 8)

theorem toNat_ofNat_readField32 (bs : Bytes) (offset : ℕ) :
    (UInt32.ofNat (readField bs offset 4)).toNat = readField bs offset 4 :=
  UInt32.toNat_ofNat_of_lt' (readField_lt bs offset 4)

/-- The size computed in 32 bits is the exact one when that has 32 bits. -/
theorem toNat_roundToMultiple_eight {n : ℕ} (h : roundUp 8 n < 2 ^ 32) :
    (roundToMultiple (UInt32.ofNat n) 8).toNat = roundUp 8 n := by
  have hle := le_roundUp (p := 8) (by omega) n
  have heq : roundToMultiple (UInt32.ofNat n) 8 = UInt32.ofNat (roundUp 8 n) :=
    roundToMultiple_ofNat (p := 8) (by omega) (by omega) (by omega)
  rw [heq]
  exact UInt32.toNat_ofNat_of_lt' h

/-- The size that was expected in 32 bits is the size of the fields when it has 32 bits. -/
theorem eq_roundUp_iff_of_expected {size n : ℕ}
    (h : size = (roundToMultiple (UInt32.ofNat n) 8).toNat) :
    size = roundUp 8 n ↔ roundUp 8 n < 2 ^ 32 := by
  constructor
  · intro hexact
    rw [← hexact, h]
    exact UInt32.toNat_lt _
  · intro hround
    rw [h, toNat_roundToMultiple_eight hround]

theorem toULong_readField (bs : Bytes) (offset : ℕ) :
    toULong .bigEndian (List.take 8 (List.drop offset bs)) =
      UInt64.ofNat (readField bs offset 8) := rfl

theorem toUInt_readField (bs : Bytes) (offset : ℕ) :
    toUInt .bigEndian (List.take 4 (List.drop offset bs)) =
      UInt32.ofNat (readField bs offset 4) := rfl

namespace PropertyDescriptor

/-- The declared lengths are consistent, and the texts are the slices of these lengths. -/
def Exact (rest : Bytes) (d : PropertyDescriptor) : Prop :=
  33 + readField rest 16 8 + readField rest 24 8 ≤ rest.length ∧
    readField rest 8 8 = roundUp 8 (18 + readField rest 16 8 + readField rest 24 8) ∧
    d.key = Utf8.cString (slice 32 (readField rest 16 8) rest) ∧
    d.value = Utf8.cString
      (slice (33 + readField rest 16 8) (readField rest 24 8) rest)

/-- What the constructor has checked and read, in terms of the lengths cut to 32 bits. -/
theorem ofStream_inv {vm : Jvm} {s : InputStream} {seq : Int32} {d : PropertyDescriptor}
    (h : ofStream vm s seq = .ok d) (hlen : 32 ≤ s.rest.length) {k v : UInt32}
    (hk : (UInt64.ofNat (readField s.rest 16 8)).toUInt32 = k)
    (hv : (UInt64.ofNat (readField s.rest 24 8)).toUInt32 = v) :
    readField s.rest 8 8 = (roundToMultiple (32 - 16 + k + 1 + v + 1) 8).toNat ∧
      (33 + k.toNat + v.toNat ≤ s.rest.length →
        d.key = Utf8.cString (slice 32 k.toNat s.rest) ∧
        d.value = Utf8.cString (slice (33 + k.toNat) v.toNat s.rest)) := by
  obtain ⟨⟨info, s₁⟩, hinfo, h⟩ := bind_eq_ok.mp h
  obtain ⟨hvalues, hs₁⟩ := unpackFormat_inv (new_formatString vm) (by decide) hlen hinfo
  have hitems : decodeItems .bigEndian [.one .ulong, .one .ulong, .one .ulong, .one .ulong]
      s.rest = [.ulong (UInt64.ofNat (readField s.rest 0 8)),
        .ulong (UInt64.ofNat (readField s.rest 8 8)),
        .ulong (UInt64.ofNat (readField s.rest 16 8)),
        .ulong (UInt64.ofNat (readField s.rest 24 8))] := by
    simp only [decodeItems, size_one_ulong, List.drop_drop]
    rfl
  rw [hvalues, hitems] at h
  simp only [hk, hv] at h
  by_cases hcheck : UInt64.ofNat (readField s.rest 0 8) ≠ 0 ∨
      (roundToMultiple (32 - 16 + k + 1 + v + 1) 8).toUInt64 ≠
        UInt64.ofNat (readField s.rest 8 8)
  · rw [if_pos hcheck] at h
    cases h
  · rw [if_neg hcheck] at h
    rw [not_or, not_not, not_not] at hcheck
    obtain ⟨⟨info2, s₂⟩, hinfo2, h⟩ := bind_eq_ok.mp h
    have hrest : s₁.rest = s.rest.drop 32 := by
      rw [hs₁, InputStream.rest_advance]
      rfl
    obtain ⟨-, -, htexts⟩ := unpackFormat_sxs_inv hinfo2
    refine ⟨?_, fun hfit => ?_⟩
    · rw [← toNat_ofNat_readField s.rest 8, ← hcheck.2, UInt32.toNat_toUInt64]
    · obtain ⟨x, rfl⟩ := htexts (by rw [hrest, List.length_drop]; omega)
      cases h
      rw [hrest]
      simp only [slice, List.drop_drop, Nat.add_zero]
      refine ⟨trivial, ?_⟩
      rw [← Nat.add_assoc, Nat.add_right_comm]

/-- An accepted property is exact when the stream holds its texts and its size has 32 bits. -/
theorem exact_iff {vm : Jvm} {s : InputStream} {seq : Int32} {d : PropertyDescriptor}
    (h : ofStream vm s seq = .ok d) :
    Exact s.rest d ↔ 33 + readField s.rest 16 8 + readField s.rest 24 8 ≤ s.rest.length ∧
      roundUp 8 (18 + readField s.rest 16 8 + readField s.rest 24 8) < 2 ^ 32 := by
  unfold Exact
  refine and_congr_right fun hlen => ?_
  obtain ⟨k, hk⟩ : ∃ k, (UInt64.ofNat (readField s.rest 16 8)).toUInt32 = k := ⟨_, rfl⟩
  obtain ⟨v, hv⟩ : ∃ v, (UInt64.ofNat (readField s.rest 24 8)).toUInt32 = v := ⟨_, rfl⟩
  obtain ⟨hsize, htexts⟩ := ofStream_inv h (by omega) hk hv
  constructor
  · rintro ⟨hexact, -, -⟩
    rw [← hexact, hsize]
    exact UInt32.toNat_lt _
  · intro hround
    have hle := le_roundUp (p := 8) (by omega)
      (18 + readField s.rest 16 8 + readField s.rest 24 8)
    rw [UInt64.toUInt32_ofNat'] at hk hv
    have hkNat : k.toNat = readField s.rest 16 8 := by
      rw [← hk]
      exact UInt32.toNat_ofNat_of_lt' (by simp only [UInt32.size]; omega)
    have hvNat : v.toNat = readField s.rest 24 8 := by
      rw [← hv]
      exact UInt32.toNat_ofNat_of_lt' (by simp only [UInt32.size]; omega)
    have hsum : 32 - 16 + k + 1 + v + 1 =
        UInt32.ofNat (18 + readField s.rest 16 8 + readField s.rest 24 8) := by
      rw [← hk, ← hv]
      simp only [UInt32.ofNat_add]
      have h18 : UInt32.ofNat 18 = 18 := rfl
      rw [h18]
      grind
    rw [hsum, toNat_roundToMultiple_eight hround] at hsize
    rw [hkNat, hvNat] at htexts
    exact ⟨hsize, htexts hlen⟩

end PropertyDescriptor

namespace HashTreeDescriptor

/-- The declared lengths are consistent, and the fields are the slices of these lengths. -/
def Exact (rest : Bytes) (d : HashTreeDescriptor) : Prop :=
  180 + readField rest 104 4 + readField rest 108 4 + readField rest 112 4 ≤ rest.length ∧
    readField rest 8 8 = roundUp 8
      (164 + readField rest 104 4 + readField rest 108 4 + readField rest 112 4) ∧
    d.partitionName = Utf8.cString (slice 180 (readField rest 104 4) rest) ∧
    d.salt = slice (180 + readField rest 104 4) (readField rest 108 4) rest ∧
    d.rootDigest = slice (180 + readField rest 104 4 + readField rest 108 4)
      (readField rest 112 4) rest

theorem ofStream_inv {vm : Jvm} {s : InputStream} {seq : Int32} {d : HashTreeDescriptor}
    (h : ofStream vm s seq = .ok d) (hlen : 180 ≤ s.rest.length) :
    readField s.rest 8 8 = (roundToMultiple (UInt32.ofNat (164 + readField s.rest 104 4 +
        readField s.rest 108 4 + readField s.rest 112 4)) 8).toNat ∧
      (180 + readField s.rest 104 4 + readField s.rest 108 4 + readField s.rest 112 4 ≤
          s.rest.length →
        d.partitionName = Utf8.cString (slice 180 (readField s.rest 104 4) s.rest) ∧
        d.salt = slice (180 + readField s.rest 104 4) (readField s.rest 108 4) s.rest ∧
        d.rootDigest = slice (180 + readField s.rest 104 4 + readField s.rest 108 4)
          (readField s.rest 112 4) s.rest) := by
  obtain ⟨⟨info, s₁⟩, hinfo, h⟩ := bind_eq_ok.mp h
  obtain ⟨hvalues, hs₁⟩ := unpackFormat_inv (new_formatString vm) (by decide) hlen hinfo
  rw [hvalues] at h
  simp only [formats, decodeItems, decodeItem_one_ulong, decodeItem_one_uint, decodeItem_text,
    decodeItem_padding, size_one_ulong, size_one_uint, size_text, List.drop_drop,
    Nat.reduceAdd, toULong_readField, toUInt_readField] at h
  have hsum : 180 - 16 + UInt32.ofNat (readField s.rest 104 4) +
      UInt32.ofNat (readField s.rest 108 4) + UInt32.ofNat (readField s.rest 112 4) =
        UInt32.ofNat (164 + readField s.rest 104 4 + readField s.rest 108 4 +
          readField s.rest 112 4) := by
    simp only [UInt32.ofNat_add]
    rfl
  rw [hsum] at h
  by_cases hcheck : toULong .bigEndian (s.rest.take 8) ≠ 1 ∨
      UInt64.ofNat (readField s.rest 8 8) ≠ (roundToMultiple (UInt32.ofNat
        (164 + readField s.rest 104 4 + readField s.rest 108 4 + readField s.rest 112 4))
          8).toUInt64
  · rw [if_pos hcheck] at h
    cases h
  · rw [if_neg hcheck] at h
    rw [not_or, not_not, not_not] at hcheck
    obtain ⟨⟨info2, s₂⟩, hinfo2, h⟩ := bind_eq_ok.mp h
    have hrest : s₁.rest = s.rest.drop 180 := by
      rw [hs₁, InputStream.rest_advance]
      rfl
    simp only [toNat_ofNat_readField32] at hinfo2
    obtain ⟨-, -, -, hfields⟩ := unpackFormat_sbb_inv hinfo2
    refine ⟨?_, fun hfit => ?_⟩
    · rw [← toNat_ofNat_readField s.rest 8, hcheck.2, UInt32.toNat_toUInt64]
    · rw [hfields (by rw [hrest, List.length_drop]; omega)] at h
      cases h
      rw [hrest]
      simp only [slice, List.drop_drop, Nat.add_zero, ← Nat.add_assoc, and_self]

/-- An accepted hashtree descriptor is exact when the stream holds its fields and its size
has 32 bits. -/
theorem exact_iff {vm : Jvm} {s : InputStream} {seq : Int32} {d : HashTreeDescriptor}
    (h : ofStream vm s seq = .ok d) :
    Exact s.rest d ↔
      180 + readField s.rest 104 4 + readField s.rest 108 4 + readField s.rest 112 4 ≤
        s.rest.length ∧
      roundUp 8 (164 + readField s.rest 104 4 + readField s.rest 108 4 +
        readField s.rest 112 4) < 2 ^ 32 := by
  unfold Exact
  refine and_congr_right fun hlen => ?_
  obtain ⟨hsize, hfields⟩ := ofStream_inv h (by omega)
  rw [eq_roundUp_iff_of_expected hsize, and_iff_left_iff_imp]
  intro _
  exact hfields hlen

end HashTreeDescriptor

namespace HashDescriptor

/-- The declared lengths are consistent, and the fields are the slices of these lengths. -/
def Exact (rest : Bytes) (d : HashDescriptor) : Prop :=
  132 + readField rest 56 4 + readField rest 60 4 + readField rest 64 4 ≤ rest.length ∧
    readField rest 8 8 = roundUp 8
      (116 + (readField rest 56 4 + readField rest 60 4 + readField rest 64 4)) ∧
    d.partitionName = Utf8.cString (slice 132 (readField rest 56 4) rest) ∧
    d.salt = slice (132 + readField rest 56 4) (readField rest 60 4) rest ∧
    d.digest = slice (132 + readField rest 56 4 + readField rest 60 4)
      (readField rest 64 4) rest

/-- The three lengths are added in 32 bits, and the rest is computed in 64. -/
theorem expectedSize_eq (n : ℕ) :
    (roundToMultipleLong (132 - 16 + (UInt32.ofNat n).toUInt64.toInt64) 8).toUInt64.toNat =
      roundUp 8 (116 + n % 2 ^ 32) := by
  have hlt := Nat.mod_lt n (y := 2 ^ 32) (by omega)
  have hround := roundUp_lt (p := 8) (by omega) (116 + n % 2 ^ 32)
  have hword : (UInt32.ofNat n).toUInt64 = UInt64.ofNat (n % 2 ^ 32) := by
    apply UInt64.toNat_inj.mp
    rw [UInt32.toNat_toUInt64, UInt32.toNat_ofNat',
      UInt64.toNat_ofNat_of_lt' (by simp only [UInt64.size]; omega)]
  have hlong : (UInt32.ofNat n).toUInt64.toInt64 = Int64.ofNat (n % 2 ^ 32) := by
    rw [hword, UInt64.toInt64_ofNat']
  have hsum : 132 - 16 + Int64.ofNat (n % 2 ^ 32) = Int64.ofNat (116 + n % 2 ^ 32) := by
    rw [Int64.ofNat_add]
    rfl
  have hpage := roundToMultipleLong_ofNat (p := 8) (n := 116 + n % 2 ^ 32) (by omega) (by omega)
    (by unfold intMax; omega)
  have hpage' : roundToMultipleLong (Int64.ofNat (116 + n % 2 ^ 32)) 8 =
      Int64.ofNat (roundUp 8 (116 + n % 2 ^ 32)) := hpage
  rw [hlong, hsum, hpage', Int64.toUInt64_ofNat']
  exact UInt64.toNat_ofNat_of_lt' (by simp only [UInt64.size]; omega)

theorem ofStream_inv {vm : Jvm} {s : InputStream} {seq : Int32} {d : HashDescriptor}
    (h : ofStream vm s seq = .ok d) (hlen : 132 ≤ s.rest.length) :
    readField s.rest 8 8 = roundUp 8 (116 + (readField s.rest 56 4 + readField s.rest 60 4 +
        readField s.rest 64 4) % 2 ^ 32) ∧
      (132 + readField s.rest 56 4 + readField s.rest 60 4 + readField s.rest 64 4 ≤
          s.rest.length →
        d.partitionName = Utf8.cString (slice 132 (readField s.rest 56 4) s.rest) ∧
        d.salt = slice (132 + readField s.rest 56 4) (readField s.rest 60 4) s.rest ∧
        d.digest = slice (132 + readField s.rest 56 4 + readField s.rest 60 4)
          (readField s.rest 64 4) s.rest) := by
  obtain ⟨⟨info, s₁⟩, hinfo, h⟩ := bind_eq_ok.mp h
  obtain ⟨hvalues, hs₁⟩ := unpackFormat_inv (new_formatString vm) (by decide) hlen hinfo
  rw [hvalues] at h
  simp only [formats, decodeItems, decodeItem_one_ulong, decodeItem_one_uint, decodeItem_text,
    decodeItem_padding, size_one_ulong, size_one_uint, size_text, List.drop_drop,
    Nat.reduceAdd, toULong_readField, toUInt_readField, ← UInt32.ofNat_add] at h
  obtain ⟨expected, hexpected⟩ : ∃ expected, (roundToMultipleLong (132 - 16 +
      (UInt32.ofNat (readField s.rest 56 4 + readField s.rest 60 4 +
        readField s.rest 64 4)).toUInt64.toInt64) 8).toUInt64 = expected := ⟨_, rfl⟩
  rw [hexpected] at h
  by_cases hcheck : toULong .bigEndian (s.rest.take 8) ≠ 2 ∨
      expected ≠ UInt64.ofNat (readField s.rest 8 8)
  · rw [if_pos hcheck] at h
    cases h
  · rw [if_neg hcheck] at h
    rw [not_or, not_not, not_not] at hcheck
    obtain ⟨⟨payload, s₂⟩, hpayload, h⟩ := bind_eq_ok.mp h
    obtain ⟨u, -, h⟩ := bind_eq_ok.mp h
    have hrest : s₁.rest = s.rest.drop 132 := by
      rw [hs₁, InputStream.rest_advance]
      rfl
    simp only [toNat_ofNat_readField32] at hpayload
    obtain ⟨-, -, -, hfields⟩ := unpackFormat_sbb_inv hpayload
    refine ⟨?_, fun hfit => ?_⟩
    · rw [← toNat_ofNat_readField s.rest 8, ← hcheck.2, ← hexpected]
      exact expectedSize_eq _
    · simp only [hfields (by rw [hrest, List.length_drop]; omega)] at h
      cases h
      rw [hrest]
      simp only [slice, List.drop_drop, Nat.add_zero, ← Nat.add_assoc, and_self]

/-- An accepted hash descriptor is exact when the stream holds its fields and the sum of the
lengths has 32 bits. -/
theorem exact_iff {vm : Jvm} {s : InputStream} {seq : Int32} {d : HashDescriptor}
    (h : ofStream vm s seq = .ok d) :
    Exact s.rest d ↔
      132 + readField s.rest 56 4 + readField s.rest 60 4 + readField s.rest 64 4 ≤
        s.rest.length ∧
      readField s.rest 56 4 + readField s.rest 60 4 + readField s.rest 64 4 < 2 ^ 32 := by
  unfold Exact
  refine and_congr_right fun hlen => ?_
  obtain ⟨hsize, hfields⟩ := ofStream_inv h (by omega)
  obtain ⟨n, hn⟩ : ∃ n, readField s.rest 56 4 + readField s.rest 60 4 + readField s.rest 64 4 =
      n := ⟨_, rfl⟩
  rw [hn] at hsize ⊢
  constructor
  · rintro ⟨hexact, -⟩
    have hle := le_roundUp (p := 8) (by omega) (116 + n)
    have hlt := roundUp_lt (p := 8) (by omega) (116 + n % 2 ^ 32)
    rw [← hexact, hsize] at hle
    omega
  · intro hsum
    rw [Nat.mod_eq_of_lt hsum] at hsize
    exact ⟨hsize, hfields hlen⟩

end HashDescriptor

namespace KernelCmdlineDescriptor

/-- The declared length is consistent, and the text is the slice of this length. -/
def Exact (rest : Bytes) (d : KernelCmdlineDescriptor) : Prop :=
  24 + readField rest 20 4 ≤ rest.length ∧
    readField rest 8 8 = roundUp 8 (8 + readField rest 20 4) ∧
    d.cmdline = Utf8.cString (slice 24 (readField rest 20 4) rest)

theorem ofStream_inv {vm : Jvm} {s : InputStream} {seq : Int32} {d : KernelCmdlineDescriptor}
    (h : ofStream vm s seq = .ok d) (hlen : 24 ≤ s.rest.length) :
    readField s.rest 20 4 ≤ intMax ∧
      readField s.rest 8 8 =
        (roundToMultiple (UInt32.ofNat (8 + readField s.rest 20 4)) 8).toNat ∧
      (24 + readField s.rest 20 4 ≤ s.rest.length →
        d.cmdline = Utf8.cString (slice 24 (readField s.rest 20 4) s.rest)) := by
  obtain ⟨⟨info, s₁⟩, hinfo, h⟩ := bind_eq_ok.mp h
  obtain ⟨hvalues, hs₁⟩ := unpackFormat_inv (new_formatString vm) (by decide) hlen hinfo
  rw [hvalues] at h
  simp only [decodeItems, decodeItem_one_ulong, decodeItem_one_uint, size_one_ulong,
    size_one_uint, List.drop_drop, Nat.reduceAdd, toULong_readField, toUInt_readField] at h
  have hsum : 24 - 16 + UInt32.ofNat (readField s.rest 20 4) =
      UInt32.ofNat (8 + readField s.rest 20 4) := by
    rw [UInt32.ofNat_add]
    rfl
  rw [hsum] at h
  by_cases hcheck : toULong .bigEndian (s.rest.take 8) ≠ 3 ∨
      UInt64.ofNat (readField s.rest 8 8) ≠
        (roundToMultiple (UInt32.ofNat (8 + readField s.rest 20 4)) 8).toUInt64
  · rw [if_pos hcheck] at h
    cases h
  · rw [if_neg hcheck] at h
    rw [not_or, not_not, not_not] at hcheck
    obtain ⟨⟨info2, s₂⟩, hinfo2, h⟩ := bind_eq_ok.mp h
    have hrest : s₁.rest = s.rest.drop 24 := by
      rw [hs₁, InputStream.rest_advance]
      rfl
    simp only [toNat_ofNat_readField32] at hinfo2
    obtain ⟨hcount, hfields⟩ := unpackFormat_s_inv hinfo2
    refine ⟨hcount, ?_, fun hfit => ?_⟩
    · rw [← toNat_ofNat_readField s.rest 8, hcheck.2, UInt32.toNat_toUInt64]
    · rw [hfields (by rw [hrest, List.length_drop]; omega)] at h
      cases h
      rw [hrest]
      simp only [slice, List.drop_drop, Nat.add_zero]

/-- An accepted kernel cmdline descriptor is exact when the stream holds its text: a length
that would wrap is no count of a format string. -/
theorem exact_iff {vm : Jvm} {s : InputStream} {seq : Int32} {d : KernelCmdlineDescriptor}
    (h : ofStream vm s seq = .ok d) :
    Exact s.rest d ↔ 24 + readField s.rest 20 4 ≤ s.rest.length := by
  unfold Exact
  refine and_iff_left_of_imp fun hlen => ?_
  obtain ⟨hcount, hsize, hfields⟩ := ofStream_inv h (by omega)
  have hlt := roundUp_lt (p := 8) (by omega) (8 + readField s.rest 20 4)
  rw [toNat_roundToMultiple_eight (by unfold intMax at hcount; omega)] at hsize
  exact ⟨hsize, hfields hlen⟩

end KernelCmdlineDescriptor

namespace ChainPartitionDescriptor

/-- The declared lengths are consistent, and the fields are the slices of these lengths. -/
def Exact (rest : Bytes) (d : ChainPartitionDescriptor) : Prop :=
  92 + readField rest 20 4 + readField rest 24 4 ≤ rest.length ∧
    readField rest 8 8 = roundUp 8 (76 + readField rest 20 4 + readField rest 24 4) ∧
    d.partitionName = Utf8.cString (slice 92 (readField rest 20 4) rest) ∧
    d.pubkey = slice (92 + readField rest 20 4) (readField rest 24 4) rest

theorem ofStream_inv {vm : Jvm} {crypto : Crypto} {s : InputStream} {seq : Int32}
    {d : ChainPartitionDescriptor} (h : ofStream vm crypto s seq = .ok d)
    (hlen : 92 ≤ s.rest.length) :
    readField s.rest 8 8 = (roundToMultiple (UInt32.ofNat
        (76 + readField s.rest 20 4 + readField s.rest 24 4)) 8).toNat ∧
      (92 + readField s.rest 20 4 + readField s.rest 24 4 ≤ s.rest.length →
        d.partitionName = Utf8.cString (slice 92 (readField s.rest 20 4) s.rest) ∧
        d.pubkey = slice (92 + readField s.rest 20 4) (readField s.rest 24 4) s.rest) := by
  obtain ⟨st, -, h⟩ := bind_eq_ok.mp h
  split at h
  · cases h
  obtain ⟨⟨info, s₁⟩, hinfo, h⟩ := bind_eq_ok.mp h
  obtain ⟨hvalues, hs₁⟩ :=
    unpackFormat_inv (Wire.ChainPartition.new_formatString vm) (by decide) hlen hinfo
  rw [hvalues] at h
  simp only [decodeItems, decodeItem_one_ulong, decodeItem_one_uint, decodeItem_text,
    size_one_ulong, size_one_uint, List.drop_drop, Nat.reduceAdd, toULong_readField,
    toUInt_readField] at h
  have hsum : 92 - 16 + UInt32.ofNat (readField s.rest 20 4) +
      UInt32.ofNat (readField s.rest 24 4) =
        UInt32.ofNat (76 + readField s.rest 20 4 + readField s.rest 24 4) := by
    simp only [UInt32.ofNat_add]
    rfl
  rw [hsum] at h
  by_cases hcheck : toULong .bigEndian (s.rest.take 8) ≠ 4 ∨
      UInt64.ofNat (readField s.rest 8 8) ≠ (roundToMultiple (UInt32.ofNat
        (76 + readField s.rest 20 4 + readField s.rest 24 4)) 8).toUInt64
  · rw [if_pos hcheck] at h
    cases h
  · rw [if_neg hcheck] at h
    rw [not_or, not_not, not_not] at hcheck
    obtain ⟨⟨info2, s₂⟩, hinfo2, h⟩ := bind_eq_ok.mp h
    have hrest : s₁.rest = s.rest.drop 92 := by
      rw [hs₁, InputStream.rest_advance]
      rfl
    simp only [toNat_ofNat_readField32] at hinfo2
    obtain ⟨-, -, hfields⟩ := unpackFormat_sb_inv hinfo2
    refine ⟨?_, fun hfit => ?_⟩
    · rw [← toNat_ofNat_readField s.rest 8, hcheck.2, UInt32.toNat_toUInt64]
    · rw [hfields (by rw [hrest, List.length_drop]; omega)] at h
      cases h
      rw [hrest]
      simp only [slice, List.drop_drop, Nat.add_zero, and_self]

/-- An accepted chain partition descriptor is exact when the stream holds its fields and its
size has 32 bits. -/
theorem exact_iff {vm : Jvm} {crypto : Crypto} {s : InputStream} {seq : Int32}
    {d : ChainPartitionDescriptor} (h : ofStream vm crypto s seq = .ok d) :
    Exact s.rest d ↔
      92 + readField s.rest 20 4 + readField s.rest 24 4 ≤ s.rest.length ∧
        roundUp 8 (76 + readField s.rest 20 4 + readField s.rest 24 4) < 2 ^ 32 := by
  unfold Exact
  refine and_congr_right fun hlen => ?_
  obtain ⟨hsize, hfields⟩ := ofStream_inv h (by omega)
  rw [eq_roundUp_iff_of_expected hsize, and_iff_left_iff_imp]
  intro _
  exact hfields hlen

end ChainPartitionDescriptor

namespace UnknownDescriptor

/-- When `UnknownDescriptor(stream, seq)` returns, and what: the size field is cut to an `Int`
`n`, and one read has to deliver `n` bytes. -/
theorem ofStream_eq_ok_iff {vm : Jvm} {s s' : InputStream} {seq : Int32} {d : UnknownDescriptor} :
    ofStream vm s seq = .ok (d, s') ↔ ∃ tag nbf s₁ n,
      unpackFormat vm formatString s = .ok ([.ulong tag, .ulong nbf], s₁) ∧
        nbf.toUInt32.toInt32.toInt = (n : ℕ) ∧ (n : ℤ) = (s₁.read n).1 ∧
        d = { tag, numBytesFollowing := nbf, sequence := seq, data := (s₁.read n).2.1 } ∧
        s' = s₁.advance n := by
  constructor
  · intro h
    obtain ⟨⟨info, s₁⟩, hinfo, h⟩ := bind_eq_ok.mp h
    simp only at h
    split at h
    · next tag nbf =>
        by_cases hneg : nbf.toUInt32.toInt32.toInt < 0
        · rw [if_pos hneg] at h
          cases h
        · rw [if_neg hneg] at h
          obtain ⟨n, hn⟩ := Int.eq_ofNat_of_zero_le (not_lt.mp hneg)
          rw [hn, Int.toNat_natCast] at h
          by_cases hcount : (n : ℤ) ≠ (s₁.read n).1
          · rw [if_pos hcount] at h
            cases h
          · rw [if_neg hcount] at h
            rw [not_not] at hcount
            rw [InputStream.read_stream hcount] at h
            cases h
            exact ⟨tag, nbf, s₁, n, hinfo, hn, hcount, rfl, rfl⟩
    · cases h
  · rintro ⟨tag, nbf, s₁, n, hinfo, hn, hcount, rfl, rfl⟩
    unfold ofStream
    rw [hinfo, ok_bind]
    simp only [hn, Int.toNat_natCast]
    rw [if_neg (by omega), if_neg (not_not.mpr hcount), InputStream.read_stream hcount]

/-- The data of a record have as many bytes as the `Int` its size field is cut to. -/
theorem length_of_ofStream {vm : Jvm} {s s' : InputStream} {seq : Int32} {d : UnknownDescriptor}
    (h : ofStream vm s seq = .ok (d, s')) :
    (d.data.length : ℤ) = d.numBytesFollowing.toUInt32.toInt32.toInt := by
  obtain ⟨tag, nbf, s₁, n, -, hn, -, rfl, -⟩ := ofStream_eq_ok_iff.mp h
  show ((s₁.read n).2.1.length : ℤ) = nbf.toUInt32.toInt32.toInt
  rw [s₁.length_read, hn]

/-- The size field of the record is taken as an `Int`. -/
theorem exact_iff {vm : Jvm} {s s' : InputStream} {seq : Int32} {d : UnknownDescriptor}
    (h : ofStream vm s seq = .ok (d, s')) :
    d.data.length = d.numBytesFollowing.toNat ↔ d.numBytesFollowing.toNat < 2 ^ 31 := by
  have hlen := length_of_ofStream h
  rw [toInt_cut] at hlen
  by_cases hcut : d.numBytesFollowing.toNat % 2 ^ 32 < 2 ^ 31
  · rw [if_pos hcut] at hlen
    omega
  · rw [if_neg hcut] at hlen
    omega

end UnknownDescriptor

/-! ## All constructors -/

/-- What each constructor accepts is exact precisely when the stream holds the fixed part and
the declared fields, and the computation of the expected size does not leave its 32 bits; for
a record of unknown kind, when the size field is that of an array. -/
theorem constructors_exact_iff (vm : Jvm) (crypto : Crypto) (s : InputStream) (seq : Int32) :
    (∀ d, PropertyDescriptor.ofStream vm s seq = .ok d →
      (PropertyDescriptor.Exact s.rest d ↔
        33 + readField s.rest 16 8 + readField s.rest 24 8 ≤ s.rest.length ∧
          roundUp 8 (18 + readField s.rest 16 8 + readField s.rest 24 8) < 2 ^ 32)) ∧
    (∀ d, HashTreeDescriptor.ofStream vm s seq = .ok d →
      (HashTreeDescriptor.Exact s.rest d ↔
        180 + readField s.rest 104 4 + readField s.rest 108 4 + readField s.rest 112 4 ≤
            s.rest.length ∧
          roundUp 8 (164 + readField s.rest 104 4 + readField s.rest 108 4 +
            readField s.rest 112 4) < 2 ^ 32)) ∧
    (∀ d, HashDescriptor.ofStream vm s seq = .ok d →
      (HashDescriptor.Exact s.rest d ↔
        132 + readField s.rest 56 4 + readField s.rest 60 4 + readField s.rest 64 4 ≤
            s.rest.length ∧
          readField s.rest 56 4 + readField s.rest 60 4 + readField s.rest 64 4 < 2 ^ 32)) ∧
    (∀ d, KernelCmdlineDescriptor.ofStream vm s seq = .ok d →
      (KernelCmdlineDescriptor.Exact s.rest d ↔
        24 + readField s.rest 20 4 ≤ s.rest.length)) ∧
    (∀ d, ChainPartitionDescriptor.ofStream vm crypto s seq = .ok d →
      (ChainPartitionDescriptor.Exact s.rest d ↔
        92 + readField s.rest 20 4 + readField s.rest 24 4 ≤ s.rest.length ∧
          roundUp 8 (76 + readField s.rest 20 4 + readField s.rest 24 4) < 2 ^ 32)) ∧
    (∀ d s', UnknownDescriptor.ofStream vm s seq = .ok (d, s') →
      (d.data.length = d.numBytesFollowing.toNat ↔ d.numBytesFollowing.toNat < 2 ^ 31)) :=
  ⟨fun _ => PropertyDescriptor.exact_iff, fun _ => HashTreeDescriptor.exact_iff,
    fun _ => HashDescriptor.exact_iff, fun _ => KernelCmdlineDescriptor.exact_iff,
    fun _ => ChainPartitionDescriptor.exact_iff, fun _ _ => UnknownDescriptor.exact_iff⟩

/-- A property of one letter and one letter. -/
theorem constructors_exact_iff_applies :
    let w : Wire.Property := ⟨[0x61], [0x62]⟩
    let rest := Wire.record 0 w.body
    PropertyDescriptor.Exact rest (w.decoded 0) ↔
      33 + readField rest 16 8 + readField rest 24 8 ≤ rest.length ∧
        roundUp 8 (18 + readField rest 16 8 + readField rest 24 8) < 2 ^ 32 := by
  intro w rest
  let vm : Jvm := ⟨true, .littleEndian⟩
  let crypto : Crypto := ⟨fun _ _ => [], fun _ => .error .io, fun _ => .error .io,
    fun _ _ => .error .io, zeros⟩
  exact (constructors_exact_iff vm crypto (.byteArrayInputStream rest) 0).1 _
    (Wire.Property.ofStream_record vm w (by decide) 0)

/-- A property with key length `2^32 + 1` and value length 0 is accepted as one with a key of
one letter. -/
theorem property_key_length :
    let vm : Jvm := ⟨true, .littleEndian⟩
    let rest : Bytes := [be 8 0, be 8 24, be 8 (2 ^ 32 + 1), be 8 0, [0x61], zeros 7].flatten
    ∃ d, PropertyDescriptor.ofStream vm (.byteArrayInputStream rest) 0 = .ok d ∧
      readField rest 8 8 ≠ roundUp 8 (18 + readField rest 16 8 + readField rest 24 8) := by
  intro vm rest
  exact ⟨{ tag := 0, numBytesFollowing := 24, key := units "a", value := [] },
    by decide +kernel, by decide +kernel⟩

end Avb

end BootImageEditor
