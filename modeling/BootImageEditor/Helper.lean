import BootImageEditor.Library.Align
import BootImageEditor.Struct3.FormatString

/-!
# Helper

The functions of `Helper` that the binary formats are built with: joining
arrays, rounding sizes, padding, and the names of digests.
-/

namespace BootImageEditor

open Codec Fallible

namespace Helper

/-- `join(source)`: a `ByteArrayOutputStream` holds one array. -/
def join (source : List Bytes) : Result Bytes :=
  if source.flatten.length ≤ intMax then .ok source.flatten else .error .outOfMemory

/-- `round_to_multiple(size: UInt, page: UInt)`. -/
def roundToMultiple (size page : UInt32) : UInt32 :=
  let remainder := size % page
  if remainder = 0 then size else size + page - remainder

/-- `round_to_multiple(size: Long, page: Int)`. -/
def roundToMultipleLong (size : Int64) (page : Int32) : Int64 :=
  let remainder := size % page.toInt64
  if remainder = 0 then size else size + page.toInt64 - remainder

/-- Text of a signed number in string templates. -/
def template (n : ℤ) : KString :=
  if n < 0 then units "-" ++ decimal n.natAbs else decimal n.natAbs

/-- `Struct3("${n}x").pack(arg)`. -/
def packX (vm : Jvm) (n : ℤ) (arg : Value) : Result Bytes :=
  Struct3.packFormat vm (template n ++ units "x") [arg]

/-- `paddingWith(pageSize, paddingHead)`. -/
def paddingWith (vm : Jvm) (data : Bytes) (pageSize : UInt32) (paddingHead : Bool) :
    Result Bytes :=
  let size := UInt32.ofNat data.length
  let paddingNeeded := roundToMultiple size pageSize - size
  if 0 < paddingNeeded then do
    let padding ← packX vm paddingNeeded.toNat .null
    if paddingHead then join [padding, data] else join [data, padding]
  else .ok data

def pyAlg2java (alg : KString) : Result KString :=
  if alg = units "sha1" then .ok (units "sha-1")
  else if alg = units "sha224" then .ok (units "sha-224")
  else if alg = units "sha256" then .ok (units "sha-256")
  else if alg = units "sha384" then .ok (units "sha-384")
  else if alg = units "sha512" then .ok (units "sha-512")
  else .error (.illegalArgument "unknown algorithm")

/-- `toHexString(inData)`: two hexadecimal digits for each byte. -/
def toHexString (inData : Bytes) : KString :=
  inData.flatMap fun b =>
    [Numeral.digitUnit (b.toNat / 16), Numeral.digitUnit (b.toNat % 16)]

@[simp] theorem length_toHexString (inData : Bytes) :
    (toHexString inData).length = 2 * inData.length := by
  induction inData with
  | nil => rfl
  | cons b bs ih =>
      have hcons : toHexString (b :: bs) =
          [Numeral.digitUnit (b.toNat / 16), Numeral.digitUnit (b.toNat % 16)] ++
            toHexString bs := List.flatMap_cons
      rw [hcons, List.length_append, ih, List.length_cons]
      simp
      omega

theorem join_eq_ok_iff {source : List Bytes} {bs : Bytes} :
    join source = .ok bs ↔ source.flatten.length ≤ intMax ∧ bs = source.flatten := by
  unfold join
  by_cases h : source.flatten.length ≤ intMax
  · rw [if_pos h, Except.ok.injEq, eq_comm]
    exact (and_iff_right h).symm
  · rw [if_neg h]
    exact Iff.intro (fun h' => by cases h') (fun h' => absurd h'.1 h)

theorem join_of_le {source : List Bytes} (h : source.flatten.length ≤ intMax) :
    join source = .ok source.flatten := join_eq_ok_iff.mpr ⟨h, rfl⟩

/-! ## Rounding -/

theorem roundToMultiple_ofNat {n p : ℕ} (hp : 0 < p) (hn : n < 2 ^ 32) (hp' : p < 2 ^ 32) :
    roundToMultiple (UInt32.ofNat n) (UInt32.ofNat p) = UInt32.ofNat (roundUp p n) := by
  have hmod : UInt32.ofNat n % UInt32.ofNat p = UInt32.ofNat (n % p) :=
    (UInt32.ofNat_mod hn hp').symm
  have hlt := Nat.mod_lt n hp
  unfold roundToMultiple
  rw [hmod]
  by_cases hzero : n % p = 0
  · rw [hzero, roundUp_eq_self hp hzero]
    rfl
  · have hne : UInt32.ofNat (n % p) ≠ 0 := by
      intro h0
      have h := congrArg UInt32.toNat h0
      rw [UInt32.toNat_ofNat_of_lt' (by simp only [UInt32.size]; omega)] at h
      exact hzero h
    simp only [if_neg hne]
    rw [roundUp_of_mod_ne_zero hp hzero, UInt32.ofNat_sub (by omega), UInt32.ofNat_add]

theorem int64_ofNat_mod {n p : ℕ} (hn : n < 2 ^ 63) (hp : p < 2 ^ 63) :
    Int64.ofNat n % Int64.ofNat p = Int64.ofNat (n % p) := by
  have hle := Nat.mod_le n p
  apply Int64.toInt_inj.mp
  rw [Int64.toInt_ofNat_of_lt (by omega), ← Int64.toInt_toBitVec, Int64.toBitVec_mod,
    BitVec.toInt_srem, Int64.toInt_toBitVec, Int64.toInt_toBitVec,
    Int64.toInt_ofNat_of_lt hn, Int64.toInt_ofNat_of_lt hp]
  exact (Int.ofNat_tmod n p).symm

theorem roundToMultipleLong_ofNat {n p : ℕ} (hp : 0 < p) (hn : n < 2 ^ 63)
    (hp' : p ≤ intMax) :
    roundToMultipleLong (Int64.ofNat n) (Int32.ofNat p) = Int64.ofNat (roundUp p n) := by
  unfold intMax at hp'
  have hpage : (Int32.ofNat p).toInt64 = Int64.ofNat p := by
    refine Int32.toInt64_ofNat' ?_
    have hmax : Int32.maxValue.toInt = 2147483647 := by decide
    rw [hmax]
    omega
  have hlt := Nat.mod_lt n hp
  unfold roundToMultipleLong
  rw [hpage, int64_ofNat_mod hn (by omega)]
  by_cases hzero : n % p = 0
  · rw [hzero, roundUp_eq_self hp hzero]
    rfl
  · have hne : Int64.ofNat (n % p) ≠ 0 := by
      intro h0
      have h := congrArg Int64.toInt h0
      rw [Int64.toInt_ofNat_of_lt (by omega), Int64.toInt_zero] at h
      exact hzero (by exact_mod_cast h)
    simp only [if_neg hne]
    rw [roundUp_of_mod_ne_zero hp hzero, Int64.ofNat_sub _ _ (by omega), Int64.ofNat_add]

/-! ## Padding -/

/-- Scanning one item with a count from a template; a minus sign before the count is
passed over. -/
theorem scan_template (c : Struct3.Code) (n : ℤ) :
    Struct3.scan [] (template n ++ [c.letter]) =
      if n.natAbs ≤ intMax then .ok (Format.expand c.formatType n.natAbs)
      else .error .numberFormat := by
  have hcount : Struct3.scan [] (decimal n.natAbs ++ [c.letter]) =
      if n.natAbs ≤ intMax then .ok (Format.expand c.formatType n.natAbs)
      else .error .numberFormat := by
    have h := Struct3.scan_counted c n.natAbs []
    have hnil : Struct3.scan [] [] = .ok [] := rfl
    rw [h, hnil, ok_bind, List.append_nil]
  unfold template
  split
  · exact hcount
  · exact hcount

theorem new_template (vm : Jvm) (c : Struct3.Code) (n : ℤ) :
    Struct3.new vm (template n ++ [c.letter]) =
      if n.natAbs ≤ intMax then .ok ⟨.littleEndian, Format.expand c.formatType n.natAbs⟩
      else .error .numberFormat := by
  have hnew : Struct3.new vm (template n ++ [c.letter]) = (do
      let formats ← Struct3.scan [] (template n ++ [c.letter])
      .ok ⟨.littleEndian, formats⟩) := by
    unfold template
    split
    · have hcons : units "-" ++ decimal n.natAbs ++ [c.letter] =
          0x2D :: (decimal n.natAbs ++ [c.letter]) := rfl
      rw [hcons, Struct3.new, Jvm.assert_of_true vm (by simp), ok_bind]
      rfl
    · exact Struct3.new_decimal_append vm n.natAbs [c.letter]
  rw [hnew, scan_template]
  by_cases hn : n.natAbs ≤ intMax
  · rw [if_pos hn, if_pos hn, ok_bind]
  · rw [if_neg hn, if_neg hn, error_bind]

theorem new_template_x (vm : Jvm) (n : ℤ) :
    Struct3.new vm (template n ++ units "x") =
      if n.natAbs ≤ intMax then .ok ⟨.littleEndian, [Format.padding n.natAbs]⟩
      else .error .numberFormat := new_template vm .x n

theorem new_template_b (vm : Jvm) (n : ℤ) :
    Struct3.new vm (template n ++ units "b") =
      if n.natAbs ≤ intMax then .ok ⟨.littleEndian, [Format.bytes n.natAbs]⟩
      else .error .numberFormat := new_template vm .b n

/-- A template of padding puts as many bytes as its count says. -/
theorem packX_eq_ok_iff {vm : Jvm} {n : ℤ} {arg : Value} {bs : Bytes} :
    packX vm n arg = .ok bs ↔
      n.natAbs ≤ intMax ∧ Struct3.packPadding arg n.natAbs = .ok bs := by
  unfold packX Struct3.packFormat
  rw [new_template_x]
  by_cases hn : n.natAbs ≤ intMax
  · rw [if_pos hn, ok_bind, Struct3.pack_eq_ok_iff (by simp [Struct3.AllFill, Struct3.Fills,
      Format.padding])]
    have hsize : formatsSize [Format.padding n.natAbs] = n.natAbs := by
      simp [Format.padding, Format.size, FormatType.width]
    have hitems : Struct3.packItems vm .littleEndian [Format.padding n.natAbs] [arg] =
        Struct3.packPadding arg n.natAbs := by
      cases h : Struct3.packPadding arg n.natAbs <;>
        simp [Struct3.packItems, Struct3.packItem, Format.padding, h]
    rw [hsize, hitems]
    simp
  · rw [if_neg hn]
    simp [hn]

theorem packX_zero {vm : Jvm} {n : ℕ} {arg : Value} (harg : arg = .null ∨ arg = .int 0)
    (hn : n ≤ intMax) : packX vm n arg = .ok (zeros n) := by
  rw [packX_eq_ok_iff, Int.natAbs_natCast]
  rcases harg with rfl | rfl
  · exact ⟨hn, rfl⟩
  · exact ⟨hn, rfl⟩

/-- Padding brings an array to a multiple of the page size. -/
theorem paddingWith_eq {vm : Jvm} {data : Bytes} {p : ℕ} (hp : 0 < p) (hp' : p ≤ intMax)
    (hdata : data.length ≤ intMax) (paddingHead : Bool) :
    paddingWith vm data (UInt32.ofNat p) paddingHead =
      if paddingHead then join [zeros (gap p data.length), data]
      else join [data, zeros (gap p data.length)] := by
  unfold intMax at hp' hdata
  have hlt := roundUp_lt hp data.length
  have hle := le_roundUp hp data.length
  have hgap : gap p data.length = roundUp p data.length - data.length := rfl
  have hneed : roundToMultiple (UInt32.ofNat data.length) (UInt32.ofNat p) -
      UInt32.ofNat data.length = UInt32.ofNat (gap p data.length) := by
    rw [roundToMultiple_ofNat hp (by omega) (by omega), hgap, UInt32.ofNat_sub hle]
  have hneed' : (UInt32.ofNat (gap p data.length)).toNat = gap p data.length :=
    UInt32.toNat_ofNat_of_lt' (by simp only [UInt32.size]; omega)
  simp only [paddingWith, hneed]
  by_cases hzero : gap p data.length = 0
  · have hjoin : join [data, []] = .ok data := join_eq_ok_iff.mpr (by simp [intMax, hdata])
    have hjoin' : join [[], data] = .ok data := join_eq_ok_iff.mpr (by simp [intMax, hdata])
    have hnil : zeros 0 = [] := rfl
    rw [hzero, hnil, hjoin, hjoin', ite_self]
    rfl
  · have hpos : (0 : UInt32) < UInt32.ofNat (gap p data.length) := by
      rw [UInt32.lt_iff_toNat_lt, hneed']
      exact Nat.pos_of_ne_zero hzero
    have hpack : packX vm (gap p data.length : ℕ) .null = .ok (zeros (gap p data.length)) :=
      packX_zero (.inl rfl) (by unfold intMax; omega)
    rw [if_pos hpos, hneed', hpack, ok_bind]

end Helper

end BootImageEditor
