import BootImageEditor.Bootimg.OsVersion

/-!
# The os_version word through its texts

`parseOsVersion` and `parseOsPatchLevel` write the word of a header as two texts, and packing
these gives the word back, but for a word with its top bit set: the major version is then
negative, and its sign is not matched.
-/

namespace BootImageEditor

open Codec Fallible Struct3

namespace Bootimg

namespace BootImgHeader

/-! ## Writing and reading the word -/

theorem toInt_shiftRight (z : Int32) {k : ℕ} (hk : k < 32) :
    (z >>> Int32.ofNat k).toInt = z.toInt / 2 ^ k := by
  have hcount : ∀ k : Fin 32, ((Int32.ofNat k).toBitVec.smod 32#32).toNat = k := by decide
  have hshift : (z >>> Int32.ofNat k).toInt =
      (z.toBitVec.sshiftRight ((Int32.ofNat k).toBitVec.smod 32#32).toNat).toInt := rfl
  rw [hshift, hcount ⟨k, hk⟩, BitVec.toInt_sshiftRight, Int.shiftRight_eq_div_pow]
  rfl

/-- The low bits of a number, negative or not. -/
theorem toInt_and_low (z : Int32) {k : ℕ} (hk : k < 31) :
    (z &&& Int32.ofNat (2 ^ k - 1)).toInt = z.toInt % 2 ^ k := by
  have hand : (z &&& Int32.ofNat (2 ^ k - 1)).toInt =
      (z.toBitVec &&& BitVec.ofNat 32 (2 ^ k - 1)).toInt := rfl
  have hpow : 2 ^ k ≤ 2 ^ 30 := Nat.pow_le_pow_right (by decide) (by omega)
  have hdvd : (2 ^ k : ℤ) ∣ 2 ^ 32 := pow_dvd_pow 2 (by omega)
  have hnat : (z.toBitVec &&& BitVec.ofNat 32 (2 ^ k - 1)).toNat = z.toBitVec.toNat % 2 ^ k := by
    rw [BitVec.toNat_and, BitVec.toNat_ofNat, Nat.mod_eq_of_lt (by omega)]
    exact Nat.and_two_pow_sub_one_eq_mod _ k
  have hlt : z.toBitVec.toNat % 2 ^ k < 2 ^ k := Nat.mod_lt _ (by omega)
  have hint : z.toInt = (z.toBitVec.toNat : ℤ).bmod (2 ^ 32) := BitVec.toInt_eq_toNat_bmod _
  have hcast : ((2 ^ 32 : ℕ) : ℤ) = 2 ^ 32 := by norm_num
  rw [hand, BitVec.toInt_eq_toNat_of_lt (by omega), hnat, hint, ← Int.emod_emod_of_dvd _ hdvd,
    ← hcast, Int.bmod_emod, hcast, Int.emod_emod_of_dvd _ hdvd]
  norm_cast

theorem decimal_ofNat {n : ℕ} (hn : n < 2 ^ 31) :
    decimal (Int32.ofNat n) = Numeral.render 10 n := by
  rw [decimal, Int32.toInt_ofNat_of_lt hn, if_neg (by omega), Int.toNat_natCast]

/-- The three fields of a version that is not negative. -/
theorem parseOsVersion_ofNat {n : ℕ} (hn : n < 2 ^ 21) :
    parseOsVersion (Int32.ofNat n) =
      Numeral.render 10 (n / 2 ^ 14) ++ units "." ++ Numeral.render 10 (n % 2 ^ 14 / 2 ^ 7) ++
        units "." ++ Numeral.render 10 (n % 2 ^ 7) := by
  have hvalue : (Int32.ofNat n).toInt = n := Int32.toInt_ofNat_of_lt (by omega)
  have ha : Int32.ofNat n >>> 14 = Int32.ofNat (n / 2 ^ 14) := by
    apply Int32.toInt_inj.mp
    have hshift := toInt_shiftRight (Int32.ofNat n) (by decide : 14 < 32)
    rw [hvalue] at hshift
    rw [Int32.toInt_ofNat_of_lt (by omega)]
    exact hshift.trans (by norm_cast)
  have hfield : Int32.ofNat (n / 2 ^ 14) <<< 14 = Int32.ofNat (n / 2 ^ 14 * 2 ^ 14) := by
    apply Int32.toBitVec_inj.mp
    have hor := shiftLeft_or_ofNat (k := 14) (v := n / 2 ^ 14) (p := 0) (by decide) (by omega)
    rw [BitVec.or_zero, Nat.add_zero] at hor
    exact hor
  have hb : (Int32.ofNat n - Int32.ofNat (n / 2 ^ 14 * 2 ^ 14)) >>> 7 =
      Int32.ofNat (n % 2 ^ 14 / 2 ^ 7) := by
    rw [← Int32.ofNat_sub _ _ (by omega)]
    apply Int32.toInt_inj.mp
    have hshift := toInt_shiftRight (Int32.ofNat (n - n / 2 ^ 14 * 2 ^ 14)) (by decide : 7 < 32)
    rw [Int32.toInt_ofNat_of_lt (by omega)] at hshift
    rw [Int32.toInt_ofNat_of_lt (by omega)]
    refine hshift.trans ?_
    have hmod : n - n / 2 ^ 14 * 2 ^ 14 = n % 2 ^ 14 := by omega
    rw [hmod]
    norm_cast
  have hc : Int32.ofNat n &&& 0x7f = Int32.ofNat (n % 2 ^ 7) := by
    apply Int32.toInt_inj.mp
    have hand := toInt_and_low (Int32.ofNat n) (by decide : 7 < 31)
    rw [hvalue] at hand
    rw [Int32.toInt_ofNat_of_lt (by omega)]
    exact hand.trans (by norm_cast)
  unfold parseOsVersion
  simp only [ha, hfield, hb, hc]
  rw [decimal_ofNat (by omega), decimal_ofNat (by omega), decimal_ofNat (by omega)]

theorem render_group : ∀ n : Fin 128, (Numeral.render 10 n).length ≤ 3 ∧
    (Numeral.render 10 n).all isDigit = true ∧ OctalSafe (Numeral.render 10 n) := by
  decide +kernel

/-- A field of seven bits is written as a group that is read back. -/
theorem isGroup_render {n : ℕ} (hn : n < 128) :
    IsGroup (Numeral.render 10 n) ∧
      decodeGroup (some (Numeral.render 10 n)) = .ok (Int32.ofNat n) := by
  obtain ⟨hlen, hall, hsafe⟩ := render_group ⟨n, hn⟩
  have hgroup : IsGroup (Numeral.render 10 n) :=
    ⟨Numeral.render_ne_nil 10 n, hlen, List.all_eq_true.mp hall⟩
  have hint : Mkbootimg.int (Numeral.render 10 n) = n := by
    rw [Mkbootimg.int, Numeral.parse_render (by decide) (by decide), Option.getD_some]
  have hdecode := Mkbootimg.decodeGroup_of_octalSafe hgroup (by rwa [hint]) hsafe
  rw [hint] at hdecode
  exact ⟨hgroup, hdecode⟩

/-- A version of 21 bits is packed to itself. -/
theorem packOsVersion_parseOsVersion (vm : Jvm) {n : ℕ} (hn : n < 2 ^ 21) :
    packOsVersion vm (some (parseOsVersion (Int32.ofNat n))) = .ok (Int32.ofNat n) := by
  obtain ⟨hgroup1, hdecode1⟩ := isGroup_render (by omega : n / 2 ^ 14 < 128)
  obtain ⟨hgroup2, hdecode2⟩ := isGroup_render (by omega : n % 2 ^ 14 / 2 ^ 7 < 128)
  obtain ⟨hgroup3, hdecode3⟩ := isGroup_render (by omega : n % 2 ^ 7 < 128)
  rw [parseOsVersion_ofNat hn,
    Mkbootimg.packOsVersion_of_match (findVersion_append hgroup1 hgroup2 hgroup3)]
  simp only [hdecode1, hdecode2, hdecode3, ok_bind,
    Mkbootimg.assert_lt_128 vm (by omega : n / 2 ^ 14 < 128),
    Mkbootimg.assert_lt_128 vm (by omega : n % 2 ^ 14 / 2 ^ 7 < 128),
    Mkbootimg.assert_lt_128 vm (by omega : n % 2 ^ 7 < 128)]
  rw [packFields (by omega) (by omega) (by omega)]
  congr 2
  omega

/-- A negative version starts with a sign, which the pattern does not match. -/
theorem packOsVersion_negative (vm : Jvm) {z : Int32} (hz : z.toInt < 0) :
    packOsVersion vm (some (parseOsVersion z)) =
      .error (.illegalArgument "invalid os_version") := by
  have hsign : ∃ s, parseOsVersion z = 0x2D :: s := by
    have hshift := toInt_shiftRight z (by decide : 14 < 32)
    have hneg : (z >>> 14).toInt < 0 := by
      have heq : (z >>> 14).toInt = z.toInt / 2 ^ 14 := hshift
      omega
    have hminus : units "-" = [0x2D] := by decide
    unfold parseOsVersion
    simp only [decimal, if_pos hneg, hminus, List.append_assoc, List.cons_append]
    exact ⟨_, rfl⟩
  obtain ⟨s, hs⟩ := hsign
  have hblank : isBlank (0x2D :: s) = false := by
    have hspace : isWhitespace 0x2D = false := by decide
    rw [isBlank, List.all_cons, hspace, Bool.false_and]
  have hfirst : digits 3 (0x2D :: s) = [] := by
    have hdigit : isDigit 0x2D = false := by decide
    simp [digits, hdigit]
  have hfind : findVersion (0x2D :: s) = none := by
    rw [findVersion, if_pos hfirst]
  rw [hs, packOsVersion, hblank, if_neg (by decide), hfind]

/-- A date with its dashes is matched as it stands. -/
theorem findPatchLevel_append {year month day : KString} (hyear : year.length = 4)
    (hmonth : month.length = 2) (hday : day.length = 2) (hy : ∀ c ∈ year, isDigit c = true)
    (hm : ∀ c ∈ month, isDigit c = true) (hd : ∀ c ∈ day, isDigit c = true) :
    findPatchLevel (year ++ units "-" ++ month ++ units "-" ++ day) =
      some (year, month, day) := by
  have hdash : (units "-").length = 1 := by decide
  have hrest4 : (year ++ units "-" ++ month ++ units "-" ++ day).drop 4 =
      units "-" ++ (month ++ units "-" ++ day) := by
    simp only [List.append_assoc]
    exact List.drop_left' hyear
  have hrest5 : (year ++ units "-" ++ month ++ units "-" ++ day).drop 5 =
      month ++ (units "-" ++ day) := by
    have happ : year ++ units "-" ++ month ++ units "-" ++ day =
        (year ++ units "-") ++ (month ++ (units "-" ++ day)) := by simp
    rw [happ]
    exact List.drop_left' (by simp [hyear, hdash])
  have hrest7 : (year ++ units "-" ++ month ++ units "-" ++ day).drop 7 = units "-" ++ day := by
    have happ : year ++ units "-" ++ month ++ units "-" ++ day =
        (year ++ units "-" ++ month) ++ (units "-" ++ day) := by simp
    rw [happ]
    exact List.drop_left' (by simp [hyear, hmonth, hdash])
  have hrest8 : (year ++ units "-" ++ month ++ units "-" ++ day).drop 8 = day ++ [] := by
    rw [List.append_nil]
    exact List.drop_left' (by simp [hyear, hmonth, hdash])
  have hfirst : digits 4 (year ++ units "-" ++ month ++ units "-" ++ day) = year := by
    simp only [List.append_assoc]
    exact digits_append hy (by omega) (Or.inl hyear)
  rw [findPatchLevel, hfirst, hrest4, hrest5, hrest7, hrest8,
    digits_append hm (by omega) (Or.inl hmonth), digits_append hd (by omega) (Or.inl hday),
    List.take_left' hdash, List.take_left' hdash, if_pos ⟨hyear, rfl, hmonth, rfl, hday⟩]

theorem render_year : ∀ n : Fin 128, (Numeral.render 10 (n + 2000)).length = 4 ∧
    (Numeral.render 10 (n + 2000)).all isDigit = true := by
  decide +kernel

theorem decimalTwo_month : ∀ n : Fin 16, (decimalTwo (Int32.ofNat n)).length = 2 ∧
    (decimalTwo (Int32.ofNat n)).all isDigit = true ∧
      Numeral.parse 10 (decimalTwo (Int32.ofNat n)) = some n.val := by
  decide +kernel

theorem parseInt_of_parse {s : KString} {n : ℕ} (h : Numeral.parse 10 s = some n)
    (hn : n ≤ intMax) : parseInt s = .ok (Int32.ofNat n) := by
  rw [parseInt, h]
  exact if_pos hn

/-- Year and month of a level of 11 bits. -/
theorem parseOsPatchLevel_ofNat {n : ℕ} (hn : n < 2 ^ 11) :
    parseOsPatchLevel (Int32.ofNat n) =
      Numeral.render 10 (n / 2 ^ 4 + 2000) ++ units "-" ++
        decimalTwo (Int32.ofNat (n % 2 ^ 4)) ++ units "-" ++ decimalTwo (Int32.ofNat 0) := by
  have hvalue : (Int32.ofNat n).toInt = n := Int32.toInt_ofNat_of_lt (by omega)
  have hy : Int32.ofNat n >>> 4 = Int32.ofNat (n / 2 ^ 4) := by
    apply Int32.toInt_inj.mp
    have hshift := toInt_shiftRight (Int32.ofNat n) (by decide : 4 < 32)
    rw [hvalue] at hshift
    rw [Int32.toInt_ofNat_of_lt (by omega)]
    exact hshift.trans (by norm_cast)
  have hm : Int32.ofNat n &&& 0xf = Int32.ofNat (n % 2 ^ 4) := by
    apply Int32.toInt_inj.mp
    have hand := toInt_and_low (Int32.ofNat n) (by decide : 4 < 31)
    rw [hvalue] at hand
    rw [Int32.toInt_ofNat_of_lt (by omega)]
    exact hand.trans (by norm_cast)
  have hyear : Int32.ofNat (n / 2 ^ 4) + 2000 = Int32.ofNat (n / 2 ^ 4 + 2000) := by
    rw [Int32.ofNat_add]
    rfl
  unfold parseOsPatchLevel
  simp only [hy, hm, hyear]
  rw [decimal_ofNat (by omega)]
  rfl

/-- A patch level of 11 bits with a month is packed to itself. -/
theorem packOsPatchLevel_parseOsPatchLevel (vm : Jvm) {n : ℕ} (hn : n < 2 ^ 11)
    (hlow : 1 ≤ n % 2 ^ 4) (hhigh : n % 2 ^ 4 ≤ 12) :
    packOsPatchLevel vm (some (parseOsPatchLevel (Int32.ofNat n))) = .ok (Int32.ofNat n) := by
  obtain ⟨hyear, hyearDigits⟩ := render_year ⟨n / 2 ^ 4, by omega⟩
  obtain ⟨hmonth, hmonthDigits, hmonthParse⟩ := decimalTwo_month ⟨n % 2 ^ 4, by omega⟩
  obtain ⟨hday, hdayDigits, -⟩ := decimalTwo_month 0
  simp only at hyear hyearDigits hmonth hmonthDigits hmonthParse
  have hyearAll := List.all_eq_true.mp hyearDigits
  have hfind := findPatchLevel_append hyear hmonth hday hyearAll
    (List.all_eq_true.mp hmonthDigits) (List.all_eq_true.mp hdayDigits)
  have hyearParse : parseInt (Numeral.render 10 (n / 2 ^ 4 + 2000)) =
      .ok (Int32.ofNat (n / 2 ^ 4 + 2000)) :=
    parseInt_of_parse (Numeral.parse_render (by decide) (by decide) _)
      (by unfold intMax; omega)
  have hmonthInt := parseInt_of_parse hmonthParse (by unfold intMax; omega)
  have hback : Int32.ofNat (n / 2 ^ 4 + 2000) - 2000 = Int32.ofNat (n / 2 ^ 4) := by
    have hliteral : (2000 : Int32) = Int32.ofNat 2000 := rfl
    rw [hliteral, ← Int32.ofNat_sub _ _ (by omega), Nat.add_sub_cancel]
  have hblank : isBlank (parseOsPatchLevel (Int32.ofNat n)) = false := by
    apply not_isBlank_of_digits (n := 4)
    rw [parseOsPatchLevel_ofNat hn]
    simp only [List.append_assoc]
    rw [digits_append hyearAll (by omega) (Or.inl hyear)]
    exact Numeral.render_ne_nil 10 _
  have hyearRange : vm.assert (0 ≤ Int32.ofNat (n / 2 ^ 4) ∧ Int32.ofNat (n / 2 ^ 4) ≤ 127) =
      .ok () := by
    apply Jvm.assert_of_true
    rw [decide_eq_true_iff, Int32.le_iff_toInt_le, Int32.le_iff_toInt_le,
      Int32.toInt_ofNat_of_lt (by omega)]
    have hbound : (127 : Int32).toInt = 127 := by decide
    have hzero : (0 : Int32).toInt = 0 := by decide
    omega
  have hmonthRange : vm.assert (1 ≤ Int32.ofNat (n % 2 ^ 4) ∧ Int32.ofNat (n % 2 ^ 4) ≤ 12) =
      .ok () := by
    apply Jvm.assert_of_true
    rw [decide_eq_true_iff, Int32.le_iff_toInt_le, Int32.le_iff_toInt_le,
      Int32.toInt_ofNat_of_lt (by omega)]
    have hbound : (12 : Int32).toInt = 12 := by decide
    have hone : (1 : Int32).toInt = 1 := by decide
    omega
  have hword : (Int32.ofNat (n / 2 ^ 4) <<< 4) ||| Int32.ofNat (n % 2 ^ 4) = Int32.ofNat n := by
    apply Int32.toBitVec_inj.mp
    have hor := shiftLeft_or_ofNat (k := 4) (v := n / 2 ^ 4) (p := n % 2 ^ 4) (by omega) (by omega)
    have hsum : n / 2 ^ 4 * 2 ^ 4 + n % 2 ^ 4 = n := by omega
    rw [hsum] at hor
    exact hor
  rw [packOsPatchLevel, hblank, if_neg (by decide), parseOsPatchLevel_ofNat hn]
  simp only [Fin.val_zero] at hfind
  simp only [hfind, hyearParse, hmonthInt, ok_bind, hback, hyearRange, hmonthRange, hword]

/-- The version field of a word without its top bit. -/
theorem shiftRight_word {w : UInt32} (hw : w.toNat < 2 ^ 31) :
    w.toInt32 >>> 11 = Int32.ofNat (w.toNat / 2 ^ 11) := by
  have hint := toInt_toInt32_cond w
  rw [if_pos hw] at hint
  have hshift : (w.toInt32 >>> 11).toInt = w.toInt32.toInt / 2 ^ 11 :=
    toInt_shiftRight w.toInt32 (by decide : 11 < 32)
  apply Int32.toInt_inj.mp
  rw [hshift, hint, Int32.toInt_ofNat_of_lt (by omega)]
  norm_cast

/-- With the top bit the version field is negative. -/
theorem shiftRight_negative {w : UInt32} (hw : ¬ w.toNat < 2 ^ 31) :
    (w.toInt32 >>> 11).toInt < 0 := by
  have hint := toInt_toInt32_cond w
  rw [if_neg hw] at hint
  have hlt := w.toNat_lt
  have hshift : (w.toInt32 >>> 11).toInt = w.toInt32.toInt / 2 ^ 11 :=
    toInt_shiftRight w.toInt32 (by decide : 11 < 32)
  omega

theorem and_word {w : UInt32} (hw : w.toNat < 2 ^ 31) :
    (w &&& 0x7ff).toInt32 = Int32.ofNat (w.toNat % 2 ^ 11) := by
  have hint := toInt_toInt32_cond w
  rw [if_pos hw] at hint
  have hand : (w.toInt32 &&& Int32.ofNat (2 ^ 11 - 1)).toInt = w.toInt32.toInt % 2 ^ 11 :=
    toInt_and_low w.toInt32 (by decide : 11 < 31)
  apply Int32.toInt_inj.mp
  rw [hint] at hand
  rw [Int32.toInt_ofNat_of_lt (by omega)]
  exact hand.trans (by norm_cast)

theorem or_word {w : UInt32} :
    (Int32.ofNat (w.toNat / 2 ^ 11) <<< 11) ||| Int32.ofNat (w.toNat % 2 ^ 11) = w.toInt32 := by
  have hlt := w.toNat_lt
  apply Int32.toBitVec_inj.mp
  have hor := shiftLeft_or_ofNat (k := 11) (v := w.toNat / 2 ^ 11) (p := w.toNat % 2 ^ 11)
    (by omega) (by omega)
  have hsum : w.toNat / 2 ^ 11 * 2 ^ 11 + w.toNat % 2 ^ 11 = w.toNat := by omega
  rw [hsum] at hor
  exact hor.trans ((BitVec.ofNat_toNat 32 w.toBitVec).trans (BitVec.setWidth_eq _))

/-- The word of a header with a month, written as texts by the decoder and packed again, is the
same word exactly when its top bit is clear: the major version is shifted down as a signed
number. -/
theorem osVersionWord_iff (vm : Jvm) (w : UInt32) (hlow : 1 ≤ w.toNat % 16)
    (hhigh : w.toNat % 16 ≤ 12) :
    (∃ v p, packOsVersion vm (some (parseOsVersion (w.toInt32 >>> 11))) = .ok v ∧
        packOsPatchLevel vm (some (parseOsPatchLevel (w &&& 0x7ff).toInt32)) = .ok p ∧
        (v <<< 11) ||| p = w.toInt32) ↔ w.toNat < 2 ^ 31 := by
  by_cases hw : w.toNat < 2 ^ 31
  · refine iff_of_true ⟨_, _, ?_, ?_, or_word⟩ hw
    · rw [shiftRight_word hw]
      exact packOsVersion_parseOsVersion vm (by omega)
    · rw [and_word hw]
      exact packOsPatchLevel_parseOsPatchLevel vm (by omega) (by omega) (by omega)
  · have hneg := shiftRight_negative hw
    refine iff_of_false ?_ hw
    rintro ⟨v, p, hv, -⟩
    rw [packOsVersion_negative vm hneg] at hv
    cases hv

theorem osVersionWord_iff_ten :
    (∃ v p, packOsVersion ⟨true, .littleEndian⟩
          (some (parseOsVersion ((0x14000141 : UInt32).toInt32 >>> 11))) = .ok v ∧
        packOsPatchLevel ⟨true, .littleEndian⟩
          (some (parseOsPatchLevel (0x14000141 &&& 0x7ff : UInt32).toInt32)) = .ok p ∧
        (v <<< 11) ||| p = (0x14000141 : UInt32).toInt32) ↔ (0x14000141 : UInt32).toNat < 2 ^ 31 :=
  osVersionWord_iff ⟨true, .littleEndian⟩ 0x14000141 (by decide) (by decide)

/-- The word 0x80000001 is written as version -64.0.0, which is refused. -/
theorem osVersionWord_refused :
    parseOsVersion ((0x80000001 : UInt32).toInt32 >>> 11) = units "-64.0.0" ∧
      packOsVersion ⟨true, .littleEndian⟩ (some (units "-64.0.0")) =
        .error (.illegalArgument "invalid os_version") := by
  decide +kernel

end BootImgHeader

end Bootimg

end BootImageEditor
