import BootImageEditor.Bootimg.MkbootimgOutput

/-!
# The fields of the encoded header

`encode` packs the same fields as the reference packer when the texts fit: each text and each
number at its full size. The os_version word that was read as two texts is the same on both
sides, and a word with its top bit set is refused on both sides.
-/

namespace BootImageEditor

open Codec Fallible Struct3

namespace Bootimg

namespace Mkbootimg

open BootImgHeader

/-! ## The encoder's side -/

theorem packItem_text {vm : Jvm} {order : ByteOrder} {n : ℕ} {s : KString}
    (h : (Utf8.encode s).length ≤ n) :
    packItem vm order (.text n) (.string s) = .ok (packS n (Utf8.encode s)) := by
  have hitem : packItem vm order (.text n) (.string s) = appendByteArray (Utf8.encode s) n := rfl
  rw [hitem, appendByteArray, if_neg (Nat.not_lt.mpr h), packS_of_le h]
  rfl

theorem packItem_bytes {vm : Jvm} {order : ByteOrder} {n : ℕ} {bs : Bytes} (h : bs.length ≤ n) :
    packItem vm order (.bytes n) (.byteArray bs) = .ok (packS n bs) := by
  have hitem : packItem vm order (.bytes n) (.byteArray bs) = appendByteArray bs n := rfl
  rw [hitem, appendByteArray, if_neg (Nat.not_lt.mpr h), packS_of_le h]
  rfl

theorem packItem_gated {vm : Jvm} {order : ByteOrder} (p : Prop) [Decidable p] (n : UInt64) :
    packItem vm order (.one .ulong) (if p then .ulong n else .int 0) =
      .ok (order.encode 8 (if p then n.toNat else 0)) := by
  split_ifs
  · rfl
  · have hitem : packItem vm order (.one .ulong) (.int 0) = (do
        vm.assert (0 ≤ (0 : Int32).toInt)
        .ok (order.encode 8 (0 : Int32).toInt64.toUInt64.toNat)) := rfl
    rw [hitem, Jvm.assert_of_true vm (by decide), ok_bind]
    rfl

/-- The size that a header states. -/
def headerSizeOf (headerVersion : UInt32) : ℕ :=
  if 0 < headerVersion.toNat then if headerVersion.toNat = 1 then 1648 else 1660 else 0

theorem packItem_statedSize {vm : Jvm} {order : ByteOrder} {v : UInt32}
    (hv : v = 0 ∨ v = 1 ∨ v = 2) :
    packItem vm order (.one .uint) (statedSize v) = .ok (order.encode 4 (headerSizeOf v)) := by
  have hint : ∀ n : Int32, 0 ≤ n.toInt → packItem vm order (.one .uint) (.int n) =
      .ok (order.encode 4 n.toUInt32.toNat) := by
    intro n hn
    have hitem : packItem vm order (.one .uint) (.int n) = (do
        vm.assert (0 ≤ n.toInt)
        .ok (order.encode 4 n.toUInt32.toNat)) := rfl
    rw [hitem, Jvm.assert_of_true vm (decide_eq_true hn), ok_bind]
  rcases hv with rfl | rfl | rfl
  · exact hint 0 (by decide)
  · exact hint 1648 (by decide)
  · exact hint 1660 (by decide)

/-- The numbers of a header, with a word for the version. -/
def headerNumbers (h : BootImgHeader) (word : ℕ) : List ℕ :=
  [h.kernelLength.toNat, h.kernelOffset.toNat, h.ramdiskLength.toNat, h.ramdiskOffset.toNat,
    h.secondBootloaderLength.toNat, h.secondBootloaderOffset.toNat, h.tagsOffset.toNat,
    h.pageSize.toNat, h.headerVersion.toNat, word]

theorem take_cmdline (cmdline : KString) :
    cmdline.take (min 512 cmdline.length) = cmdline.take 512 ∧
      (if 512 < cmdline.length then cmdline.drop 512 else []) = cmdline.drop 512 := by
  constructor
  · rcases le_total 512 cmdline.length with hle | hle
    · rw [min_eq_left hle]
    · rw [min_eq_right hle, List.take_length, List.take_of_length_le hle]
  · split_ifs with hlt
    · rfl
    · rw [List.drop_eq_nil_of_le (Nat.not_lt.mp hlt)]

/-- The bytes of the packed header, where everything fits. -/
theorem packFormat_arguments {vm : Jvm} {h : BootImgHeader} {hash : Bytes} {osNPatch : Int32}
    (hversion : h.headerVersion = 0 ∨ h.headerVersion = 1 ∨ h.headerVersion = 2)
    (hword : 0 ≤ osNPatch.toInt) (hhash : hash.length ≤ 32)
    (hboard : (Utf8.encode h.board).length ≤ 16)
    (htake : (Utf8.encode (h.cmdline.take 512)).length ≤ 512)
    (hdrop : (Utf8.encode (h.cmdline.drop 512)).length ≤ 1024) :
    packFormat vm formatString (h.arguments hash osNPatch) =
      .ok (headerFields (headerNumbers h osNPatch.toUInt32.toNat) h.board h.cmdline hash
        h.recoveryDtboLength.toNat (if 0 < h.headerVersion then h.recoveryDtboOffset.toNat else 0)
        (headerSizeOf h.headerVersion) h.dtbLength.toNat
        (if 1 < h.headerVersion then h.dtbOffset.toNat else 0)).flatten := by
  have hfill := allFill_arguments h hash osNPatch
  rw [Avb.packFormat_eq_ok_iff (new_formatString vm) rfl (by decide) hfill]
  obtain ⟨htakeEq, hdropEq⟩ := take_cmdline h.cmdline
  have huint : ∀ n : UInt32, packItem vm .littleEndian (.one .uint) (.uint n) =
      .ok (ByteOrder.littleEndian.encode 4 n.toNat) := fun _ => rfl
  have hint : packItem vm .littleEndian (.one .uint) (.int osNPatch) =
      .ok (ByteOrder.littleEndian.encode 4 osNPatch.toUInt32.toNat) := by
    have hitem : packItem vm .littleEndian (.one .uint) (.int osNPatch) = (do
        vm.assert (0 ≤ osNPatch.toInt)
        .ok (ByteOrder.littleEndian.encode 4 osNPatch.toUInt32.toNat)) := rfl
    rw [hitem, Jvm.assert_of_true vm (decide_eq_true hword), ok_bind]
  have hmagic : packItem vm .littleEndian (.text 8) (.string magic) =
      .ok (Utf8.encode magic) := by
    rw [packItem_text (by decide)]
    exact congrArg Except.ok (by decide)
  unfold BootImgHeader.arguments BootImgHeader.formats
  rw [htakeEq, hdropEq]
  simp only [packItems, hmagic, huint, hint, packItem_text hboard, packItem_text htake,
    packItem_text hdrop, packItem_bytes hhash, packItem_gated, packItem_statedSize hversion,
    ok_bind]
  simp [headerFields, headerNumbers]

/-! ## The os_version word -/

/-- The texts that a decoder makes of a word. -/
def TextsOf (w : UInt32) (osVersion osPatchLevel : Option KString) : Prop :=
  osVersion = (if w ≠ 0 then some (BootImgHeader.parseOsVersion (w.toInt32 >>> 11)) else none) ∧
    osPatchLevel =
      if w ≠ 0 then some (BootImgHeader.parseOsPatchLevel (w &&& 0x7ff).toInt32) else none

theorem exists_textsOf_of_ofStream {vm : Jvm} {s : InputStream} {h : BootImgHeader}
    (hread : ofStream vm s = .ok h) : ∃ w, TextsOf w h.osVersion h.osPatchLevel := by
  obtain ⟨⟨info, s'⟩, -, hread⟩ := bind_eq_ok.mp hread
  obtain ⟨u, -, hread⟩ := bind_eq_ok.mp hread
  split at hread
  · obtain ⟨-, hread⟩ := ite_error_eq_ok_iff.mp hread
    obtain ⟨u', -, hread⟩ := bind_eq_ok.mp hread
    cases hread
    exact ⟨_, rfl, rfl⟩
  · cases hread

theorem int_render (n : ℕ) : int (Numeral.render 10 n) = n := by
  rw [int, Numeral.parse_render (by decide) (by decide), Option.getD_some]

/-- The tool reads a version of 21 bits as the encoder does. -/
theorem parseOsVersion_text {n : ℕ} (hn : n < 2 ^ 21) :
    isBlank (BootImgHeader.parseOsVersion (Int32.ofNat n)) = false ∧
      parseOsVersion (BootImgHeader.parseOsVersion (Int32.ofNat n)) = some n := by
  obtain ⟨hgroup1, -⟩ := isGroup_render (by omega : n / 2 ^ 14 < 128)
  obtain ⟨hgroup2, -⟩ := isGroup_render (by omega : n % 2 ^ 14 / 2 ^ 7 < 128)
  obtain ⟨hgroup3, -⟩ := isGroup_render (by omega : n % 2 ^ 7 < 128)
  have hfind := findVersion_append hgroup1 hgroup2 hgroup3
  rw [parseOsVersion_ofNat hn]
  constructor
  · apply not_isBlank_of_digits (n := 3)
    intro hnone
    rw [findVersion, if_pos hnone] at hfind
    cases hfind
  · rw [parseOsVersion, hfind]
    simp only [lastindex, int_render, Option.getD_some, if_true, Nat.reduceLeDiff]
    rw [if_pos ⟨by omega, by omega, by omega⟩, orFields (by omega) (by omega)]
    exact congrArg some (by omega)

/-- The tool reads a patch level of 11 bits as the encoder does, where it has a month. -/
theorem parseOsPatchLevel_text {n : ℕ} (hn : n < 2 ^ 11) :
    isBlank (BootImgHeader.parseOsPatchLevel (Int32.ofNat n)) = false ∧
      parseOsPatchLevel (BootImgHeader.parseOsPatchLevel (Int32.ofNat n)) =
        if 1 ≤ n % 2 ^ 4 ∧ n % 2 ^ 4 ≤ 12 then some n else none := by
  obtain ⟨hyear, hyearDigits⟩ := render_year ⟨n / 2 ^ 4, by omega⟩
  obtain ⟨hmonth, hmonthDigits, hmonthParse⟩ := decimalTwo_month ⟨n % 2 ^ 4, by omega⟩
  obtain ⟨hday, hdayDigits, -⟩ := decimalTwo_month 0
  simp only at hyear hyearDigits hmonth hmonthDigits hmonthParse
  have hyearAll := List.all_eq_true.mp hyearDigits
  have hfind := findPatchLevel_append hyear hmonth hday hyearAll
    (List.all_eq_true.mp hmonthDigits) (List.all_eq_true.mp hdayDigits)
  have hmonthInt : int (decimalTwo (Int32.ofNat (n % 2 ^ 4))) = n % 2 ^ 4 := by
    rw [int, hmonthParse, Option.getD_some]
  rw [parseOsPatchLevel_ofNat hn]
  simp only [Fin.val_zero] at hfind
  constructor
  · apply not_isBlank_of_digits (n := 4)
    simp only [List.append_assoc]
    rw [digits_append hyearAll (by omega) (Or.inl hyear)]
    exact Numeral.render_ne_nil 10 _
  · rw [parseOsPatchLevel, hfind]
    simp only [int_render, hmonthInt, Nat.add_sub_cancel]
    by_cases hrange : 1 ≤ n % 2 ^ 4 ∧ n % 2 ^ 4 ≤ 12
    · rw [if_pos ⟨by omega, by omega, hrange.1, hrange.2⟩, if_pos hrange,
        ← Nat.shiftLeft_add_eq_or_of_lt (by omega), Nat.shiftLeft_eq]
      exact congrArg some (by omega)
    · rw [if_neg fun h => hrange ⟨h.2.2.1, h.2.2.2⟩, if_neg hrange]

theorem not_isNullOrBlank {s : KString} (h : isBlank s = false) :
    (!isNullOrBlank (some s)) = true := congrArg not h

/-- Where the tool accepts the texts of a word and the word has no sign, both sides write it. -/
theorem packOs_of_textsOf (vm : Jvm) {w : UInt32} {i : BootImgInfo} {v p : ℕ}
    (htexts : TextsOf w i.osVersion i.osPatchLevel) (hw : w.toNat < 2 ^ 31)
    (hv : givenOsVersion i = some v) (hp : givenOsPatchLevel i = some p) :
    ∃ osVersion osPatchLevel, packOsVersion vm i.osVersion = .ok osVersion ∧
      packOsPatchLevel vm i.osPatchLevel = .ok osPatchLevel ∧
      (osVersion <<< 11) ||| osPatchLevel = w.toInt32 ∧ (v <<< 11) ||| p = w.toNat := by
  obtain ⟨hosVersion, hosPatchLevel⟩ := htexts
  by_cases hzero : w = 0
  · rw [if_neg (not_not.mpr hzero)] at hosVersion hosPatchLevel
    rw [givenOsVersion, hosVersion] at hv
    rw [givenOsPatchLevel, hosPatchLevel] at hp
    cases hv
    cases hp
    rw [hosVersion, hosPatchLevel, hzero]
    exact ⟨0, 0, rfl, rfl, rfl, rfl⟩
  · rw [if_pos hzero, shiftRight_word hw] at hosVersion
    rw [if_pos hzero, and_word hw] at hosPatchLevel
    obtain ⟨hblank, hparse⟩ := @parseOsVersion_text (w.toNat / 2 ^ 11) (by omega)
    obtain ⟨hblank', hparse'⟩ := @parseOsPatchLevel_text (w.toNat % 2 ^ 11) (by omega)
    rw [givenOsVersion, hosVersion, givenValue, if_pos (not_isNullOrBlank hblank),
      Option.getD_some, hparse, Option.ite_none_right_eq_some, Option.some.injEq] at hv
    rw [givenOsPatchLevel, hosPatchLevel, givenValue,
      if_pos (not_isNullOrBlank hblank'), Option.getD_some, hparse',
      Option.ite_none_right_eq_some, Option.ite_none_right_eq_some, Option.some.injEq] at hp
    obtain ⟨-, rfl⟩ := hv
    obtain ⟨-, hmonth, rfl⟩ := hp
    refine ⟨_, _, ?_, ?_, or_word, ?_⟩
    · rw [hosVersion]
      exact packOsVersion_parseOsVersion vm (by omega)
    · rw [hosPatchLevel]
      exact packOsPatchLevel_parseOsPatchLevel vm (by omega) hmonth.1 hmonth.2
    · rw [← Nat.shiftLeft_add_eq_or_of_lt (by omega), Nat.shiftLeft_eq]
      omega

/-! ## Texts with a sign -/

theorem isDigit_of_mem_render {n : ℕ} {c : UInt16} (h : c ∈ Numeral.render 10 n) :
    isDigit c = true := by
  obtain ⟨d, hd, rfl⟩ := Numeral.exists_digit_of_mem_render (by decide) h
  exact isDigit_iff.mpr ⟨⟨d, hd⟩, rfl⟩

/-- A decimal has digits, with a dash before them or not. -/
theorem mem_decimal {x : Int32} {c : UInt16} (h : c ∈ BootImgHeader.decimal x) :
    c = 0x2D ∨ isDigit c = true := by
  have hdash : units "-" = [0x2D] := by decide
  unfold BootImgHeader.decimal at h
  split_ifs at h
  · rw [hdash, List.cons_append, List.nil_append, List.mem_cons] at h
    exact h.imp_right isDigit_of_mem_render
  · exact Or.inr (isDigit_of_mem_render h)

/-- A version with a sign is no value of an option. -/
theorem isValue_of_sign {z : Int32} (hz : z.toInt < 0) :
    isValue (BootImgHeader.parseOsVersion z) = false := by
  have hdash : units "-" = [0x2D] := by decide
  have hdot : units "." = [0x2E] := by decide
  have hshift := toInt_shiftRight z (by decide : 14 < 32)
  have hneg : (z >>> 14).toInt < 0 := by
    have heq : (z >>> 14).toInt = z.toInt / 2 ^ 14 := hshift
    omega
  obtain ⟨a, b, c, ha, hb, hc, htext⟩ : ∃ a b c : KString, (∀ u ∈ a, isDigit u = true) ∧
      (∀ u ∈ b, u = 0x2D ∨ isDigit u = true) ∧ (∀ u ∈ c, u = 0x2D ∨ isDigit u = true) ∧
      BootImgHeader.parseOsVersion z = 0x2D :: (a ++ 0x2E :: (b ++ 0x2E :: c)) := by
    refine ⟨Numeral.render 10 (z >>> 14).toInt.natAbs,
      BootImgHeader.decimal ((z - ((z >>> 14) <<< 14)) >>> 7), BootImgHeader.decimal (z &&& 0x7f),
      fun u hu => isDigit_of_mem_render hu, fun u hu => mem_decimal hu,
      fun u hu => mem_decimal hu, ?_⟩
    unfold BootImgHeader.parseOsVersion
    rw [hdot]
    have hfirst : BootImgHeader.decimal (z >>> 14) =
        0x2D :: Numeral.render 10 (z >>> 14).toInt.natAbs := by
      rw [BootImgHeader.decimal, if_pos hneg, hdash]
      rfl
    simp only [hfirst, List.append_assoc, List.cons_append, List.nil_append]
  have hchars : ∀ u ∈ a ++ 0x2E :: (b ++ 0x2E :: c), u = 0x2D ∨ u = 0x2E ∨ isDigit u = true := by
    intro u hu
    simp only [List.mem_append, List.mem_cons] at hu
    rcases hu with hu | hu | hu | hu | hu
    · exact Or.inr (Or.inr (ha u hu))
    · exact Or.inr (Or.inl hu)
    · exact (hb u hu).imp_right Or.inr
    · exact Or.inr (Or.inl hu)
    · exact (hc u hu).imp_right Or.inr
  have hspace : (a ++ 0x2E :: (b ++ 0x2E :: c)).contains 0x20 = false := by
    rw [← Bool.not_eq_true, List.contains_iff_mem]
    intro hmem
    exact absurd (hchars _ hmem) (by decide)
  have hnumber : isNumber (a ++ 0x2E :: (b ++ 0x2E :: c)) = false := by
    have hlast : (a ++ 0x2E :: (b ++ 0x2E :: c)).getLast? ≠ some 0x0A := by
      intro hlast
      exact absurd (hchars _ (List.mem_of_getLast? hlast)) (by decide)
    have hdrop : (a ++ 0x2E :: (b ++ 0x2E :: c)).dropWhile isDigit =
        0x2E :: (b ++ 0x2E :: c) := by
      rw [List.dropWhile_append_of_pos ha, List.dropWhile_cons_of_neg (by decide)]
    have hall : (b ++ 0x2E :: c).all isDigit = false := by
      rw [List.all_append, List.all_cons]
      have hdotDigit : isDigit 0x2E = false := isDigit_dot
      rw [hdotDigit, Bool.false_and, Bool.and_false]
    unfold isNumber
    rw [if_neg hlast]
    simp only [hdrop, hall, Bool.and_false]
  rw [htext]
  cases ha' : a ++ 0x2E :: (b ++ 0x2E :: c) with
  | nil => simp at ha'
  | cons u s =>
      rw [ha'] at hspace hnumber
      unfold isValue
      simp only [hspace, hnumber, Bool.or_false, Bool.and_false]

/-- The tool takes no word with its top bit set. -/
theorem unsigned_of_givenOsVersion {w : UInt32} {i : BootImgInfo}
    (htexts : TextsOf w i.osVersion i.osPatchLevel) (h : givenOsVersion i ≠ none) :
    w.toNat < 2 ^ 31 := by
  by_contra hw
  have hne : w ≠ 0 := by
    rintro rfl
    exact hw (by decide)
  have hneg := shiftRight_negative hw
  have hvalue := isValue_of_sign hneg
  have hblank : isBlank (BootImgHeader.parseOsVersion (w.toInt32 >>> 11)) =
      false := by
    by_contra hblank
    rw [Bool.not_eq_false] at hblank
    have herror := packOsVersion_negative ⟨false, .littleEndian⟩ hneg
    rw [packOsVersion, if_pos hblank] at herror
    cases herror
  apply h
  rw [givenOsVersion, htexts.1, if_pos hne, givenValue, if_pos (not_isNullOrBlank hblank),
    Option.getD_some, if_neg (by rw [hvalue]; decide)]

end Mkbootimg

end Bootimg

end BootImageEditor
