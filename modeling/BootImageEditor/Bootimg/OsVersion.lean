import BootImageEditor.UnifiedConfig
import BootImageEditor.Struct3.Grammar

/-!
# The os_version word

`packOsVersion` and `packOsPatchLevel` read the texts of a version and of a date. The pattern of
the version makes the second and third group optional, but `groupCount()` counts the groups of
the pattern, and `Integer.decode` takes a leading zero for the mark of an octal numeral;
`parse_os_version` of `mkbootimg.py` does neither.
-/

namespace BootImageEditor

open Codec Fallible Struct3

namespace Bootimg

namespace BootImgHeader

/-! ## Groups of digits -/

/-- `\d{1,n}`: the longest run of at most `n` digits. -/
def digits (n : ℕ) (s : KString) : KString := (s.take n).takeWhile isDigit

/-- `\.(\d{1,3})`: the group, and what follows it. -/
def dotted : KString → Option (KString × KString)
  | [] => none
  | c :: s =>
      if [c] = units "." ∧ digits 3 s ≠ [] then
        some (digits 3 s, s.drop (digits 3 s).length)
      else none

/-- The groups of a match of `^(\d{1,3})(?:\.(\d{1,3})(?:\.(\d{1,3}))?)?`. -/
structure VersionMatch where
  group1 : KString
  group2 : Option KString := none
  group3 : Option KString := none
  deriving DecidableEq

def findVersion (x : KString) : Option VersionMatch :=
  let group1 := digits 3 x
  if group1 = [] then none
  else
    match dotted (x.drop group1.length) with
    | none => some { group1 }
    | some (group2, rest) =>
        match dotted rest with
        | none => some { group1, group2 := some group2 }
        | some (group3, _) => some { group1, group2 := some group2, group3 := some group3 }

/-- `Integer.decode(m.group(i))`, which fails on a group that took no part in the match. -/
def decodeGroup : Option KString → Result Int32
  | none => .error .nullPointer
  | some group => (integerDecode group).map Int32.ofInt

def packOsVersion (vm : Jvm) : Option KString → Result Int32
  | none => .ok 0
  | some x =>
      if isBlank x then .ok 0
      else
        match findVersion x with
        | none => .error (.illegalArgument "invalid os_version")
        | some m => do
            let a ← decodeGroup (some m.group1)
            -- `groupCount()` is 3 for every match
            let b ← decodeGroup m.group2
            let c ← decodeGroup m.group3
            vm.assert (a < 128)
            vm.assert (b < 128)
            vm.assert (c < 128)
            .ok ((a <<< 14) ||| (b <<< 7) ||| c)

/-- The groups of a match of `^(\d{4})-(\d{2})-(\d{2})`. -/
def findPatchLevel (x : KString) : Option (KString × KString × KString) :=
  let year := digits 4 x
  let month := digits 2 (x.drop 5)
  let day := digits 2 (x.drop 8)
  if year.length = 4 ∧ (x.drop 4).take 1 = units "-" ∧ month.length = 2 ∧
      (x.drop 7).take 1 = units "-" ∧ day.length = 2 then
    some (year, month, day)
  else none

/-- `Integer.parseInt(s, 10)` of a run of digits. -/
def parseInt (s : KString) : Result Int32 :=
  match Numeral.parse 10 s with
  | none => .error .numberFormat
  | some n => if n ≤ intMax then .ok (Int32.ofNat n) else .error .numberFormat

def packOsPatchLevel (vm : Jvm) : Option KString → Result Int32
  | none => .ok 0
  | some x =>
      if isBlank x then .ok 0
      else
        match findPatchLevel x with
        | none => .error (.illegalArgument "invalid os_patch_level")
        | some (year, month, _) => do
            let year ← parseInt year
            let y := year - 2000
            let m ← parseInt month
            vm.assert (0 ≤ y ∧ y ≤ 127)
            vm.assert (1 ≤ m ∧ m ≤ 12)
            .ok ((y <<< 4) ||| m)

theorem isDigit_iff {c : UInt16} : isDigit c = true ↔ ∃ d : Fin 10, c = Numeral.digitUnit d := by
  unfold isDigit
  rw [Bool.and_eq_true, decide_eq_true_iff, decide_eq_true_iff]
  constructor
  · rintro ⟨hlow, hhigh⟩
    refine ⟨⟨c.toNat - 0x30, by omega⟩, UInt16.toNat_inj.mp ?_⟩
    rw [Numeral.digitUnit_toNat (by simp only; omega)]
    simp only
    rw [if_pos (by omega)]
    omega
  · rintro ⟨d, rfl⟩
    have hd := d.isLt
    rw [Numeral.digitUnit_toNat (by omega), if_pos (by omega)]
    omega

/-- A run of digits is taken whole if it is short enough and something else follows. -/
theorem digits_append {n : ℕ} {g s : KString} (hg : ∀ c ∈ g, isDigit c = true)
    (hlen : g.length ≤ n) (hs : g.length = n ∨ ∀ c ∈ s.head?, isDigit c = false) :
    digits n (g ++ s) = g := by
  unfold digits
  induction g generalizing n with
  | nil =>
      cases s with
      | nil => simp
      | cons c s =>
          cases n with
          | zero => rfl
          | succ n =>
              rcases hs with hs | hs
              · cases hs
              · simp [hs c rfl]
  | cons c g ih =>
      cases n with
      | zero => simp at hlen
      | succ n =>
          rw [List.cons_append, List.take_succ_cons, List.takeWhile_cons, if_pos (hg c (by simp)),
            ih (fun d hd => hg d (by simp [hd])) (by simpa using hlen) (by simpa using hs)]

theorem isDigit_of_mem_digits {n : ℕ} {s : KString} {c : UInt16} (h : c ∈ digits n s) :
    isDigit c = true := List.all_eq_true.mp List.all_takeWhile c h

theorem length_digits_le (n : ℕ) (s : KString) : (digits n s).length ≤ n :=
  (List.takeWhile_prefix _).length_le.trans (List.length_take_le n s)

/-- A group of one to three digits. -/
structure IsGroup (g : KString) : Prop where
  ne_nil : g ≠ []
  length_le : g.length ≤ 3
  isDigit : ∀ c ∈ g, isDigit c = true

theorem isGroup_digits {s : KString} (h : digits 3 s ≠ []) : IsGroup (digits 3 s) :=
  ⟨h, length_digits_le 3 s, fun _ hc => isDigit_of_mem_digits hc⟩

theorem isGroup_of_dotted {s g r : KString} (h : dotted s = some (g, r)) : IsGroup g := by
  cases s with
  | nil => cases h
  | cons c s =>
      rw [dotted] at h
      by_cases hg : [c] = units "." ∧ digits 3 s ≠ []
      · rw [if_pos hg] at h
        cases h
        exact isGroup_digits hg.2
      · rw [if_neg hg] at h
        cases h

/-- The groups of a match are groups of digits. -/
theorem isGroup_of_findVersion {x : KString} {m : VersionMatch} (h : findVersion x = some m) :
    IsGroup m.group1 ∧ (∀ g ∈ m.group2, IsGroup g) ∧ ∀ g ∈ m.group3, IsGroup g := by
  unfold findVersion at h
  by_cases hfirst : digits 3 x = []
  · rw [if_pos hfirst] at h
    cases h
  · rw [if_neg hfirst] at h
    split at h
    · cases h
      exact ⟨isGroup_digits hfirst, by simp, by simp⟩
    · next g2 r hg2 =>
        split at h
        · cases h
          exact ⟨isGroup_digits hfirst, by simpa using isGroup_of_dotted hg2, by simp⟩
        · next g3 r' hg3 =>
            cases h
            exact ⟨isGroup_digits hfirst, by simpa using isGroup_of_dotted hg2,
              by simpa using isGroup_of_dotted hg3⟩

theorem isDigit_dot : isDigit 0x2E = false := by decide

theorem dotted_append {g s : KString} (hg : IsGroup g) (hs : ∀ c ∈ s.head?, isDigit c = false) :
    dotted (units "." ++ g ++ s) = some (g, s) := by
  have hdot : units "." = [0x2E] := by decide
  have hrun : digits 3 (g ++ s) = g := digits_append hg.isDigit hg.length_le (Or.inr hs)
  rw [hdot, List.append_assoc, List.singleton_append, dotted, hrun, if_pos ⟨hdot.symm, hg.ne_nil⟩,
    List.drop_left]

/-- Three groups with dots between them are matched as they stand. -/
theorem findVersion_append {a b c : KString} (ha : IsGroup a) (hb : IsGroup b) (hc : IsGroup c) :
    findVersion (a ++ units "." ++ b ++ units "." ++ c) = some ⟨a, some b, some c⟩ := by
  have hdot : units "." = [0x2E] := by decide
  have hassoc : a ++ units "." ++ b ++ units "." ++ c =
      a ++ (units "." ++ b ++ (units "." ++ c ++ [])) := by simp
  have hrun : digits 3 (a ++ (units "." ++ b ++ (units "." ++ c ++ []))) = a := by
    refine digits_append ha.isDigit ha.length_le (Or.inr ?_)
    rw [hdot]
    simp [isDigit_dot]
  have hnext : dotted (units "." ++ b ++ (units "." ++ c ++ [])) =
      some (b, units "." ++ c ++ []) := by
    refine dotted_append hb ?_
    rw [hdot]
    simp [isDigit_dot]
  have hlast : dotted (units "." ++ c ++ []) = some (c, []) := dotted_append hc (by simp)
  rw [hassoc, findVersion]
  simp only [hrun, if_neg ha.ne_nil, List.drop_left, hnext, hlast]

/-- A match starts with a digit, so the text is not blank. -/
theorem not_isBlank_of_digits {n : ℕ} {x : KString} (h : digits n x ≠ []) :
    isBlank x = false := by
  cases x with
  | nil => simp [digits] at h
  | cons c x =>
      have hc : isDigit c = true := by
        by_contra hc
        cases n with
        | zero => exact h rfl
        | succ n => exact h (by simp [digits, hc])
      obtain ⟨d, rfl⟩ := isDigit_iff.mp hc
      have hspace : ∀ d : Fin 10, isWhitespace (Numeral.digitUnit d) = false := by
        decide
      rw [isBlank, List.all_cons, hspace d, Bool.false_and]

/-! ## The word -/

theorem shiftLeft_or_ofNat {k v p : ℕ} (hp : p < 2 ^ k) (h : v * 2 ^ k + p < 2 ^ 32) :
    (BitVec.ofNat 32 v <<< k) ||| BitVec.ofNat 32 p = BitVec.ofNat 32 (v * 2 ^ k + p) := by
  have hv : v ≤ v * 2 ^ k := Nat.le_mul_of_pos_right v (Nat.two_pow_pos k)
  apply BitVec.eq_of_toNat_eq
  rw [BitVec.toNat_or, BitVec.toNat_shiftLeft, BitVec.toNat_ofNat, BitVec.toNat_ofNat,
    BitVec.toNat_ofNat, Nat.mod_eq_of_lt (a := v) (by omega), Nat.mod_eq_of_lt (a := p) (by omega),
    Nat.mod_eq_of_lt h, Nat.shiftLeft_eq, Nat.mod_eq_of_lt (by omega), ← Nat.shiftLeft_eq,
    ← Nat.shiftLeft_add_eq_or_of_lt hp, Nat.shiftLeft_eq]

/-- Three fields of seven bits. -/
theorem packFields {a b c : ℕ} (ha : a < 128) (hb : b < 128) (hc : c < 128) :
    ((Int32.ofNat a <<< 14) ||| (Int32.ofNat b <<< 7) ||| Int32.ofNat c) =
      Int32.ofNat (a * 2 ^ 14 + b * 2 ^ 7 + c) := by
  apply Int32.toBitVec_inj.mp
  have hassoc : ((Int32.ofNat a <<< 14) ||| (Int32.ofNat b <<< 7) ||| Int32.ofNat c).toBitVec =
      (BitVec.ofNat 32 a <<< 14) ||| ((BitVec.ofNat 32 b <<< 7) ||| BitVec.ofNat 32 c) :=
    BitVec.or_assoc _ _ _
  rw [hassoc, shiftLeft_or_ofNat (by omega) (by omega), shiftLeft_or_ofNat (by omega) (by omega),
    Nat.add_assoc]
  rfl

end BootImgHeader

/-! ## `mkbootimg.py` -/

namespace Mkbootimg

open BootImgHeader

/-- `int(s)` of a run of digits. -/
def int (s : KString) : ℕ := (Numeral.parse 10 s).getD 0

/-- `match.lastindex`: the last group that took part in the match. -/
def lastindex (m : VersionMatch) : ℕ :=
  match m.group2, m.group3 with
  | none, _ => 1
  | some _, none => 2
  | some _, some _ => 3

/-- `parse_os_version(x)`; `none` when one of its assertions fails. -/
def parseOsVersion (x : KString) : Option ℕ :=
  match findVersion x with
  | none => some 0
  | some m =>
      let a := int m.group1
      let b := if 2 ≤ lastindex m then int (m.group2.getD []) else 0
      let c := if lastindex m = 3 then int (m.group3.getD []) else 0
      if a < 128 ∧ b < 128 ∧ c < 128 then some ((a <<< 14) ||| (b <<< 7) ||| c) else none

theorem orFields {a b c : ℕ} (hb : b < 128) (hc : c < 128) :
    ((a <<< 14) ||| (b <<< 7) ||| c) = a * 2 ^ 14 + b * 2 ^ 7 + c := by
  have hlow : (b <<< 7) ||| c = b * 2 ^ 7 + c := by
    rw [← Nat.shiftLeft_add_eq_or_of_lt (by omega), Nat.shiftLeft_eq]
  rw [Nat.or_assoc, hlow, ← Nat.shiftLeft_add_eq_or_of_lt (by omega), Nat.shiftLeft_eq,
    Nat.add_assoc]

theorem int_eq_value {g : KString} (hg : IsGroup g) : int g = Numeral.value 10 g := by
  rw [int, Numeral.parse_ten hg.ne_nil (digitRun_iff.mpr hg.isDigit), Option.getD_some]

theorem decodeGroup_eq {g : KString} (hg : IsGroup g) :
    decodeGroup (some g) =
      if Readable g then .ok (Int32.ofNat (decoded g)) else .error .numberFormat := by
  rw [decodeGroup, integerDecode_digits hg.ne_nil hg.isDigit]
  split_ifs
  · exact congrArg Except.ok Int32.ofInt_eq_ofNat
  · rfl

/-- A decoded group is below 128 with its decimal value, and it is this value when the group is
octal-safe. -/
theorem exists_of_decodeGroup {g : KString} {a : Int32} (hg : IsGroup g) (hlt : int g < 128)
    (h : decodeGroup (some g) = .ok a) :
    ∃ v < 128, a = Int32.ofNat v ∧ (v = int g ↔ OctalSafe g) := by
  have hle := decoded_le g
  rw [int_eq_value hg] at hlt ⊢
  rw [decodeGroup_eq hg] at h
  by_cases hread : Readable g
  · rw [if_pos hread] at h
    refine ⟨decoded g, by omega, (Except.ok.inj h).symm, ?_⟩
    rw [← readable_and_decoded_iff hg.isDigit (by unfold intMax; omega), and_iff_right hread]
  · rw [if_neg hread] at h
    cases h

theorem decodeGroup_of_octalSafe {g : KString} (hg : IsGroup g) (hlt : int g < 128)
    (hsafe : OctalSafe g) : decodeGroup (some g) = .ok (Int32.ofNat (int g)) := by
  rw [int_eq_value hg] at hlt ⊢
  obtain ⟨hread, hvalue⟩ :=
    (readable_and_decoded_iff hg.isDigit (by unfold intMax; omega)).mpr hsafe
  rw [decodeGroup_eq hg, if_pos hread, hvalue]

theorem assert_lt_128 (vm : Jvm) {v : ℕ} (hv : v < 128) :
    vm.assert (Int32.ofNat v < 128) = .ok () := by
  apply Jvm.assert_of_true
  rw [decide_eq_true_iff, Int32.lt_iff_toInt_lt, Int32.toInt_ofNat_of_lt (by omega)]
  have hbound : (128 : Int32).toInt = 128 := by decide
  omega

/-- The value of a match with three groups. -/
theorem parseOsVersion_three {x a b c : KString} {n : ℕ}
    (hm : findVersion x = some ⟨a, some b, some c⟩) (hn : parseOsVersion x = some n) :
    int a < 128 ∧ int b < 128 ∧ int c < 128 ∧
      n = int a * 2 ^ 14 + int b * 2 ^ 7 + int c := by
  rw [parseOsVersion, hm] at hn
  have hindex : lastindex ⟨a, some b, some c⟩ = 3 := rfl
  simp only [hindex, Nat.reduceLeDiff, if_true, Option.getD_some] at hn
  by_cases hlt : int a < 128 ∧ int b < 128 ∧ int c < 128
  · rw [if_pos hlt, Option.some.injEq, orFields hlt.2.1 hlt.2.2] at hn
    exact ⟨hlt.1, hlt.2.1, hlt.2.2, hn.symm⟩
  · rw [if_neg hlt] at hn
    cases hn

theorem packOsVersion_of_match {vm : Jvm} {x : KString} {m : VersionMatch}
    (hm : findVersion x = some m) :
    packOsVersion vm (some x) = (do
      let a ← decodeGroup (some m.group1)
      let b ← decodeGroup m.group2
      let c ← decodeGroup m.group3
      vm.assert (a < 128)
      vm.assert (b < 128)
      vm.assert (c < 128)
      .ok ((a <<< 14) ||| (b <<< 7) ||| c)) := by
  have hfirst : digits 3 x ≠ [] := by
    intro hnil
    rw [findVersion, if_pos hnil] at hm
    cases hm
  rw [packOsVersion, not_isBlank_of_digits hfirst, if_neg (by decide), hm]

/-- On a text that the pattern matches, with each group below 128, `packOsVersion` returns the
number of `parse_os_version` exactly when all three groups are there and none of them is an octal
numeral of another value. -/
theorem packOsVersion_eq_iff {vm : Jvm} {x : KString} {m : VersionMatch} {n : ℕ}
    (hm : findVersion x = some m) (hn : parseOsVersion x = some n) :
    packOsVersion vm (some x) = .ok (Int32.ofNat n) ↔
      ∃ b c, m.group2 = some b ∧ m.group3 = some c ∧
        OctalSafe m.group1 ∧ OctalSafe b ∧ OctalSafe c := by
  obtain ⟨hgroup1, hgroup2, hgroup3⟩ := isGroup_of_findVersion hm
  rw [packOsVersion_of_match hm]
  obtain ⟨ga, gb, gc⟩ := m
  constructor
  · intro h
    obtain ⟨a, ha, h⟩ := bind_eq_ok.mp h
    obtain ⟨b, hb, h⟩ := bind_eq_ok.mp h
    obtain ⟨c, hc, h⟩ := bind_eq_ok.mp h
    obtain ⟨u₁, -, h⟩ := bind_eq_ok.mp h
    obtain ⟨u₂, -, h⟩ := bind_eq_ok.mp h
    obtain ⟨u₃, -, h⟩ := bind_eq_ok.mp h
    cases gb with
    | none => cases hb
    | some gb =>
        cases gc with
        | none => cases hc
        | some gc =>
            obtain ⟨hlta, hltb, hltc, hvalue⟩ := parseOsVersion_three hm hn
            obtain ⟨va, hva, rfl, hsafea⟩ := exists_of_decodeGroup hgroup1 hlta ha
            obtain ⟨vb, hvb, rfl, hsafeb⟩ := exists_of_decodeGroup (hgroup2 gb rfl) hltb hb
            obtain ⟨vc, hvc, rfl, hsafec⟩ := exists_of_decodeGroup (hgroup3 gc rfl) hltc hc
            simp only at hsafea
            rw [packFields hva hvb hvc, hvalue] at h
            have hint := congrArg Int32.toInt (Except.ok.inj h)
            rw [Int32.toInt_ofNat_of_lt (by omega), Int32.toInt_ofNat_of_lt (by omega)] at hint
            exact ⟨gb, gc, rfl, rfl, hsafea.mp (by omega), hsafeb.mp (by omega),
              hsafec.mp (by omega)⟩
  · rintro ⟨gb', gc', rfl, rfl, hsafea, hsafeb, hsafec⟩
    obtain ⟨hlta, hltb, hltc, hvalue⟩ := parseOsVersion_three hm hn
    simp only [decodeGroup_of_octalSafe hgroup1 hlta hsafea,
      decodeGroup_of_octalSafe (hgroup2 _ rfl) hltb hsafeb,
      decodeGroup_of_octalSafe (hgroup3 _ rfl) hltc hsafec, ok_bind, assert_lt_128 vm hlta,
      assert_lt_128 vm hltb, assert_lt_128 vm hltc, packFields hlta hltb hltc, hvalue]

theorem packOsVersion_eq_iff_ten :
    packOsVersion ⟨true, .littleEndian⟩ (some (units "10.0.07")) = .ok (Int32.ofNat 163847) ↔
      ∃ b c, some (units "0") = some b ∧ some (units "07") = some c ∧
        OctalSafe (units "10") ∧ OctalSafe b ∧ OctalSafe c := by
  have hm : findVersion (units "10.0.07") =
      some ⟨units "10", some (units "0"), some (units "07")⟩ := by decide +kernel
  have hn : parseOsVersion (units "10.0.07") = some 163847 := by decide +kernel
  exact packOsVersion_eq_iff hm hn

/-- A version of one group, and one with a leading zero. -/
theorem packOsVersion_differs :
    parseOsVersion (units "10") = some 163840 ∧
      packOsVersion ⟨true, .littleEndian⟩ (some (units "10")) = .error .nullPointer ∧
      parseOsVersion (units "010.0.0") = some 163840 ∧
      packOsVersion ⟨true, .littleEndian⟩ (some (units "010.0.0")) = .ok 131072 := by
  decide +kernel

end Mkbootimg

end Bootimg

end BootImageEditor
