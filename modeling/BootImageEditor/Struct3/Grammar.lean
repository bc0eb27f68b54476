import BootImageEditor.Struct3.FormatString
import Mathlib.Algebra.Order.BigOperators.Group.List

/-!
# The grammar of format strings

A format string is meant to be a byte-order mark and a sequence of items, each a decimal count
and a letter. The constructor searches it for matches of `(\d*)([a-zA-Z])` instead: what stands
between two matches is passed over, and `Integer.decode` reads a count with a leading zero as an
octal numeral.
-/

namespace BootImageEditor

open Codec Fallible

namespace Struct3

/-! ## Integer.decode of a run of digits -/

theorem digitRun_iff {s : KString} : Numeral.DigitRun s ↔ ∀ u ∈ s, isDigit u = true := by
  simp [Numeral.DigitRun, isDigit]

/-- A leading zero marks an octal numeral. -/
def Octal (s : KString) : Prop := s.head? = some 0x30 ∧ 1 < s.length

instance (s : KString) : Decidable (Octal s) := inferInstanceAs (Decidable (_ ∧ _))

/-- The number that `Integer.decode` takes a run of digits for. -/
def decoded (s : KString) : ℕ := if Octal s then Numeral.value 8 s else Numeral.value 10 s

/-- The runs of digits that `Integer.decode` reads. -/
def Readable (s : KString) : Prop :=
  (Octal s → ∀ u ∈ s, u.toNat < 0x38) ∧ decoded s ≤ intMax

instance (s : KString) : Decidable (Readable s) :=
  decidable_of_iff ((Octal s → s.all (fun u => decide (u.toNat < 0x38)) = true) ∧
    decoded s ≤ intMax) (by simp [Readable])

/-- A run of digits that is the same number as an octal numeral, where it is one: without a
leading zero, or zeros and one octal digit. -/
def OctalSafe (g : KString) : Prop :=
  g.head? ≠ some 0x30 ∨ ((∀ c ∈ g.dropLast, c = 0x30) ∧ ∀ c ∈ g.getLast?, c.toNat < 0x38)

instance (g : KString) : Decidable (OctalSafe g) :=
  decidable_of_iff (g.head? ≠ some 0x30 ∨ (g.dropLast.all (fun c => decide (c = 0x30)) = true ∧
    g.getLast?.all (fun c => decide (c.toNat < 0x38)) = true))
    (by cases h : g.getLast? <;> simp [OctalSafe, h])

theorem parse_octal {us : KString} (hus : us ≠ []) (h : Numeral.DigitRun (0x30 :: us)) :
    ((∀ v ∈ (0x30 :: us : KString), v.toNat < 0x38) →
        Numeral.parse 8 us = some (Numeral.value 8 (0x30 :: us))) ∧
      ((¬ ∀ v ∈ (0x30 :: us : KString), v.toNat < 0x38) → Numeral.parse 8 us = none) := by
  have htail : Numeral.DigitRun us := fun v hv => h v (by simp [hv])
  have hzero : (0x30 : UInt16).toNat < 0x38 := by decide
  have hall : us.all (fun v => v.toNat - 0x30 < 8) = true ↔
      ∀ v ∈ (0x30 :: us : KString), v.toNat < 0x38 := by
    rw [List.forall_mem_cons, and_iff_right hzero, List.all_eq_true]
    apply forall₂_congr
    intro v hv
    have hlow := htail v hv
    rw [decide_eq_true_iff]
    omega
  rw [Numeral.parse_digits hus htail, Numeral.value_zero_cons]
  constructor
  · intro hdigits
    exact if_pos (hall.mpr hdigits)
  · intro hdigits
    exact if_neg fun hread => hdigits (hall.mp hread)

theorem integerDecode_digits {s : KString} (hs : s ≠ []) (h : ∀ u ∈ s, isDigit u = true) :
    integerDecode s = if Readable s then .ok (decoded s : ℤ) else .error .numberFormat := by
  have hrun := digitRun_iff.mpr h
  obtain ⟨c, us, rfl⟩ := List.exists_cons_of_ne_nil hs
  have hlow := hrun c (by simp)
  have hne : ∀ v : UInt16, v.toNat < 0x30 → v ≠ c := by
    rintro v hv rfl
    omega
  have hminus : (units "-").isPrefixOf (c :: us) = false :=
    not_isPrefixOf_cons (hne _ (by decide))
  have hplus : (units "+").isPrefixOf (c :: us) = false :=
    not_isPrefixOf_cons (hne _ (by decide))
  have hhash : (units "#").isPrefixOf (c :: us) = false :=
    not_isPrefixOf_cons (hne _ (by decide))
  have hhex : ∀ x : UInt16, 0x39 < x.toNat →
      ([0x30, x] : KString).isPrefixOf (c :: us) = false := by
    intro x hx
    cases us with
    | nil => simp [List.isPrefixOf]
    | cons d us =>
        have hd := hrun d (by simp)
        have hxd : x ≠ d := by
          rintro rfl
          omega
        simp [List.isPrefixOf, hxd]
  have hx : (units "0x").isPrefixOf (c :: us) = false := hhex 0x78 (by decide)
  have hX : (units "0X").isPrefixOf (c :: us) = false := hhex 0x58 (by decide)
  have hzero : ((units "0").isPrefixOf (c :: us) && decide (1 < (c :: us).length)) =
      decide (Octal (c :: us)) := by
    have hunits : units "0" = [0x30] := by decide
    rw [hunits, Bool.eq_iff_iff]
    simp [Octal, List.isPrefixOf, @eq_comm _ (0x30 : UInt16) c]
  have hrange : ∀ n : ℕ, (-(intMax : ℤ) - 1 ≤ (n : ℤ) ∧ (n : ℤ) ≤ intMax) ↔ n ≤ intMax := by
    intro n
    omega
  simp only [integerDecode, hminus, hplus, hx, hX, hhash, hzero, Bool.or_self, Bool.false_eq_true,
    if_false, decide_eq_true_eq]
  by_cases hoct : Octal (c :: us)
  · obtain rfl : c = 0x30 := Option.some.inj hoct.1
    have hus : us ≠ [] := by
      rintro rfl
      exact absurd hoct.2 (by decide)
    rw [if_pos hoct, List.drop_one, List.tail_cons]
    by_cases hdigits : ∀ v ∈ (0x30 :: us : KString), v.toNat < 0x38
    · have hread : Readable (0x30 :: us) ↔ Numeral.value 8 (0x30 :: us) ≤ intMax := by
        rw [Readable, decoded, if_pos hoct]
        exact and_iff_right (fun _ => hdigits)
      rw [(parse_octal hus hrun).1 hdigits]
      simp only [hrange, hread, decoded, if_pos hoct]
    · rw [(parse_octal hus hrun).2 hdigits,
        if_neg (fun hread : Readable _ => hdigits (hread.1 hoct))]
  · rw [if_neg hoct, Numeral.parse_ten hs hrun]
    simp only [hrange, Readable, decoded, hoct, IsEmpty.forall_iff, true_and, if_false]

/-- An octal-safe run of digits is read as its decimal value, below the limit of an `Int`, and
only such a run is. -/
theorem readable_and_decoded_iff {s : KString} (h : ∀ u ∈ s, isDigit u = true)
    (hmax : Numeral.value 10 s ≤ intMax) :
    Readable s ∧ decoded s = Numeral.value 10 s ↔ OctalSafe s := by
  have hrun := digitRun_iff.mpr h
  by_cases hoct : Octal s
  · have hle := Numeral.value_eight_le s
    have hsplit : (∀ u ∈ s, u.toNat < 0x38) ↔
        (∀ u ∈ s.dropLast, u.toNat < 0x38) ∧ ∀ u ∈ s.getLast?, u.toNat < 0x38 := by
      have hne : s ≠ [] := by
        rintro rfl
        exact absurd hoct.2 (by decide)
      conv_lhs => rw [← List.dropLast_append_getLast hne]
      rw [List.forall_mem_append, List.forall_mem_singleton, List.getLast?_eq_some_getLast hne]
      simp
    rw [Readable, decoded, if_pos hoct, Numeral.value_eight_eq_iff hrun, OctalSafe]
    have hhead : ¬ s.head? ≠ some 0x30 := not_not.mpr hoct.1
    rw [or_iff_right hhead, hsplit]
    constructor
    · rintro ⟨⟨hdigits, -⟩, hzeros⟩
      exact ⟨hzeros, (hdigits hoct).2⟩
    · rintro ⟨hzeros, hlast⟩
      refine ⟨⟨fun _ => ⟨?_, hlast⟩, by omega⟩, hzeros⟩
      intro u hu
      rw [hzeros u hu]
      decide
  · rw [Readable, decoded, if_neg hoct]
    refine iff_of_true ⟨⟨fun h => absurd h hoct, hmax⟩, rfl⟩ ?_
    by_cases hhead : s.head? = some 0x30
    · obtain ⟨us, rfl⟩ : ∃ us, s = 0x30 :: us := List.head?_eq_some_iff.mp hhead
      have hnil : us = [] := by
        by_contra hne
        exact hoct ⟨rfl, by simp [List.length_pos_iff.mpr hne]⟩
      rw [hnil]
      decide
    · exact Or.inl hhead

/-! ## Matches -/

/-- A match of `(\d*)([a-zA-Z])`. -/
structure Match where
  group1 : KString
  group2 : UInt16
  deriving DecidableEq

namespace Match

def text (m : Match) : KString := m.group1 ++ [m.group2]

end Match

/-- The matches that `m.find()` finds one after the other. The first argument is the run of digits
before the current position. -/
def findAll : KString → KString → List Match
  | _, [] => []
  | digits, c :: cs =>
      if isDigit c then findAll (digits ++ [c]) cs
      else if isLetter c then ⟨digits, c⟩ :: findAll [] cs
      else findAll [] cs

/-- `if (m.group(1).isEmpty()) 1 else Integer.decode(m.group(1))`. -/
def multipleOf (group1 : KString) : Result ℤ := if group1 = [] then .ok 1 else integerDecode group1

/-- The body of the loop over the matches. -/
def formatsOf : List Match → Result (List Format)
  | [] => .ok []
  | m :: ms => do
      let typeName ← FormatType.ofLetter m.group2
      let multiple ← multipleOf m.group1
      let formats ← formatsOf ms
      .ok (Format.expand typeName multiple.toNat ++ formats)

theorem scan_eq (digits cs : KString) : scan digits cs = formatsOf (findAll digits cs) := by
  induction cs generalizing digits with
  | nil => rfl
  | cons c cs ih =>
      rw [scan, findAll]
      by_cases hdigit : isDigit c = true
      · rw [if_pos hdigit, if_pos hdigit, ih]
      · rw [if_neg hdigit, if_neg hdigit]
        by_cases hletter : isLetter c = true
        · rw [if_pos hletter, if_pos hletter, formatsOf, ← ih, multipleOf]
          by_cases hdigits : digits = []
          · simp only [if_pos hdigits]
          · simp only [if_neg hdigits]
        · rw [if_neg hletter, if_neg hletter, ih]

theorem isDigit_group1_of_mem_findAll {digits cs : KString} {m : Match}
    (hdigits : ∀ u ∈ digits, isDigit u = true) (hm : m ∈ findAll digits cs) :
    ∀ u ∈ m.group1, isDigit u = true := by
  induction cs generalizing digits with
  | nil => cases hm
  | cons c cs ih =>
      rw [findAll] at hm
      split_ifs at hm with hdigit hletter
      · refine ih ?_ hm
        intro u hu
        rcases List.mem_append.mp hu with hu | hu
        · exact hdigits u hu
        · rw [List.mem_singleton.mp hu]
          exact hdigit
      · rcases List.mem_cons.mp hm with rfl | hm
        · exact hdigits
        · exact ih (by simp) hm
      · exact ih (by simp) hm

/-! ## Codes -/

/-- The supported code letters. -/
def codes : KString := units "xbBschHilILqQ"

/-- The number of bytes a code stands for. -/
def codeWidth (c : UInt16) : ℕ :=
  if c ∈ units "hH" then 2
  else if c ∈ units "ilIL" then 4
  else if c ∈ units "qQ" then 8
  else 1

theorem ofLetter_of_mem {c : UInt16} (h : c ∈ codes) :
    ∃ t, FormatType.ofLetter c = .ok t ∧ t.width = codeWidth c := by
  have hall : codes.all (fun c =>
      (FormatType.ofLetter c).map FormatType.width = .ok (codeWidth c)) = true := by
    decide +kernel
  have hc := of_decide_eq_true (List.all_eq_true.mp hall c h)
  cases ht : FormatType.ofLetter c with
  | error e =>
      rw [ht] at hc
      cases hc
  | ok t =>
      rw [ht] at hc
      exact ⟨t, rfl, Except.ok.inj hc⟩

theorem ofLetter_of_not_mem {c : UInt16} (h : c ∉ codes) :
    FormatType.ofLetter c = .error (.illegalArgument "type not supported") := by
  have hne : ∀ (letter : String) (v : UInt16), units letter = [v] → v ∈ codes →
      [c] ≠ units letter := by
    intro letter v hletter hv heq
    rw [hletter] at heq
    rw [List.singleton_inj.mp heq] at h
    exact h hv
  simp only [FormatType.ofLetter, Bool.or_eq_true, decide_eq_true_eq]
  rw [if_neg (hne "x" 0x78 (by decide) (by decide)), if_neg (hne "b" 0x62 (by decide) (by decide)),
    if_neg (hne "B" 0x42 (by decide) (by decide)), if_neg (hne "s" 0x73 (by decide) (by decide)),
    if_neg (hne "c" 0x63 (by decide) (by decide)), if_neg (hne "h" 0x68 (by decide) (by decide)),
    if_neg (hne "H" 0x48 (by decide) (by decide)),
    if_neg (not_or.mpr ⟨hne "i" 0x69 (by decide) (by decide),
      hne "l" 0x6C (by decide) (by decide)⟩),
    if_neg (not_or.mpr ⟨hne "I" 0x49 (by decide) (by decide),
      hne "L" 0x4C (by decide) (by decide)⟩),
    if_neg (hne "q" 0x71 (by decide) (by decide)), if_neg (hne "Q" 0x51 (by decide) (by decide))]

theorem formatsSize_expand (t : FormatType) (n : ℕ) :
    formatsSize (Format.expand t n) = t.width * n := by
  unfold Format.expand
  split
  · simp [Format.size]
  · simp [formatsSize, Format.one, Format.size, Nat.mul_comm]

/-! ## The constructor -/

namespace Match

/-- The code is supported and the count is read. -/
def Accepted (m : Match) : Prop := m.group2 ∈ codes ∧ Readable m.group1

/-- The bytes that the constructor takes the match for. -/
def size (m : Match) : ℕ :=
  (if m.group1 = [] then 1 else decoded m.group1) * codeWidth m.group2

/-- The bytes of the item that the text of the match is meant to be. -/
def decimalSize (m : Match) : ℕ :=
  (if m.group1 = [] then 1 else Numeral.value 10 m.group1) * codeWidth m.group2

end Match

theorem readable_nil : Readable [] := by decide

theorem multipleOf_eq {s : KString} (h : ∀ u ∈ s, isDigit u = true) :
    multipleOf s =
      if Readable s then .ok ((if s = [] then 1 else decoded s : ℕ) : ℤ)
      else .error .numberFormat := by
  rw [multipleOf]
  by_cases hs : s = []
  · rw [if_pos hs, hs, if_pos readable_nil]
    rfl
  · rw [if_neg hs, integerDecode_digits hs h, if_neg hs]

/-- One match, accepted or refused. -/
theorem formatsOf_cons {m : Match} (ms : List Match) (h : ∀ u ∈ m.group1, isDigit u = true) :
    (m.Accepted → ∃ gs, formatsSize gs = m.size ∧
        formatsOf (m :: ms) = (do
          let formats ← formatsOf ms
          .ok (gs ++ formats))) ∧
      (¬ m.Accepted → ∃ e, formatsOf (m :: ms) = .error e ∧ e.isIllegalArgument = true) := by
  rw [formatsOf]
  constructor
  · rintro ⟨hcode, hread⟩
    obtain ⟨t, ht, hwidth⟩ := ofLetter_of_mem hcode
    refine ⟨Format.expand t (if m.group1 = [] then 1 else decoded m.group1), ?_, ?_⟩
    · rw [formatsSize_expand, hwidth, Match.size, Nat.mul_comm]
    · rw [ht, ok_bind, multipleOf_eq h, if_pos hread, ok_bind, Int.toNat_natCast]
  · intro hnot
    by_cases hcode : m.group2 ∈ codes
    · obtain ⟨t, ht, -⟩ := ofLetter_of_mem hcode
      have hread : ¬ Readable m.group1 := fun hread => hnot ⟨hcode, hread⟩
      refine ⟨.numberFormat, ?_, rfl⟩
      rw [ht, ok_bind, multipleOf_eq h, if_neg hread, error_bind]
    · exact ⟨_, by rw [ofLetter_of_not_mem hcode, error_bind], rfl⟩

/-- The loop returns when it accepts every match. -/
theorem formatsOf_ok {ms : List Match} (h : ∀ m ∈ ms, ∀ u ∈ m.group1, isDigit u = true)
    (hall : ∀ m ∈ ms, m.Accepted) :
    ∃ fs, formatsOf ms = .ok fs ∧ formatsSize fs = (ms.map Match.size).sum := by
  induction ms with
  | nil => exact ⟨[], rfl, rfl⟩
  | cons m ms ih =>
      obtain ⟨fs, hfs, hsize⟩ := ih (fun m' hm' => h m' (by simp [hm']))
        (fun m' hm' => hall m' (by simp [hm']))
      obtain ⟨gs, hgs, hok⟩ := (formatsOf_cons ms (h m (by simp))).1 (hall m (by simp))
      refine ⟨gs ++ fs, ?_, ?_⟩
      · rw [hok, hfs, ok_bind]
      · rw [formatsSize_append, hgs, hsize, List.map_cons, List.sum_cons]

/-- The loop throws an `IllegalArgumentException` otherwise. -/
theorem formatsOf_error {ms : List Match} (h : ∀ m ∈ ms, ∀ u ∈ m.group1, isDigit u = true)
    {m : Match} (hm : m ∈ ms) (hnot : ¬ m.Accepted) :
    ∃ e, formatsOf ms = .error e ∧ e.isIllegalArgument = true := by
  induction ms with
  | nil => cases hm
  | cons m' ms ih =>
      have hcons := formatsOf_cons ms (h m' (by simp))
      by_cases haccept : m'.Accepted
      · have hms : m ∈ ms := by
          rcases List.mem_cons.mp hm with rfl | hms
          · exact absurd haccept hnot
          · exact hms
        obtain ⟨gs, -, hok⟩ := hcons.1 haccept
        obtain ⟨e, he, hillegal⟩ := ih (fun m'' hm'' => h m'' (by simp [hm''])) hms
        exact ⟨e, by rw [hok, he, error_bind], hillegal⟩
      · exact hcons.2 haccept

theorem new_eq (vm : Jvm) {fmt : KString} (hne : fmt ≠ []) :
    ∃ order, new vm fmt = (do
      let formats ← formatsOf (findAll [] fmt)
      .ok ⟨order, formats⟩) := by
  obtain ⟨c, cs, rfl⟩ := List.exists_cons_of_ne_nil hne
  refine ⟨orderOf vm c, ?_⟩
  rw [new, Jvm.assert_of_true vm (by simp), ok_bind, scan_eq]

/-! ## The grammar -/

/-- An optional order character and a sequence of items, each a run of decimal digits, which may
be missing, and a supported code. -/
structure Grammar (fmt : KString) (items : List Match) : Prop where
  text : ∃ mark : OrderMark, fmt = mark.text ++ items.flatMap Match.text
  item : ∀ m ∈ items, (∀ u ∈ m.group1, isDigit u = true) ∧ m.group2 ∈ codes

/-- The bytes of a sequence of items. -/
def itemsSize (items : List Match) : ℕ := (items.map Match.decimalSize).sum

/-- The constructor accepts the text exactly when it is in the grammar, and `calcSize()` is then
the size of the items, where this is an `Int`. -/
structure AcceptsGrammar (vm : Jvm) (fmt : KString) : Prop where
  accepts : ∀ items, Grammar fmt items →
    ∃ st, new vm fmt = .ok st ∧ (itemsSize items ≤ intMax → st.calcSize.toInt = itemsSize items)
  refuses : (¬ ∃ items, Grammar fmt items) →
    ∃ e, new vm fmt = .error e ∧ e.isIllegalArgument = true

theorem findAll_digits {ds : KString} (h : ∀ u ∈ ds, isDigit u = true) (acc cs : KString) :
    findAll acc (ds ++ cs) = findAll (acc ++ ds) cs := by
  induction ds generalizing acc with
  | nil => simp
  | cons u ds ih =>
      rw [List.cons_append, findAll, if_pos (h u (by simp)), ih (fun v hv => h v (by simp [hv])),
        List.append_assoc]
      rfl

/-- An item is found as it stands. -/
theorem findAll_text {m : Match} (hdigits : ∀ u ∈ m.group1, isDigit u = true)
    (hcode : m.group2 ∈ codes) (cs : KString) : findAll [] (m.text ++ cs) = m :: findAll [] cs := by
  have hletters : codes.all (fun c => !isDigit c && isLetter c) = true := by decide
  have hcheck := List.all_eq_true.mp hletters m.group2 hcode
  rw [Bool.and_eq_true, Bool.not_eq_true'] at hcheck
  obtain ⟨hdigit, hletter⟩ := hcheck
  rw [Match.text, List.append_assoc, findAll_digits hdigits, List.nil_append, List.singleton_append,
    findAll, hdigit, hletter]
  rfl

theorem findAll_flatMap {items : List Match}
    (h : ∀ m ∈ items, (∀ u ∈ m.group1, isDigit u = true) ∧ m.group2 ∈ codes) :
    findAll [] (items.flatMap Match.text) = items := by
  induction items with
  | nil => rfl
  | cons m items ih =>
      obtain ⟨hdigits, hcode⟩ := h m (by simp)
      rw [List.flatMap_cons, findAll_text hdigits hcode, ih (fun m' hm' => h m' (by simp [hm']))]

/-- The items of a text in the grammar are its matches. -/
theorem Grammar.findAll_eq {fmt : KString} {items : List Match} (h : Grammar fmt items) :
    findAll [] fmt = items := by
  obtain ⟨⟨mark, rfl⟩, hitem⟩ := h
  have hmark : findAll [] (mark.text ++ items.flatMap Match.text) =
      findAll [] (items.flatMap Match.text) := by
    cases mark <;> rfl
  rw [hmark, findAll_flatMap hitem]

theorem isDigit_group1 {fmt : KString} {m : Match} (hm : m ∈ findAll [] fmt) :
    ∀ u ∈ m.group1, isDigit u = true := isDigit_group1_of_mem_findAll (by simp) hm

theorem new_ok (vm : Jvm) {fmt : KString} (hne : fmt ≠ [])
    (hall : ∀ m ∈ findAll [] fmt, m.Accepted) :
    ∃ st, new vm fmt = .ok st ∧
      formatsSize st.formats = ((findAll [] fmt).map Match.size).sum := by
  obtain ⟨order, hnew⟩ := new_eq vm hne
  obtain ⟨fs, hfs, hsize⟩ := formatsOf_ok (fun m hm => isDigit_group1 hm) hall
  exact ⟨⟨order, fs⟩, by rw [hnew, hfs, ok_bind], hsize⟩

theorem new_error (vm : Jvm) {fmt : KString} (hne : fmt ≠ []) {m : Match}
    (hm : m ∈ findAll [] fmt) (hnot : ¬ m.Accepted) :
    ∃ e, new vm fmt = .error e ∧ e.isIllegalArgument = true := by
  obtain ⟨order, hnew⟩ := new_eq vm hne
  obtain ⟨e, he, hillegal⟩ := formatsOf_error (fun m hm => isDigit_group1 hm) hm hnot
  exact ⟨e, by rw [hnew, he, error_bind], hillegal⟩

theorem accepted_of_new {vm : Jvm} {fmt : KString} (hne : fmt ≠ []) {st : Struct3}
    (hnew : new vm fmt = .ok st) : ∀ m ∈ findAll [] fmt, m.Accepted := by
  intro m hm
  by_contra hnot
  obtain ⟨e, he, -⟩ := new_error vm hne hm hnot
  rw [hnew] at he
  cases he

/-! ## Sizes -/

theorem codeWidth_pos (c : UInt16) : 0 < codeWidth c := by
  unfold codeWidth
  split_ifs <;> decide

theorem decoded_le (s : KString) : decoded s ≤ Numeral.value 10 s := by
  unfold decoded
  split
  · exact Numeral.value_eight_le s
  · exact le_rfl

theorem Match.size_le (m : Match) : m.size ≤ m.decimalSize := by
  unfold Match.size Match.decimalSize
  apply Nat.mul_le_mul_right
  split
  · exact le_rfl
  · exact decoded_le m.group1

theorem Match.size_eq_iff {m : Match} (h : ∀ u ∈ m.group1, isDigit u = true)
    (hmax : m.decimalSize ≤ intMax) :
    Readable m.group1 ∧ m.size = m.decimalSize ↔ OctalSafe m.group1 := by
  have hpos := codeWidth_pos m.group2
  by_cases hnil : m.group1 = []
  · rw [hnil]
    refine iff_of_true ⟨readable_nil, ?_⟩ (by decide)
    rw [Match.size, Match.decimalSize, if_pos hnil, if_pos hnil]
  · rw [Match.decimalSize, if_neg hnil] at hmax
    have hvalue : Numeral.value 10 m.group1 ≤ intMax := (Nat.le_mul_of_pos_right _ hpos).trans hmax
    rw [← readable_and_decoded_iff h hvalue, Match.size, Match.decimalSize, if_neg hnil,
      if_neg hnil, Nat.mul_left_inj hpos.ne']

theorem sum_size_le (ms : List Match) : (ms.map Match.size).sum ≤ itemsSize ms :=
  List.sum_le_sum fun m _ => m.size_le

theorem decimalSize_le_itemsSize {ms : List Match} {m : Match} (hm : m ∈ ms) :
    m.decimalSize ≤ itemsSize ms :=
  List.le_sum_of_mem (List.mem_map_of_mem hm)

/-- The sums agree when each match has the size it is meant to have. -/
theorem sum_size_eq_iff (ms : List Match) :
    (ms.map Match.size).sum = itemsSize ms ↔ ∀ m ∈ ms, m.size = m.decimalSize := by
  induction ms with
  | nil => simp [itemsSize]
  | cons m ms ih =>
      have hle := sum_size_le ms
      have hm := m.size_le
      rw [List.forall_mem_cons, ← ih]
      unfold itemsSize at hle ⊢
      rw [List.map_cons, List.sum_cons, List.map_cons, List.sum_cons]
      omega

/-- On a text of the grammar the constructor and `calcSize()` do what they are meant to exactly
when the counts are octal-safe, or readable where the size is not an `Int`. -/
theorem accepts_iff (vm : Jvm) {fmt : KString} (hne : fmt ≠ []) {items : List Match}
    (h : Grammar fmt items) :
    (∃ st, new vm fmt = .ok st ∧
        (itemsSize items ≤ intMax → st.calcSize.toInt = itemsSize items)) ↔
      ∀ m ∈ items, if itemsSize items ≤ intMax then OctalSafe m.group1 else Readable m.group1 := by
  have hfind := h.findAll_eq
  have hdigits : ∀ m ∈ items, ∀ u ∈ m.group1, isDigit u = true := fun m hm => (h.item m hm).1
  by_cases hmax : itemsSize items ≤ intMax
  · have hsafe : ∀ m ∈ items,
        (Readable m.group1 ∧ m.size = m.decimalSize ↔ OctalSafe m.group1) := fun m hm =>
      Match.size_eq_iff (hdigits m hm) ((decimalSize_le_itemsSize hm).trans hmax)
    simp only [if_pos hmax]
    constructor
    · rintro ⟨st, hnew, hcalc⟩ m hm
      have haccepted := accepted_of_new hne hnew
      obtain ⟨st', hnew', hsize⟩ := new_ok vm hne haccepted
      obtain rfl : st = st' := Except.ok.inj (hnew.symm.trans hnew')
      rw [hfind] at haccepted hsize
      have hle := sum_size_le items
      have hexact := hcalc hmax
      rw [calcSize_toInt (by omega), hsize, Nat.cast_inj] at hexact
      exact (hsafe m hm).mp ⟨(haccepted m hm).2, (sum_size_eq_iff items).mp hexact m hm⟩
    · intro hall
      have haccepted : ∀ m ∈ findAll [] fmt, m.Accepted := by
        rw [hfind]
        exact fun m hm => ⟨(h.item m hm).2, ((hsafe m hm).mpr (hall m hm)).1⟩
      obtain ⟨st, hnew, hsize⟩ := new_ok vm hne haccepted
      rw [hfind, (sum_size_eq_iff items).mpr fun m hm => ((hsafe m hm).mpr (hall m hm)).2] at hsize
      exact ⟨st, hnew, fun _ => by rw [calcSize_toInt (by omega), hsize]⟩
  · simp only [if_neg hmax]
    constructor
    · rintro ⟨st, hnew, -⟩ m hm
      exact (accepted_of_new hne hnew m (by rwa [hfind])).2
    · intro hall
      have haccepted : ∀ m ∈ findAll [] fmt, m.Accepted := by
        rw [hfind]
        exact fun m hm => ⟨(h.item m hm).2, hall m hm⟩
      obtain ⟨st, hnew, -⟩ := new_ok vm hne haccepted
      exact ⟨st, hnew, fun hle => absurd hle hmax⟩

theorem refuses_iff (vm : Jvm) {fmt : KString} (hne : fmt ≠ []) :
    (∃ e, new vm fmt = .error e ∧ e.isIllegalArgument = true) ↔
      ∃ m ∈ findAll [] fmt, m.group2 ∉ codes ∨ ¬ Readable m.group1 := by
  constructor
  · rintro ⟨e, he, -⟩
    by_contra hnone
    have haccepted : ∀ m ∈ findAll [] fmt, m.Accepted := by
      intro m hm
      by_contra hnot
      exact hnone ⟨m, hm, not_and_or.mp hnot⟩
    obtain ⟨st, hnew, -⟩ := new_ok vm hne haccepted
    rw [hnew] at he
    cases he
  · rintro ⟨m, hm, hnot⟩
    exact new_error vm hne hm (not_and_or.mpr hnot)

/-- The constructor keeps to the grammar on a text that is not empty exactly when: in a text of
the grammar every count is octal-safe, or readable where the items take more bytes than an `Int`
counts; and in any other text there is a match with another letter, or with a count that
`Integer.decode` does not read. -/
theorem new_acceptsGrammar_iff (vm : Jvm) {fmt : KString} (hne : fmt ≠ []) :
    AcceptsGrammar vm fmt ↔
      (∀ items, Grammar fmt items → ∀ m ∈ items,
        if itemsSize items ≤ intMax then OctalSafe m.group1 else Readable m.group1) ∧
      ((¬ ∃ items, Grammar fmt items) →
        ∃ m ∈ findAll [] fmt, m.group2 ∉ codes ∨ ¬ Readable m.group1) := by
  constructor
  · rintro ⟨haccepts, hrefuses⟩
    exact ⟨fun items h => (accepts_iff vm hne h).mp (haccepts items h),
      fun hnone => (refuses_iff vm hne).mp (hrefuses hnone)⟩
  · rintro ⟨hsafe, hmatch⟩
    exact ⟨fun items h => (accepts_iff vm hne h).mpr (hsafe items h),
      fun hnone => (refuses_iff vm hne).mpr (hmatch hnone)⟩

theorem new_acceptsGrammar_iff_sample :
    AcceptsGrammar ⟨true, .littleEndian⟩ (units ">2h3Q") ↔
      (∀ items, Grammar (units ">2h3Q") items → ∀ m ∈ items,
        if itemsSize items ≤ intMax then OctalSafe m.group1 else Readable m.group1) ∧
      ((¬ ∃ items, Grammar (units ">2h3Q") items) →
        ∃ m ∈ findAll [] (units ">2h3Q"), m.group2 ∉ codes ∨ ¬ Readable m.group1) :=
  new_acceptsGrammar_iff ⟨true, .littleEndian⟩ (by decide)

/-- `010b` is taken for eight bytes, and the comma of `4L,2B` is passed over. -/
theorem new_outside_grammar :
    (Grammar (units "010b") [⟨units "010", 0x62⟩] ∧
      itemsSize [⟨units "010", 0x62⟩] = 10 ∧
      (new ⟨true, .littleEndian⟩ (units "010b")).map (fun st => st.calcSize.toInt) = .ok 8) ∧
    (¬ ∃ items, Grammar (units "4L,2B") items) ∧
      (new ⟨true, .littleEndian⟩ (units "4L,2B")).map (fun st => st.calcSize.toInt) = .ok 18 := by
  have hitem : ∀ m ∈ [(⟨units "010", 0x62⟩ : Match)],
      (∀ u ∈ m.group1, isDigit u = true) ∧ m.group2 ∈ codes := by
    intro m hm
    rw [List.mem_singleton.mp hm]
    exact ⟨List.all_eq_true.mp (by decide), by decide⟩
  refine ⟨⟨⟨⟨.absent, by decide⟩, hitem⟩, by decide +kernel, by decide +kernel⟩, ?_,
    by decide +kernel⟩
  rintro ⟨items, h⟩
  obtain ⟨⟨mark, hfmt⟩, -⟩ := id h
  have hfind : findAll [] (units "4L,2B") = [⟨units "4", 0x4C⟩, ⟨units "2", 0x42⟩] := by
    decide +kernel
  rw [← h.findAll_eq, hfind] at hfmt
  revert hfmt
  cases mark <;> decide +kernel

end Struct3

end BootImageEditor
