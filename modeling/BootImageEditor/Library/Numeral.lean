import BootImageEditor.Library.Utf8
import Mathlib.Data.Nat.Digits.Lemmas

/-!
# Numerals

`render b n` writes a natural number in base `b` with the digits `0`-`9` and
`a`-`z`, without leading zeros; `parse b` reads such a text and refuses
anything that is not a non-empty run of digits below the base. Reading inverts
writing for every base up to 36.
-/

namespace Codec

namespace Numeral

def digitUnit (d : ℕ) : UInt16 :=
  if d < 10 then UInt16.ofNat (0x30 + d) else UInt16.ofNat (0x57 + d)

/-- The value of a digit in either case; `none` outside ASCII letters and
digits. -/
def digitValue (u : UInt16) : Option ℕ :=
  if 0x30 ≤ u.toNat ∧ u.toNat ≤ 0x39 then some (u.toNat - 0x30)
  else if 0x61 ≤ u.toNat ∧ u.toNat ≤ 0x7A then some (u.toNat - 0x57)
  else if 0x41 ≤ u.toNat ∧ u.toNat ≤ 0x5A then some (u.toNat - 0x37)
  else none

/-- The numeral of `n` in base `b`, most significant digit first. -/
def render (b n : ℕ) : U16String :=
  if n = 0 then [digitUnit 0] else (Nat.digits b n).reverse.map digitUnit

/-- One more digit at the low end of a numeral. -/
def parseStep (b acc : ℕ) (u : UInt16) : Option ℕ :=
  (digitValue u).bind fun d => if d < b then some (acc * b + d) else none

def parse (b : ℕ) (s : U16String) : Option ℕ :=
  if s = [] then none else s.foldlM (parseStep b) 0

theorem digitUnit_toNat {d : ℕ} (h : d < 36) :
    (digitUnit d).toNat = if d < 10 then 0x30 + d else 0x57 + d := by
  unfold digitUnit
  split_ifs <;> exact Utf8.toNat_ofNat16 (by omega)

theorem digitValue_digitUnit {d : ℕ} (h : d < 36) :
    digitValue (digitUnit d) = some d := by
  rw [digitValue, digitUnit_toNat h]
  by_cases hd : d < 10
  · rw [if_pos hd, if_pos (by omega)]
    congr 1
    omega
  · rw [if_neg hd, if_neg (by omega), if_pos (by omega)]
    congr 1
    omega

theorem foldlM_parseStep {b : ℕ} (hb : b ≤ 36) (ds : List ℕ)
    (hds : ∀ d ∈ ds, d < b) (acc : ℕ) :
    (ds.map digitUnit).foldlM (parseStep b) acc =
      some (ds.foldl (fun a d => a * b + d) acc) := by
  induction ds generalizing acc with
  | nil => rfl
  | cons d ds ih =>
      have hd : d < b := hds d (by simp)
      have hstep : parseStep b acc (digitUnit d) = some (acc * b + d) := by
        rw [parseStep, digitValue_digitUnit (by omega), Option.bind_some, if_pos hd]
      rw [List.map_cons, List.foldlM_cons, hstep, List.foldl_cons]
      exact ih (fun e he => hds e (List.mem_cons_of_mem d he)) (acc * b + d)

theorem render_ne_nil (b n : ℕ) : render b n ≠ [] := by
  unfold render
  split_ifs with h
  · simp
  · simp [Nat.digits_ne_nil_iff_ne_zero.mpr h]

/-- Reading a numeral inverts writing it. -/
theorem parse_render {b : ℕ} (h1 : 1 < b) (h2 : b ≤ 36) (n : ℕ) :
    parse b (render b n) = some n := by
  rw [parse, if_neg (render_ne_nil b n), render]
  split_ifs with hn
  · have h := foldlM_parseStep h2 [0] (by simp; omega) 0
    simpa [hn] using h
  · rw [foldlM_parseStep h2 _ (fun d hd => Nat.digits_lt_base h1 (List.mem_reverse.mp hd))]
    rw [List.foldl_reverse]
    congr 1
    calc List.foldr (fun d a => a * b + d) 0 (Nat.digits b n)
        = Nat.ofDigits b (Nat.digits b n) := by
          rw [Nat.ofDigits_eq_foldr]
          congr 1
          funext d a
          simp only [Nat.cast_id]
          ring
      _ = n := Nat.ofDigits_digits b n

/-- What is read consists of digits below the base. -/
theorem exists_digitValue_of_parse {b n : ℕ} {s : U16String} (h : parse b s = some n) :
    s ≠ [] ∧ ∀ u ∈ s, ∃ d < b, digitValue u = some d := by
  have hfold : ∀ (us : U16String) (acc : ℕ), us.foldlM (parseStep b) acc = some n →
      ∀ u ∈ us, ∃ d < b, digitValue u = some d := by
    intro us
    induction us with
    | nil =>
        intro acc _ u hu
        cases hu
    | cons v us ih =>
        intro acc hacc u hu
        rw [List.foldlM_cons] at hacc
        obtain ⟨acc', hstep, hrest⟩ := Option.bind_eq_some_iff.mp hacc
        rcases List.mem_cons.mp hu with rfl | hu
        · obtain ⟨d, hd, hlt⟩ := Option.bind_eq_some_iff.mp hstep
          by_cases hdb : d < b
          · exact ⟨d, hdb, hd⟩
          · rw [if_neg hdb] at hlt
            cases hlt
        · exact ih acc' hrest u hu
  by_cases hs : s = []
  · rw [hs] at h
    cases h
  · rw [parse, if_neg hs] at h
    exact ⟨hs, hfold s 0 h⟩

theorem exists_digit_of_mem_render {b n : ℕ} (h1 : 1 < b) {u : UInt16}
    (hu : u ∈ render b n) : ∃ d < b, u = digitUnit d := by
  unfold render at hu
  split_ifs at hu
  · exact ⟨0, by omega, by simpa using hu⟩
  · obtain ⟨d, hd, rfl⟩ := List.mem_map.mp hu
    exact ⟨d, Nat.digits_lt_base h1 (List.mem_reverse.mp hd), rfl⟩

theorem ascii_render {b : ℕ} (h1 : 1 < b) (h2 : b ≤ 36) (n : ℕ) :
    Utf8.Ascii (render b n) := by
  intro u hu
  obtain ⟨d, hd, rfl⟩ := exists_digit_of_mem_render h1 hu
  rw [digitUnit_toNat (by omega)]
  split_ifs <;> omega

/-- A numeral of a positive number starts with a digit other than zero. -/
theorem head_render_ne_zero {b n : ℕ} (h1 : 1 < b) (hn : n ≠ 0) :
    ∃ d us, render b n = digitUnit d :: us ∧ 0 < d ∧ d < b := by
  have hne : Nat.digits b n ≠ [] := Nat.digits_ne_nil_iff_ne_zero.mpr hn
  have hlast : (Nat.digits b n).getLast hne ≠ 0 := Nat.getLast_digit_ne_zero b hn
  have hlt : (Nat.digits b n).getLast hne < b :=
    Nat.digits_lt_base h1 (List.getLast_mem hne)
  refine ⟨(Nat.digits b n).getLast hne,
    ((Nat.digits b n).dropLast.reverse).map digitUnit, ?_, by omega, hlt⟩
  rw [render, if_neg hn]
  conv_lhs => rw [← List.dropLast_append_getLast hne]
  simp

/-! ## Runs of decimal digits -/

/-- A run of decimal digits. -/
def DigitRun (s : U16String) : Prop := ∀ u ∈ s, 0x30 ≤ u.toNat ∧ u.toNat ≤ 0x39

/-- The number that a run of digits stands for when it is read in base `b`. -/
def value (b : ℕ) (s : U16String) : ℕ := s.foldl (fun acc u => acc * b + (u.toNat - 0x30)) 0

@[simp] theorem value_nil (b : ℕ) : value b [] = 0 := rfl

@[simp] theorem value_append_singleton (b : ℕ) (s : U16String) (u : UInt16) :
    value b (s ++ [u]) = value b s * b + (u.toNat - 0x30) := by
  simp [value]

theorem value_zero_cons (b : ℕ) (s : U16String) : value b (0x30 :: s) = value b s := by
  simp [value]

theorem digitRun_append_singleton {s : U16String} {u : UInt16} :
    DigitRun (s ++ [u]) ↔ DigitRun s ∧ 0x30 ≤ u.toNat ∧ u.toNat ≤ 0x39 := by
  rw [DigitRun, List.forall_mem_append, List.forall_mem_singleton]
  rfl

/-- In base eight a run of digits stands for no larger a number than in base ten. -/
theorem value_eight_le (s : U16String) : value 8 s ≤ value 10 s := by
  induction s using List.reverseRecOn with
  | nil => exact le_rfl
  | append_singleton s u ih =>
      rw [value_append_singleton, value_append_singleton]
      omega

theorem value_eq_zero_iff {b : ℕ} (hb : 0 < b) {s : U16String} (h : DigitRun s) :
    value b s = 0 ↔ ∀ u ∈ s, u = 0x30 := by
  induction s using List.reverseRecOn with
  | nil => simp
  | append_singleton s u ih =>
      obtain ⟨hs, hlow, -⟩ := digitRun_append_singleton.mp h
      have hzero : u.toNat - 0x30 = 0 ↔ u = 0x30 := by
        rw [← UInt16.toNat_inj]
        have hliteral : (0x30 : UInt16).toNat = 0x30 := rfl
        omega
      have hmul : value b s * b = 0 ↔ value b s = 0 := by
        rw [Nat.mul_eq_zero]
        omega
      rw [value_append_singleton, Nat.add_eq_zero_iff, hzero, hmul, ih hs]
      simp [or_imp, forall_and]

/-- The two bases agree when every digit but the last is zero. -/
theorem value_eight_eq_iff {s : U16String} (h : DigitRun s) :
    value 8 s = value 10 s ↔ ∀ u ∈ s.dropLast, u = 0x30 := by
  induction s using List.reverseRecOn with
  | nil => simp
  | append_singleton s u _ =>
      obtain ⟨hs, -⟩ := digitRun_append_singleton.mp h
      have hle := value_eight_le s
      rw [List.dropLast_concat, ← value_eq_zero_iff (b := 10) (by decide) hs,
        value_append_singleton, value_append_singleton]
      omega

theorem foldlM_parseStep_digits {b : ℕ} {s : U16String} (h : DigitRun s) (acc : ℕ) :
    s.foldlM (parseStep b) acc =
      if s.all (fun u => u.toNat - 0x30 < b) then
        some (s.foldl (fun acc u => acc * b + (u.toNat - 0x30)) acc)
      else none := by
  induction s generalizing acc with
  | nil => simp
  | cons u s ih =>
      have hu := h u (by simp)
      have hstep : parseStep b acc u =
          if u.toNat - 0x30 < b then some (acc * b + (u.toNat - 0x30)) else none := by
        rw [parseStep, digitValue, if_pos hu, Option.bind_some]
      rw [List.foldlM_cons, hstep]
      by_cases hlt : u.toNat - 0x30 < b
      · rw [if_pos hlt, List.all_cons, decide_eq_true hlt, Bool.true_and, List.foldl_cons]
        exact ih (fun v hv => h v (by simp [hv])) _
      · rw [if_neg hlt, List.all_cons, decide_eq_false hlt, Bool.false_and]
        rfl

/-- A run of digits is read when each of them is below the base. -/
theorem parse_digits {b : ℕ} {s : U16String} (hs : s ≠ []) (h : DigitRun s) :
    parse b s = if s.all (fun u => u.toNat - 0x30 < b) then some (value b s) else none := by
  rw [parse, if_neg hs, foldlM_parseStep_digits h]
  rfl

theorem parse_ten {s : U16String} (hs : s ≠ []) (h : DigitRun s) :
    parse 10 s = some (value 10 s) := by
  rw [parse_digits hs h, if_pos]
  rw [List.all_eq_true]
  intro u hu
  have hdigit := h u hu
  exact decide_eq_true (by omega)

end Numeral

end Codec
