import BootImageEditor.Library.Numeral
import BootImageEditor.Libavb.AvbOps
import Mathlib.Data.List.TakeWhile

/-!
# Rollback indexes in files

`CfigAvbOps` keeps the rollback index of each location in a file of its own, as a line
of decimal digits. `write_to_file` returns `true` where it fails, and
`write_rollback_index` takes `true` for success; `read_rollback_index` reads a number
off the line and does not ask whether there was one.
-/

namespace BootImageEditor

open Codec Libavb

namespace Avbx

namespace RollbackIndex

/-! ## Text -/

/-- `std::to_string(n)`. -/
def toString (n : ℕ) : Bytes := (Numeral.render 10 n).map UInt16.toUInt8

/-- The number a text of decimal digits stands for. -/
def decimalValue (text : Bytes) : Option ℕ := Numeral.parse 10 (text.map UInt8.toUInt16)

def isDigit (b : UInt8) : Bool := 0x30 ≤ b.toNat && b.toNat ≤ 0x39

/-- The white space `>>` skips. -/
def isSpace (b : UInt8) : Bool := b = 0x20 || (0x09 ≤ b.toNat && b.toNat ≤ 0x0D)

/-- `iss >> value` for a `uint64_t`: a sign and a run of digits after white space.
Without digits the value is zero, and beyond the range it is the maximum; a line of
white space leaves `value` as it was, that is, uninitialised. -/
def extract (line : Bytes) (uninitialised : UInt64) : UInt64 :=
  match line.dropWhile isSpace with
  | [] => uninitialised
  | c :: cs =>
      let digits := if c = 0x2B || c = 0x2D then cs.takeWhile isDigit
        else (c :: cs).takeWhile isDigit
      match decimalValue digits with
      | none => 0
      | some n =>
          if n < 2 ^ 64 then
            if c = 0x2D then -UInt64.ofNat n else UInt64.ofNat n
          else -1

theorem decimalValue_toString (n : ℕ) : decimalValue (toString n) = some n := by
  have hmap : (toString n).map UInt8.toUInt16 = Numeral.render 10 n := by
    rw [toString, List.map_map]
    calc
      (Numeral.render 10 n).map (UInt8.toUInt16 ∘ UInt16.toUInt8) =
          (Numeral.render 10 n).map id := by
        apply List.map_congr_left
        intro u hu
        have hascii := Numeral.ascii_render (by norm_num) (by norm_num) n u hu
        apply UInt16.toNat_inj.mp
        rw [Function.comp_apply, UInt8.toNat_toUInt16, UInt16.toNat_toUInt8, id,
          Nat.mod_eq_of_lt (by omega)]
      _ = Numeral.render 10 n := List.map_id _
  rw [decimalValue, hmap, Numeral.parse_render (by norm_num) (by norm_num)]

/-- A decimal text consists of digits. -/
theorem isDigit_of_decimalValue {text : Bytes} {n : ℕ} (h : decimalValue text = some n) :
    text ≠ [] ∧ ∀ b ∈ text, isDigit b = true := by
  obtain ⟨hne, hdigits⟩ := Numeral.exists_digitValue_of_parse h
  constructor
  · intro hnil
    rw [hnil] at hne
    exact hne rfl
  · intro b hb
    obtain ⟨d, hd, hvalue⟩ := hdigits b.toUInt16 (List.mem_map_of_mem hb)
    have hnat : b.toUInt16.toNat = b.toNat := UInt8.toNat_toUInt16 b
    unfold Numeral.digitValue at hvalue
    rw [hnat] at hvalue
    unfold isDigit
    split_ifs at hvalue with h1 h2 h3
    · simpa using h1
    · cases hvalue
      omega
    · cases hvalue
      omega

theorem takeWhile_isDigit {text : Bytes} {n : ℕ} (h : decimalValue text = some n) :
    text.takeWhile isDigit = text :=
  List.takeWhile_eq_self_iff.mpr (isDigit_of_decimalValue h).2

theorem ne_of_isDigit {b c : UInt8} (hb : isDigit b = true) (hc : isDigit c = false) : b ≠ c := by
  rintro rfl
  rw [hb] at hc
  cases hc

theorem isSpace_of_isDigit {b : UInt8} (h : isDigit b = true) : isSpace b = false := by
  have hne := ne_of_isDigit (c := 0x20) h (by decide)
  simp only [isDigit, Bool.and_eq_true, decide_eq_true_eq] at h
  simp only [isSpace, hne, decide_false, Bool.false_or, Bool.and_eq_false_iff,
    decide_eq_false_iff_not]
  omega

/-- A decimal 64-bit number is read as itself. -/
theorem extract_of_decimalValue {line : Bytes} {n : ℕ} (h : decimalValue line = some n)
    (hn : n < 2 ^ 64) (uninitialised : UInt64) :
    extract line uninitialised = UInt64.ofNat n := by
  obtain ⟨hne, hdigits⟩ := isDigit_of_decimalValue h
  have hwhole := takeWhile_isDigit h
  cases line with
  | nil => exact absurd rfl hne
  | cons c cs =>
      have hc := hdigits c List.mem_cons_self
      have hplus := ne_of_isDigit (c := 0x2B) hc (by decide)
      have hminus := ne_of_isDigit (c := 0x2D) hc (by decide)
      have hskip : (c :: cs).dropWhile isSpace = c :: cs :=
        List.dropWhile_cons_of_neg (by simp [isSpace_of_isDigit hc])
      unfold extract
      rw [hskip]
      simp only [hplus, hminus, decide_false, Bool.or_self, Bool.false_eq_true, if_false, hwhole, h,
        if_pos hn]

/-! ## Files -/

/-- The contents of the files, by path. -/
abbrev Files := Bytes → Option Bytes

/-- `"config/rollbackIndex_"` -/
def filePrefix : Bytes :=
  [0x63, 0x6f, 0x6e, 0x66, 0x69, 0x67, 0x2f, 0x72, 0x6f, 0x6c, 0x6c, 0x62, 0x61, 0x63, 0x6b,
    0x49, 0x6e, 0x64, 0x65, 0x78, 0x5f]

def indexFile (loc : UInt64) : Bytes := filePrefix ++ toString loc.toNat

/-- `write_to_file(file, value)`, where opening the file succeeds or not: `true` is
returned where it does not. -/
def writeToFile (opens : Bool) (file value : Bytes) (files : Files) : Bool × Files :=
  if opens then (false, Function.update files file (some (value ++ [0x0A]))) else (true, files)

/-- `read_line(file)`: the first line, empty where the file cannot be opened. -/
def readLine (opens : Bool) (file : Bytes) (files : Files) : Bytes :=
  match if opens then files file else none with
  | none => []
  | some content => content.takeWhile (· ≠ 0x0A)

def readRollbackIndex (opens : Bool) (uninitialised : UInt64) (loc : UInt64) (files : Files) :
    AvbIO UInt64 :=
  let line := readLine opens (indexFile loc) files
  if line = [] then .error .io else .ok (extract line uninitialised)

def writeRollbackIndex (opens : Bool) (loc rollbackIndex : UInt64) (files : Files) :
    AvbIO Unit × Files :=
  let (written, files) := writeToFile opens (indexFile loc) (toString rollbackIndex.toNat) files
  if written then (.ok (), files) else (.error .io, files)

/-- The part of the constructor that stores indexes: zero in the files that are not
there. -/
def new (opens₀ opens₁ : Bool) (files : Files) : Files :=
  let files :=
    if (files (indexFile 0)).isSome then files
    else (writeToFile opens₀ (indexFile 0) (toString 0) files).2
  if (files (indexFile 1)).isSome then files
  else (writeToFile opens₁ (indexFile 1) (toString 0) files).2

/-! ## The contract -/

/-- The stored index of a location: the number on the first line of its file, if it is
a decimal 64-bit number. -/
def stored (files : Files) (loc : UInt64) : Option UInt64 :=
  (files (indexFile loc)).bind fun content =>
    (decimalValue (content.takeWhile (· ≠ 0x0A))).bind fun n =>
      if n < 2 ^ 64 then some (UInt64.ofNat n) else none

/-- A call, and whether the file can be opened. -/
inductive Call where
  | write (loc value : UInt64) (opens : Bool)
  | read (loc : UInt64) (opens : Bool) (uninitialised : UInt64)
  deriving DecidableEq

namespace Call

/-- The files after the call. -/
def after (c : Call) (files : Files) : Files :=
  match c with
  | write loc value opens => (writeRollbackIndex opens loc value files).2
  | read _ _ _ => files

/-- What the last successful writes set, after the call. -/
def expected (c : Call) (files : Files) (last : UInt64 → Option UInt64) :
    UInt64 → Option UInt64 :=
  match c with
  | write loc value opens =>
      match (writeRollbackIndex opens loc value files).1 with
      | .ok _ => Function.update last loc (some value)
      | .error _ => last
  | read _ _ _ => last

/-- What `AvbOps` promises of the call: a write returns `AVB_IO_RESULT_OK` exactly
where the index is stored then, and a read returns an index only where a decimal
64-bit number is stored, and then the one that was set last. -/
def Honoured (c : Call) (files : Files) (last : UInt64 → Option UInt64) : Prop :=
  match c with
  | write loc value opens =>
      (writeRollbackIndex opens loc value files).1 = .ok () ↔
        stored (writeRollbackIndex opens loc value files).2 loc = some value
  | read loc opens uninitialised =>
      ∀ value, readRollbackIndex opens uninitialised loc files = .ok value →
        last loc = some value ∧ (stored files loc).isSome

end Call

/-- Every call of a run is honoured. -/
def Honours (files : Files) (last : UInt64 → Option UInt64) : List Call → Prop
  | [] => True
  | c :: calls =>
      c.Honoured files last ∧ Honours (c.after files) (c.expected files last) calls

/-! ## Calls that are honoured -/

theorem stored_update (files : Files) (loc value : UInt64) :
    stored (Function.update files (indexFile loc)
      (some (toString value.toNat ++ [0x0A]))) loc = some value := by
  have hline : (toString value.toNat ++ [0x0A]).takeWhile (· ≠ 0x0A) = toString value.toNat := by
    rw [List.takeWhile_append_of_pos]
    · simp
    · intro b hb
      have hdigit := (isDigit_of_decimalValue (decimalValue_toString value.toNat)).2 b hb
      simpa using ne_of_isDigit (c := 0x0A) hdigit (by decide)
  rw [stored, Function.update_self, Option.bind_some, hline, decimalValue_toString,
    Option.bind_some, if_pos value.toNat_lt, UInt64.ofNat_toNat]

/-- What is read of a stored index. -/
theorem readRollbackIndex_of_stored {files : Files} {loc value : UInt64}
    (h : stored files loc = some value) (uninitialised : UInt64) :
    readRollbackIndex true uninitialised loc files = .ok value := by
  obtain ⟨content, hcontent, h⟩ := Option.bind_eq_some_iff.mp h
  obtain ⟨n, hn, h⟩ := Option.bind_eq_some_iff.mp h
  have hline : readLine true (indexFile loc) files = content.takeWhile (· ≠ 0x0A) := by
    rw [readLine, if_pos rfl, hcontent]
  by_cases hlt : n < 2 ^ 64
  · rw [if_pos hlt] at h
    cases h
    rw [readRollbackIndex, hline, if_neg (isDigit_of_decimalValue hn).1,
      extract_of_decimalValue hn hlt]
  · rw [if_neg hlt] at h
    cases h

/-- A call that gives the store no occasion to break its promise: a write whose file
cannot be opened and whose value is there already, or a read of a file that cannot be
opened, has no first line, or starts with a decimal 64-bit number. -/
def Call.Harmless (c : Call) (files : Files) : Prop :=
  match c with
  | .write loc value opens => opens = false ∧ stored files loc = some value
  | .read loc opens _ =>
      readLine opens (indexFile loc) files = [] ∨ (stored files loc).isSome

theorem honoured_iff (c : Call) (files : Files) :
    c.Honoured files (stored files) ↔ c.Harmless files := by
  cases c with
  | write loc value opens =>
      cases opens with
      | true =>
          have hresult : writeRollbackIndex true loc value files =
              (.error .io, Function.update files (indexFile loc)
                (some (toString value.toNat ++ [0x0A]))) := rfl
          simp [Call.Honoured, Call.Harmless, hresult, stored_update]
      | false =>
          have hresult : writeRollbackIndex false loc value files = (.ok (), files) := rfl
          simp [Call.Honoured, Call.Harmless, hresult]
  | read loc opens uninitialised =>
      unfold Call.Honoured Call.Harmless
      by_cases hline : readLine opens (indexFile loc) files = []
      · have hread : readRollbackIndex opens uninitialised loc files = .error .io := if_pos hline
        simp [hread, hline]
      · have hopens : opens = true := by
          cases opens with
          | true => rfl
          | false => exact absurd rfl hline
        subst hopens
        constructor
        · intro h
          exact .inr (h _ (if_neg hline)).2
        · intro h value hvalue
          have hsome := h.resolve_left hline
          obtain ⟨index, hindex⟩ := Option.isSome_iff_exists.mp hsome
          rw [readRollbackIndex_of_stored hindex] at hvalue
          cases hvalue
          exact ⟨hindex, hsome⟩

/-- A harmless call leaves the files and what is expected of them. -/
theorem Call.Harmless.unchanged {c : Call} {files : Files} (h : c.Harmless files) :
    c.after files = files ∧ c.expected files (stored files) = stored files := by
  cases c with
  | write loc value opens =>
      obtain ⟨rfl, hstored⟩ := h
      refine ⟨rfl, ?_⟩
      have hexpected : Call.expected (.write loc value false) files (stored files) =
          Function.update (stored files) loc (some value) := rfl
      rw [hexpected, ← hstored, Function.update_eq_self]
  | read loc opens uninitialised => exact ⟨rfl, rfl⟩

/-- From the store the constructor leaves, the contract holds in a run exactly where
every call of the run is harmless. -/
theorem honours_new_iff (files : Files) (opens₀ opens₁ : Bool) (calls : List Call) :
    Honours (new opens₀ opens₁ files) (stored (new opens₀ opens₁ files)) calls ↔
      ∀ c ∈ calls, c.Harmless (new opens₀ opens₁ files) := by
  generalize new opens₀ opens₁ files = files
  induction calls with
  | nil => simp [Honours]
  | cons c calls ih =>
      rw [Honours, honoured_iff, List.forall_mem_cons]
      apply and_congr_right
      intro h
      rw [h.unchanged.1, h.unchanged.2, ih]

/-- A fresh store: a write that succeeds returns an error, and the read after it
returns what no write set. -/
theorem honours_new_write :
    ¬ ∀ (files : Files) (opens₀ opens₁ : Bool) (calls : List Call),
      Honours (new opens₀ opens₁ files) (stored (new opens₀ opens₁ files)) calls := by
  intro h
  have hwrite := (h (fun _ => none) true true [.write 0 5 true]).1
  rw [honoured_iff] at hwrite
  cases hwrite.1

end RollbackIndex

end Avbx

end BootImageEditor
