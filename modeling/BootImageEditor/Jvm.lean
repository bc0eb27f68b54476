import BootImageEditor.Library.Fallible
import BootImageEditor.Library.Numeral

/-!
# The virtual machine the tool runs on

What the Kotlin sources take from the platform: the exceptions they throw, the
assertion switch, the native byte order, the length limit of arrays, and input
streams. A stream keeps the whole content and the position, since `skip` may
move past the end of a file and before the current position.
-/

namespace BootImageEditor

open Codec Fallible

/-- A Kotlin `String`. -/
abbrev KString := U16String

/-- `Char.isWhitespace()`. -/
def isWhitespace (c : UInt16) : Bool :=
  (0x9 ≤ c && c ≤ 0xD) || (0x1C ≤ c && c ≤ 0x20) || c = 0xA0 || c = 0x1680 ||
    (0x2000 ≤ c && c ≤ 0x200A) || c = 0x2028 || c = 0x2029 || c = 0x202F || c = 0x205F || c = 0x3000

def isBlank (s : KString) : Bool := s.all isWhitespace

def isNotBlank (s : KString) : Bool := !isBlank s

inductive Throwable where
  | illegalArgument (message : String)
  | numberFormat
  | illegalState (message : String)
  | runtime (message : String)
  | assertion
  | nullPointer
  | classCast
  | indexOutOfBounds
  | negativeArraySize
  | bufferOverflow
  | outOfMemory
  | arithmetic
  | io
  deriving DecidableEq, Repr

/-- `catch (e: IllegalArgumentException)` takes the exception: the class itself
or its subclass `NumberFormatException`. -/
def Throwable.isIllegalArgument : Throwable → Bool
  | illegalArgument _ => true
  | numberFormat => true
  | _ => false

abbrev Result := Except Throwable

structure Jvm where
  assertionsEnabled : Bool
  nativeOrder : ByteOrder

/-- `assert(condition)`: the condition is evaluated whether or not assertions
are enabled. -/
def Jvm.assert (vm : Jvm) (condition : Bool) : Result Unit :=
  if condition then .ok ()
  else if vm.assertionsEnabled then .error .assertion
  else .ok ()

theorem Jvm.assert_of_true (vm : Jvm) {condition : Bool} (h : condition = true) :
    vm.assert condition = .ok () := by
  rw [Jvm.assert, if_pos h]

theorem Jvm.assert_disabled {vm : Jvm} (h : vm.assertionsEnabled = false)
    (condition : Bool) : vm.assert condition = .ok () := by
  rw [Jvm.assert, h]
  split <;> rfl

theorem Jvm.assert_eq_ok_iff (vm : Jvm) (condition : Bool) (u : Unit) :
    vm.assert condition = .ok u ↔ condition = true ∨ vm.assertionsEnabled = false := by
  unfold Jvm.assert
  cases condition <;> cases vm.assertionsEnabled <;> simp

/-- `Int.MAX_VALUE`, the length no array exceeds. -/
def intMax : ℕ := 2147483647

/-- `toInt()` of a `UInt`. -/
theorem toInt_toInt32_cond (n : UInt32) :
    n.toInt32.toInt = if n.toNat < 2 ^ 31 then (n.toNat : ℤ) else n.toNat - 2 ^ 32 := by
  have hvalue : n.toInt32.toInt = n.toBitVec.toInt := rfl
  have hnat : n.toBitVec.toNat = n.toNat := rfl
  rw [hvalue, BitVec.toInt_eq_toNat_cond, hnat]
  split <;> split <;> omega

/-- `toInt()` of a `ULong`: the low 32 bits, as a signed number. -/
theorem toInt_cut (x : UInt64) :
    x.toUInt32.toInt32.toInt =
      if x.toNat % 2 ^ 32 < 2 ^ 31 then ((x.toNat % 2 ^ 32 : ℕ) : ℤ)
      else ((x.toNat % 2 ^ 32 : ℕ) : ℤ) - 2 ^ 32 := by
  rw [toInt_toInt32_cond, UInt64.toNat_toUInt32]

/-- `ByteArray(n)`. -/
def zeros (n : ℕ) : Bytes := List.replicate n 0

@[simp] theorem length_zeros (n : ℕ) : (zeros n).length = n := List.length_replicate

/-- Text of a number in string templates. -/
def decimal (n : ℕ) : KString := Numeral.render 10 n

inductive StreamKind where
  | file
  | byteArray
  deriving DecidableEq, Repr

structure InputStream where
  kind : StreamKind
  data : Bytes
  pos : ℕ
  deriving DecidableEq

namespace InputStream

def fileInputStream (content : Bytes) : InputStream := ⟨.file, content, 0⟩

def byteArrayInputStream (content : Bytes) : InputStream := ⟨.byteArray, content, 0⟩

/-- The bytes not yet read. -/
def rest (s : InputStream) : Bytes := s.data.drop s.pos

def advance (s : InputStream) (n : ℕ) : InputStream := { s with pos := s.pos + n }

/-- `read(data)` into a fresh array of `n` bytes: the returned count, the array
afterwards, and the stream. At the end of the data the count is `-1`; a read of
no bytes returns `0` there, except from a `ByteArrayInputStream`. -/
def read (s : InputStream) (n : ℕ) : ℤ × Bytes × InputStream :=
  if n = 0 then
    (if s.kind = .byteArray ∧ s.rest = [] then -1 else 0, [], s)
  else if s.rest = [] then
    (-1, zeros n, s)
  else
    let got := s.rest.take n
    (got.length, got ++ zeros (n - got.length), s.advance got.length)

/-- `skip(n)`: a file moves freely, also past its end, but not before its start (that a file
system refuses positions beyond some bound is left out); a byte array moves forward within its
bounds. -/
def skip (s : InputStream) (n : ℤ) : Result (ℤ × InputStream) :=
  match s.kind with
  | .file =>
      if (s.pos : ℤ) + n < 0 then .error .io
      else .ok (n, { s with pos := ((s.pos : ℤ) + n).toNat })
  | .byteArray =>
      let k := min (max n 0) (s.rest.length : ℤ)
      .ok (k, s.advance k.toNat)

@[simp] theorem advance_advance (s : InputStream) (m n : ℕ) :
    (s.advance m).advance n = s.advance (m + n) := by
  simp [advance, Nat.add_assoc]

@[simp] theorem advance_zero (s : InputStream) : s.advance 0 = s := rfl

@[simp] theorem advance_kind (s : InputStream) (n : ℕ) :
    (s.advance n).kind = s.kind := rfl

@[simp] theorem rest_advance (s : InputStream) (n : ℕ) :
    (s.advance n).rest = s.rest.drop n := by
  simp [rest, advance]

@[simp] theorem rest_fileInputStream (content : Bytes) :
    (fileInputStream content).rest = content := rfl

@[simp] theorem rest_byteArrayInputStream (content : Bytes) :
    (byteArrayInputStream content).rest = content := rfl

theorem rest_advance_of_append {s : InputStream} {bs r : Bytes}
    (h : s.rest = bs ++ r) : (s.advance bs.length).rest = r := by
  simp [h]

/-- The array has the length that was asked for, whatever was read into it. -/
theorem length_read (s : InputStream) (n : ℕ) : (s.read n).2.1.length = n := by
  unfold read
  split
  · next h => exact h.symm
  · split
    · exact length_zeros n
    · rw [List.length_append, length_zeros, List.length_take]
      omega

/-- A read leaves what stands behind the bytes asked for. -/
theorem rest_read (s : InputStream) (n : ℕ) : (s.read n).2.2.rest = s.rest.drop n := by
  unfold read
  split
  · next h => rw [h, List.drop_zero]
  · split
    · next h => rw [h, List.drop_nil]
    · simp only [List.length_take, rest_advance]
      rcases Nat.le_total n s.rest.length with hle | hle
      · rw [Nat.min_eq_left hle]
      · rw [Nat.min_eq_right hle, List.drop_length, List.drop_of_length_le hle]

/-- A read that returns its count has found as many bytes. -/
theorem le_length_of_read {s : InputStream} {n : ℕ} (h : (n : ℤ) = (s.read n).1) :
    n ≤ s.rest.length := by
  unfold read at h
  by_cases hzero : n = 0
  · omega
  · rw [if_neg hzero] at h
    by_cases hrest : s.rest = []
    · rw [if_pos hrest] at h
      exact absurd h (by simp)
    · rw [if_neg hrest] at h
      have hcount : n = (s.rest.take n).length := Int.ofNat_inj.mp h
      rw [List.length_take] at hcount
      omega

/-- A read that returns its count has moved on by it. -/
theorem read_stream {s : InputStream} {n : ℕ} (h : (n : ℤ) = (s.read n).1) :
    (s.read n).2.2 = s.advance n := by
  unfold read at h ⊢
  by_cases hzero : n = 0
  · rw [if_pos hzero, hzero]
    rfl
  · rw [if_neg hzero] at h ⊢
    by_cases hrest : s.rest = []
    · rw [if_pos hrest] at h
      exact absurd h (by simp)
    · rw [if_neg hrest] at h ⊢
      have hcount : (s.rest.take n).length = n := (Int.ofNat_inj.mp h).symm
      simp only [hcount]

/-- A read of a positive number of available bytes takes exactly those bytes. -/
theorem read_of_append {s : InputStream} {bs r : Bytes} (h : s.rest = bs ++ r)
    (hpos : 0 < bs.length) :
    s.read bs.length = ((bs.length : ℤ), bs, s.advance bs.length) := by
  have hbs : bs ≠ [] := List.length_pos_iff.mp hpos
  have hne : s.rest ≠ [] := by
    rw [h]
    exact List.append_ne_nil_of_left_ne_nil hbs r
  have htake : s.rest.take bs.length = bs := by simp [h]
  rw [read, if_neg (by omega), if_neg hne]
  simp only [htake, Nat.sub_self]
  simp [zeros]

/-- A read of available bytes takes them, but a read of no bytes at the end of a
byte array reports the end. -/
theorem read_available {s : InputStream} {bs r : Bytes} (h : s.rest = bs ++ r) :
    s.read bs.length =
      if bs = [] ∧ s.kind = .byteArray ∧ r = [] then (-1, [], s)
      else ((bs.length : ℤ), bs, s.advance bs.length) := by
  rcases Nat.eq_zero_or_pos bs.length with hzero | hpos
  · obtain rfl := List.length_eq_zero_iff.mp hzero
    rw [List.nil_append] at h
    rw [read, if_pos List.length_nil, h]
    by_cases hend : s.kind = .byteArray ∧ r = []
    · rw [if_pos hend, if_pos ⟨rfl, hend⟩]
    · rw [if_neg hend, if_neg (fun h' => hend h'.2)]
      rfl
  · rw [read_of_append h hpos, if_neg (fun h' => List.length_pos_iff.mp hpos h'.1)]

/-- Skipping within the available bytes. -/
theorem skip_of_le {s : InputStream} {n : ℕ} (h : n ≤ s.rest.length) :
    s.skip n = .ok ((n : ℤ), s.advance n) := by
  unfold skip
  split
  · rw [if_neg (by omega)]
    congr 2
  · have hmin : min (max (n : ℤ) 0) (s.rest.length : ℤ) = n := by omega
    simp only [hmin]
    rfl

end InputStream

end BootImageEditor
