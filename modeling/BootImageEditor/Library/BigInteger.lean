import BootImageEditor.Library.Endian
import Mathlib.Data.Nat.Size
import Mathlib.Data.Int.GCD

/-!
# Big integers as bytes

The minimal signed big-endian form of a natural number: as many bytes as its bits
and a sign bit take. A number of `8 * w` bits has `w + 1` bytes, the first of them
zero; shorter numbers have fewer bytes than `w + 1`, and filling them up with zeros
at the end changes the number.
-/

namespace Codec

/-- The minimal signed big-endian form. -/
def toByteArray (n : ℕ) : Bytes := ByteOrder.bigEndian.encode (n.size / 8 + 1) n

@[simp] theorem length_toByteArray (n : ℕ) : (toByteArray n).length = n.size / 8 + 1 := by
  rw [toByteArray, ByteOrder.length_encode]

theorem lt_pow_of_size_le {n w : ℕ} (h : n.size ≤ 8 * w) : n < 256 ^ w := by
  have hlt := Nat.size_le.mp h
  rwa [pow_mul] at hlt

theorem decode_toByteArray (n : ℕ) :
    ByteOrder.bigEndian.decode (toByteArray n) = n := by
  apply ByteOrder.decode_encode_of_lt
  apply lt_pow_of_size_le
  omega

theorem size_eq_of_bounds {n k : ℕ} (hk : 0 < k) (hlow : 2 ^ (k - 1) ≤ n) (hhigh : n < 2 ^ k) :
    n.size = k := by
  have hle := Nat.size_le.mpr hhigh
  have hlt := Nat.lt_size.mpr hlow
  omega

theorem ofLeBytes_append (xs ys : Bytes) :
    ofLeBytes (xs ++ ys) = ofLeBytes xs + 256 ^ xs.length * ofLeBytes ys := by
  induction xs with
  | nil => simp [ofLeBytes]
  | cons x xs ih =>
      rw [List.cons_append, ofLeBytes, ih, ofLeBytes, List.length_cons, pow_succ]
      ring

theorem ofLeBytes_replicate_zero (n : ℕ) : ofLeBytes (List.replicate n 0) = 0 := by
  induction n with
  | zero => rfl
  | succ n ih =>
      rw [List.replicate_succ, ofLeBytes, ih]
      rfl

/-- Zeros after a big-endian number multiply it. -/
theorem decode_append_zeros (bs : Bytes) (n : ℕ) :
    ByteOrder.bigEndian.decode (bs ++ List.replicate n 0) =
      256 ^ n * ByteOrder.bigEndian.decode bs := by
  rw [ByteOrder.decode, List.reverse_append, ofLeBytes_append, List.reverse_replicate,
    ofLeBytes_replicate_zero, List.length_replicate, Nat.zero_add]
  rfl

theorem leBytes_succ (w n : ℕ) :
    leBytes (w + 1) n = leBytes w n ++ [UInt8.ofNat (n / 256 ^ w)] := by
  induction w generalizing n with
  | zero => simp [leBytes]
  | succ w ih =>
      have hdiv : n / 256 / 256 ^ w = n / 256 ^ (w + 1) := by
        rw [Nat.div_div_eq_div_mul, pow_succ']
      rw [leBytes, ih, hdiv, leBytes, List.cons_append]

/-- The first byte of a big-endian form, and the rest. -/
theorem encode_bigEndian_succ (w n : ℕ) :
    ByteOrder.bigEndian.encode (w + 1) n =
      UInt8.ofNat (n / 256 ^ w) :: ByteOrder.bigEndian.encode w n := by
  rw [ByteOrder.encode, leBytes_succ, List.reverse_append]
  rfl

/-- Filled up with zeros at the end, a positive number is in big-endian form exactly
where nothing is filled up. -/
theorem toByteArray_append_zeros_iff {n w : ℕ} (hpos : 0 < n) (hn : n < 256 ^ w)
    (hlen : (toByteArray n).length ≤ w) :
    toByteArray n ++ List.replicate (w - (toByteArray n).length) 0 =
        ByteOrder.bigEndian.encode w n ↔ (toByteArray n).length = w := by
  constructor
  · intro h
    have hdecode := congrArg ByteOrder.bigEndian.decode h
    rw [decode_append_zeros, decode_toByteArray, ByteOrder.decode_encode_of_lt _ hn] at hdecode
    have hone : 256 ^ (w - (toByteArray n).length) = 1 :=
      Nat.eq_of_mul_eq_mul_right hpos (by rw [hdecode, Nat.one_mul])
    have hzero : w - (toByteArray n).length = 0 := by
      by_contra hne
      have hlt : 1 < 256 ^ (w - (toByteArray n).length) := Nat.one_lt_pow hne (by norm_num)
      omega
    omega
  · intro h
    have hw : n.size / 8 + 1 = w := by rw [← length_toByteArray, h]
    rw [h, Nat.sub_self, List.replicate_zero, List.append_nil, toByteArray, hw]

/-! ## Inverses -/

/-- The inverse of `a` modulo `m`, in the range of the residues. -/
def modInverse (a m : ℕ) : Option ℕ :=
  if a.gcd m = 1 then some ((a.gcdA m) % m).toNat else none

theorem modInverse_of_coprime {a m : ℕ} (hm : 1 < m) (h : a.gcd m = 1) :
    ∃ x, modInverse a m = some x ∧ x < m ∧ a * x % m = 1 := by
  have hm0 : (0 : ℤ) < m := by exact_mod_cast (by omega : 0 < m)
  have hnonneg := Int.emod_nonneg (a.gcdA m) hm0.ne'
  have hlt := Int.emod_lt_of_pos (a.gcdA m) hm0
  refine ⟨((a.gcdA m) % m).toNat, if_pos h, by omega, ?_⟩
  have hbezout : (1 : ℤ) = a * a.gcdA m + m * a.gcdB m := by
    have hab := Nat.gcd_eq_gcd_ab a m
    rwa [h] at hab
  have hcast : ((a * ((a.gcdA m) % m).toNat % m : ℕ) : ℤ) = ((1 : ℕ) : ℤ) := by
    push_cast
    rw [Int.toNat_of_nonneg hnonneg, Int.mul_emod, Int.emod_emod_of_dvd _ (dvd_refl _),
      ← Int.mul_emod]
    have hprod : (a : ℤ) * a.gcdA m = 1 + m * (-a.gcdB m) := by
      rw [hbezout]
      ring
    rw [hprod, Int.add_mul_emod_self_left]
    exact Int.emod_eq_of_lt (by norm_num) (by exact_mod_cast hm)
  exact_mod_cast hcast

end Codec
