import Mathlib.Algebra.Order.Ring.Nat
import Mathlib.Tactic.Ring

/-!
# Fixed-width integers as bytes

A byte string is a list of `UInt8`. `ByteOrder.encode o w n` is the `w`-byte
form of the natural number `n` in the byte order `o`, and `ByteOrder.decode o`
reads it back. Both orders are the little-endian recursion, read forwards or
reversed, so the two round trips are proved once for `leBytes` and transported.
-/

namespace Codec

abbrev Bytes := List UInt8

/-- The `w` low bytes of `n`, least significant first. -/
def leBytes : ℕ → ℕ → Bytes
  | 0, _ => []
  | w + 1, n => UInt8.ofNat n :: leBytes w (n / 256)

/-- The natural number whose bytes, least significant first, are the list. -/
def ofLeBytes : Bytes → ℕ
  | [] => 0
  | b :: bs => b.toNat + 256 * ofLeBytes bs

@[simp] theorem length_leBytes (w n : ℕ) : (leBytes w n).length = w := by
  induction w generalizing n with
  | zero => rfl
  | succ w ih =>
      simp only [leBytes, List.length_cons, ih]

theorem ofLeBytes_leBytes (w n : ℕ) :
    ofLeBytes (leBytes w n) = n % 256 ^ w := by
  induction w generalizing n with
  | zero => simp [leBytes, ofLeBytes, Nat.mod_one]
  | succ w ih =>
      rw [leBytes, ofLeBytes, ih, pow_succ', Nat.mod_mul]
      simp

theorem ofLeBytes_lt (bs : Bytes) : ofLeBytes bs < 256 ^ bs.length := by
  induction bs with
  | nil => simp [ofLeBytes]
  | cons b bs ih =>
      have hb : b.toNat < 256 := b.toNat_lt
      rw [ofLeBytes, List.length_cons, pow_succ]
      omega

theorem leBytes_ofLeBytes (bs : Bytes) :
    leBytes bs.length (ofLeBytes bs) = bs := by
  induction bs with
  | nil => rfl
  | cons b bs ih =>
      have hb : b.toNat < 256 := b.toNat_lt
      have hdiv : (b.toNat + 256 * ofLeBytes bs) / 256 = ofLeBytes bs := by omega
      have hhead : UInt8.ofNat (b.toNat + 256 * ofLeBytes bs) = b := by
        apply UInt8.toNat_inj.mp
        simp only [UInt8.toNat_ofNat']
        omega
      rw [List.length_cons, ofLeBytes, leBytes, hdiv, hhead, ih]

inductive ByteOrder where
  | littleEndian
  | bigEndian
  deriving DecidableEq, Repr

namespace ByteOrder

/-- The `w`-byte form of `n` in the byte order `o`. -/
def encode : ByteOrder → ℕ → ℕ → Bytes
  | littleEndian, w, n => leBytes w n
  | bigEndian, w, n => (leBytes w n).reverse

/-- The natural number a byte string stands for in the byte order `o`. -/
def decode : ByteOrder → Bytes → ℕ
  | littleEndian, bs => ofLeBytes bs
  | bigEndian, bs => ofLeBytes bs.reverse

@[simp] theorem length_encode (o : ByteOrder) (w n : ℕ) :
    (o.encode w n).length = w := by
  cases o <;> simp [encode]

/-- Reading back what was written keeps the low `w` bytes. -/
theorem decode_encode (o : ByteOrder) (w n : ℕ) :
    o.decode (o.encode w n) = n % 256 ^ w := by
  cases o <;> simp [encode, decode, ofLeBytes_leBytes]

theorem decode_encode_of_lt (o : ByteOrder) {w n : ℕ} (h : n < 256 ^ w) :
    o.decode (o.encode w n) = n := by
  rw [decode_encode, Nat.mod_eq_of_lt h]

theorem decode_lt (o : ByteOrder) (bs : Bytes) :
    o.decode bs < 256 ^ bs.length := by
  cases o with
  | littleEndian => exact ofLeBytes_lt bs
  | bigEndian => simpa [decode] using ofLeBytes_lt bs.reverse

theorem encode_inj_of_lt (o : ByteOrder) {w m n : ℕ}
    (hm : m < 256 ^ w) (hn : n < 256 ^ w)
    (h : o.encode w m = o.encode w n) : m = n := by
  have h' := congrArg o.decode h
  rwa [decode_encode_of_lt o hm, decode_encode_of_lt o hn] at h'

end ByteOrder

end Codec
