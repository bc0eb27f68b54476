import BootImageEditor.Library.BigInteger
import BootImageEditor.Avb.Algorithms
import Mathlib.Data.Nat.Prime.Basic

/-!
# Public keys

`Helper.encodeRSAkey` turns a private key into the public key format of AVB: the
number of bits, a word that inverts the modulus, the modulus, and the square of the
Montgomery radix. The modulus loses its sign byte on the way; the last number goes in
as `toByteArray` returns it, and `b` items fill up at the end.
-/

namespace BootImageEditor

open Codec Fallible

/-- The part of an RSA private key that is encoded. -/
structure RsaPrivateKey where
  modulus : ℕ
  publicExponent : ℕ

namespace BigInteger

/-- Results outside the supported range are refused. -/
def checkRange (n : ℕ) : Result ℕ :=
  if n.size ≤ intMax then .ok n else .error .arithmetic

def pow (n exponent : ℕ) : Result ℕ := checkRange (n ^ exponent)

def multiply (n m : ℕ) : Result ℕ := checkRange (n * m)

def mod (n m : ℕ) : Result ℕ := if m = 0 then .error .arithmetic else .ok (n % m)

def modInverse (n m : ℕ) : Result ℕ :=
  match Codec.modInverse n m with
  | some x => .ok x
  | none => .error .arithmetic

/-- What is documented of `BigIntegerMath.log2(x, RoundingMode.CEILING)`: the logarithm of a
positive number, rounded up. -/
def RoundsUp (log2 : ℕ → Result ℕ) : Prop := ∀ n, 0 < n → log2 n = .ok (Nat.clog 2 n)

end BigInteger

namespace Helper

/-- `sliceArray(1..last)`. -/
def sliceFromOne (bs : Bytes) (last : ℕ) : Result Bytes :=
  if last < 1 then .ok []
  else if bs.length < last + 1 then .error .indexOutOfBounds
  else .ok ((bs.drop 1).take last)

/-- The format string of an encoded key. -/
def keyFormat (numBits : ℕ) : KString :=
  units "!II" ++ decimal (numBits / 8) ++ units "b" ++ decimal (numBits / 8) ++ units "b"

/-- `encodeRSAkey(key)`, with what it calls outside the sources: the PEM parser and
`BigIntegerMath.log2`. -/
def encodeRSAkey (vm : Jvm) (log2 : ℕ → Result ℕ)
    (parsePemPrivateKey : Bytes → Result RsaPrivateKey) (key : Bytes) : Result Bytes := do
  let rsa ← parsePemPrivateKey key
  vm.assert (65537 = rsa.publicExponent)
  let numBits ← log2 rsa.modulus
  let b ← BigInteger.pow 2 32
  let inverse ← BigInteger.modInverse rsa.modulus b
  let n0inv : Int64 := Int64.ofNat (b - inverse)
  let r ← BigInteger.pow 2 numBits
  let rr ← BigInteger.multiply r r
  let rrModn ← BigInteger.mod rr rsa.modulus
  let unsignedModulo ← sliceFromOne (toByteArray rsa.modulus) (numBits / 8)
  Struct3.packFormat vm (keyFormat numBits)
    [.int (Int32.ofNat numBits), .long n0inv, .byteArray unsignedModulo,
      .byteArray (toByteArray rrModn)]

/-! ## The format of the key -/

theorem new_keyFormat (vm : Jvm) (numBits : ℕ) :
    Struct3.new vm (keyFormat numBits) =
      if numBits / 8 ≤ intMax then
        .ok ⟨.bigEndian, [.one .uint, .one .uint, .bytes (numBits / 8), .bytes (numBits / 8)]⟩
      else .error .numberFormat := by
  have hcons : keyFormat numBits = units "!" ++ (Struct3.Code.I.letter :: Struct3.Code.I.letter ::
      (decimal (numBits / 8) ++ Struct3.Code.b.letter ::
        (decimal (numBits / 8) ++ [Struct3.Code.b.letter]))) := by
    simp only [keyFormat, List.append_assoc]
    rfl
  have hbang : ∀ cs, Struct3.new vm (units "!" ++ cs) = (do
      let formats ← Struct3.scan [] cs
      .ok ⟨.bigEndian, formats⟩) := by
    intro cs
    have hunits : units "!" ++ cs = 0x21 :: cs := rfl
    rw [hunits, Struct3.new, Jvm.assert_of_true vm (by simp), ok_bind]
    rfl
  have hnil : Struct3.scan [] [] = .ok [] := rfl
  rw [hcons, hbang, Struct3.scan_single, Struct3.scan_single, Struct3.scan_counted,
    Struct3.scan_counted, hnil]
  by_cases h : numBits / 8 ≤ intMax
  · simp only [if_pos h, ok_bind]
    rfl
  · simp only [if_neg h, error_bind]

/-- Packing by the format of the key. -/
theorem packFormat_keyFormat_eq_ok_iff {vm : Jvm} {k : ℕ} {n0inv : Int64} {n rr ret : Bytes}
    (hk : k ≤ intMax) (hn0 : 0 ≤ n0inv.toInt) (hn : n.length = k / 8) :
    Struct3.packFormat vm (keyFormat k)
        [.int (Int32.ofNat k), .long n0inv, .byteArray n, .byteArray rr] = .ok ret ↔
      rr.length ≤ k / 8 ∧ ret = [ByteOrder.bigEndian.encode 4 k,
        ByteOrder.bigEndian.encode 4 n0inv.toInt32.toUInt32.toNat, n,
        rr ++ zeros (k / 8 - rr.length)].flatten := by
  have hkdiv : k / 8 ≤ intMax := le_trans (Nat.div_le_self k 8) hk
  unfold intMax at hk
  have hnew := new_keyFormat vm k
  rw [if_pos hkdiv] at hnew
  have hint : (Int32.ofNat k).toInt = k := Int32.toInt_ofNat_of_lt (by omega)
  have hword : (Int32.ofNat k).toUInt32.toNat = k := by
    rw [Int32.toUInt32_ofNat', UInt32.toNat_ofNat_of_lt' (by simp only [UInt32.size]; omega)]
  rw [Struct3.packFormat_eq hnew, Struct3.pack_eq_ok_iff
    (by simp [Struct3.AllFill, Struct3.Fills, Format.one, Format.bytes])]
  have hsize : formatsSize [.one .uint, .one .uint, .bytes (k / 8), .bytes (k / 8)] ≤ intMax := by
    simp only [formatsSize, Format.one, Format.bytes, Format.size, FormatType.width, intMax,
      List.map_cons, List.map_nil, List.sum_cons, List.sum_nil]
    omega
  have hassert : vm.assert (decide (0 ≤ (Int32.ofNat k).toInt)) = .ok () :=
    vm.assert_of_true (by simp [hint])
  have hassert' : vm.assert (decide (0 ≤ n0inv.toInt)) = .ok () :=
    vm.assert_of_true (by simpa using hn0)
  have hmod : Struct3.appendByteArray n (k / 8) = .ok n := by
    rw [Struct3.appendByteArray, if_neg (by omega), hn, Nat.sub_self]
    simp [Struct3.appendPadding]
  have hitems : Struct3.packItems vm .bigEndian
      [.one .uint, .one .uint, .bytes (k / 8), .bytes (k / 8)]
      [.int (Int32.ofNat k), .long n0inv, .byteArray n, .byteArray rr] = (do
        let last ← Struct3.appendByteArray rr (k / 8)
        .ok [ByteOrder.bigEndian.encode 4 k,
          ByteOrder.bigEndian.encode 4 n0inv.toInt32.toUInt32.toNat, n, last].flatten) := by
    simp only [Struct3.packItems, Struct3.packItem, Format.one, Format.bytes,
      Struct3.packUInt, Struct3.packByteArray, hassert, hassert', hword, hmod, ok_bind]
    cases Struct3.appendByteArray rr (k / 8) with
    | error e => rfl
    | ok last => simp
  rw [hitems]
  by_cases hlen : rr.length ≤ k / 8
  · have hrr : Struct3.appendByteArray rr (k / 8) = .ok (rr ++ zeros (k / 8 - rr.length)) := by
      rw [Struct3.appendByteArray, if_neg (by omega)]
      rfl
    rw [hrr, ok_bind, Except.ok.injEq]
    constructor
    · rintro ⟨-, -, h⟩
      exact ⟨hlen, h.symm⟩
    · rintro ⟨-, h⟩
      exact ⟨rfl, hsize, h.symm⟩
  · have hrr : ∃ e, Struct3.appendByteArray rr (k / 8) = .error e :=
      ⟨_, if_pos (by omega)⟩
    obtain ⟨e, hrr⟩ := hrr
    rw [hrr, error_bind]
    constructor
    · rintro ⟨-, -, h⟩
      cases h
    · rintro ⟨h, -⟩
      exact absurd h hlen

/-! ## The numbers of the key -/

/-- An odd modulus of `k` bits. -/
structure OddOfBits (n k : ℕ) : Prop where
  odd : n % 2 = 1
  bytes : 8 ∣ k
  wide : 16 ≤ k
  low : 2 ^ (k - 1) ≤ n
  high : n < 2 ^ k

namespace OddOfBits

variable {n k : ℕ}

theorem size_eq (h : OddOfBits n k) : n.size = k :=
  size_eq_of_bounds (by have := h.wide; omega) h.low h.high

theorem pos (h : OddOfBits n k) : 0 < n := lt_of_lt_of_le (by positivity) h.low

/-- As many bytes hold the numbers of `k` bits. -/
theorem pow_bytes (h : OddOfBits n k) : 256 ^ (k / 8) = 2 ^ k := by
  have hpow : 256 ^ (k / 8) = 2 ^ (8 * (k / 8)) := by
    rw [pow_mul]
    norm_num
  rw [hpow, Nat.mul_div_cancel' h.bytes]

/-- An odd number is no power of two, so its logarithm is rounded up. -/
theorem log2_eq (h : OddOfBits n k) {log2 : ℕ → Result ℕ} (hlog2 : BigInteger.RoundsUp log2) :
    log2 n = .ok k := by
  have hwide := h.wide
  have hodd := h.odd
  have hlow := h.low
  have hne : n ≠ 2 ^ (k - 1) := by
    intro heq
    have heven : 2 ^ (k - 1) % 2 = 0 := by
      obtain ⟨m, hm⟩ : ∃ m, k - 1 = m + 1 := ⟨k - 2, by omega⟩
      rw [hm, pow_succ]
      omega
    omega
  have hle : Nat.clog 2 n ≤ k := Nat.clog_le_of_le_pow (le_of_lt h.high)
  have hlt : k - 1 < Nat.clog 2 n := (Nat.lt_clog_iff_pow_lt Nat.one_lt_two).mpr (by omega)
  have heq : Nat.clog 2 n = k := by omega
  rw [hlog2 n h.pos, heq]

/-- The sign byte goes, the bytes of the modulus stay. -/
theorem sliceFromOne_eq (h : OddOfBits n k) :
    sliceFromOne (toByteArray n) (k / 8) = .ok (ByteOrder.bigEndian.encode (k / 8) n) := by
  have hwide := h.wide
  have hdrop : (toByteArray n).drop 1 = ByteOrder.bigEndian.encode (k / 8) n := by
    rw [toByteArray, h.size_eq, encode_bigEndian_succ, List.drop_one, List.tail_cons]
  rw [sliceFromOne, if_neg (by omega), length_toByteArray, h.size_eq,
    if_neg (Nat.lt_irrefl _), hdrop,
    List.take_of_length_le (by rw [ByteOrder.length_encode])]

/-- The inverse word is a positive 32-bit number. -/
theorem n0inv_spec (h : OddOfBits n k) :
    ∃ x, BigInteger.modInverse n (2 ^ 32) = .ok x ∧ 0 < 2 ^ 32 - x ∧ 2 ^ 32 - x < 2 ^ 32 ∧
      (n * (2 ^ 32 - x) + 1) % 2 ^ 32 = 0 := by
  have hcop : n.gcd (2 ^ 32) = 1 := by
    have hodd : Nat.Coprime n 2 := (Nat.odd_iff.mpr h.odd).coprime_two_right
    exact hodd.pow_right 32
  obtain ⟨x, hx, hlt, hmul⟩ := modInverse_of_coprime (by norm_num) hcop
  have hx0 : 0 < x := by
    rcases Nat.eq_zero_or_pos x with rfl | hpos
    · simp at hmul
    · exact hpos
  refine ⟨x, by rw [BigInteger.modInverse, hx], by omega, by omega, ?_⟩
  have hsub : n * (2 ^ 32 - x) + n * x = n * 2 ^ 32 := by
    rw [← Nat.mul_add, Nat.sub_add_cancel (le_of_lt hlt)]
  omega

/-- The square of the radix is no multiple of the modulus. -/
theorem rrModn_pos (h : OddOfBits n k) : 0 < 2 ^ (2 * k) % n := by
  have hwide := h.wide
  rcases Nat.eq_zero_or_pos (2 ^ (2 * k) % n) with hzero | hpos
  · have hdvd : n ∣ 2 ^ (2 * k) := Nat.dvd_of_mod_eq_zero hzero
    have hcop : Nat.Coprime n (2 ^ (2 * k)) :=
      ((Nat.odd_iff.mpr h.odd).coprime_two_right).pow_right _
    have hone : n = 1 := Nat.Coprime.eq_one_of_dvd hcop hdvd
    have hlow := h.low
    have hlt : 1 < 2 ^ (k - 1) := Nat.one_lt_pow (by omega) (by norm_num)
    omega
  · exact hpos

theorem rrModn_lt (h : OddOfBits n k) : 2 ^ (2 * k) % n < 2 ^ k :=
  lt_trans (Nat.mod_lt _ h.pos) h.high

/-- The residue takes the bytes of the modulus exactly where its top bit is clear and
the rest of its first byte is not. -/
theorem length_rrModn_iff (h : OddOfBits n k) :
    (toByteArray (2 ^ (2 * k) % n)).length = k / 8 ↔
      2 ^ (k - 9) ≤ 2 ^ (2 * k) % n ∧ 2 ^ (2 * k) % n < 2 ^ (k - 1) := by
  obtain ⟨w, rfl⟩ := h.bytes
  have hwide := h.wide
  have hlow := Nat.lt_size (m := 8 * w - 9) (n := 2 ^ (2 * (8 * w)) % n)
  have hhigh := Nat.size_le (m := 2 ^ (2 * (8 * w)) % n) (n := 8 * w - 1)
  rw [length_toByteArray, ← hlow, ← hhigh]
  omega

end OddOfBits

/-- A number below `2 ^ 32`, put as a `UInt`. -/
theorem toUInt32_ofNat_of_lt {n : ℕ} (h : n < 2 ^ 32) :
    (Int64.ofNat n).toInt32.toUInt32.toNat = n := by
  rw [Int64.toInt32_ofNat', Int32.toUInt32_ofNat',
    UInt32.toNat_ofNat_of_lt' (by rw [UInt32.size]; exact h)]

/-- The radix and its square are in the supported range up to `2 ^ 30` bits. -/
theorem square_eq (k : ℕ) :
    (do
      let r ← BigInteger.pow 2 k
      BigInteger.multiply r r) =
      if k < 2 ^ 30 then .ok (2 ^ (2 * k)) else .error .arithmetic := by
  have hsquare : 2 ^ k * 2 ^ k = 2 ^ (2 * k) := by rw [← pow_add, two_mul]
  unfold BigInteger.pow BigInteger.multiply BigInteger.checkRange
  rw [Nat.size_pow]
  by_cases hk : k < 2 ^ 30
  · rw [if_pos hk, if_pos (by unfold intMax; omega), ok_bind, hsquare, Nat.size_pow,
      if_pos (by unfold intMax; omega)]
  · rw [if_neg hk]
    by_cases hk' : k + 1 ≤ intMax
    · rw [if_pos hk', ok_bind, hsquare, Nat.size_pow, if_neg (by unfold intMax; omega)]
    · rw [if_neg hk', error_bind]

/-- The encoder, for an odd modulus: the last number is filled up at the end. -/
theorem encodeRSAkey_spec (vm : Jvm) {log2 : ℕ → Result ℕ}
    {parsePemPrivateKey : Bytes → Result RsaPrivateKey} {key : Bytes} {n k : ℕ}
    (hlog2 : BigInteger.RoundsUp log2) (hparse : parsePemPrivateKey key = .ok ⟨n, 65537⟩)
    (h : OddOfBits n k) :
    ∃ n0inv, n0inv < 2 ^ 32 ∧ (n * n0inv + 1) % 2 ^ 32 = 0 ∧
      ∀ ret, encodeRSAkey vm log2 parsePemPrivateKey key = .ok ret ↔
        k < 2 ^ 30 ∧ (toByteArray (2 ^ (2 * k) % n)).length ≤ k / 8 ∧
        ret = [ByteOrder.bigEndian.encode 4 k, ByteOrder.bigEndian.encode 4 n0inv,
          ByteOrder.bigEndian.encode (k / 8) n,
          toByteArray (2 ^ (2 * k) % n) ++
            zeros (k / 8 - (toByteArray (2 ^ (2 * k) % n)).length)].flatten := by
  obtain ⟨x, hinv, hpos, hlt, hmul⟩ := h.n0inv_spec
  refine ⟨2 ^ 32 - x, hlt, hmul, ?_⟩
  intro ret
  have hb : BigInteger.pow 2 32 = .ok (2 ^ 32) := by
    rw [BigInteger.pow, BigInteger.checkRange, Nat.size_pow, if_pos (by unfold intMax; omega)]
  have hmod : BigInteger.mod (2 ^ (2 * k)) n = .ok (2 ^ (2 * k) % n) := by
    have hn := h.pos
    rw [BigInteger.mod, if_neg (by omega)]
  have hencode : encodeRSAkey vm log2 parsePemPrivateKey key = (do
      let rr ← (do
        let r ← BigInteger.pow 2 k
        BigInteger.multiply r r)
      let rrModn ← BigInteger.mod rr n
      Struct3.packFormat vm (keyFormat k)
        [.int (Int32.ofNat k), .long (Int64.ofNat (2 ^ 32 - x)),
          .byteArray (ByteOrder.bigEndian.encode (k / 8) n),
          .byteArray (toByteArray rrModn)]) := by
    unfold encodeRSAkey
    rw [hparse, ok_bind, vm.assert_of_true (by simp), ok_bind]
    simp only [ok_bind, h.log2_eq hlog2, hb, hinv, h.sliceFromOne_eq, bind_assoc]
  rw [hencode, square_eq]
  by_cases hk : k < 2 ^ 30
  · have hint : (Int64.ofNat (2 ^ 32 - x)).toInt = (2 ^ 32 - x : ℕ) :=
      Int64.toInt_ofNat_of_lt (by omega)
    rw [if_pos hk, ok_bind, hmod, ok_bind, packFormat_keyFormat_eq_ok_iff
      (by unfold intMax; omega) (by rw [hint]; omega) (ByteOrder.length_encode _ _ _),
      toUInt32_ofNat_of_lt hlt]
    exact (and_iff_right hk).symm
  · rw [if_neg hk, error_bind]
    constructor
    · intro h'
      cases h'
    · rintro ⟨h', -⟩
      exact absurd h' hk

/-! ## The header -/

/-- `AvbRSAPublicKeyHeader` and the numbers after it. -/
def publicKey (k n0inv n : ℕ) : Bytes :=
  [ByteOrder.bigEndian.encode 4 k, ByteOrder.bigEndian.encode 4 n0inv,
    ByteOrder.bigEndian.encode (k / 8) n,
    ByteOrder.bigEndian.encode (k / 8) (2 ^ (2 * k) % n)].flatten

theorem length_publicKey (k n0inv n : ℕ) : (publicKey k n0inv n).length = 8 + 2 * (k / 8) := by
  simp [publicKey]
  omega

/-- The encoder returns the public key of an odd modulus exactly where the square of
the radix takes as many signed bytes as the modulus has. -/
theorem encodeRSAkey_eq_publicKey_iff (vm : Jvm) (log2 : ℕ → Result ℕ)
    (parsePemPrivateKey : Bytes → Result RsaPrivateKey) (key : Bytes) (n k : ℕ)
    (hlog2 : BigInteger.RoundsUp log2) (hparse : parsePemPrivateKey key = .ok ⟨n, 65537⟩)
    (h : OddOfBits n k) :
    (∃ ret n0inv, encodeRSAkey vm log2 parsePemPrivateKey key = .ok ret ∧
        ret.length = 8 + 2 * (k / 8) ∧
        n0inv < 2 ^ 32 ∧ (n * n0inv + 1) % 2 ^ 32 = 0 ∧ ret = publicKey k n0inv n) ↔
      k < 2 ^ 30 ∧ 2 ^ (k - 9) ≤ 2 ^ (2 * k) % n ∧ 2 ^ (2 * k) % n < 2 ^ (k - 1) := by
  obtain ⟨n0inv, hlt, hmul, hspec⟩ := encodeRSAkey_spec vm hlog2 hparse h
  have hrr : 2 ^ (2 * k) % n < 256 ^ (k / 8) := by
    rw [h.pow_bytes]
    exact h.rrModn_lt
  rw [← h.length_rrModn_iff]
  constructor
  · rintro ⟨ret, n0inv', hret, -, -, -, rfl⟩
    obtain ⟨hk, hle, heq⟩ := (hspec _).mp hret
    have hlast : ByteOrder.bigEndian.encode (k / 8) (2 ^ (2 * k) % n) =
        toByteArray (2 ^ (2 * k) % n) ++
          zeros (k / 8 - (toByteArray (2 ^ (2 * k) % n)).length) := by
      simp only [publicKey, List.flatten_cons, List.flatten_nil, List.append_nil] at heq
      have h1 := (List.append_inj heq (by simp)).2
      have h2 := (List.append_inj h1 (by simp)).2
      exact (List.append_inj h2 (by simp)).2
    exact ⟨hk, (toByteArray_append_zeros_iff h.rrModn_pos hrr hle).mp hlast.symm⟩
  · rintro ⟨hk, hlen⟩
    have hlast := (toByteArray_append_zeros_iff h.rrModn_pos hrr (le_of_eq hlen)).mpr hlen
    refine ⟨publicKey k n0inv n, n0inv, (hspec _).mpr ⟨hk, le_of_eq hlen, ?_⟩,
      length_publicKey k n0inv n, hlt, hmul, rfl⟩
    rw [publicKey, ← hlast]
    rfl

/-- The logarithm of a library that does what is documented. -/
def log2Ceiling (n : ℕ) : Result ℕ :=
  if n = 0 then .error (.illegalArgument "x (0) must be > 0") else .ok (Nat.clog 2 n)

theorem log2Ceiling_roundsUp : BigInteger.RoundsUp log2Ceiling := by
  intro n hn
  rw [log2Ceiling, if_neg (by omega)]

/-- A modulus of 16 bits whose square radix takes two signed bytes. -/
theorem encodeRSAkey_eq_publicKey_iff_applies :
    (∃ ret n0inv, encodeRSAkey ⟨false, .littleEndian⟩ log2Ceiling (fun _ => .ok ⟨34571, 65537⟩) [] =
          .ok ret ∧ ret.length = 8 + 2 * (16 / 8) ∧
        n0inv < 2 ^ 32 ∧ (34571 * n0inv + 1) % 2 ^ 32 = 0 ∧ ret = publicKey 16 n0inv 34571) ↔
      16 < 2 ^ 30 ∧ 2 ^ (16 - 9) ≤ 2 ^ (2 * 16) % 34571 ∧ 2 ^ (2 * 16) % 34571 < 2 ^ (16 - 1) :=
  encodeRSAkey_eq_publicKey_iff ⟨false, .littleEndian⟩ log2Ceiling (fun _ => .ok ⟨34571, 65537⟩) []
    34571 16 log2Ceiling_roundsUp rfl ⟨by decide, by decide, by decide, by decide, by decide⟩

/-- `47897 = 211 * 227`: the square of the radix has its top bit set, and the encoder
throws. -/
theorem encodeRSAkey_refuses (vm : Jvm) (ret : Bytes) :
    encodeRSAkey vm log2Ceiling (fun _ => .ok ⟨47897, 65537⟩) [] ≠ .ok ret := by
  have hkey : OddOfBits 47897 16 := ⟨by decide, by decide, by decide, by decide, by decide⟩
  obtain ⟨n0inv, -, -, hspec⟩ := @encodeRSAkey_spec vm log2Ceiling
    (fun _ => .ok ⟨47897, 65537⟩) [] 47897 16 log2Ceiling_roundsUp rfl hkey
  intro h
  obtain ⟨-, hlen, -⟩ := (hspec ret).mp h
  have hsize : (2 ^ (2 * 16) % 47897).size = 16 :=
    size_eq_of_bounds (by norm_num) (by norm_num) (by norm_num)
  rw [length_toByteArray, hsize] at hlen
  omega

theorem encodeRSAkey_top_bit :
    ¬ ∀ (vm : Jvm) (log2 : ℕ → Result ℕ) (parsePemPrivateKey : Bytes → Result RsaPrivateKey)
        (key : Bytes) (n k : ℕ), BigInteger.RoundsUp log2 →
      parsePemPrivateKey key = .ok ⟨n, 65537⟩ → OddOfBits n k →
        ∃ ret n0inv, encodeRSAkey vm log2 parsePemPrivateKey key = .ok ret ∧
          ret.length = 8 + 2 * (k / 8) ∧
          n0inv < 2 ^ 32 ∧ (n * n0inv + 1) % 2 ^ 32 = 0 ∧ ret = publicKey k n0inv n := by
  intro hall
  obtain ⟨ret, -, hret, -⟩ := hall ⟨false, .littleEndian⟩ log2Ceiling (fun _ => .ok ⟨47897, 65537⟩)
    [] 47897 16 log2Ceiling_roundsUp rfl ⟨by decide, by decide, by decide, by decide, by decide⟩
  exact encodeRSAkey_refuses _ ret hret

end Helper

end BootImageEditor
