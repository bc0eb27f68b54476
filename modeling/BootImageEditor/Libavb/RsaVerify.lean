import BootImageEditor.Libavb.Rsa
import BootImageEditor.RsaKey
import BootImageEditor.Struct3.Repack
import Mathlib.NumberTheory.LucasLehmer

/-!
# Signatures and keys

The verifier against the tool that signs: for the public keys that `encodeRSAkey` makes,
`avb_rsa_verify` accepts a signature exactly if its power is the padded hash, and among
the reduced ones that is the signature made with the private key alone.
-/

namespace BootImageEditor

open Codec Fallible

namespace Libavb

/-! ## The check of a signature -/

/-- Comparison byte by byte. -/
theorem avbSafeMemcmp_iff {s1 s2 : Bytes} {n : ℕ} (h1 : n ≤ s1.length) (h2 : n ≤ s2.length) :
    avbSafeMemcmp s1 s2 n = false ↔ s1.take n = s2.take n := by
  have hor : ∀ (x y : UInt8), x ||| y = 0 ↔ x = 0 ∧ y = 0 := by
    intro x y
    rw [← UInt8.toNat_inj, ← UInt8.toNat_inj, ← UInt8.toNat_inj, UInt8.toNat_or]
    simp [Nat.or_eq_zero_iff]
  have hfold : ∀ (xs ys : Bytes) (r : UInt8), xs.length = ys.length →
      ((List.zipWith (· ^^^ ·) xs ys).foldl (· ||| ·) r = 0 ↔ r = 0 ∧ xs = ys) := by
    intro xs
    induction xs with
    | nil =>
        intro ys r hlen
        obtain rfl := List.length_eq_zero_iff.mp hlen.symm
        simp
    | cons x xs ih =>
        intro ys r hlen
        obtain ⟨y, ys, rfl⟩ := List.exists_cons_of_length_eq_add_one hlen.symm
        rw [List.zipWith_cons_cons, List.foldl_cons, ih ys _ (Nat.succ.inj hlen), hor,
          UInt8.xor_eq_zero_iff, List.cons.injEq, and_assoc]
  rw [avbSafeMemcmp, decide_eq_false_iff_not, not_not, hfold _ _ _ (by simp [h1, h2])]
  exact and_iff_right rfl

/-- The sizes of keys that libavb takes. -/
def KeyBits (k : ℕ) : Prop := k = 2048 ∨ k = 4096 ∨ k = 8192

theorem KeyBits.words {k : ℕ} (hk : KeyBits k) :
    k = 32 * (k / 32) ∧ k / 8 = 4 * (k / 32) ∧ k / 32 < 2 ^ 32 ∧ 2 * k / 8 = 2 * (k / 8) ∧
      0 < k / 32 ∧ k < 2 ^ 32 := by
  rcases hk with rfl | rfl | rfl <;> norm_num

/-- The numbers of an encoded key, by their offsets. -/
theorem slices_publicKey (k n0inv n : ℕ) :
    slice 0 4 (Helper.publicKey k n0inv n) = ByteOrder.bigEndian.encode 4 k ∧
      slice 4 4 (Helper.publicKey k n0inv n) = ByteOrder.bigEndian.encode 4 n0inv ∧
      slice 8 (k / 8) (Helper.publicKey k n0inv n) = ByteOrder.bigEndian.encode (k / 8) n ∧
      slice (8 + k / 8) (k / 8) (Helper.publicKey k n0inv n) =
        ByteOrder.bigEndian.encode (k / 8) (2 ^ (2 * k) % n) := by
  obtain ⟨bits, hbits⟩ : ∃ x, ByteOrder.bigEndian.encode 4 k = x := ⟨_, rfl⟩
  obtain ⟨inv, hinv⟩ : ∃ x, ByteOrder.bigEndian.encode 4 n0inv = x := ⟨_, rfl⟩
  obtain ⟨modulus, hmodulus⟩ : ∃ x, ByteOrder.bigEndian.encode (k / 8) n = x := ⟨_, rfl⟩
  obtain ⟨square, hsquare⟩ :
      ∃ x, ByteOrder.bigEndian.encode (k / 8) (2 ^ (2 * k) % n) = x := ⟨_, rfl⟩
  have hbitsLen : bits.length = 4 := by rw [← hbits, ByteOrder.length_encode]
  have hinvLen : inv.length = 4 := by rw [← hinv, ByteOrder.length_encode]
  have hmodulusLen : modulus.length = k / 8 := by rw [← hmodulus, ByteOrder.length_encode]
  have hsquareLen : square.length = k / 8 := by rw [← hsquare, ByteOrder.length_encode]
  have hkey : Helper.publicKey k n0inv n = bits ++ (inv ++ (modulus ++ square)) := by
    rw [Helper.publicKey, hbits, hinv, hmodulus, hsquare]
    simp
  have hkey' : Helper.publicKey k n0inv n = (bits ++ inv) ++ (modulus ++ square) := by
    rw [hkey, List.append_assoc]
  have hkey'' : Helper.publicKey k n0inv n = (bits ++ inv ++ modulus) ++ (square ++ []) := by
    rw [hkey', List.append_nil, List.append_assoc _ modulus]
  rw [hbits, hinv, hmodulus, hsquare]
  refine ⟨?_, ?_, ?_, ?_⟩
  · rw [hkey]
    exact slice_zero _ _ hbitsLen
  · rw [hkey]
    exact slice_middle _ _ _ hbitsLen hinvLen
  · rw [hkey']
    exact slice_middle _ _ _ (by rw [List.length_append, hbitsLen, hinvLen]) hmodulusLen
  · rw [hkey'']
    exact slice_middle _ _ _
      (by rw [List.length_append, List.length_append, hbitsLen, hinvLen, hmodulusLen]) hsquareLen

/-- The key that is parsed from an encoded one has the numbers of the modulus. -/
theorem iavbParseKeyData_publicKey {malloc : ℕ → Bool} (hmalloc : ∀ m, malloc m = true)
    {n k n0inv : ℕ} (h : Helper.OddOfBits n k) (hk : KeyBits k) (hlt : n0inv < 2 ^ 32)
    (hinv : (n * n0inv + 1) % 2 ^ 32 = 0) :
    ∃ key, iavbParseKeyData malloc (Helper.publicKey k n0inv n) = some key ∧
      key.len = k / 32 ∧ ofLeWords key.n = n ∧ key.Montgomery := by
  obtain ⟨hbits, hbytes, -, hdouble, hpos, hk32⟩ := hk.words
  have hlen := Helper.length_publicKey k n0inv n
  obtain ⟨hbitsSlice, hinvSlice, hmodulus, hsquare⟩ := slices_publicKey k n0inv n
  obtain ⟨data, hdata⟩ : ∃ x, Helper.publicKey k n0inv n = x := ⟨_, rfl⟩
  rw [hdata] at hbitsSlice hinvSlice hmodulus hsquare
  have hradix : (2 ^ 32) ^ (k / 32) = 2 ^ k := by
    rw [← pow_mul, ← hbits]
  have hbitsField : (be32toh (slice 0 4 data)).toNat = k := by
    rw [hbitsSlice, be32toh, ByteOrder.decode_encode_of_lt _ (by norm_num; omega),
      UInt32.toNat_ofNat_of_lt' hk32]
  have hinvField : (be32toh (slice 4 4 data)).toNat = n0inv := by
    rw [hinvSlice, be32toh, ByteOrder.decode_encode_of_lt _ (by norm_num; omega),
      UInt32.toNat_ofNat_of_lt' hlt]
  have hn : ofLeWords (wordsOf (k / 32) (slice 8 (k / 8) data)) = n := by
    rw [hmodulus, ofLeWords_wordsOf _ _ (by rw [ByteOrder.length_encode, hbytes]),
      ByteOrder.decode_encode_of_lt _ (by rw [h.pow_bytes]; exact h.high)]
  have hrr : ofLeWords (wordsOf (k / 32) (slice (8 + k / 8) (k / 8) data)) =
      2 ^ (2 * k) % n := by
    rw [hsquare, ofLeWords_wordsOf _ _ (by rw [ByteOrder.length_encode, hbytes]),
      ByteOrder.decode_encode_of_lt _ (by rw [h.pow_bytes]; exact h.rrModn_lt)]
  have hsize : data.length = keyHeaderSize + 2 * k / 8 := by
    rw [← hdata, hlen, hdouble]
    rfl
  refine ⟨⟨k / 32, be32toh (slice 4 4 data), wordsOf (k / 32) (slice 8 (k / 8) data),
    wordsOf (k / 32) (slice (8 + k / 8) (k / 8) data), length_wordsOf _ _, length_wordsOf _ _⟩,
    ?_, rfl, hn, ?_⟩
  · rw [hdata, iavbParseKeyData]
    simp only [hbitsField, hmalloc]
    rw [if_neg (fun hnot => hnot hk), if_neg (fun hnot => hnot hsize)]
    rfl
  · exact
      { pos := hpos
        cancel := by rw [hn, hinvField, hinv]
        rr := by
          rw [hrr, hradix, ← pow_add, ← two_mul, hn]
          exact Nat.mod_modEq _ _
        wide := by
          obtain ⟨j, rfl⟩ : ∃ j, k = j + 1 := ⟨k - 1, by omega⟩
          have hlow := h.low
          rw [Nat.add_sub_cancel] at hlow
          rw [hradix, hn, pow_succ]
          omega }

/-- The signature opens to the padded hash. -/
structure Opens (n k : ℕ) (sig hash padding : Bytes) : Prop where
  length_sig : sig.length = k / 8
  length_data : padding.length + hash.length = k / 8
  pow_eq : ByteOrder.bigEndian.decode sig ^ 65537 % n =
    ByteOrder.bigEndian.decode (padding ++ hash)

/-- The verdict on a signature. -/
theorem avbRsaVerify_eq_true_iff_opens {malloc : ℕ → Bool} (hmalloc : ∀ m, malloc m = true)
    {n k n0inv : ℕ} (h : Helper.OddOfBits n k) (hk : KeyBits k) (hlt : n0inv < 2 ^ 32)
    (hinv : (n * n0inv + 1) % 2 ^ 32 = 0) {sig hash padding : Bytes}
    (hsize : padding.length + hash.length < 2 ^ 64) :
    avbRsaVerify malloc (Helper.publicKey k n0inv n) sig hash padding = true ↔
      Opens n k sig hash padding := by
  obtain ⟨hbits, hbytes, -, -, -, hk32⟩ := hk.words
  obtain ⟨key, hparse, hkeyLen, hn, hkey⟩ :=
    iavbParseKeyData_publicKey hmalloc h hk hlt hinv
  have hbytes' : k / 8 = key.len * 4 := by rw [hkeyLen, hbytes, Nat.mul_comm]
  have hbytes'' : k / 8 = 4 * key.len := by rw [hkeyLen, hbytes]
  unfold avbRsaVerify
  rw [hparse]
  simp only [hmalloc]
  have hfalse : ∀ {P : Prop}, ¬ P → (false = true ↔ P) := fun hP => by simp [hP]
  by_cases hsig : sig.length = k / 8
  swap
  · rw [if_pos (fun heq => hsig (heq.trans hbytes'.symm))]
    exact hfalse fun hall => hsig hall.length_sig
  rw [if_neg (fun hne => hne (hsig.trans hbytes'))]
  have hwrap : UInt64.ofNat padding.length = UInt64.ofNat sig.length - UInt64.ofNat hash.length ↔
      padding.length + hash.length = k / 8 := by
    have hp : (UInt64.ofNat padding.length).toNat = padding.length :=
      UInt64.toNat_ofNat_of_lt' (by simp only [UInt64.size]; omega)
    have hh : (UInt64.ofNat hash.length).toNat = hash.length :=
      UInt64.toNat_ofNat_of_lt' (by simp only [UInt64.size]; omega)
    have hs : (UInt64.ofNat sig.length).toNat = sig.length :=
      UInt64.toNat_ofNat_of_lt' (by simp only [UInt64.size]; omega)
    rw [← UInt64.toNat_inj, UInt64.toNat_sub, hp, hh, hs, hsig]
    omega
  by_cases hpad : padding.length + hash.length = k / 8
  swap
  · rw [if_pos (fun heq => hpad (hwrap.mp heq))]
    exact hfalse fun hall => hpad hall.length_data
  rw [if_neg (fun hne => hne (hwrap.mpr hpad))]
  have hbuf := modpowF4_eq hkey (hmalloc _) (hsig.trans hbytes'')
  rw [hn, ← hbytes''] at hbuf
  obtain ⟨buf, hbufEq⟩ : ∃ x, modpowF4 malloc key sig = x := ⟨_, rfl⟩
  rw [hbufEq] at hbuf ⊢
  have hbufLen : buf.length = k / 8 := by rw [hbuf, ByteOrder.length_encode]
  have hresidue : ByteOrder.bigEndian.decode sig ^ 65537 % n < 256 ^ (k / 8) := by
    rw [h.pow_bytes]
    exact lt_trans (Nat.mod_lt _ h.pos) h.high
  have hequal : buf = padding ++ hash ↔ ByteOrder.bigEndian.decode sig ^ 65537 % n =
      ByteOrder.bigEndian.decode (padding ++ hash) := by
    rw [hbuf]
    constructor
    · intro heq
      rw [← heq, ByteOrder.decode_encode_of_lt _ hresidue]
    · intro heq
      rw [heq, ← hpad, ← List.length_append]
      exact Struct3.encode_decode .bigEndian _
  have hfirst := @avbSafeMemcmp_iff buf padding padding.length (by omega) le_rfl
  have hsecond := @avbSafeMemcmp_iff (buf.drop padding.length) hash hash.length
    (by rw [List.length_drop]; omega) le_rfl
  rw [List.take_length] at hfirst hsecond
  have hopens : Opens n k sig hash padding ↔ buf = padding ++ hash :=
    ⟨fun hall => hequal.mpr hall.pow_eq, fun heq => ⟨hsig, hpad, hequal.mp heq⟩⟩
  have happend : buf = padding ++ hash ↔
      buf.take padding.length = padding ∧ (buf.drop padding.length).take hash.length = hash := by
    have hrest : (buf.drop padding.length).length = hash.length := by
      rw [List.length_drop]
      omega
    rw [List.take_of_length_le (le_of_eq hrest)]
    constructor
    · intro heq
      rw [heq, List.take_left, List.drop_left]
      exact ⟨rfl, rfl⟩
    · rintro ⟨htake, hdrop⟩
      calc buf = buf.take padding.length ++ buf.drop padding.length :=
            (List.take_append_drop _ _).symm
        _ = padding ++ hash := by rw [htake, hdrop]
  rw [hopens, happend, ← hfirst, ← hsecond]
  simp

/-! ## Key pairs -/

/-- A key pair with the public exponent 65537: the primes of the modulus, and an exponent
that undoes it modulo each of them. -/
structure RsaKeyPair where
  primes : List ℕ
  privateExponent : ℕ
  prime : ∀ p ∈ primes, p.Prime
  nodup : primes.Nodup
  inverse : ∀ p ∈ primes, 65537 * privateExponent ≡ 1 [MOD p - 1]
  pos : 0 < privateExponent

namespace RsaKeyPair

def modulus (pair : RsaKeyPair) : ℕ := pair.primes.prod

/-- The raw operation with the private key, on a block of `w` bytes. -/
def rawSign (pair : RsaKeyPair) (w : ℕ) (data : Bytes) : Bytes :=
  ByteOrder.bigEndian.encode w
    (ByteOrder.bigEndian.decode data ^ pair.privateExponent % pair.modulus)

theorem pow_pow_modEq (pair : RsaKeyPair) (x : ℕ) :
    x ^ (65537 * pair.privateExponent) ≡ x [MOD pair.modulus] :=
  pow_modEq_self_of_primes pair.prime pair.nodup pair.inverse
    (Nat.mul_pos (by norm_num) pair.pos) x

/-- A signature is below the modulus. -/
theorem decode_rawSign_lt (pair : RsaKeyPair) {k : ℕ} (h : Helper.OddOfBits pair.modulus k)
    (data : Bytes) : ByteOrder.bigEndian.decode (pair.rawSign (k / 8) data) < pair.modulus := by
  have hmod := Nat.mod_lt (ByteOrder.bigEndian.decode data ^ pair.privateExponent) h.pos
  rw [rawSign, ByteOrder.decode_encode_of_lt _ (by
    rw [h.pow_bytes]
    exact lt_trans hmod h.high)]
  exact hmod

end RsaKeyPair

/-- Of the reduced signatures, the one that the private key makes from the padded hash opens
to it, and no other. -/
theorem opens_iff_rawSign (pair : RsaKeyPair) {k : ℕ} (h : Helper.OddOfBits pair.modulus k)
    {sig hash padding : Bytes} (hblock : padding.length + hash.length = k / 8)
    (hdata : ByteOrder.bigEndian.decode (padding ++ hash) < pair.modulus)
    (hsig : ByteOrder.bigEndian.decode sig < pair.modulus) :
    Opens pair.modulus k sig hash padding ↔ sig = pair.rawSign (k / 8) (padding ++ hash) := by
  have hopens : Opens pair.modulus k sig hash padding ↔ sig.length = k / 8 ∧
      ByteOrder.bigEndian.decode sig ^ 65537 % pair.modulus =
        ByteOrder.bigEndian.decode (padding ++ hash) :=
    ⟨fun hall => ⟨hall.1, hall.3⟩, fun hall => ⟨hall.1, hblock, hall.2⟩⟩
  rw [hopens]
  obtain ⟨m, hm⟩ : ∃ x, ByteOrder.bigEndian.decode (padding ++ hash) = x := ⟨_, rfl⟩
  obtain ⟨n, hn⟩ : ∃ x, pair.modulus = x := ⟨_, rfl⟩
  have hundo := pair.pow_pow_modEq
  have hhigh := h.high
  rw [RsaKeyPair.rawSign, hm]
  rw [hn] at hundo hdata hsig hhigh ⊢
  rw [hm] at hdata
  generalize 65537 = e at hundo ⊢
  have hres : m ^ pair.privateExponent % n < 256 ^ (k / 8) := by
    rw [h.pow_bytes]
    exact lt_trans (Nat.mod_lt _ (by omega)) hhigh
  constructor
  · rintro ⟨hlen, hpower⟩
    have hvalue : m ^ pair.privateExponent % n = ByteOrder.bigEndian.decode sig := by
      rw [← hpower, ← Nat.pow_mod, ← pow_mul, hundo, Nat.mod_eq_of_lt hsig]
    rw [hvalue, ← hlen]
    exact (Struct3.encode_decode .bigEndian sig).symm
  · rintro rfl
    refine ⟨ByteOrder.length_encode _ _ _, ?_⟩
    rw [ByteOrder.decode_encode_of_lt _ hres, ← Nat.pow_mod, ← pow_mul, Nat.mul_comm, hundo,
      Nat.mod_eq_of_lt hdata]

/-! ## A key pair of Mersenne primes -/

/-- Exponents of Mersenne primes, 2048 together. -/
def mersenneExponents : List ℕ := [5, 13, 17, 127, 607, 1279]

/-- The last number of the Lucas-Lehmer sequence. -/
def lucasLehmerLast (a : ℕ) : ℕ := LucasLehmer.norm_num_ext.sModNat (2 ^ a - 1) (a - 2)

theorem prime_of_lucasLehmerLast {a : ℕ} (ha : 2 ≤ a) (h : lucasLehmerLast a = 0) :
    (2 ^ a - 1).Prime := by
  have hmod : LucasLehmer.sMod a (a - 2) = 0 := by
    rw [← LucasLehmer.norm_num_ext.sModNat_eq_sMod a _ ha]
    exact_mod_cast h
  exact lucas_lehmer_sufficiency a (by omega)
    ((LucasLehmer.residue_eq_zero_iff_sMod_eq_zero a (by omega)).mpr hmod)

theorem prime_of_mem_mersenne {a : ℕ} (ha : a ∈ mersenneExponents) : (2 ^ a - 1).Prime := by
  have hall : ∀ a ∈ mersenneExponents, 2 ≤ a ∧ lucasLehmerLast a = 0 := by decide +kernel
  exact prime_of_lucasLehmerLast (hall a ha).1 (hall a ha).2

def mersenneModulus : ℕ := (mersenneExponents.map fun a => 2 ^ a - 1).prod

def mersenneTotient : ℕ := (mersenneExponents.map fun a => 2 ^ a - 2).prod

/-- A key pair of 2048 bits whose modulus the encoder takes. -/
theorem exists_rsaKeyPair : ∃ pair : RsaKeyPair, Helper.OddOfBits pair.modulus 2048 ∧
    2 ^ (2048 - 9) ≤ 2 ^ (2 * 2048) % pair.modulus ∧
    2 ^ (2 * 2048) % pair.modulus < 2 ^ (2048 - 1) := by
  have hgcd : Nat.gcd 65537 mersenneTotient = 1 := by decide +kernel
  have hlarge : 1 < mersenneTotient := by decide +kernel
  obtain ⟨d, -, -, hd⟩ := modInverse_of_coprime hlarge hgcd
  have hpos : 0 < d := by
    rcases Nat.eq_zero_or_pos d with rfl | hpos
    · simp at hd
    · exact hpos
  have hnodup : (mersenneExponents.map fun a => 2 ^ a - 1).Nodup := by decide +kernel
  have hinverse : ∀ p ∈ mersenneExponents.map fun a => 2 ^ a - 1, 65537 * d ≡ 1 [MOD p - 1] := by
    intro p hp
    obtain ⟨a, ha, rfl⟩ := List.mem_map.mp hp
    have hdvd : 2 ^ a - 2 ∣ mersenneTotient := List.dvd_prod (List.mem_map_of_mem ha)
    have htotient : 65537 * d ≡ 1 [MOD mersenneTotient] := by
      rw [Nat.ModEq, hd, Nat.mod_eq_of_lt hlarge]
    exact htotient.of_dvd hdvd
  refine ⟨⟨_, d, ?_, hnodup, hinverse, hpos⟩, ?_⟩
  · intro p hp
    obtain ⟨a, ha, rfl⟩ := List.mem_map.mp hp
    exact prime_of_mem_mersenne ha
  · have hodd : Helper.OddOfBits mersenneModulus 2048 :=
      ⟨by decide +kernel, by decide +kernel, by decide +kernel, by decide +kernel,
        by decide +kernel⟩
    have hresidue : 2 ^ (2048 - 9) ≤ 2 ^ (2 * 2048) % mersenneModulus ∧
        2 ^ (2 * 2048) % mersenneModulus < 2 ^ (2048 - 1) := by
      decide +kernel
    exact ⟨hodd, hresidue⟩

/-! ## The verdict -/

/-- The verdict on a signature, by the numbers alone. -/
theorem avbRsaVerify_publicKey_iff (malloc : ℕ → Bool) (hmalloc : ∀ m, malloc m = true)
    (n k n0inv : ℕ) (h : Helper.OddOfBits n k) (hk : KeyBits k) (hlt : n0inv < 2 ^ 32)
    (hinv : (n * n0inv + 1) % 2 ^ 32 = 0) (sig hash padding : Bytes)
    (hsize : padding.length + hash.length < 2 ^ 64) :
    avbRsaVerify malloc (Helper.publicKey k n0inv n) sig hash padding = true ↔
      sig.length = k / 8 ∧ padding.length + hash.length = k / 8 ∧
        ByteOrder.bigEndian.decode sig ^ 65537 % n =
          ByteOrder.bigEndian.decode (padding ++ hash) := by
  rw [avbRsaVerify_eq_true_iff_opens hmalloc h hk hlt hinv hsize]
  exact ⟨fun hall => ⟨hall.1, hall.2, hall.3⟩, fun hall => ⟨hall.1, hall.2.1, hall.2.2⟩⟩

/-- The SHA-256 digest of `abc`. -/
def abcDigest : Bytes :=
  [0xba, 0x78, 0x16, 0xbf, 0x8f, 0x01, 0xcf, 0xea, 0x41, 0x41, 0x40, 0xde, 0x5d, 0xae, 0x22, 0x23,
    0xb0, 0x03, 0x61, 0xa3, 0x96, 0x17, 0x7a, 0x9c, 0xb4, 0x10, 0xff, 0x61, 0xf2, 0x00, 0x15, 0xad]

theorem decode_abcBlock_lt {n : ℕ} (h : Helper.OddOfBits n 2048) :
    ByteOrder.bigEndian.decode (Avb.Algorithms.sha256Rsa2048.padding ++ abcDigest) < n :=
  lt_of_lt_of_le (by decide +kernel) h.low

theorem length_abcBlock :
    Avb.Algorithms.sha256Rsa2048.padding.length + abcDigest.length = 2048 / 8 := by
  decide +kernel

/-- A signature of the key pair, for a digest in a PKCS#1 block. -/
theorem avbRsaVerify_publicKey_iff_pkcs1 : ∃ (pair : RsaKeyPair) (n0inv : ℕ),
    avbRsaVerify (fun _ => true) (Helper.publicKey 2048 n0inv pair.modulus)
      (pair.rawSign 256 (Avb.Algorithms.sha256Rsa2048.padding ++ abcDigest)) abcDigest
      Avb.Algorithms.sha256Rsa2048.padding = true := by
  obtain ⟨pair, hodd, -, -⟩ := exists_rsaKeyPair
  obtain ⟨x, -, -, hlt, hinv⟩ := hodd.n0inv_spec
  have hlength := length_abcBlock
  have hbytes : 2048 / 8 = 256 := rfl
  obtain ⟨hsig, hdata, hpow⟩ := (opens_iff_rawSign pair hodd hlength (decode_abcBlock_lt hodd)
    (pair.decode_rawSign_lt hodd _)).mpr rfl
  rw [hbytes] at hsig hpow
  exact ⟨pair, 2 ^ 32 - x, (avbRsaVerify_publicKey_iff (fun _ => true) (fun _ => rfl)
    pair.modulus 2048 (2 ^ 32 - x) hodd (Or.inl rfl) hlt hinv _ abcDigest
    Avb.Algorithms.sha256Rsa2048.padding (by omega)).mpr ⟨hsig, hdata, hpow⟩⟩

/-- Of the reduced signatures, the verifier accepts the one that the private key makes from
the padded hash, and no other. -/
theorem avbRsaVerify_eq_rawSign_iff (malloc : ℕ → Bool) (hmalloc : ∀ m, malloc m = true)
    (pair : RsaKeyPair) (k n0inv : ℕ) (h : Helper.OddOfBits pair.modulus k) (hk : KeyBits k)
    (hlt : n0inv < 2 ^ 32) (hinv : (pair.modulus * n0inv + 1) % 2 ^ 32 = 0)
    (sig hash padding : Bytes) (hblock : padding.length + hash.length = k / 8)
    (hdata : ByteOrder.bigEndian.decode (padding ++ hash) < pair.modulus)
    (hsig : ByteOrder.bigEndian.decode sig < pair.modulus) :
    avbRsaVerify malloc (Helper.publicKey k n0inv pair.modulus) sig hash padding = true ↔
      sig = pair.rawSign (k / 8) (padding ++ hash) := by
  obtain ⟨-, -, -, -, -, hk32⟩ := hk.words
  rw [avbRsaVerify_eq_true_iff_opens hmalloc h hk hlt hinv (by omega),
    opens_iff_rawSign pair h hblock hdata hsig]

/-- The signature of such a block is accepted, another one is not. -/
theorem avbRsaVerify_eq_rawSign_iff_mersenne : ∃ (pair : RsaKeyPair) (n0inv : ℕ),
    avbRsaVerify (fun _ => true) (Helper.publicKey 2048 n0inv pair.modulus)
        (pair.rawSign 256 (Avb.Algorithms.sha256Rsa2048.padding ++ abcDigest)) abcDigest
        Avb.Algorithms.sha256Rsa2048.padding = true ∧
      ∃ sig, avbRsaVerify (fun _ => true) (Helper.publicKey 2048 n0inv pair.modulus) sig
        abcDigest Avb.Algorithms.sha256Rsa2048.padding = false := by
  obtain ⟨pair, hodd, -, -⟩ := exists_rsaKeyPair
  obtain ⟨x, -, -, hlt, hinv⟩ := hodd.n0inv_spec
  have hiff := fun sig hsig => avbRsaVerify_eq_rawSign_iff (fun _ => true) (fun _ => rfl) pair 2048
    (2 ^ 32 - x) hodd (Or.inl rfl) hlt hinv sig abcDigest Avb.Algorithms.sha256Rsa2048.padding
    length_abcBlock (decode_abcBlock_lt hodd) hsig
  refine ⟨pair, 2 ^ 32 - x, (hiff _ (pair.decode_rawSign_lt hodd _)).mpr rfl, [], ?_⟩
  refine Bool.eq_false_iff.mpr fun htrue => ?_
  have hlength := congrArg List.length ((hiff [] hodd.pos).mp htrue)
  rw [RsaKeyPair.rawSign, ByteOrder.length_encode] at hlength
  cases hlength

end Libavb

end BootImageEditor
