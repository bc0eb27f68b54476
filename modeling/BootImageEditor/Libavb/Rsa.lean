import BootImageEditor.Library.Montgomery
import BootImageEditor.Library.BigInteger
import BootImageEditor.Libavb.VbmetaImage

/-!
# Signature verification

`avb_rsa_verify` of libavb. A key is an odd modulus with two numbers precomputed from
it, and the signature is raised to the power 65537 by Montgomery multiplications of
32-bit words. Memory that cannot be allocated leaves the signature as it is.
-/

namespace BootImageEditor

open Codec

namespace Libavb

/-- `IAvbKey`: the arrays have `len` words. -/
structure IAvbKey where
  len : ℕ
  n0inv : UInt32
  n : List UInt32
  rr : List UInt32
  length_n : n.length = len
  length_rr : rr.length = len

/-- Words of a big-endian number, the last one first. -/
def wordsOf (len : ℕ) (bs : Bytes) : List UInt32 :=
  (List.range len).map fun i => be32toh (slice (4 * (len - i - 1)) 4 bs)

theorem length_wordsOf (len : ℕ) (bs : Bytes) : (wordsOf len bs).length = len := by
  simp [wordsOf]

/-- `sizeof(AvbRSAPublicKeyHeader)`. -/
def keyHeaderSize : ℕ := 8

/-- `sizeof(IAvbKey)`, with two pointers. -/
def iavbKeySize : ℕ := 24

/-- `iavb_parse_key_data`. -/
def iavbParseKeyData (malloc : ℕ → Bool) (data : Bytes) : Option IAvbKey :=
  let keyNumBits := (be32toh (slice 0 4 data)).toNat
  let n0inv := be32toh (slice 4 4 data)
  if ¬ (keyNumBits = 2048 ∨ keyNumBits = 4096 ∨ keyNumBits = 8192) then none
  else if data.length ≠ keyHeaderSize + 2 * keyNumBits / 8 then none
  else if !malloc (iavbKeySize + 2 * keyNumBits / 8) then none
  else
    let len := keyNumBits / 32
    let n := slice keyHeaderSize (keyNumBits / 8) data
    let rr := slice (keyHeaderSize + keyNumBits / 8) (keyNumBits / 8) data
    some ⟨len, n0inv, wordsOf len n, wordsOf len rr, length_wordsOf _ _, length_wordsOf _ _⟩

/-- The loop of `subM`, with the borrow `A`. -/
def subLoop (A : Int64) : List UInt32 → List UInt32 → List UInt32
  | a :: as, n :: ns =>
      let A := (A.toUInt64 + (a.toUInt64 - n.toUInt64)).toInt64
      A.toUInt64.toUInt32 :: subLoop (A >>> 32) as ns
  | _, _ => []

/-- `subM`: `a[] -= mod`. -/
def subM (key : IAvbKey) (a : List UInt32) : List UInt32 := subLoop 0 a key.n

/-- The loop of `geM`, from the last words on. -/
def geLoop : List UInt32 → List UInt32 → Bool
  | a :: as, n :: ns => if a < n then false else if a > n then true else geLoop as ns
  | _, _ => true

/-- `geM`: `a[] >= mod`. -/
def geM (key : IAvbKey) (a : List UInt32) : Bool := geLoop a.reverse key.n.reverse

/-- The loop of `montMulAdd`, with the carries `A` and `B`: the carries after it and the
words it wrote. -/
def montMulAddLoop (a d0 : UInt32) (A B : UInt64) :
    List UInt32 → List UInt32 → List UInt32 → UInt64 × UInt64 × List UInt32
  | b :: bs, n :: ns, c :: cs =>
      let A := (A >>> 32) + a.toUInt64 * b.toUInt64 + c.toUInt64
      let B := (B >>> 32) + d0.toUInt64 * n.toUInt64 + A.toUInt32.toUInt64
      let (A', B', rest) := montMulAddLoop a d0 A B bs ns cs
      (A', B', B.toUInt32 :: rest)
  | _, _, _ => (A, B, [])

/-- `montMulAdd`: `c[] += a * b[] / R % mod`. -/
def montMulAdd (key : IAvbKey) (c : List UInt32) (a : UInt32) (b : List UInt32) : List UInt32 :=
  match b, key.n, c with
  | b₀ :: bs, n₀ :: ns, c₀ :: cs =>
      let A := a.toUInt64 * b₀.toUInt64 + c₀.toUInt64
      let d0 := A.toUInt32 * key.n0inv
      let B := d0.toUInt64 * n₀.toUInt64 + A.toUInt32.toUInt64
      let (A, B, low) := montMulAddLoop a d0 A B bs ns cs
      let A := (A >>> 32) + (B >>> 32)
      let c := low ++ [A.toUInt32]
      if A >>> 32 ≠ 0 then subM key c else c
  | _, _, _ => c

/-- `montMul`: `c[] = a[] * b[] / R % mod`. -/
def montMul (key : IAvbKey) (a b : List UInt32) : List UInt32 :=
  a.foldl (fun c a => montMulAdd key c a b) (List.replicate key.len 0)

/-- One turn of the squarings in `modpowF4`. -/
def squareTwice (key : IAvbKey) (aR : List UInt32) : List UInt32 :=
  let aaR := montMul key aR aR
  montMul key aaR aaR

/-- `modpowF4`, in place. -/
def modpowF4 (malloc : ℕ → Bool) (key : IAvbKey) (inout : Bytes) : Bytes :=
  if !malloc (4 * key.len) then inout
  else
    let a := wordsOf key.len inout
    let aR := montMul key a key.rr
    let aR := (squareTwice key)^[8] aR
    let aaa := montMul key aR a
    let aaa := if geM key aaa then subM key aaa else aaa
    aaa.reverse.flatMap fun w => ByteOrder.bigEndian.encode 4 w.toNat

/-- `avb_safe_memcmp`: whether the result is not zero. -/
def avbSafeMemcmp (s1 s2 : Bytes) (n : ℕ) : Bool :=
  (List.zipWith (· ^^^ ·) (s1.take n) (s2.take n)).foldl (· ||| ·) 0 ≠ 0

/-- `avb_rsa_verify`. -/
def avbRsaVerify (malloc : ℕ → Bool) (key sig hash padding : Bytes) : Bool :=
  match iavbParseKeyData malloc key with
  | none => false
  | some parsedKey =>
    if sig.length ≠ parsedKey.len * 4 then false
    else if UInt64.ofNat padding.length ≠
        UInt64.ofNat sig.length - UInt64.ofNat hash.length then false
    else if !malloc sig.length then false
    else
      let buf := modpowF4 malloc parsedKey sig
      if avbSafeMemcmp buf padding padding.length then false
      else if avbSafeMemcmp (buf.drop padding.length) hash hash.length then false
      else true

/-! ## Arithmetic of words -/

def borrow (b : Bool) : Int64 := if b then -1 else 0

theorem toInt_shiftRight64 (z : Int64) : (z >>> 32).toInt = z.toInt / 2 ^ 32 := by
  have hshift : (z >>> 32).toInt =
      (z.toBitVec.sshiftRight ((32 : Int64).toBitVec.smod 64#64).toNat).toInt := rfl
  have hcount : ((32 : Int64).toBitVec.smod 64#64).toNat = 32 := by decide
  rw [hshift, hcount, BitVec.toInt_sshiftRight, Int.shiftRight_eq_div_pow]
  rfl

theorem sub_step (b : Bool) (a n : UInt32) :
    ∃ b', ((borrow b).toUInt64 + (a.toUInt64 - n.toUInt64)).toInt64 >>> 32 = borrow b' ∧
      ((borrow b).toUInt64 + (a.toUInt64 - n.toUInt64)).toInt64.toUInt64.toUInt32.toNat +
        n.toNat + b.toNat = a.toNat + 2 ^ 32 * b'.toNat := by
  have ha := a.toNat_lt
  have hn := n.toNat_lt
  have hnat : ((borrow b).toUInt64 + (a.toUInt64 - n.toUInt64)).toNat =
      (2 ^ 64 + a.toNat - n.toNat - b.toNat) % 2 ^ 64 := by
    cases b with
    | false =>
      have h0 : (borrow false).toUInt64 = 0 := rfl
      rw [h0, UInt64.toNat_add, UInt64.toNat_sub]
      simp
      omega
    | true =>
      have h0 : (borrow true).toUInt64.toNat = 2 ^ 64 - 1 := by decide
      rw [UInt64.toNat_add, UInt64.toNat_sub, h0]
      simp
      omega
  have hb : b.toNat ≤ 1 := Bool.toNat_le b
  have hint : ((borrow b).toUInt64 + (a.toUInt64 - n.toUInt64)).toInt64.toInt =
      (a.toNat : ℤ) - n.toNat - b.toNat := by
    have h : ((borrow b).toUInt64 + (a.toUInt64 - n.toUInt64)).toInt64.toInt =
      (((borrow b).toUInt64 + (a.toUInt64 - n.toUInt64)).toNat : ℤ).bmod (2 ^ 64) :=
      BitVec.toInt_eq_toNat_bmod _
    rw [h, hnat, Int.bmod_def]
    split <;> omega
  refine ⟨decide (a.toNat < n.toNat + b.toNat), ?_, ?_⟩
  · apply Int64.toInt_inj.mp
    rw [toInt_shiftRight64, hint]
    by_cases hlt : a.toNat < n.toNat + b.toNat
    · rw [decide_eq_true hlt]
      have h1 : (borrow true).toInt = -1 := by decide
      rw [h1]
      omega
    · rw [decide_eq_false hlt]
      have h1 : (borrow false).toInt = 0 := by decide
      rw [h1]
      omega
  · rw [UInt64.toUInt64_toInt64, UInt64.toNat_toUInt32, hnat]
    by_cases hlt : a.toNat < n.toNat + b.toNat
    · rw [decide_eq_true hlt, Bool.toNat_true]
      omega
    · rw [decide_eq_false hlt, Bool.toNat_false]
      omega

theorem subLoop_spec (b : Bool) (as ns : List UInt32) (h : as.length = ns.length) :
    (subLoop (borrow b) as ns).length = ns.length ∧ ∃ b' : Bool,
      ofLeWords (subLoop (borrow b) as ns) + ofLeWords ns + b.toNat =
        ofLeWords as + (2 ^ 32) ^ ns.length * b'.toNat := by
  induction as generalizing b ns with
  | nil =>
      obtain rfl := List.length_eq_zero_iff.mp h.symm
      exact ⟨rfl, b, by simp [subLoop, ofLeWords]⟩
  | cons a as ih =>
      cases ns with
      | nil => cases h
      | cons n ns =>
          obtain ⟨b', hcarry, hword⟩ := sub_step b a n
          obtain ⟨hlen, b'', hrest⟩ := ih b' ns (Nat.succ.inj h)
          rw [subLoop, hcarry]
          refine ⟨by rw [List.length_cons, hlen, List.length_cons], b'', ?_⟩
          rw [ofLeWords, ofLeWords, ofLeWords, List.length_cons, pow_succ' (2 ^ 32) ns.length,
            mul_assoc]
          omega

/-- One modulus less, where a carry `T` beyond the words is at hand. -/
theorem ofLeWords_subM {key : IAvbKey} {a : List UInt32} {carry : ℕ} (h : a.length = key.len)
    (hle : ofLeWords key.n ≤ ofLeWords a + (2 ^ 32) ^ key.len * carry)
    (hlt : ofLeWords a + (2 ^ 32) ^ key.len * carry < (2 ^ 32) ^ key.len + ofLeWords key.n) :
    (subM key a).length = key.len ∧
      ofLeWords (subM key a) = ofLeWords a + (2 ^ 32) ^ key.len * carry - ofLeWords key.n := by
  have hspec := subLoop_spec false a key.n (h.trans key.length_n.symm)
  obtain ⟨hlen, b', hsum⟩ := hspec
  have hzero : subM key a = subLoop (borrow false) a key.n := rfl
  rw [key.length_n] at hlen hsum
  rw [← hzero] at hlen hsum
  refine ⟨hlen, ?_⟩
  have hout := ofLeWords_lt (subM key a)
  rw [hlen] at hout
  simp only [Bool.toNat_false, add_zero] at hsum
  generalize (2 ^ 32) ^ key.len = R at *
  -- the borrow out of the last word is the carry
  have hb : b'.toNat = carry := by
    have hlow : R * b'.toNat < R * (carry + 1) := by
      rw [Nat.mul_add]; omega
    have hhigh : R * carry < R * (b'.toNat + 1) := by
      rw [Nat.mul_add]; omega
    have h1 := Nat.lt_of_mul_lt_mul_left hlow
    have h2 := Nat.lt_of_mul_lt_mul_left hhigh
    omega
  rw [hb] at hsum
  omega

/-- `A >> 32` and `(uint32_t)A`. -/
theorem split64 (A : UInt64) :
    (A >>> 32).toNat = A.toNat / 2 ^ 32 ∧ A.toUInt32.toNat = A.toNat % 2 ^ 32 := by
  refine ⟨?_, UInt64.toNat_toUInt32 A⟩
  rw [UInt64.toNat_shiftRight, Nat.shiftRight_eq_div_pow]
  rfl

/-- A product of two words, a word and a carry fit 64 bits. -/
theorem mul_add_lt {a b c d : ℕ} (ha : a < 2 ^ 32) (hb : b < 2 ^ 32) (hc : c < 2 ^ 32)
    (hd : d < 2 ^ 32) : a * b + c + d < 2 ^ 64 := by
  have hmul : a * b ≤ (2 ^ 32 - 1) * (2 ^ 32 - 1) := Nat.mul_le_mul (by omega) (by omega)
  omega

theorem toNat_mac (carry : ℕ) (hcarry : carry < 2 ^ 32) (x : UInt64) (hx : x.toNat = carry)
    (a b c : UInt32) :
    (x + a.toUInt64 * b.toUInt64 + c.toUInt64).toNat = carry + a.toNat * b.toNat + c.toNat := by
  have hlt := mul_add_lt a.toNat_lt b.toNat_lt c.toNat_lt hcarry
  rw [UInt64.toNat_add, UInt64.toNat_add, UInt64.toNat_mul, hx, UInt32.toNat_toUInt64,
    UInt32.toNat_toUInt64, UInt32.toNat_toUInt64]
  rw [Nat.mod_eq_of_lt (by omega : a.toNat * b.toNat < 2 ^ 64),
    Nat.mod_eq_of_lt (by omega : carry + a.toNat * b.toNat < 2 ^ 64),
    Nat.mod_eq_of_lt (by omega)]

/-- The words and the two carries add up to what is taken in. -/
theorem montMulAddLoop_spec (a d0 : UInt32) (A B : UInt64) (bs ns cs : List UInt32)
    (hb : bs.length = ns.length) (hc : cs.length = ns.length) {A' B' : UInt64}
    {out : List UInt32} (h : montMulAddLoop a d0 A B bs ns cs = (A', B', out)) :
    out.length = ns.length ∧
      A.toNat / 2 ^ 32 + B.toNat / 2 ^ 32 + ofLeWords cs + a.toNat * ofLeWords bs +
          d0.toNat * ofLeWords ns =
        ofLeWords out + (2 ^ 32) ^ ns.length * (A'.toNat / 2 ^ 32 + B'.toNat / 2 ^ 32) := by
  induction ns generalizing A B bs cs out with
  | nil =>
      obtain rfl := List.length_eq_zero_iff.mp hb
      obtain rfl := List.length_eq_zero_iff.mp hc
      simp only [montMulAddLoop, Prod.mk.injEq] at h
      obtain ⟨rfl, rfl, rfl⟩ := h
      exact ⟨rfl, by simp [ofLeWords]⟩
  | cons n ns ih =>
      obtain ⟨b, bs, rfl⟩ := List.exists_cons_of_length_eq_add_one hb
      obtain ⟨c, cs, rfl⟩ := List.exists_cons_of_length_eq_add_one hc
      have hAhi : (A >>> 32).toNat = A.toNat / 2 ^ 32 := (split64 A).1
      have hBhi : (B >>> 32).toNat = B.toNat / 2 ^ 32 := (split64 B).1
      have hA := toNat_mac (A.toNat / 2 ^ 32) (by have := A.toNat_lt; omega) _ hAhi a b c
      obtain ⟨A₁, hA₁⟩ : ∃ x, (A >>> 32) + a.toUInt64 * b.toUInt64 + c.toUInt64 = x := ⟨_, rfl⟩
      rw [hA₁] at hA
      have hB := toNat_mac (B.toNat / 2 ^ 32) (by have := B.toNat_lt; omega) _ hBhi d0 n A₁.toUInt32
      obtain ⟨B₁, hB₁⟩ : ∃ x, (B >>> 32) + d0.toUInt64 * n.toUInt64 + A₁.toUInt32.toUInt64 = x :=
        ⟨_, rfl⟩
      rw [hB₁, (split64 A₁).2] at hB
      simp only [montMulAddLoop, hA₁, hB₁] at h
      obtain ⟨⟨A'', B'', rest⟩, hrest⟩ : ∃ r, montMulAddLoop a d0 A₁ B₁ bs ns cs = r := ⟨_, rfl⟩
      rw [hrest] at h
      simp only [Prod.mk.injEq] at h
      obtain ⟨rfl, rfl, rfl⟩ := h
      obtain ⟨hlen, hsum⟩ := ih A₁ B₁ bs cs (Nat.succ.inj hb) (Nat.succ.inj hc) hrest
      refine ⟨by rw [List.length_cons, hlen, List.length_cons], ?_⟩
      rw [ofLeWords, ofLeWords, ofLeWords, ofLeWords, List.length_cons,
        pow_succ' (2 ^ 32) ns.length, (split64 B₁).2, mul_assoc]
      have hdistA : a.toNat * (b.toNat + 2 ^ 32 * ofLeWords bs) =
          a.toNat * b.toNat + 2 ^ 32 * (a.toNat * ofLeWords bs) := by ring
      have hdistD : d0.toNat * (n.toNat + 2 ^ 32 * ofLeWords ns) =
          d0.toNat * n.toNat + 2 ^ 32 * (d0.toNat * ofLeWords ns) := by ring
      rw [hdistA, hdistD]
      generalize (2 ^ 32) ^ ns.length * (A''.toNat / 2 ^ 32 + B''.toNat / 2 ^ 32) = high at *
      omega


/-- What the numbers of a key have in common: the modulus is odd, `n0inv` cancels its low
word, and `rr` is the square of the radix. -/
structure IAvbKey.Montgomery (key : IAvbKey) : Prop where
  pos : 0 < key.len
  cancel : (ofLeWords key.n * key.n0inv.toNat + 1) % 2 ^ 32 = 0
  rr : ofLeWords key.rr ≡ (2 ^ 32) ^ key.len * (2 ^ 32) ^ key.len [MOD ofLeWords key.n]
  wide : (2 ^ 32) ^ key.len ≤ 2 * ofLeWords key.n

/-- The low word of `c + a * b + d0 * n` vanishes. -/
theorem cancel_low {x n₀ N inv : ℕ} (hN : N % 2 ^ 32 = n₀ % 2 ^ 32)
    (h : (N * inv + 1) % 2 ^ 32 = 0) :
    (x % 2 ^ 32 * inv % 2 ^ 32 * n₀ + x) % 2 ^ 32 = 0 := by
  have hmod : x % 2 ^ 32 * inv % 2 ^ 32 * n₀ + x ≡ x * (N * inv + 1) [MOD 2 ^ 32] := by
    calc x % 2 ^ 32 * inv % 2 ^ 32 * n₀ + x
        ≡ x % 2 ^ 32 * inv * n₀ + x [MOD 2 ^ 32] :=
          ((Nat.mod_modEq _ _).mul_right n₀).add_right x
      _ ≡ x * inv * n₀ + x [MOD 2 ^ 32] :=
          (((Nat.mod_modEq _ _).mul_right inv).mul_right n₀).add_right x
      _ ≡ x * inv * N + x [MOD 2 ^ 32] :=
          (Nat.ModEq.mul_left (x * inv) (Nat.ModEq.symm hN)).add_right x
      _ = x * (N * inv + 1) := by ring
  rw [hmod, Nat.mul_mod, h, Nat.mul_zero, Nat.zero_mod]

/-- A word taken in leaves words and a carry, from which the modulus is taken once if the
carry is not zero. -/
theorem montMulAdd_cases {key : IAvbKey} (hkey : key.Montgomery) {c b : List UInt32} (a : UInt32)
    (hc : c.length = key.len) (hb : b.length = key.len) :
    ∃ (words : List UInt32) (carry : ℕ) (d : UInt32), words.length = key.len ∧
      montMulAdd key c a b = (if carry ≠ 0 then subM key words else words) ∧
      2 ^ 32 * (ofLeWords words + (2 ^ 32) ^ key.len * carry) =
        ofLeWords c + a.toNat * ofLeWords b + d.toNat * ofLeWords key.n := by
  obtain ⟨m, hm⟩ : ∃ m, key.len = m + 1 := ⟨key.len - 1, by have := hkey.pos; omega⟩
  obtain ⟨b₀, bs, rfl⟩ := List.exists_cons_of_length_eq_add_one (hb.trans hm)
  obtain ⟨c₀, cs, rfl⟩ := List.exists_cons_of_length_eq_add_one (hc.trans hm)
  obtain ⟨n₀, ns, hn⟩ := List.exists_cons_of_length_eq_add_one (key.length_n.trans hm)
  have hns : ns.length = m := by
    have h := key.length_n.trans hm
    rw [hn] at h
    exact Nat.succ.inj h
  have hbs : bs.length = ns.length := (Nat.succ.inj (hb.trans hm)).trans hns.symm
  have hcs : cs.length = ns.length := (Nat.succ.inj (hc.trans hm)).trans hns.symm
  -- the first words, of which the low one vanishes
  obtain ⟨A, hA⟩ : ∃ x, a.toUInt64 * b₀.toUInt64 + c₀.toUInt64 = x := ⟨_, rfl⟩
  have hAnat : A.toNat = a.toNat * b₀.toNat + c₀.toNat := by
    have h := toNat_mac 0 (by norm_num) 0 rfl a b₀ c₀
    rw [UInt64.zero_add, hA] at h
    omega
  obtain ⟨d0, hd0⟩ : ∃ x, A.toUInt32 * key.n0inv = x := ⟨_, rfl⟩
  have hd0nat : d0.toNat = A.toNat % 2 ^ 32 * key.n0inv.toNat % 2 ^ 32 := by
    rw [← hd0, UInt32.toNat_mul, (split64 A).2]
  obtain ⟨B, hB⟩ : ∃ x, d0.toUInt64 * n₀.toUInt64 + A.toUInt32.toUInt64 = x := ⟨_, rfl⟩
  have hBnat : B.toNat = d0.toNat * n₀.toNat + A.toNat % 2 ^ 32 := by
    have h := toNat_mac 0 (by norm_num) 0 rfl d0 n₀ A.toUInt32
    rw [UInt64.zero_add, hB, (split64 A).2] at h
    omega
  have hlow : B.toNat % 2 ^ 32 = 0 := by
    have hN : ofLeWords key.n % 2 ^ 32 = n₀.toNat % 2 ^ 32 := by
      rw [hn, ofLeWords]
      omega
    have h := cancel_low (x := A.toNat) hN hkey.cancel
    rw [← hd0nat] at h
    omega
  -- the other words
  obtain ⟨⟨A', B', low⟩, hloop⟩ : ∃ r, montMulAddLoop a d0 A B bs ns cs = r := ⟨_, rfl⟩
  obtain ⟨hlen, hsum⟩ := montMulAddLoop_spec a d0 A B bs ns cs hbs hcs hloop
  obtain ⟨T, hT⟩ : ∃ x, (A' >>> 32) + (B' >>> 32) = x := ⟨_, rfl⟩
  have hTnat : T.toNat = A'.toNat / 2 ^ 32 + B'.toNat / 2 ^ 32 := by
    have h1 := A'.toNat_lt
    have h2 := B'.toNat_lt
    rw [← hT, UInt64.toNat_add, (split64 A').1, (split64 B').1, Nat.mod_eq_of_lt (by omega)]
  refine ⟨low ++ [T.toUInt32], T.toNat / 2 ^ 32, d0, ?_, ?_, ?_⟩
  · rw [List.length_append, hlen, hns, hm, List.length_singleton]
  · have hcarry : (T >>> 32 ≠ 0) ↔ T.toNat / 2 ^ 32 ≠ 0 := by
      rw [← (split64 T).1, Ne, ← UInt64.toNat_inj, UInt64.toNat_zero]
    unfold montMulAdd
    rw [hn]
    simp only [hA, hd0, hB, hloop, hT, hcarry]
  · have hvalue : ofLeWords (low ++ [T.toUInt32]) =
        ofLeWords low + (2 ^ 32) ^ ns.length * (T.toNat % 2 ^ 32) := by
      rw [ofLeWords_append, hlen, ofLeWords, ofLeWords, Nat.mul_zero, Nat.add_zero, (split64 T).2]
    have hsplit : (2 ^ 32) ^ ns.length * T.toNat =
        (2 ^ 32) ^ ns.length * (T.toNat % 2 ^ 32) +
          (2 ^ 32) ^ key.len * (T.toNat / 2 ^ 32) := by
      rw [hm, hns, pow_succ (2 ^ 32) m, mul_assoc, ← Nat.mul_add, Nat.mod_add_div]
    have hdistA : a.toNat * (b₀.toNat + 2 ^ 32 * ofLeWords bs) =
        a.toNat * b₀.toNat + 2 ^ 32 * (a.toNat * ofLeWords bs) := by ring
    have hdistD : d0.toNat * (n₀.toNat + 2 ^ 32 * ofLeWords ns) =
        d0.toNat * n₀.toNat + 2 ^ 32 * (d0.toNat * ofLeWords ns) := by ring
    rw [hvalue, hn, ofLeWords, ofLeWords, ofLeWords, hdistA, hdistD]
    rw [← hTnat, hsplit] at hsum
    omega

/-- The turn divides by the base, modulo the modulus, and the words stay in their array. -/
theorem montMulAdd_spec {key : IAvbKey} (hkey : key.Montgomery) {c b : List UInt32} (a : UInt32)
    (hc : c.length = key.len) (hb : b.length = key.len) :
    (montMulAdd key c a b).length = key.len ∧
      2 ^ 32 * ofLeWords (montMulAdd key c a b) ≡ ofLeWords c + a.toNat * ofLeWords b
        [MOD ofLeWords key.n] := by
  obtain ⟨words, carry, d, hlen, hdef, htotal⟩ := montMulAdd_cases hkey a hc hb
  have hclt := ofLeWords_lt c
  have hblt := ofLeWords_lt b
  have hnlt := ofLeWords_lt key.n
  rw [hc] at hclt
  rw [hb] at hblt
  rw [key.length_n] at hnlt
  have hlt := Montgomery.step_lt htotal hclt hblt a.toNat_lt d.toNat_lt
  have hmod : 2 ^ 32 * (ofLeWords words + (2 ^ 32) ^ key.len * carry) ≡
      ofLeWords c + a.toNat * ofLeWords b [MOD ofLeWords key.n] := by
    rw [htotal, Nat.ModEq, Nat.add_mul_mod_self_right]
  rw [hdef]
  by_cases h0 : carry = 0
  · rw [if_neg (not_not_intro h0)]
    rw [h0, Nat.mul_zero, Nat.add_zero] at hmod
    exact ⟨hlen, hmod⟩
  · have hle : (2 ^ 32) ^ key.len ≤ (2 ^ 32) ^ key.len * carry :=
      Nat.le_mul_of_pos_right _ (Nat.pos_of_ne_zero h0)
    obtain ⟨hsub_len, hsub⟩ := ofLeWords_subM hlen (by omega) hlt
    rw [if_pos h0]
    refine ⟨hsub_len, ?_⟩
    rw [hsub]
    refine Nat.ModEq.trans (Nat.ModEq.mul_left _ ?_) hmod
    exact (Nat.modEq_iff_dvd' (by omega)).mpr ⟨1, by omega⟩

theorem montMul_spec {key : IAvbKey} (hkey : key.Montgomery) (a b : List UInt32)
    (ha : a.length = key.len) (hb : b.length = key.len) :
    (montMul key a b).length = key.len ∧
      (2 ^ 32) ^ key.len * ofLeWords (montMul key a b) ≡ ofLeWords a * ofLeWords b
        [MOD ofLeWords key.n] := by
  have h := @Montgomery.foldl_modEq _ (fun c => c.length = key.len) ofLeWords
    (fun c a => montMulAdd key c a b) (ofLeWords key.n) (ofLeWords b)
    (fun c a hc => (montMulAdd_spec hkey a hc hb).1)
    (fun c a hc => (montMulAdd_spec hkey a hc hb).2)
    a (List.replicate key.len 0) (List.length_replicate)
  rw [ofLeWords_replicate_zero, Nat.zero_add, ha] at h
  exact h


/-! ## Raising to the power -/

/-- Comparison from the last words on. -/
theorem geLoop_eq (as ns : List UInt32) (h : as.length = ns.length) :
    geLoop as ns = true ↔ ofLeWords ns.reverse ≤ ofLeWords as.reverse := by
  induction as generalizing ns with
  | nil =>
      obtain rfl := List.length_eq_zero_iff.mp h.symm
      simp [geLoop]
  | cons a as ih =>
      obtain ⟨n, ns, rfl⟩ := List.exists_cons_of_length_eq_add_one h.symm
      have hlen : as.length = ns.length := Nat.succ.inj h
      have haslt := ofLeWords_lt as.reverse
      have hnslt := ofLeWords_lt ns.reverse
      rw [List.length_reverse] at haslt hnslt
      rw [List.reverse_cons, List.reverse_cons, ofLeWords_append, ofLeWords_append,
        List.length_reverse, List.length_reverse, hlen, geLoop]
      rw [hlen] at haslt
      simp only [ofLeWords, Nat.mul_zero, Nat.add_zero]
      generalize (2 ^ 32) ^ ns.length = R at *
      rcases Nat.lt_trichotomy a.toNat n.toNat with hlt | heq | hgt
      · rw [if_pos (UInt32.lt_iff_toNat_lt.mpr hlt)]
        have hmul : R * a.toNat + R ≤ R * n.toNat := by
          calc R * a.toNat + R = R * (a.toNat + 1) := (Nat.mul_succ R _).symm
            _ ≤ R * n.toNat := Nat.mul_le_mul_left R hlt
        constructor
        · intro hfalse
          cases hfalse
        · intro hle
          omega
      · have hnot : ¬ a < n := fun hlt => by
          have := UInt32.lt_iff_toNat_lt.mp hlt
          omega
        have hnot' : ¬ a > n := fun hlt => by
          have := UInt32.lt_iff_toNat_lt.mp hlt
          omega
        rw [if_neg hnot, if_neg hnot', ih ns hlen, heq]
        omega
      · have hnot : ¬ a < n := fun hlt => by
          have := UInt32.lt_iff_toNat_lt.mp hlt
          omega
        rw [if_neg hnot, if_pos (UInt32.lt_iff_toNat_lt.mpr hgt)]
        have hmul : R * n.toNat + R ≤ R * a.toNat := by
          calc R * n.toNat + R = R * (n.toNat + 1) := (Nat.mul_succ R _).symm
            _ ≤ R * a.toNat := Nat.mul_le_mul_left R hgt
        constructor
        · intro
          omega
        · intro
          rfl

theorem geM_iff {key : IAvbKey} {a : List UInt32} (h : a.length = key.len) :
    geM key a = true ↔ ofLeWords key.n ≤ ofLeWords a := by
  rw [geM, geLoop_eq _ _ (by rw [List.length_reverse, List.length_reverse, h, key.length_n]),
    List.reverse_reverse, List.reverse_reverse]

/-- The words of a big-endian number stand for it. -/
theorem ofLeWords_wordsOf (len : ℕ) (bs : Bytes) (h : bs.length = 4 * len) :
    ofLeWords (wordsOf len bs) = ByteOrder.bigEndian.decode bs := by
  induction len generalizing bs with
  | zero =>
      obtain rfl := List.length_eq_zero_iff.mp h
      rfl
  | succ len ih =>
      have hlast : wordsOf (len + 1) bs =
          wordsOf len (bs.drop 4) ++ [be32toh (slice 0 4 bs)] := by
        rw [wordsOf, List.range_succ, List.map_append, wordsOf]
        congr 1
        · apply List.map_congr_left
          intro i hi
          have hlt := List.mem_range.mp hi
          rw [slice, slice, List.drop_drop]
          congr 3
          omega
        · simp
      have hdrop : (bs.drop 4).length = 4 * len := by
        rw [List.length_drop]
        omega
      have htake : (bs.take 4).length = 4 := by
        rw [List.length_take]
        omega
      have hword : (be32toh (slice 0 4 bs)).toNat = ByteOrder.bigEndian.decode (bs.take 4) := by
        have hlt := ByteOrder.decode_lt .bigEndian (bs.take 4)
        rw [htake] at hlt
        rw [slice, List.drop_zero, be32toh, UInt32.toNat_ofNat_of_lt' (by simpa using hlt)]
      have hsplit : ByteOrder.bigEndian.decode bs = ByteOrder.bigEndian.decode (bs.drop 4) +
          256 ^ (bs.drop 4).length * ByteOrder.bigEndian.decode (bs.take 4) := by
        rw [ByteOrder.decode, ByteOrder.decode, ByteOrder.decode, ← List.length_reverse,
          ← ofLeBytes_append, ← List.reverse_append, List.take_append_drop]
      have hpow : (256 : ℕ) ^ (4 * len) = (2 ^ 32) ^ len := by
        rw [pow_mul]
        norm_num
      rw [hlast, ofLeWords_append, ih _ hdrop, length_wordsOf, ofLeWords, ofLeWords, hword,
        Nat.mul_zero, Nat.add_zero, hsplit, hdrop, hpow]

/-- The bytes that are written stand for the number of the words. -/
theorem flatMap_reverse_eq (ws : List UInt32) :
    ws.reverse.flatMap (fun w => ByteOrder.bigEndian.encode 4 w.toNat) =
      ByteOrder.bigEndian.encode (4 * ws.length) (ofLeWords ws) := by
  induction ws with
  | nil => rfl
  | cons w ws ih =>
      have hw := w.toNat_lt
      rw [List.reverse_cons, List.flatMap_append, ih, List.flatMap_singleton]
      apply List.reverse_injective
      simp only [ByteOrder.encode, List.reverse_append, List.reverse_reverse]
      have hlen : 4 * (w :: ws).length = 4 + 4 * ws.length := by
        rw [List.length_cons]
        omega
      rw [hlen, leBytes_add, leBytes_mod 4 (ofLeWords (w :: ws)), ofLeWords]
      congr 2
      norm_num
      omega

theorem coprime_radix {key : IAvbKey} (hkey : key.Montgomery) :
    (ofLeWords key.n).gcd ((2 ^ 32) ^ key.len) = 1 := by
  have hodd : ofLeWords key.n % 2 = 1 := by
    have h := hkey.cancel
    by_contra hcon
    have heven : ofLeWords key.n % 2 = 0 := by omega
    have hmul : ofLeWords key.n * key.n0inv.toNat % 2 = 0 := by
      rw [Nat.mul_mod, heven, Nat.zero_mul, Nat.zero_mod]
    omega
  have hcop : Nat.Coprime (ofLeWords key.n) 2 := (Nat.odd_iff.mpr hodd).coprime_two_right
  exact (hcop.pow_right 32).pow_right key.len

theorem squareTwice_spec {key : IAvbKey} (hkey : key.Montgomery) {x : List UInt32} {u : ℕ}
    (hx : x.length = key.len)
    (hform : ofLeWords x ≡ u * (2 ^ 32) ^ key.len [MOD ofLeWords key.n]) :
    (squareTwice key x).length = key.len ∧
      ofLeWords (squareTwice key x) ≡ u ^ 4 * (2 ^ 32) ^ key.len [MOD ofLeWords key.n] := by
  have hcop := coprime_radix hkey
  obtain ⟨hlen, hmod⟩ := montMul_spec hkey x x hx hx
  have hone := Montgomery.mul hcop hform hform hmod
  obtain ⟨hlen', hmod'⟩ := montMul_spec hkey _ _ hlen hlen
  have htwo := Montgomery.mul hcop hone hone hmod'
  have hpow : u * u * (u * u) = u ^ 4 := by ring
  rw [hpow] at htwo
  exact ⟨hlen', htwo⟩

/-- One subtraction reduces what is below twice the modulus. -/
theorem reduce_spec {key : IAvbKey} (hkey : key.Montgomery) {x : List UInt32} {u : ℕ}
    (hx : x.length = key.len) (hform : ofLeWords x ≡ u [MOD ofLeWords key.n]) :
    (if geM key x then subM key x else x).length = key.len ∧
      ofLeWords (if geM key x then subM key x else x) = u % ofLeWords key.n := by
  have hlt := ofLeWords_lt x
  rw [hx] at hlt
  have hwide := hkey.wide
  by_cases hge : ofLeWords key.n ≤ ofLeWords x
  · have hcarry : (2 ^ 32) ^ key.len * 0 = 0 := Nat.mul_zero _
    obtain ⟨hlen, hsub⟩ := @ofLeWords_subM key x 0 hx (by omega) (by omega)
    rw [Nat.mul_zero, Nat.add_zero] at hsub
    rw [if_pos ((geM_iff hx).mpr hge), hsub, ← hform, Nat.mod_eq_sub_mod hge,
      Nat.mod_eq_of_lt (by omega)]
    exact ⟨hlen, rfl⟩
  · rw [if_neg (fun h => hge ((geM_iff hx).mp h)), ← hform, Nat.mod_eq_of_lt (by omega)]
    exact ⟨hx, rfl⟩

/-- The power, reduced: sixteen squarings and one multiplication. -/
theorem modpowF4_eq {key : IAvbKey} (hkey : key.Montgomery) {malloc : ℕ → Bool} {inout : Bytes}
    (hmalloc : malloc (4 * key.len) = true) (hlen : inout.length = 4 * key.len) :
    modpowF4 malloc key inout = ByteOrder.bigEndian.encode (4 * key.len)
      (ByteOrder.bigEndian.decode inout ^ 65537 % ofLeWords key.n) := by
  have hcop := coprime_radix hkey
  obtain ⟨s, hs⟩ : ∃ x, ByteOrder.bigEndian.decode inout = x := ⟨_, rfl⟩
  obtain ⟨a, ha⟩ : ∃ x, wordsOf key.len inout = x := ⟨_, rfl⟩
  have haval : ofLeWords a = s := by rw [← ha, ofLeWords_wordsOf _ _ hlen, hs]
  have halen : a.length = key.len := by rw [← ha, length_wordsOf]
  obtain ⟨hlen₁, hmod₁⟩ := montMul_spec hkey a key.rr halen key.length_rr
  have henter := Montgomery.enter hcop hkey.rr hmod₁
  rw [haval] at henter
  obtain ⟨hlen₂, hform⟩ := @Montgomery.iterate_square _ (fun x => x.length = key.len) ofLeWords
    (squareTwice key) _ _ 4 (fun _ _ hx hform => squareTwice_spec hkey hx hform) 8 _ s hlen₁ henter
  obtain ⟨hlen₃, hmod₃⟩ := montMul_spec hkey _ a hlen₂ halen
  have hleave := Montgomery.leave hcop hform hmod₃
  obtain ⟨aaa, haaa⟩ : ∃ x, montMul key ((squareTwice key)^[8] (montMul key a key.rr)) a = x :=
    ⟨_, rfl⟩
  rw [haaa] at hlen₃ hleave
  have hpow : s ^ 4 ^ 8 * s = s ^ 65537 := by
    rw [← pow_succ]
    norm_num
  rw [haval, hpow] at hleave
  obtain ⟨hrlen, hrval⟩ := reduce_spec hkey hlen₃ hleave
  unfold modpowF4
  rw [hmalloc]
  simp only [Bool.not_true, Bool.false_eq_true, if_false, ha, haaa]
  rw [flatMap_reverse_eq, hrlen, hrval, hs]


end Libavb

end BootImageEditor
