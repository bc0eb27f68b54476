import BootImageEditor.Library.BlockHash
import BootImageEditor.Library.Montgomery
import BootImageEditor.Library.Segments
import Mathlib.Data.Vector.Basic

/-!
# SHA-256 and SHA-512

The hash functions of libavb: a context with a block buffer that is fed with pieces of any
length. Whatever the pieces are, the digest is the one of their concatenation, and the
unrolled rounds compute what the loop does.
-/

namespace BootImageEditor

open Codec

namespace Libavb

/-- What SHA-256 and SHA-512 differ in: the sizes of a word, of a block and of the room for
the length behind the bit `0x80`, the number of rounds, the functions `F1` to `F4`, the
constants, and the bytes of a word. -/
structure Sha2 (α : Type) where
  wordSize : ℕ
  blockSize : ℕ
  lengthSize : ℕ
  rounds : ℕ
  f1 : α → α
  f2 : α → α
  f3 : α → α
  f4 : α → α
  k : List α
  h0 : Vector α 8
  pack : Bytes → α
  unpack : α → Bytes

section Compression

variable {α : Type} [Inhabited α] [Add α] [AndOp α] [XorOp α] [Complement α] (sha : Sha2 α)

/-- The macro `CH`. -/
def ch (x y z : α) : α := (x &&& y) ^^^ (~~~x &&& z)

/-- The macro `MAJ`. -/
def maj (x y z : α) : α := (x &&& y) ^^^ (x &&& z) ^^^ (y &&& z)

namespace Sha2

/-- `PACK` on the words of a block, and `SCR` on the others. -/
def schedule (subBlock : Bytes) : Array α :=
  let w := (Array.range 16).map fun j => sha.pack (slice (j * sha.wordSize) sha.wordSize subBlock)
  (List.range (sha.rounds - 16)).foldl (fun w i =>
    let j := i + 16
    w.push (sha.f4 w[j - 2]! + w[j - 7]! + sha.f3 w[j - 15]! + w[j - 16]!)) w

/-- A round of the loop. -/
def round (w : Array α) (wv : Vector α 8) (j : ℕ) : Vector α 8 :=
  let t1 := wv[7] + sha.f2 wv[4] + ch wv[4] wv[5] wv[6] + sha.k[j]! + w[j]!
  let t2 := sha.f1 wv[0] + maj wv[0] wv[1] wv[2]
  #v[t1 + t2, wv[0], wv[1], wv[2], wv[3] + t1, wv[4], wv[5], wv[6]]

/-- One block: the rounds, and the sum with the state before them. -/
def compress (h : Vector α 8) (subBlock : Bytes) : Vector α 8 :=
  let w := sha.schedule subBlock
  let wv := (List.range sha.rounds).foldl (sha.round w) h
  Vector.zipWith (· + ·) h wv

/-- The macro `EXP`, which leaves the words where they are. -/
def exp (w : Array α) (a b c d e f g h : Fin 8) (wv : Vector α 8) (j : ℕ) : Vector α 8 :=
  let t1 := wv[h] + sha.f2 wv[e] + ch wv[e] wv[f] wv[g] + sha.k[j]! + w[j]!
  let t2 := sha.f1 wv[a] + maj wv[a] wv[b] wv[c]
  (wv.set d (wv[d] + t1)).set h (t1 + t2)

/-- The eight unrolled rounds from `j` on. -/
def unrolled (w : Array α) (wv : Vector α 8) (j : ℕ) : Vector α 8 :=
  let wv := sha.exp w 0 1 2 3 4 5 6 7 wv j
  let wv := sha.exp w 7 0 1 2 3 4 5 6 wv (j + 1)
  let wv := sha.exp w 6 7 0 1 2 3 4 5 wv (j + 2)
  let wv := sha.exp w 5 6 7 0 1 2 3 4 wv (j + 3)
  let wv := sha.exp w 4 5 6 7 0 1 2 3 wv (j + 4)
  let wv := sha.exp w 3 4 5 6 7 0 1 2 wv (j + 5)
  let wv := sha.exp w 2 3 4 5 6 7 0 1 wv (j + 6)
  sha.exp w 1 2 3 4 5 6 7 0 wv (j + 7)

/-- One block with `UNROLL_LOOPS`. -/
def compressUnrolled (h : Vector α 8) (subBlock : Bytes) : Vector α 8 :=
  let w := sha.schedule subBlock
  let wv := (List.range (sha.rounds / 8)).foldl (fun wv i => sha.unrolled w wv (8 * i)) h
  Vector.zipWith (· + ·) h wv

end Sha2

end Compression

/-- `AvbSHA256Ctx` and `AvbSHA512Ctx`; the digest is what `final` returns. -/
structure ShaCtx (α : Type) where
  h : Vector α 8
  totLen : UInt64
  len : ℕ
  block : Bytes

/-- `avb_memcpy` into a buffer, and `avb_memset`. -/
def overwrite (dest : Bytes) (offset : ℕ) (src : Bytes) : Bytes :=
  dest.take offset ++ src ++ dest.drop (offset + src.length)

section Context

variable {α : Type} [Inhabited α] [Add α] [AndOp α] [XorOp α] [Complement α] (sha : Sha2 α)

namespace Sha2

/-- `SHA256_transform` and `SHA512_transform`. -/
def transform (h : Vector α 8) (message : Bytes) (blockNb : ℕ) : Vector α 8 :=
  (List.range blockNb).foldl
    (fun h i => sha.compress h ((message.drop (i * sha.blockSize)).take sha.blockSize)) h

def init (ctx : ShaCtx α) : ShaCtx α := { ctx with h := sha.h0, len := 0, totLen := 0 }

def update (ctx : ShaCtx α) (data : Bytes) : ShaCtx α :=
  let tmpLen := sha.blockSize - ctx.len
  let remLen := if data.length < tmpLen then data.length else tmpLen
  let block := overwrite ctx.block ctx.len (data.take remLen)
  if ctx.len + data.length < sha.blockSize then
    { ctx with block := block, len := ctx.len + data.length }
  else
    let newLen := data.length - remLen
    let blockNb := newLen / sha.blockSize
    let shiftedData := data.drop remLen
    let h := sha.transform ctx.h block 1
    let h := sha.transform h shiftedData blockNb
    let remLen := newLen % sha.blockSize
    { h := h
      block := overwrite block 0 (slice (blockNb * sha.blockSize) remLen shiftedData)
      len := remLen
      totLen := ctx.totLen + UInt64.ofNat ((blockNb + 1) * sha.blockSize) }

def final (ctx : ShaCtx α) : Bytes :=
  let blockNb := 1 + if sha.blockSize - (1 + sha.lengthSize) < ctx.len % sha.blockSize then 1 else 0
  let lenB := (ctx.totLen + UInt64.ofNat ctx.len) <<< 3
  let pmLen := blockNb * sha.blockSize
  let block := overwrite ctx.block ctx.len (List.replicate (pmLen - ctx.len) 0)
  let block := overwrite block ctx.len [0x80]
  let block := overwrite block (pmLen - 8) (ByteOrder.bigEndian.encode 8 lenB.toNat)
  (sha.transform ctx.h block blockNb).toList.flatMap sha.unpack

end Sha2

end Context

/-! ## The members -/

def rotr32 (x : UInt32) (n : UInt32) : UInt32 := x >>> n ||| x <<< (32 - n)

def rotr64 (x : UInt64) (n : UInt64) : UInt64 := x >>> n ||| x <<< (64 - n)

def sha256H0 : Vector UInt32 8 :=
  #v[0x6a09e667, 0xbb67ae85, 0x3c6ef372, 0xa54ff53a, 0x510e527f, 0x9b05688c, 0x1f83d9ab,
    0x5be0cd19]

def sha256K : List UInt32 :=
  [0x428a2f98, 0x71374491, 0xb5c0fbcf, 0xe9b5dba5, 0x3956c25b, 0x59f111f1, 0x923f82a4,
    0xab1c5ed5, 0xd807aa98, 0x12835b01, 0x243185be, 0x550c7dc3, 0x72be5d74, 0x80deb1fe,
    0x9bdc06a7, 0xc19bf174, 0xe49b69c1, 0xefbe4786, 0x0fc19dc6, 0x240ca1cc, 0x2de92c6f,
    0x4a7484aa, 0x5cb0a9dc, 0x76f988da, 0x983e5152, 0xa831c66d, 0xb00327c8, 0xbf597fc7,
    0xc6e00bf3, 0xd5a79147, 0x06ca6351, 0x14292967, 0x27b70a85, 0x2e1b2138, 0x4d2c6dfc,
    0x53380d13, 0x650a7354, 0x766a0abb, 0x81c2c92e, 0x92722c85, 0xa2bfe8a1, 0xa81a664b,
    0xc24b8b70, 0xc76c51a3, 0xd192e819, 0xd6990624, 0xf40e3585, 0x106aa070, 0x19a4c116,
    0x1e376c08, 0x2748774c, 0x34b0bcb5, 0x391c0cb3, 0x4ed8aa4a, 0x5b9cca4f, 0x682e6ff3,
    0x748f82ee, 0x78a5636f, 0x84c87814, 0x8cc70208, 0x90befffa, 0xa4506ceb, 0xbef9a3f7,
    0xc67178f2]

def sha512H0 : Vector UInt64 8 :=
  #v[0x6a09e667f3bcc908, 0xbb67ae8584caa73b, 0x3c6ef372fe94f82b, 0xa54ff53a5f1d36f1,
    0x510e527fade682d1, 0x9b05688c2b3e6c1f, 0x1f83d9abfb41bd6b, 0x5be0cd19137e2179]

def sha512K : List UInt64 :=
  [0x428a2f98d728ae22, 0x7137449123ef65cd, 0xb5c0fbcfec4d3b2f, 0xe9b5dba58189dbbc,
    0x3956c25bf348b538, 0x59f111f1b605d019, 0x923f82a4af194f9b, 0xab1c5ed5da6d8118,
    0xd807aa98a3030242, 0x12835b0145706fbe, 0x243185be4ee4b28c, 0x550c7dc3d5ffb4e2,
    0x72be5d74f27b896f, 0x80deb1fe3b1696b1, 0x9bdc06a725c71235, 0xc19bf174cf692694,
    0xe49b69c19ef14ad2, 0xefbe4786384f25e3, 0x0fc19dc68b8cd5b5, 0x240ca1cc77ac9c65,
    0x2de92c6f592b0275, 0x4a7484aa6ea6e483, 0x5cb0a9dcbd41fbd4, 0x76f988da831153b5,
    0x983e5152ee66dfab, 0xa831c66d2db43210, 0xb00327c898fb213f, 0xbf597fc7beef0ee4,
    0xc6e00bf33da88fc2, 0xd5a79147930aa725, 0x06ca6351e003826f, 0x142929670a0e6e70,
    0x27b70a8546d22ffc, 0x2e1b21385c26c926, 0x4d2c6dfc5ac42aed, 0x53380d139d95b3df,
    0x650a73548baf63de, 0x766a0abb3c77b2a8, 0x81c2c92e47edaee6, 0x92722c851482353b,
    0xa2bfe8a14cf10364, 0xa81a664bbc423001, 0xc24b8b70d0f89791, 0xc76c51a30654be30,
    0xd192e819d6ef5218, 0xd69906245565a910, 0xf40e35855771202a, 0x106aa07032bbd1b8,
    0x19a4c116b8d2d0c8, 0x1e376c085141ab53, 0x2748774cdf8eeb99, 0x34b0bcb5e19b48a8,
    0x391c0cb3c5c95a63, 0x4ed8aa4ae3418acb, 0x5b9cca4f7763e373, 0x682e6ff3d6b2b8a3,
    0x748f82ee5defb2fc, 0x78a5636f43172f60, 0x84c87814a1f0ab72, 0x8cc702081a6439ec,
    0x90befffa23631e28, 0xa4506cebde82bde9, 0xbef9a3f7b2c67915, 0xc67178f2e372532b,
    0xca273eceea26619c, 0xd186b8c721c0c207, 0xeada7dd6cde0eb1e, 0xf57d4f7fee6ed178,
    0x06f067aa72176fba, 0x0a637dc5a2c898a6, 0x113f9804bef90dae, 0x1b710b35131c471b,
    0x28db77f523047d84, 0x32caab7b40c72493, 0x3c9ebe0a15c9bebc, 0x431d67c49c100d4c,
    0x4cc5d4becb3e42b6, 0x597f299cfc657e2a, 0x5fcb6fab3ad6faec, 0x6c44198c4a475817]

def sha256 : Sha2 UInt32 where
  wordSize := 4
  blockSize := 64
  lengthSize := 8
  rounds := 64
  f1 x := rotr32 x 2 ^^^ rotr32 x 13 ^^^ rotr32 x 22
  f2 x := rotr32 x 6 ^^^ rotr32 x 11 ^^^ rotr32 x 25
  f3 x := rotr32 x 7 ^^^ rotr32 x 18 ^^^ x >>> 3
  f4 x := rotr32 x 17 ^^^ rotr32 x 19 ^^^ x >>> 10
  k := sha256K
  h0 := sha256H0
  pack str := UInt32.ofNat (ByteOrder.bigEndian.decode str)
  unpack x := ByteOrder.bigEndian.encode 4 x.toNat

def sha512 : Sha2 UInt64 where
  wordSize := 8
  blockSize := 128
  lengthSize := 16
  rounds := 80
  f1 x := rotr64 x 28 ^^^ rotr64 x 34 ^^^ rotr64 x 39
  f2 x := rotr64 x 14 ^^^ rotr64 x 18 ^^^ rotr64 x 41
  f3 x := rotr64 x 1 ^^^ rotr64 x 8 ^^^ x >>> 7
  f4 x := rotr64 x 19 ^^^ rotr64 x 61 ^^^ x >>> 6
  k := sha512K
  h0 := sha512H0
  pack str := UInt64.ofNat (ByteOrder.bigEndian.decode str)
  unpack x := ByteOrder.bigEndian.encode 8 x.toNat

def avbSha256Init : ShaCtx UInt32 → ShaCtx UInt32 := sha256.init

def avbSha256Update : ShaCtx UInt32 → Bytes → ShaCtx UInt32 := sha256.update

def avbSha256Final : ShaCtx UInt32 → Bytes := sha256.final

def avbSha512Init : ShaCtx UInt64 → ShaCtx UInt64 := sha512.init

def avbSha512Update : ShaCtx UInt64 → Bytes → ShaCtx UInt64 := sha512.update

def avbSha512Final : ShaCtx UInt64 → Bytes := sha512.final

/-! ## Hashing in pieces -/

theorem length_overwrite {dest src : Bytes} {offset : ℕ}
    (h : offset + src.length ≤ dest.length) : (overwrite dest offset src).length = dest.length := by
  rw [overwrite, List.length_append, List.length_append, List.length_take, List.length_drop]
  omega

/-- A buffer up to the end of what was written. -/
theorem take_overwrite {dest src : Bytes} {offset n : ℕ} (hn : n = offset + src.length)
    (h : n ≤ dest.length) : (overwrite dest offset src).take n = dest.take offset ++ src := by
  have hlen : (dest.take offset ++ src).length = n := by
    rw [List.length_append, List.length_take]
    omega
  rw [overwrite, List.take_left' hlen]

/-- A part of a buffer is replaced by one of its length. -/
theorem overwrite_middle {a b c src : Bytes} {offset : ℕ} (ha : a.length = offset)
    (hb : b.length = src.length) : overwrite (a ++ (b ++ c)) offset src = a ++ (src ++ c) := by
  have hab : (a ++ b).length = offset + src.length := by rw [List.length_append, ha, hb]
  rw [overwrite, List.take_left' ha, ← List.append_assoc a b, List.drop_left' hab,
    List.append_assoc]

/-- The 64 bits that are kept of the length, in a wider field. -/
theorem encode_bigEndian_wide {w n : ℕ} (hw : 8 ≤ w) (hn : n < 2 ^ 64) :
    ByteOrder.bigEndian.encode w n =
      List.replicate (w - 8) 0 ++ ByteOrder.bigEndian.encode 8 n := by
  have hzero : ∀ k, leBytes k 0 = List.replicate k 0 := by
    intro k
    induction k with
    | zero => rfl
    | succ k ih =>
        rw [leBytes, Nat.zero_div, ih, List.replicate_succ]
        rfl
  obtain ⟨j, rfl⟩ := Nat.exists_eq_add_of_le hw
  have hdiv : n / 256 ^ 8 = 0 := Nat.div_eq_of_lt (by omega)
  rw [ByteOrder.encode, leBytes_add, hdiv, hzero, List.reverse_append, List.reverse_replicate,
    Nat.add_sub_cancel_left, ByteOrder.encode]

namespace Sha2

/-- What the sizes of a member promise. -/
structure Sizes {α : Type} (sha : Sha2 α) : Prop where
  length_wide : 8 ≤ sha.lengthSize
  length_fits : sha.lengthSize < sha.blockSize

section Pieces

variable {α : Type} [Inhabited α] [Add α] [AndOp α] [XorOp α] [Complement α] {sha : Sha2 α}

theorem transform_eq (h : Vector α 8) (message : Bytes) (n : ℕ) :
    sha.transform h message n = BlockHash.absorb sha.blockSize sha.compress n h message :=
  BlockHash.foldl_range_eq_absorb _ _ _ _ _

/-- The context holds the message `m`: whole blocks in the state, the others in the
buffer. -/
structure Holds (sha : Sha2 α) (m : Bytes) (ctx : ShaCtx α) : Prop where
  represents : BlockHash.Represents sha.blockSize sha.compress sha.h0 m ctx.h
    (ctx.block.take ctx.len)
  len_eq : ctx.len = m.length % sha.blockSize
  totLen_eq : ctx.totLen = UInt64.ofNat (m.length / sha.blockSize * sha.blockSize)
  length_block : ctx.block.length = 2 * sha.blockSize

theorem holds_init {ctx : ShaCtx α} (h : ctx.block.length = 2 * sha.blockSize) :
    sha.Holds [] (sha.init ctx) where
  represents := by
    refine ⟨?_, List.drop_nil.symm⟩
    rw [List.length_nil, Nat.zero_div]
    rfl
  len_eq := (Nat.zero_mod _).symm
  totLen_eq := by
    rw [List.length_nil, Nat.zero_div, Nat.zero_mul]
    rfl
  length_block := h

namespace Holds

theorem length_rest {m : Bytes} {ctx : ShaCtx α} (h : sha.Holds m ctx)
    (hsizes : sha.Sizes) : (ctx.block.take ctx.len).length = ctx.len ∧ ctx.len < sha.blockSize := by
  have hlt := Nat.mod_lt m.length (Nat.zero_lt_of_lt hsizes.length_fits)
  rw [← h.len_eq] at hlt
  have hblock := h.length_block
  refine ⟨?_, hlt⟩
  rw [List.length_take]
  omega

/-- The pieces of an update: the end of the block that was begun, whole blocks, a rest. -/
theorem update {m data : Bytes} {ctx : ShaCtx α} (h : sha.Holds m ctx) (hsizes : sha.Sizes) :
    sha.Holds (m ++ data) (sha.update ctx data) := by
  obtain ⟨hrest, hlt⟩ := h.length_rest hsizes
  have hblock := h.length_block
  have hB : 0 < sha.blockSize := Nat.zero_lt_of_lt hlt
  obtain ⟨rest, hrestEq⟩ : ∃ x, ctx.block.take ctx.len = x := ⟨_, rfl⟩
  have hrep := h.represents
  rw [hrestEq] at hrep hrest
  have hdiv := Nat.div_add_mod m.length sha.blockSize
  rw [← h.len_eq] at hdiv
  obtain ⟨q, hq⟩ : ∃ x, m.length / sha.blockSize = x := ⟨_, rfl⟩
  rw [hq] at hdiv
  by_cases hfits : ctx.len + data.length < sha.blockSize
  · have hrem : data.length < sha.blockSize - ctx.len := by omega
    have hquot : (m ++ data).length / sha.blockSize = q := by
      rw [List.length_append]
      exact Nat.div_eq_of_lt_le (by rw [Nat.mul_comm]; omega)
        (by rw [Nat.succ_mul, Nat.mul_comm]; omega)
    have hmod := Nat.div_add_mod (m ++ data).length sha.blockSize
    rw [hquot, List.length_append] at hmod
    unfold Sha2.update
    simp only [if_pos hrem, if_pos hfits, List.take_length]
    refine ⟨?_, ?_, ?_, ?_⟩
    · rw [take_overwrite rfl (by omega), hrestEq]
      exact hrep.append_of_lt (by omega)
    · rw [List.length_append]
      show ctx.len + data.length = _
      omega
    · rw [hquot, h.totLen_eq, hq]
    · rw [length_overwrite (by omega), hblock]
  · have hrem : ¬ data.length < sha.blockSize - ctx.len := by omega
    obtain ⟨tmp, htmp⟩ : ∃ x, sha.blockSize - ctx.len = x := ⟨_, rfl⟩
    rw [htmp] at hrem
    have htake : (data.take tmp).length = tmp := by
      rw [List.length_take]
      omega
    obtain ⟨k, hk⟩ : ∃ x, (data.length - tmp) / sha.blockSize = x := ⟨_, rfl⟩
    obtain ⟨r, hr⟩ : ∃ x, (data.length - tmp) % sha.blockSize = x := ⟨_, rfl⟩
    have hsplit := Nat.div_add_mod (data.length - tmp) sha.blockSize
    have hrlt := Nat.mod_lt (data.length - tmp) hB
    rw [hk, hr] at hsplit
    rw [hr] at hrlt
    have hreach : ctx.len + tmp = 1 * sha.blockSize := by omega
    -- the block that was begun is filled up by the first bytes
    have hfilled : (overwrite ctx.block ctx.len (data.take tmp)).take (1 * sha.blockSize) =
        rest ++ data.take tmp := by
      rw [take_overwrite (by omega) (by omega), hrestEq]
    have hfilledLen : (rest ++ data.take tmp).length = 1 * sha.blockSize := by
      rw [List.length_append, htake]
      omega
    have hfirst : sha.transform ctx.h (overwrite ctx.block ctx.len (data.take tmp)) 1 =
        BlockHash.absorb sha.blockSize sha.compress 1 ctx.h (rest ++ data) := by
      have hdata : rest ++ data = (rest ++ data.take tmp) ++ data.drop tmp := by
        rw [List.append_assoc, List.take_append_drop]
      rw [transform_eq, ← BlockHash.absorb_take _ _ _ _ _ (by
          rw [length_overwrite (by omega)]
          omega), hfilled, hdata, BlockHash.absorb_append _ _ _ _ _ _ (le_of_eq hfilledLen.symm)]
    have hbehind : (rest ++ data).drop (1 * sha.blockSize) = data.drop tmp := by
      rw [List.drop_append, List.drop_of_length_le (by omega), List.nil_append]
      congr 1
      omega
    have hsecond : sha.transform (sha.transform ctx.h
          (overwrite ctx.block ctx.len (data.take tmp)) 1) (data.drop tmp) k =
        BlockHash.absorb sha.blockSize sha.compress (1 + k) ctx.h (rest ++ data) := by
      rw [BlockHash.absorb_add, ← hfirst, hbehind, transform_eq]
    have hcount : 1 + k = (rest.length + data.length) / sha.blockSize := by
      have hsum : rest.length + data.length = (data.length - tmp) + sha.blockSize * 1 := by omega
      rw [hsum, Nat.add_mul_div_left _ _ hB, hk, Nat.add_comm]
    have hlast : slice (k * sha.blockSize) r (data.drop tmp) =
        (rest ++ data).drop ((1 + k) * sha.blockSize) := by
      rw [Nat.add_mul, ← List.drop_drop, hbehind, slice, List.take_of_length_le]
      rw [List.length_drop, List.length_drop, Nat.mul_comm]
      omega
    have hlastLen : (slice (k * sha.blockSize) r (data.drop tmp)).length = r := by
      apply length_slice
      rw [List.length_drop, Nat.mul_comm]
      omega
    have hfilledBuf : (overwrite ctx.block ctx.len (data.take tmp)).length = 2 * sha.blockSize := by
      rw [length_overwrite (by omega), hblock]
    have hkept : (overwrite (overwrite ctx.block ctx.len (data.take tmp)) 0
        (slice (k * sha.blockSize) r (data.drop tmp))).take r =
          (rest ++ data).drop ((1 + k) * sha.blockSize) := by
      rw [take_overwrite (by omega) (by omega), List.take_zero, List.nil_append, hlast]
    have htotal : (m ++ data).length = r + sha.blockSize * (q + (1 + k)) := by
      rw [List.length_append, Nat.mul_add, Nat.mul_add]
      omega
    have hquot : (m ++ data).length / sha.blockSize = q + (1 + k) := by
      rw [htotal, Nat.add_mul_div_left _ _ hB, Nat.div_eq_of_lt hrlt, Nat.zero_add]
    unfold Sha2.update
    simp only [htmp, if_neg hrem, if_neg hfits, hk, hr]
    refine ⟨?_, ?_, ?_, ?_⟩
    · rw [hsecond, hkept]
      exact hrep.append_blocks (1 + k) hcount hB
    · rw [htotal, Nat.add_mul_mod_self_left, Nat.mod_eq_of_lt hrlt]
    · rw [hquot, h.totLen_eq, hq, ← UInt64.ofNat_add, ← Nat.add_mul, Nat.add_comm k 1]
    · rw [length_overwrite (by omega), hfilledBuf]

/-- Padding and length, in one block or two. -/
theorem final {m : Bytes} {ctx : ShaCtx α} (h : sha.Holds m ctx) (hsizes : sha.Sizes) :
    sha.final ctx = (BlockHash.digest sha.blockSize sha.compress sha.lengthSize sha.h0
      m).toList.flatMap sha.unpack := by
  obtain ⟨hrest, hlt⟩ := h.length_rest hsizes
  have hwide := hsizes.length_wide
  have hfits := hsizes.length_fits
  have hblock := h.length_block
  have hB : 0 < sha.blockSize := Nat.zero_lt_of_lt hlt
  obtain ⟨rest, hrestEq⟩ : ∃ x, ctx.block.take ctx.len = x := ⟨_, rfl⟩
  have hrep := h.represents
  rw [hrestEq] at hrep hrest
  obtain ⟨n, hn⟩ : ∃ x, (1 + if sha.blockSize - (1 + sha.lengthSize) <
      ctx.len % sha.blockSize then 1 else 0) = x := ⟨_, rfl⟩
  have hround : n * sha.blockSize = roundUp sha.blockSize (rest.length + 1 + sha.lengthSize) ∧
      n * sha.blockSize ≤ 2 * sha.blockSize := by
    rw [Nat.mod_eq_of_lt hlt] at hn
    split at hn
    · obtain rfl := hn
      exact ⟨(roundUp_eq_of_between (by omega) (by omega)).symm, by omega⟩
    · obtain rfl := hn
      exact ⟨(roundUp_eq_of_between (by omega) (by omega)).symm, by omega⟩
  have hle := le_roundUp hB (rest.length + 1 + sha.lengthSize)
  obtain ⟨pm, hpm⟩ : ∃ x, n * sha.blockSize = x := ⟨_, rfl⟩
  rw [hpm] at hround
  obtain ⟨hpmEq, hpmLe⟩ := hround
  rw [← hpmEq, hrest] at hle
  have hlenB : ((ctx.totLen + UInt64.ofNat ctx.len) <<< 3).toNat = 8 * m.length % 2 ^ 64 := by
    have hdiv := Nat.div_add_mod m.length sha.blockSize
    rw [← h.len_eq, Nat.mul_comm] at hdiv
    rw [h.totLen_eq, ← UInt64.ofNat_add, hdiv, UInt64.toNat_shiftLeft, UInt64.toNat_ofNat',
      Nat.shiftLeft_eq]
    have hthree : (3 : UInt64).toNat % 64 = 3 := rfl
    rw [hthree]
    omega
  -- the buffer after the three writes
  obtain ⟨fill, hfill⟩ : ∃ x, List.replicate (pm - 8 - (ctx.len + 1)) (0 : UInt8) = x := ⟨_, rfl⟩
  obtain ⟨tail, htail⟩ : ∃ x, ctx.block.drop pm = x := ⟨_, rfl⟩
  obtain ⟨bits, hbits⟩ : ∃ x, ByteOrder.bigEndian.encode 8 (8 * m.length % 2 ^ 64) = x := ⟨_, rfl⟩
  have hbitsLen : bits.length = 8 := by rw [← hbits, ByteOrder.length_encode]
  have hfillLen : fill.length = pm - 8 - (ctx.len + 1) := by rw [← hfill, List.length_replicate]
  have hzeroed : overwrite ctx.block ctx.len (List.replicate (pm - ctx.len) 0) =
      rest ++ ([0] ++ (fill ++ (List.replicate 8 0 ++ tail))) := by
    have hzeros : List.replicate (pm - ctx.len) (0 : UInt8) =
        [0] ++ (fill ++ List.replicate 8 0) := by
      have hsum : pm - ctx.len = 1 + ((pm - 8 - (ctx.len + 1)) + 8) := by omega
      rw [hsum, List.replicate_add, List.replicate_add, hfill]
      rfl
    have hend : ctx.len + (List.replicate (pm - ctx.len) (0 : UInt8)).length = pm := by
      rw [List.length_replicate]
      omega
    rw [overwrite, hend, hrestEq, htail, hzeros]
    simp only [List.append_assoc]
  have hmarked : overwrite (rest ++ ([0] ++ (fill ++ (List.replicate 8 0 ++ tail)))) ctx.len
      [0x80] = (rest ++ ([0x80] ++ fill)) ++ (List.replicate 8 0 ++ tail) := by
    rw [@overwrite_middle rest [0] _ [0x80] _ hrest rfl]
    simp only [List.append_assoc]
  have hwritten : overwrite ((rest ++ ([0x80] ++ fill)) ++ (List.replicate 8 0 ++ tail)) (pm - 8)
      bits = (rest ++ ([0x80] ++ fill) ++ bits) ++ tail := by
    rw [overwrite_middle _ (by rw [List.length_replicate, hbitsLen]), ← List.append_assoc]
    rw [List.length_append, List.length_append, List.length_singleton, hfillLen, hrest]
    omega
  have hlen : (rest ++ ([0x80] ++ fill) ++ bits).length = n * sha.blockSize := by
    rw [List.length_append, List.length_append, List.length_append, List.length_singleton,
      hfillLen, hrest, hbitsLen]
    omega
  have hpad : rest ++ (0x80 :: List.replicate (n * sha.blockSize -
        (rest.length + 1 + sha.lengthSize)) 0) ++
      ByteOrder.bigEndian.encode sha.lengthSize (8 * m.length % 2 ^ 64) =
        rest ++ ([0x80] ++ fill) ++ bits := by
    have hsum : pm - 8 - (ctx.len + 1) =
        (pm - (ctx.len + 1 + sha.lengthSize)) + (sha.lengthSize - 8) := by omega
    rw [encode_bigEndian_wide hwide (Nat.mod_lt _ (by norm_num)), hbits, ← hfill, hsum,
      List.replicate_add, hpm, hrest]
    simp only [List.append_assoc, List.cons_append, List.nil_append]
  unfold Sha2.final
  simp only [hn, hpm, hlenB, hbits, hzeroed, hmarked, hwritten]
  rw [transform_eq, BlockHash.absorb_append _ _ _ _ _ _ (le_of_eq hlen.symm),
    hrep.digest_eq hB (hpm.trans hpmEq), hpad]

end Holds

/-- The digest of any pieces. -/
theorem final_updates (hsizes : sha.Sizes) {ctx : ShaCtx α}
    (hblock : ctx.block.length = 2 * sha.blockSize) (pieces : List Bytes) :
    sha.final (pieces.foldl sha.update (sha.init ctx)) =
      (BlockHash.digest sha.blockSize sha.compress sha.lengthSize sha.h0
        pieces.flatten).toList.flatMap sha.unpack := by
  have hfold : ∀ (pieces : List Bytes) (m : Bytes) (ctx : ShaCtx α), sha.Holds m ctx →
      sha.Holds (m ++ pieces.flatten) (pieces.foldl sha.update ctx) := by
    intro pieces
    induction pieces with
    | nil =>
        intro m ctx h
        rw [List.flatten_nil, List.append_nil]
        exact h
    | cons data pieces ih =>
        intro m ctx h
        rw [List.flatten_cons, ← List.append_assoc, List.foldl_cons]
        exact ih _ _ (h.update hsizes)
  exact (hfold pieces [] _ (holds_init hblock)).final hsizes

end Pieces

end Sha2

/-- The two hash functions on whole messages: padded with a bit, zeros and the 64-bit number
of bits, in blocks of 64 and of 128 bytes. -/
def sha256Digest (m : Bytes) : Bytes :=
  (BlockHash.digest 64 sha256.compress 8 sha256H0 m).toList.flatMap sha256.unpack

def sha512Digest (m : Bytes) : Bytes :=
  (BlockHash.digest 128 sha512.compress 16 sha512H0 m).toList.flatMap sha512.unpack

/-- However a message is cut into pieces, empty ones included, the contexts return its
digest. -/
theorem avbShaFinal_updates (ctx : ShaCtx UInt32) (ctx' : ShaCtx UInt64)
    (h : ctx.block.length = 2 * 64) (h' : ctx'.block.length = 2 * 128) (pieces : List Bytes) :
    avbSha256Final (pieces.foldl avbSha256Update (avbSha256Init ctx)) =
        sha256Digest pieces.flatten ∧
      avbSha512Final (pieces.foldl avbSha512Update (avbSha512Init ctx')) =
        sha512Digest pieces.flatten :=
  ⟨Sha2.final_updates (show sha256.Sizes from ⟨le_rfl, by decide⟩) h pieces,
    Sha2.final_updates (show sha512.Sizes from ⟨by decide, by decide⟩) h' pieces⟩

/-- A message in three pieces, the second one empty. -/
theorem avbShaFinal_updates_pieces :
    avbSha256Final ([[0x61], [], [0x62, 0x63]].foldl avbSha256Update
        (avbSha256Init ⟨sha256H0, 0, 0, List.replicate 128 0⟩)) =
      sha256Digest [0x61, 0x62, 0x63] :=
  (avbShaFinal_updates _ ⟨sha512H0, 0, 0, List.replicate 256 0⟩ (List.length_replicate ..)
    (List.length_replicate ..) [[0x61], [], [0x62, 0x63]]).1

/-! ## Unrolled rounds -/

namespace Sha2

/-- The words in the order of the loop, after `r` rounds that left them in place. -/
def rotate {α : Type} (r : Fin 8) (wv : Vector α 8) : Vector α 8 :=
  #v[wv[0 - r], wv[1 - r], wv[2 - r], wv[3 - r], wv[4 - r], wv[5 - r], wv[6 - r], wv[7 - r]]

theorem exists_words {α : Type} (wv : Vector α 8) :
    ∃ a b c d e f g h, wv = #v[a, b, c, d, e, f, g, h] := by
  obtain ⟨⟨l⟩, hl⟩ := wv
  match l, hl with
  | [a, b, c, d, e, f, g, h], _ => exact ⟨a, b, c, d, e, f, g, h, rfl⟩

theorem rotate_zero {α : Type} (wv : Vector α 8) : rotate 0 wv = wv := by
  obtain ⟨a, b, c, d, e, f, g, h, rfl⟩ := exists_words wv
  rfl

section Unrolled

variable {α : Type} [Inhabited α] [Add α] [AndOp α] [XorOp α] [Complement α] (sha : Sha2 α)

/-- The round in place that follows `r` others. -/
def expAt (w : Array α) (r : Fin 8) : Vector α 8 → ℕ → Vector α 8 :=
  sha.exp w (0 - r) (1 - r) (2 - r) (3 - r) (4 - r) (5 - r) (6 - r) (7 - r)

/-- A round in place is a round of the loop. -/
theorem rotate_expAt (w : Array α) (r : Fin 8) (wv : Vector α 8) (j : ℕ) :
    rotate (r + 1) (sha.expAt w r wv j) = sha.round w (rotate r wv) j := by
  obtain ⟨a, b, c, d, e, f, g, h, rfl⟩ := exists_words wv
  fin_cases r <;> rfl

theorem rotate_foldl (w : Array α) (wv : Vector α 8) (j n : ℕ) :
    rotate (Fin.ofNat 8 n)
        ((List.range n).foldl (fun wv i => sha.expAt w (Fin.ofNat 8 i) wv (j + i)) wv) =
      (List.range n).foldl (fun wv i => sha.round w wv (j + i)) wv := by
  induction n with
  | zero => exact rotate_zero wv
  | succ n ih =>
      have hnext : Fin.ofNat 8 (n + 1) = Fin.ofNat 8 n + 1 := by
        apply Fin.ext
        simp [Fin.ofNat, Fin.val_add]
      rw [List.range_succ, List.foldl_append, List.foldl_append, List.foldl_cons, List.foldl_nil,
        List.foldl_cons, List.foldl_nil, hnext, rotate_expAt, ih]

/-- After eight rounds the words are back where they were. -/
theorem unrolled_eq (w : Array α) (wv : Vector α 8) (j : ℕ) :
    sha.unrolled w wv j = (List.range 8).foldl (fun wv i => sha.round w wv (j + i)) wv := by
  have hchain : sha.unrolled w wv j =
      (List.range 8).foldl (fun wv i => sha.expAt w (Fin.ofNat 8 i) wv (j + i)) wv := by
    have hrange : List.range 8 = [0, 1, 2, 3, 4, 5, 6, 7] := rfl
    rw [hrange]
    simp only [List.foldl_cons, List.foldl_nil, Nat.add_zero]
    rfl
  rw [hchain, ← rotate_foldl]
  exact (rotate_zero _).symm

theorem compressUnrolled_eq (hrounds : sha.rounds % 8 = 0) :
    sha.compressUnrolled = sha.compress := by
  have hgroups : ∀ (w : Array α) (h : Vector α 8) (n : ℕ),
      (List.range n).foldl (fun wv i => sha.unrolled w wv (8 * i)) h =
        (List.range (8 * n)).foldl (sha.round w) h := by
    intro w h n
    induction n with
    | zero => rfl
    | succ n ih =>
        rw [List.range_succ, List.foldl_append, List.foldl_cons, List.foldl_nil, ih, unrolled_eq,
          Nat.mul_succ, List.range_add, List.foldl_append, List.foldl_map]
  funext h subBlock
  rw [compressUnrolled, compress, hgroups, Nat.mul_div_cancel' (Nat.dvd_of_mod_eq_zero hrounds)]

end Unrolled

end Sha2

/-- The rounds that `UNROLL_LOOPS` and `UNROLL_LOOPS_SHA512` compile to, which rename the words
where the loop moves them, make the same state from every state and every block. -/
theorem compressUnrolled_eq_compress (h : Vector UInt32 8) (h' : Vector UInt64 8)
    (subBlock : Bytes) :
    sha256.compressUnrolled h subBlock = sha256.compress h subBlock ∧
      sha512.compressUnrolled h' subBlock = sha512.compress h' subBlock := by
  rw [Sha2.compressUnrolled_eq sha256 rfl, Sha2.compressUnrolled_eq sha512 rfl]
  exact ⟨rfl, rfl⟩

end Libavb

end BootImageEditor
