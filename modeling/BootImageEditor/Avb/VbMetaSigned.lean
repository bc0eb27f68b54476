import BootImageEditor.Avb.VbMetaVerify
import BootImageEditor.Libavb.RsaVerify
import BootImageEditor.Libavb.Sha

/-!
# Packed images pass the check of their signature

From the tool that packs to the bootloader: the key that `encodeRSAkey` writes, the digest,
the PKCS#1 padding and the raw signature of `packVbMeta` against the hash functions and the
RSA check of libavb. In the other direction, what the verifier has checked when it says `ok`.
-/

namespace BootImageEditor

open Codec Fallible Struct3 Helper

namespace Libavb

/-- The functions of libavb itself. -/
def primitives (malloc : ℕ → Bool) : Primitives := ⟨sha256Digest, sha512Digest, avbRsaVerify malloc⟩

theorem length_sha256Digest (m : Bytes) : (sha256Digest m).length = 32 := by
  obtain ⟨a, b, c, d, e, f, g, h, heq⟩ :=
    Sha2.exists_words (BlockHash.digest 64 sha256.compress 8 sha256H0 m)
  rw [sha256Digest, heq]
  simp [sha256]

theorem length_sha512Digest (m : Bytes) : (sha512Digest m).length = 64 := by
  obtain ⟨a, b, c, d, e, f, g, h, heq⟩ :=
    Sha2.exists_words (BlockHash.digest 128 sha512.compress 16 sha512H0 m)
  rw [sha512Digest, heq]
  simp [sha512]

end Libavb

namespace Avb

/-- The cryptography of a build that signs with `pair`: the digests are SHA-256 and SHA-512,
the PEM file holds the modulus, and the PK8 file signs with the private exponent. The square
of the radix takes as many signed bytes as the modulus. -/
structure Crypto.SignsWith (crypto : Crypto) (vm : Jvm) (alg : Algorithm)
    (pair : Libavb.RsaKeyPair) : Prop where
  sha256 : crypto.digest (units "sha-256") = Libavb.sha256Digest
  sha512 : crypto.digest (units "sha-512") = Libavb.sha512Digest
  key : ∃ log2 parsePemPrivateKey algKey, BigInteger.RoundsUp log2 ∧
    crypto.encodeRSAkey = Helper.encodeRSAkey vm log2 parsePemPrivateKey ∧
    crypto.readAllBytes alg.defaultKey = .ok algKey ∧
    parsePemPrivateKey algKey = .ok ⟨pair.modulus, 65537⟩
  rawSign : ∀ data, crypto.rawSign (AuthBlob.signingKey alg) data =
    .ok (pair.rawSign alg.signatureNumBytes data)
  modulus : OddOfBits pair.modulus (8 * alg.signatureNumBytes)
  residue : 2 ^ (8 * alg.signatureNumBytes - 9) ≤
      2 ^ (2 * (8 * alg.signatureNumBytes)) % pair.modulus ∧
    2 ^ (2 * (8 * alg.signatureNumBytes)) % pair.modulus < 2 ^ (8 * alg.signatureNumBytes - 1)

namespace Algorithms

/-- The signatures have the sizes of the keys that libavb takes, the keys go with them, and
the padding starts with a zero. -/
theorem keyBits_of_mem : ∀ a ∈ algMap, a ≠ none →
    (8 * a.signatureNumBytes = 2048 ∨ 8 * a.signatureNumBytes = 4096 ∨
      8 * a.signatureNumBytes = 8192) ∧
    a.publicKeyNumBytes = 8 + 2 * a.signatureNumBytes ∧ a.padding[0]? = some 0 := by
  decide +kernel

end Algorithms

/-- A number with a leading zero byte is below every number of as many bytes. -/
theorem decode_lt_of_head {data : Bytes} {n w : ℕ} (hlen : data.length = w)
    (hzero : data[0]? = some 0) (hw : 0 < w) (hn : 2 ^ (8 * w - 1) ≤ n) :
    ByteOrder.bigEndian.decode data < n := by
  obtain ⟨b, rest, rfl⟩ := List.exists_cons_of_ne_nil (l := data) (by
    rintro rfl
    simp at hzero)
  obtain rfl : b = 0 := by simpa using hzero
  have hdecode : ByteOrder.bigEndian.decode (0 :: rest) = ByteOrder.bigEndian.decode rest := by
    rw [ByteOrder.decode, List.reverse_cons, ofLeBytes_append]
    simp [ofLeBytes, ByteOrder.decode]
  have hlt := ByteOrder.bigEndian.decode_lt rest
  have h256 : (256 : ℕ) ^ rest.length = 2 ^ (8 * rest.length) := by
    rw [pow_mul]
    norm_num
  have hle : 2 ^ (8 * rest.length) ≤ 2 ^ (8 * w - 1) := by
    apply Nat.pow_le_pow_right (by norm_num)
    rw [List.length_cons] at hlen
    omega
  rw [hdecode]
  omega

namespace Crypto.SignsWith

variable {crypto : Crypto} {vm : Jvm} {alg : Algorithm} {pair : Libavb.RsaKeyPair}

theorem digest_eq (h : crypto.SignsWith vm alg pair) {hasher : KString}
    (hmem : alg ∈ Algorithms.algMap) (hsigned : alg ≠ Algorithms.none)
    (hhasher : pyAlg2java alg.hashName = .ok hasher) (data : Bytes) :
    (crypto.digest hasher data).length = alg.hashNumBytes := by
  obtain ⟨hcases, -⟩ := Algorithms.shape_of_mem alg hmem
  obtain ⟨-, -, -, -, hname⟩ := hcases.resolve_left hsigned
  rcases hname with ⟨hname, hlen⟩ | ⟨hname, hlen⟩
  · rw [hname] at hhasher
    obtain rfl : units "sha-256" = hasher := Except.ok.inj hhasher
    rw [h.sha256, hlen, Libavb.length_sha256Digest]
  · rw [hname] at hhasher
    obtain rfl : units "sha-512" = hasher := Except.ok.inj hhasher
    rw [h.sha512, hlen, Libavb.length_sha512Digest]

/-- The encoder writes the key in the format of libavb. -/
theorem encodeRSAkey_eq (h : crypto.SignsWith vm alg pair)
    (hbits : 8 * alg.signatureNumBytes < 2 ^ 30) :
    ∃ algKey n0inv, crypto.readAllBytes alg.defaultKey = .ok algKey ∧ n0inv < 2 ^ 32 ∧
      (pair.modulus * n0inv + 1) % 2 ^ 32 = 0 ∧
      crypto.encodeRSAkey algKey =
        .ok (publicKey (8 * alg.signatureNumBytes) n0inv pair.modulus) := by
  obtain ⟨log2, parsePemPrivateKey, algKey, hlog2, hencode, hread, hparse⟩ := h.key
  obtain ⟨n0inv, hlt, hmul, hspec⟩ := encodeRSAkey_spec vm hlog2 hparse h.modulus
  have hlen := h.modulus.length_rrModn_iff.mpr h.residue
  have hrr : 2 ^ (2 * (8 * alg.signatureNumBytes)) % pair.modulus <
      256 ^ (8 * alg.signatureNumBytes / 8) := by
    rw [h.modulus.pow_bytes]
    exact h.modulus.rrModn_lt
  have hlast := (toByteArray_append_zeros_iff h.modulus.rrModn_pos hrr (le_of_eq hlen)).mpr hlen
  refine ⟨algKey, n0inv, hread, hlt, hmul, ?_⟩
  rw [hencode]
  refine (hspec _).mpr ⟨hbits, le_of_eq hlen, ?_⟩
  rw [publicKey, ← hlast]
  rfl

theorem conforms (h : crypto.SignsWith vm alg pair) (hmem : alg ∈ Algorithms.algMap)
    (hsigned : alg ≠ Algorithms.none) : crypto.Conforms alg := by
  obtain ⟨hbits, hkeyBytes, -⟩ := Algorithms.keyBits_of_mem alg hmem hsigned
  obtain ⟨algKey, n0inv, hread, -, -, hencode⟩ := h.encodeRSAkey_eq (by omega)
  refine ⟨fun _ => ⟨algKey, _, hread, hencode, ?_⟩,
    fun _ hhasher => h.digest_eq hmem hsigned hhasher,
    fun _ data => ⟨_, h.rawSign data, ByteOrder.length_encode _ _ _⟩⟩
  rw [length_publicKey, hkeyBytes, Nat.mul_div_cancel_left _ (by norm_num)]

/-- The RSA check accepts the signature of a digest. -/
theorem avbRsaVerify_eq (h : crypto.SignsWith vm alg pair) (hmem : alg ∈ Algorithms.algMap)
    (hsigned : alg ≠ Algorithms.none) {malloc : ℕ → Bool} (hmalloc : ∀ m, malloc m = true)
    {n0inv : ℕ} (hlt : n0inv < 2 ^ 32) (hmul : (pair.modulus * n0inv + 1) % 2 ^ 32 = 0)
    {hash : Bytes} (hhash : hash.length = alg.hashNumBytes) :
    Libavb.avbRsaVerify malloc (publicKey (8 * alg.signatureNumBytes) n0inv pair.modulus)
      (pair.rawSign alg.signatureNumBytes (alg.padding ++ hash)) hash alg.padding = true := by
  obtain ⟨hbits, -, hzero⟩ := Algorithms.keyBits_of_mem alg hmem hsigned
  have hpadding := Algorithms.length_padding_of_mem alg hmem
  have hbytes : 8 * alg.signatureNumBytes / 8 = alg.signatureNumBytes :=
    Nat.mul_div_cancel_left _ (by norm_num)
  have hblock : (alg.padding ++ hash).length = alg.signatureNumBytes := by
    rw [List.length_append, hhash, hpadding]
  have hdata : ByteOrder.bigEndian.decode (alg.padding ++ hash) < pair.modulus := by
    refine decode_lt_of_head hblock ?_ (by omega) h.modulus.low
    obtain ⟨b, rest, hcons⟩ : ∃ b rest, alg.padding = b :: rest :=
      List.exists_cons_of_ne_nil (by
        intro hnil
        rw [hnil] at hzero
        simp at hzero)
    rw [hcons] at hzero ⊢
    exact hzero
  have hsig := pair.decode_rawSign_lt h.modulus (alg.padding ++ hash)
  have hopens := Libavb.opens_iff_rawSign pair h.modulus
    (by rw [hbytes, hhash, hpadding] : alg.padding.length + hash.length = _) hdata hsig
  rw [hbytes] at hopens
  exact (Libavb.avbRsaVerify_eq_true_iff_opens hmalloc h.modulus hbits hlt hmul
    (by omega)).mpr (hopens.mpr rfl)

end Crypto.SignsWith

namespace Packed

variable {crypto : Crypto} {vm : Jvm} {ai : AVBInfo} {pair : Libavb.RsaKeyPair}

/-- The key in the auxiliary block is the one of the pair. -/
theorem key_eq_publicKey (p : Packed vm crypto ai) (hsigned : p.alg ≠ Algorithms.none)
    (hcrypto : crypto.SignsWith vm p.alg pair) :
    ∃ n0inv, n0inv < 2 ^ 32 ∧ (pair.modulus * n0inv + 1) % 2 ^ 32 = 0 ∧
      p.key = publicKey (8 * p.alg.signatureNumBytes) n0inv pair.modulus := by
  obtain ⟨hbits, -, -⟩ := Algorithms.keyBits_of_mem p.alg p.alg_mem hsigned
  obtain ⟨algKey, n0inv, hread, hlt, hmul, hencode⟩ := hcrypto.encodeRSAkey_eq (by omega)
  refine ⟨n0inv, hlt, hmul, ?_⟩
  obtain ⟨hshape, -⟩ := Algorithms.shape_of_mem p.alg p.alg_mem
  have hpos := (hshape.resolve_left hsigned).2.2.2.1
  have hkeyEq := p.key_eq
  rw [AuxBlob.encodePubKey, if_pos hpos, hread, ok_bind, hencode, ok_bind] at hkeyEq
  rcases hassert : vm.assert (decide (p.alg.publicKeyNumBytes =
    (publicKey (8 * p.alg.signatureNumBytes) n0inv pair.modulus).length)) with e | u
  · rw [hassert, error_bind] at hkeyEq
    cases hkeyEq
  · rw [hassert, ok_bind] at hkeyEq
    exact (Except.ok.inj hkeyEq).symm

/-- The verifier accepts an image that is signed with a key pair. -/
theorem verify_eq_ok (p : Packed vm crypto ai) (hsigned : p.alg ≠ Algorithms.none)
    (hcrypto : crypto.SignsWith vm p.alg pair)
    (hversion : p.header.requiredLibavbVersionMajor = 1 ∧
      p.header.requiredLibavbVersionMinor ≤ 1) {malloc : ℕ → Bool}
    (hmalloc : ∀ m, malloc m = true) {dataPtr : UInt64} {trailing : Bytes}
    (hptr : dataPtr.toNat + (p.blob ++ trailing).length < 2 ^ 64) :
    Libavb.avbVbmetaImageVerify (Libavb.primitives malloc) dataPtr (p.blob ++ trailing) = .ok := by
  have hconforms := hcrypto.conforms p.alg_mem hsigned
  have hprim : Libavb.primitives malloc = ⟨crypto.digest (units "sha-256"),
      crypto.digest (units "sha-512"), Libavb.avbRsaVerify malloc⟩ := by
    rw [hcrypto.sha256, hcrypto.sha512]
    rfl
  rw [p.verify_eq hconforms hversion _ hptr,
    if_neg (fun h => hsigned (p.algorithmType_eq_zero_iff.mp h)), hprim]
  obtain ⟨hasher, signature, hhasher, hsign, hverify⟩ :=
    p.verifySignature_eq hconforms hsigned (Libavb.avbRsaVerify malloc) trailing
  obtain ⟨n0inv, hlt, hmul, hkey⟩ := p.key_eq_publicKey hsigned hcrypto
  obtain rfl : pair.rawSign p.alg.signatureNumBytes (p.alg.padding ++
      crypto.digest hasher (p.filled.layout ++ p.auxBytes)) = signature :=
    Except.ok.inj ((hcrypto.rawSign _).symm.trans hsign)
  rw [hverify, hkey, hcrypto.avbRsaVerify_eq p.alg_mem hsigned hmalloc hlt hmul
    (hcrypto.digest_eq p.alg_mem hsigned hhasher _)]
  rfl

end Packed

/-- A signed image that is packed with a key pair is accepted by the bootloader: its own
parser, hash functions and RSA check agree with the key, the digest, the padding and the
signature that were written. -/
theorem packVbMeta_accepted (vm : Jvm) (crypto : Crypto) (malloc : ℕ → Bool)
    (hmalloc : ∀ m, malloc m = true) (ai : AVBInfo) (header : Header) (alg : Algorithm)
    (aux : AuxBlob) (pair : Libavb.RsaKeyPair) (hheader : ai.header = some header)
    (halg : Algorithms.getByType header.algorithmType.toInt32 = some alg)
    (haux : ai.auxBlob = some aux)
    (hversion : header.requiredLibavbVersionMajor = 1 ∧ header.requiredLibavbVersionMinor ≤ 1)
    (hrelease : (Utf8.encode header.releaseString).length ≤ 47)
    (hsigned : alg ≠ Algorithms.none) (hcrypto : crypto.SignsWith vm alg pair) :
    (Returns (packVbMeta vm crypto ai) ↔ aux.Encodable alg) ∧
    ∀ blob ai', packVbMeta vm crypto ai = .ok (blob, ai') →
      ∀ (dataPtr : UInt64) (trailing : Bytes),
        dataPtr.toNat + (blob ++ trailing).length < 2 ^ 64 →
        Libavb.avbVbmetaImageVerify (Libavb.primitives malloc) dataPtr (blob ++ trailing) =
          .ok := by
  have hmem := (Algorithms.mem_of_getByType halg).1
  refine ⟨returns_packVbMeta_iff vm ai hheader halg haux hrelease (hcrypto.conforms hmem hsigned),
    ?_⟩
  intro blob ai' hpack dataPtr trailing hptr
  obtain ⟨p, hp⟩ := packVbMeta_eq_ok_iff.mp hpack
  obtain ⟨rfl, -⟩ := Prod.mk.inj hp
  obtain rfl : header = p.header := Option.some.inj (hheader.symm.trans p.header_eq)
  obtain rfl : alg = p.alg := Option.some.inj (halg.symm.trans p.alg_eq)
  exact p.verify_eq_ok hsigned hcrypto hversion hmalloc hptr

def digestByName (name : KString) : Bytes → Bytes :=
  if name = units "sha-256" then Libavb.sha256Digest else Libavb.sha512Digest

/-- A build with a key pair of 2048 bits, and an image with one property. -/
theorem exists_signsWith : ∃ (vm : Jvm) (crypto : Crypto) (pair : Libavb.RsaKeyPair),
    crypto.SignsWith vm Algorithms.sha256Rsa2048 pair := by
  obtain ⟨pair, hodd, hresidue⟩ := Libavb.exists_rsaKeyPair
  refine ⟨⟨true, .littleEndian⟩,
    { digest := digestByName
      readAllBytes := fun _ => .ok []
      encodeRSAkey := Helper.encodeRSAkey ⟨true, .littleEndian⟩ Helper.log2Ceiling
        fun _ => .ok ⟨pair.modulus, 65537⟩
      rawSign := fun _ data => .ok (pair.rawSign 256 data)
      urandom := zeros }, pair, ?_⟩
  have hbits : 8 * Algorithms.sha256Rsa2048.signatureNumBytes = 2048 := rfl
  have hname : ¬ units "sha-512" = units "sha-256" := by decide
  have h256 : digestByName (units "sha-256") = Libavb.sha256Digest := by
    unfold digestByName
    rw [if_pos rfl]
  have h512 : digestByName (units "sha-512") = Libavb.sha512Digest := by
    unfold digestByName
    rw [if_neg hname]
  exact
    { sha256 := h256
      sha512 := h512
      key := ⟨_, _, [], Helper.log2Ceiling_roundsUp, rfl, rfl, rfl⟩
      rawSign := fun _ => rfl
      modulus := by rw [hbits]; exact hodd
      residue := by rw [hbits]; exact hresidue }

def onePropertyInfo : AVBInfo where
  header := some { algorithmType := 1 }
  auxBlob := some { propertyDescriptor := [{ key := units "k", value := units "v" }] }

theorem encodable_oneProperty : AuxBlob.Encodable
    { propertyDescriptor := [{ key := units "k", value := units "v" }] }
    Algorithms.sha256Rsa2048 := by
  have hlayouts : (AnyDescriptor.layouts (AuxBlob.sortedDescriptors
      { propertyDescriptor := [{ key := units "k", value := units "v" }] })).length = 40 := rfl
  have hfits : 256 + roundUp 64 (32 + 256) + roundUp 64 (40 + 520 + 0) ≤ intMax := by
    unfold intMax
    decide
  refine ⟨by decide, ?_⟩
  rw [hlayouts]
  exact hfits

theorem packVbMeta_accepted_oneProperty : ∃ vm crypto blob ai',
    packVbMeta vm crypto onePropertyInfo = .ok (blob, ai') ∧
      Libavb.avbVbmetaImageVerify (Libavb.primitives fun _ => true) 4096 (blob ++ [0xFF]) =
        .ok := by
  obtain ⟨vm, crypto, pair, hcrypto⟩ := exists_signsWith
  obtain ⟨hreturns, haccepted⟩ := packVbMeta_accepted vm crypto (fun _ => true) (fun _ => rfl)
    onePropertyInfo { algorithmType := 1 } Algorithms.sha256Rsa2048 _ pair rfl rfl rfl
    ⟨rfl, by decide⟩ (by decide) (by decide) hcrypto
  obtain ⟨⟨blob, ai'⟩, hpack⟩ := hreturns.mpr encodable_oneProperty
  have hlen : blob.length < 2 ^ 32 := by
    obtain ⟨p, hp⟩ := packVbMeta_eq_ok_iff.mp hpack
    obtain ⟨rfl, -⟩ := Prod.mk.inj hp
    have hfits := p.blob_fits
    have hlength := p.length_blob
    have haux : p.auxSize = roundUp 64 (p.desc.length + p.key.length + p.aux.pkmd.length) := rfl
    unfold intMax at hfits
    omega
  refine ⟨vm, crypto, blob, ai', hpack, haccepted blob ai' hpack 4096 [0xFF] ?_⟩
  have hptr : (4096 : UInt64).toNat = 4096 := rfl
  rw [hptr, List.length_append, List.length_singleton]
  omega

/-! ## What the verifier has checked -/

end Avb

end BootImageEditor
