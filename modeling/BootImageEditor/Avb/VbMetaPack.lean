import BootImageEditor.Avb.BlobLayout
import BootImageEditor.Avb.VbMeta

/-!
# What packing a vbmeta image writes

`Packed` names the parts of a blob that `packVbMeta` returns: the header with all its
offsets and sizes filled in, the authentication block over header and auxiliary block,
and the auxiliary block.
-/

namespace BootImageEditor

open Codec Fallible Struct3 Helper

namespace Avb

/-- The parts of the blob that is written for an `AVBInfo`. -/
structure Packed (vm : Jvm) (crypto : Crypto) (ai : AVBInfo) where
  header : Header
  alg : Algorithm
  aux : AuxBlob
  desc : Bytes
  key : Bytes
  auth : Bytes
  header_eq : ai.header = some header
  alg_eq : Algorithms.getByType header.algorithmType.toInt32 = some alg
  aux_eq : ai.auxBlob = some aux
  desc_eq : aux.encodeDescriptors vm = .ok desc
  key_eq : AuxBlob.encodePubKey vm crypto alg = .ok key
  aux_fits : roundUp 64 (desc.length + key.length + aux.pkmd.length) ≤ intMax
  release_fits : (Utf8.encode header.releaseString).length ≤ 47
  auth_eq : AuthBlob.createBlob vm crypto
    (packedHeader header alg
      (UInt64.ofNat (roundUp 64 (desc.length + key.length + aux.pkmd.length)))
      (UInt64.ofNat desc.length) (UInt64.ofNat key.length)
      (UInt64.ofNat aux.pkmd.length)).layout
    (extend (roundUp 64 (desc.length + key.length + aux.pkmd.length))
      (AuxBlob.content desc key aux.pkmd)) alg.name = .ok auth
  blob_fits : 256 + auth.length +
    roundUp 64 (desc.length + key.length + aux.pkmd.length) ≤ intMax

namespace Packed

variable {vm : Jvm} {crypto : Crypto} {ai : AVBInfo}

/-- The size of the auxiliary block. -/
def auxSize (p : Packed vm crypto ai) : ℕ :=
  roundUp 64 (p.desc.length + p.key.length + p.aux.pkmd.length)

/-- The header with its offsets and sizes. -/
def filled (p : Packed vm crypto ai) : Header :=
  packedHeader p.header p.alg (UInt64.ofNat p.auxSize) (UInt64.ofNat p.desc.length)
    (UInt64.ofNat p.key.length) (UInt64.ofNat p.aux.pkmd.length)

def auxBytes (p : Packed vm crypto ai) : Bytes :=
  extend p.auxSize (AuxBlob.content p.desc p.key p.aux.pkmd)

def blob (p : Packed vm crypto ai) : Bytes := [p.filled.layout, p.auth, p.auxBytes].flatten

/-- The `AVBInfo` afterwards. -/
def info (p : Packed vm crypto ai) : AVBInfo :=
  { ai with header := some p.filled, auxBlob := some p.aux.encoded }

theorem length_header (p : Packed vm crypto ai) : p.filled.layout.length = 256 :=
  Header.length_layout p.release_fits

theorem length_auxBytes (p : Packed vm crypto ai) : p.auxBytes.length = p.auxSize :=
  AuxBlob.length_extend_content _ _ _

theorem length_blob (p : Packed vm crypto ai) :
    p.blob.length = 256 + p.auth.length + p.auxSize := by
  simp only [blob, List.length_flatten, List.map_cons, List.map_nil, List.sum_cons, List.sum_nil,
    p.length_header, p.length_auxBytes]
  omega

theorem parts_le (p : Packed vm crypto ai) :
    p.desc.length + p.key.length + p.aux.pkmd.length ≤ p.auxSize ∧ p.auxSize ≤ intMax :=
  ⟨le_roundUp (by omega) _, p.aux_fits⟩

end Packed

theorem uint64Size_eq {bs : Bytes} (h : bs.length ≤ intMax) :
    uint64Size bs = UInt64.ofNat bs.length := by
  rw [uint64Size, toInt64_int32Size h, Int64.toUInt64_ofNat']

/-- `packVbMeta` returns exactly the blobs with named parts. -/
theorem packVbMeta_eq_ok_iff {vm : Jvm} {crypto : Crypto} {ai : AVBInfo}
    {out : Bytes × AVBInfo} :
    packVbMeta vm crypto ai = .ok out ↔
      ∃ p : Packed vm crypto ai, out = (p.blob, p.info) := by
  constructor
  · intro h
    unfold packVbMeta at h
    cases hheader : ai.header with
    | none =>
        rw [hheader] at h
        cases h
    | some header =>
        cases halg : Algorithms.getByType header.algorithmType.toInt32 with
        | none =>
            simp only [hheader, halg] at h
            cases h
        | some alg =>
            cases haux : ai.auxBlob with
            | none =>
                simp only [hheader, halg, haux, ok_bind] at h
                obtain ⟨key, -, h⟩ := bind_eq_ok.mp h
                cases h
            | some aux =>
                simp only [hheader, halg, haux] at h
                obtain ⟨auxBytes, henc, h⟩ := bind_eq_ok.mp h
                obtain ⟨desc, hdesc, h⟩ := bind_eq_ok.mp h
                rw [ok_bind] at h
                obtain ⟨key, hkey, h⟩ := bind_eq_ok.mp h
                rw [ok_bind] at h
                obtain ⟨headerBlob, hhb, h⟩ := bind_eq_ok.mp h
                obtain ⟨auth, hauth, h⟩ := bind_eq_ok.mp h
                obtain ⟨blob, hblob, h⟩ := bind_eq_ok.mp h
                obtain ⟨desc', key', hdesc', hkey', hfit, hbytes⟩ :=
                  AuxBlob.encode_eq_ok_iff.mp henc
                obtain rfl := Except.ok.inj (hdesc.symm.trans hdesc')
                obtain rfl := Except.ok.inj (hkey.symm.trans hkey')
                have hround := le_roundUp (p := 64) (by omega)
                  (desc.length + key.length + aux.pkmd.length)
                have hlen := AuxBlob.length_extend_content desc key aux.pkmd
                rw [← hbytes] at hlen
                rw [uint64Size_eq (by omega), uint64Size_eq (by omega), uint64Size_eq (by omega),
                  uint64Size_eq (by omega), hlen] at hhb h
                obtain ⟨hrelease, hlayout⟩ := Header.encode_eq_ok_iff.mp hhb
                rw [hlayout, hbytes] at hauth
                obtain ⟨hblobLen, hblobEq⟩ := join_eq_ok_iff.mp hblob
                rw [hlayout, hbytes] at hblobLen hblobEq
                simp only [List.length_flatten, List.map_cons, List.map_nil, List.sum_cons,
                  List.sum_nil, Header.length_layout hrelease,
                  AuxBlob.length_extend_content] at hblobLen
                refine ⟨⟨header, alg, aux, desc, key, auth, hheader, halg, haux, hdesc, hkey, hfit,
                  hrelease, hauth, by omega⟩, ?_⟩
                rw [Except.ok.injEq] at h
                refine h.symm.trans ?_
                simp only [hblobEq, Packed.blob, Packed.info, Packed.filled, Packed.auxBytes,
                  Packed.auxSize]
  · rintro ⟨p, rfl⟩
    have hparts := p.parts_le
    have hauxLen := p.length_auxBytes
    have henc : p.aux.encode vm crypto p.alg = .ok p.auxBytes :=
      AuxBlob.encode_eq_ok_iff.mpr ⟨p.desc, p.key, p.desc_eq, p.key_eq, p.aux_fits, rfl⟩
    have hhb : p.filled.encode vm = .ok p.filled.layout :=
      Header.encode_eq_ok_iff.mpr ⟨p.release_fits, rfl⟩
    have hblobLen := p.length_blob
    have hfits := p.blob_fits
    have hblob : join [p.filled.layout, p.auth, p.auxBytes] = .ok p.blob :=
      join_of_le (by rw [← Packed.blob, hblobLen]; exact hfits)
    have hfilled : packedHeader p.header p.alg (uint64Size p.auxBytes) (uint64Size p.desc)
        (uint64Size p.key) (uint64Size p.aux.pkmd) = p.filled := by
      rw [uint64Size_eq (by omega), uint64Size_eq (by omega), uint64Size_eq (by omega),
        uint64Size_eq (by omega), hauxLen]
      rfl
    have hauth : AuthBlob.createBlob vm crypto p.filled.layout p.auxBytes p.alg.name =
        .ok p.auth := p.auth_eq
    unfold packVbMeta
    simp only [p.header_eq, p.alg_eq, p.aux_eq, henc, p.desc_eq, p.key_eq, ok_bind, hfilled, hhb,
      hauth, hblob]
    rfl

/-- The names of hash algorithms fit their fields, and the image fits an array. -/
def AuxBlob.Encodable (aux : AuxBlob) (alg : Algorithm) : Prop :=
  (∀ d ∈ aux.descList, d.AlgorithmFits) ∧
    256 + roundUp 64 (alg.hashNumBytes + alg.signatureNumBytes) +
      roundUp 64 ((AnyDescriptor.layouts aux.sortedDescriptors).length + alg.publicKeyNumBytes +
        aux.pkmd.length) ≤ intMax

namespace Packed

variable {vm : Jvm} {crypto : Crypto} {ai : AVBInfo}

theorem alg_mem (p : Packed vm crypto ai) : p.alg ∈ Algorithms.algMap :=
  (Algorithms.mem_of_getByType p.alg_eq).1

theorem key_length (p : Packed vm crypto ai) (hcrypto : crypto.Conforms p.alg) :
    p.key.length = p.alg.publicKeyNumBytes := by
  obtain ⟨key, hkey, hlen⟩ := AuxBlob.encodePubKey_of_conforms vm hcrypto
  rw [Except.ok.inj (p.key_eq.symm.trans hkey), hlen]

/-- The authentication block: nothing, or hash and signature of header and auxiliary
block. -/
theorem auth_cases (p : Packed vm crypto ai) (hcrypto : crypto.Conforms p.alg) :
    (p.alg = Algorithms.none ∧ p.auth = []) ∨
    (p.alg ≠ Algorithms.none ∧ ∃ hasher signature, pyAlg2java p.alg.hashName = .ok hasher ∧
      crypto.rawSign (AuthBlob.signingKey p.alg) (p.alg.padding ++
        crypto.digest hasher (p.filled.layout ++ p.auxBytes)) = .ok signature ∧
      (crypto.digest hasher (p.filled.layout ++ p.auxBytes)).length = p.alg.hashNumBytes ∧
      signature.length = p.alg.signatureNumBytes ∧
      p.auth = AuthBlob.block (crypto.digest hasher (p.filled.layout ++ p.auxBytes))
        signature) := by
  have hauth : AuthBlob.createBlob vm crypto p.filled.layout p.auxBytes p.alg.name =
      .ok p.auth := p.auth_eq
  obtain ⟨auth, hcreate, hcases⟩ := AuthBlob.createBlob_cases vm p.alg_mem hcrypto
    p.filled.layout p.auxBytes
  rw [Except.ok.inj (hauth.symm.trans hcreate)]
  exact hcases

theorem length_auth (p : Packed vm crypto ai) (hcrypto : crypto.Conforms p.alg) :
    p.auth.length = roundUp 64 (p.alg.hashNumBytes + p.alg.signatureNumBytes) :=
  AuthBlob.length_of_createBlob p.alg_mem hcrypto p.auth_eq

/-- The size of a packed image. -/
theorem length_blob_eq (p : Packed vm crypto ai) (hcrypto : crypto.Conforms p.alg) :
    p.blob.length = 256 + roundUp 64 (p.alg.hashNumBytes + p.alg.signatureNumBytes) +
      roundUp 64 ((AnyDescriptor.layouts p.aux.sortedDescriptors).length +
        p.alg.publicKeyNumBytes + p.aux.pkmd.length) := by
  obtain ⟨-, -, hdesc⟩ := AuxBlob.encodeDescriptors_eq_ok_iff.mp p.desc_eq
  rw [p.length_blob, p.length_auth hcrypto, auxSize, p.key_length hcrypto, hdesc]

end Packed

/-- When an image is packed at all. -/
theorem returns_packVbMeta_iff (vm : Jvm) {crypto : Crypto} (ai : AVBInfo) {header : Header}
    {alg : Algorithm} {aux : AuxBlob} (hheader : ai.header = some header)
    (halg : Algorithms.getByType header.algorithmType.toInt32 = some alg)
    (haux : ai.auxBlob = some aux) (hrelease : (Utf8.encode header.releaseString).length ≤ 47)
    (hcrypto : crypto.Conforms alg) :
    Returns (packVbMeta vm crypto ai) ↔ aux.Encodable alg := by
  constructor
  · rintro ⟨out, hout⟩
    obtain ⟨p, -⟩ := packVbMeta_eq_ok_iff.mp hout
    obtain rfl : header = p.header := Option.some.inj (hheader.symm.trans p.header_eq)
    obtain rfl : alg = p.alg := Option.some.inj (halg.symm.trans p.alg_eq)
    obtain rfl : aux = p.aux := Option.some.inj (haux.symm.trans p.aux_eq)
    obtain ⟨hfits, -, hdesc⟩ := AuxBlob.encodeDescriptors_eq_ok_iff.mp p.desc_eq
    have hblob := p.blob_fits
    rw [hdesc, p.key_length hcrypto, p.length_auth hcrypto] at hblob
    exact ⟨hfits, hblob⟩
  · rintro ⟨hfits, hsize⟩
    obtain ⟨key, hkey, hkeyLen⟩ := AuxBlob.encodePubKey_of_conforms vm hcrypto
    rw [← hkeyLen] at hsize
    have hle := le_roundUp (p := 64) (by omega)
      ((AnyDescriptor.layouts aux.sortedDescriptors).length + key.length + aux.pkmd.length)
    have hdesc : aux.encodeDescriptors vm =
        .ok (AnyDescriptor.layouts aux.sortedDescriptors) :=
      AuxBlob.encodeDescriptors_eq_ok_iff.mpr ⟨hfits, by omega, rfl⟩
    have hmem := (Algorithms.mem_of_getByType halg).1
    obtain ⟨auth, hcreate, -⟩ := AuthBlob.createBlob_cases vm hmem hcrypto _ _
    have hauthLen := AuthBlob.length_of_createBlob hmem hcrypto hcreate
    let p : Packed vm crypto ai := ⟨header, alg, aux, _, key, auth, hheader, halg, haux, hdesc,
      hkey, by omega, hrelease, hcreate, by omega⟩
    exact ⟨(p.blob, p.info), packVbMeta_eq_ok_iff.mpr ⟨p, rfl⟩⟩

end Avb

end BootImageEditor
