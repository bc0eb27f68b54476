import BootImageEditor.Avb.VbMetaParse

/-!
# What the header designates

`parseVbMeta` follows the offsets and sizes of the header without checking them: it
skips past the end of the file, reads what is there, and takes the signature from
behind the hash. `Designates` says that what it returns are the bytes the header
designates, with exact sums and inside the file; `InPlace` is when that is so.
-/

namespace BootImageEditor

open Codec Fallible Struct3 Helper

namespace Helper

/-- Hexadecimal text determines the bytes. -/
theorem toHexString_inj {xs ys : Bytes} (h : toHexString xs = toHexString ys) : xs = ys := by
  induction xs generalizing ys with
  | nil =>
      have hlen := congrArg List.length h
      rw [length_toHexString, length_toHexString, List.length_nil] at hlen
      exact (List.length_eq_zero_iff.mp (by omega)).symm
  | cons x xs ih =>
      cases ys with
      | nil =>
          have hlen := congrArg List.length h
          rw [length_toHexString, length_toHexString, List.length_nil, List.length_cons] at hlen
          omega
      | cons y ys =>
          have hcons : ∀ (b : UInt8) (bs : Bytes), toHexString (b :: bs) =
              Numeral.digitUnit (b.toNat / 16) :: Numeral.digitUnit (b.toNat % 16) ::
                toHexString bs := fun b bs => List.flatMap_cons
          have hdigit : ∀ m n : ℕ, m < 36 → n < 36 →
              Numeral.digitUnit m = Numeral.digitUnit n → m = n := by
            intro m n hm hn hmn
            have hvalue := congrArg Numeral.digitValue hmn
            rw [Numeral.digitValue_digitUnit hm, Numeral.digitValue_digitUnit hn] at hvalue
            exact Option.some.inj hvalue
          rw [hcons, hcons, List.cons.injEq, List.cons.injEq] at h
          obtain ⟨hhigh, hlow, htail⟩ := h
          have hx := x.toNat_lt
          have hy := y.toNat_lt
          have hdiv := hdigit _ _ (by omega) (by omega) hhigh
          have hmod := hdigit _ _ (by omega) (by omega) hlow
          have hxy : x = y := UInt8.toNat_inj.mp (by omega)
          rw [hxy, ih htail]

end Helper

namespace InputStream

/-- The array after a read: what is left of the stream, filled up with zeros. -/
theorem array_read (s : InputStream) (n : ℕ) : (s.read n).2.1 = extend n (s.rest.take n) := by
  unfold read extend
  by_cases hn : n = 0
  · rw [if_pos hn, hn]
    rfl
  · rw [if_neg hn]
    by_cases hrest : s.rest = []
    · rw [if_pos hrest, hrest]
      simp
    · rw [if_neg hrest]

end InputStream

namespace Avb

/-! ## What is read -/

theorem skip_file_eq_ok {image : Bytes} {o : ℕ} {n k : ℤ} {s : InputStream}
    (h : ((InputStream.fileInputStream image).advance o).skip n = .ok (k, s)) :
    0 ≤ (o : ℤ) + n ∧ s = (InputStream.fileInputStream image).advance ((o : ℤ) + n).toNat := by
  have hstream : ∀ o, (InputStream.fileInputStream image).advance o = ⟨.file, image, o⟩ := by
    intro o
    simp [InputStream.advance, InputStream.fileInputStream]
  rw [hstream, InputStream.skip] at h
  by_cases hneg : (o : ℤ) + n < 0
  · simp only [if_pos hneg] at h
    cases h
  · simp only [if_neg hneg] at h
    cases h
    exact ⟨by omega, (hstream _).symm⟩

/-- Skipping from the start of a file leads to the sum of the skips. -/
theorem openAt_eq_ok {image : Bytes} {skips : List ℤ} {s : InputStream}
    (h : openAt image skips = .ok s) :
    ∃ o : ℕ, (o : ℤ) = skips.foldl (· + ·) 0 ∧
      s = (InputStream.fileInputStream image).advance o := by
  have hfrom : ∀ (skips : List ℤ) (o : ℕ),
      skips.foldlM (fun (s : InputStream) n => s.skip n >>= fun r => Except.ok r.2)
        ((InputStream.fileInputStream image).advance o) = .ok s →
      ∃ o' : ℕ, (o' : ℤ) = skips.foldl (· + ·) (o : ℤ) ∧
        s = (InputStream.fileInputStream image).advance o' := by
    intro skips
    induction skips with
    | nil =>
        intro o h
        cases h
        exact ⟨o, rfl, rfl⟩
    | cons n skips ih =>
        intro o h
        rw [List.foldlM_cons] at h
        obtain ⟨s', hturn, h⟩ := bind_eq_ok.mp h
        obtain ⟨⟨k, s''⟩, hskip, hs⟩ := bind_eq_ok.mp hturn
        cases hs
        obtain ⟨hneg, rfl⟩ := skip_file_eq_ok hskip
        obtain ⟨o', ho', hs⟩ := ih _ h
        refine ⟨o', ?_, hs⟩
        rw [ho', List.foldl_cons, Int.toNat_of_nonneg hneg]
  exact hfrom skips 0 h

/-- An array read from a stream, filled up with zeros; a negative count throws. -/
theorem readArray_eq_ok {s s' : InputStream} {count : Int32} {data : Bytes}
    (h : readArray s count = .ok (data, s')) :
    ∃ n : ℕ, count.toInt = n ∧ data = extend n (s.rest.take n) ∧ s'.rest = s.rest.drop n := by
  unfold readArray at h
  by_cases hneg : count.toInt < 0
  · rw [if_pos hneg] at h
    cases h
  · rw [if_neg hneg] at h
    cases h
    exact ⟨count.toInt.toNat, by omega, InputStream.array_read _ _, InputStream.rest_read _ _⟩

theorem rest_file (image : Bytes) (o : ℕ) :
    ((InputStream.fileInputStream image).advance o).rest = image.drop o := by
  rw [InputStream.rest_advance, InputStream.rest_fileInputStream]

/-- The authentication block: the hash where the signed sums lead to, the signature
behind it. -/
theorem readAuthBlob_eq_ok {image : Bytes} {vbMetaOffset : UInt64} {header : Header}
    {auth : Option AuthBlob} (h : readAuthBlob image vbMetaOffset header = .ok auth) :
    (auth = none ∧ ¬ 0 < header.authenticationDataBlockSize) ∨
      ∃ (a : AuthBlob) (o m n : ℕ), auth = some a ∧ 0 < header.authenticationDataBlockSize ∧
        (o : ℤ) = vbMetaOffset.toInt64.toInt + 256 + header.hashOffset.toInt64.toInt ∧
        header.hashSize.toUInt32.toInt32.toInt = m ∧
        header.signatureSize.toUInt32.toInt32.toInt = n ∧
        a.hash = some (toHexString (extend m (slice o m image))) ∧
        a.signature = some (toHexString (extend n (slice (o + m) n image))) := by
  unfold readAuthBlob at h
  by_cases hauth : 0 < header.authenticationDataBlockSize
  · rw [if_pos hauth] at h
    obtain ⟨fis, hopen, h⟩ := bind_eq_ok.mp h
    obtain ⟨⟨ba, fis'⟩, hhash, h⟩ := bind_eq_ok.mp h
    obtain ⟨⟨bb, fis''⟩, hsig, h⟩ := bind_eq_ok.mp h
    cases h
    obtain ⟨o, ho, rfl⟩ := openAt_eq_ok hopen
    obtain ⟨m, hm, rfl, hrest⟩ := readArray_eq_ok hhash
    obtain ⟨n, hn, rfl, -⟩ := readArray_eq_ok hsig
    rw [rest_file] at hrest
    refine .inr ⟨_, o, m, n, rfl, hauth, ?_, hm, hn, ?_, ?_⟩
    · rw [ho]
      simp
    · rw [rest_file, slice]
    · rw [hrest, List.drop_drop, slice]
  · rw [if_neg hauth] at h
    cases h
    exact .inl ⟨rfl, hauth⟩

/-- Two skips and an array: the public key and its metadata are read so. -/
theorem readArray_openAt_eq_ok {image : Bytes} {a b : ℤ} {fis s : InputStream} {count : Int32}
    {data : Bytes} (hopen : openAt image [a, b] = .ok fis)
    (hread : readArray fis count = .ok (data, s)) :
    ∃ o n : ℕ, (o : ℤ) = a + b ∧ count.toInt = n ∧ data = extend n (slice o n image) := by
  obtain ⟨o, ho, rfl⟩ := openAt_eq_ok hopen
  obtain ⟨n, hn, rfl, -⟩ := readArray_eq_ok hread
  rw [rest_file]
  refine ⟨o, n, ?_, hn, rfl⟩
  rw [ho]
  simp

/-! ## Exact ranges -/

/-- All bytes of a range are in the file. -/
def Inside (image : Bytes) (start size : ℕ) : Prop := size = 0 ∨ start + size ≤ image.length

theorem Inside.length_slice {image : Bytes} {start size : ℕ} (h : Inside image start size) :
    (slice start size image).length = size := by
  rcases h with rfl | h
  · simp [slice]
  · exact Codec.length_slice h

theorem Inside.extend_slice {image : Bytes} {start size : ℕ} (h : Inside image start size) :
    extend size (slice start size image) = slice start size image := by
  rw [extend, h.length_slice, Nat.sub_self]
  simp [zeros]

@[simp] theorem length_extend_slice (image : Bytes) (start size : ℕ) :
    (extend size (slice start size image)).length = size := by
  rw [extend, List.length_append, length_zeros, slice, List.length_take]
  omega

/-- A size that is cut to 32 bits is exact below `2 ^ 32`. -/
theorem cut_eq_iff {x : UInt64} {n : ℕ} (h : x.toUInt32.toInt32.toInt = n) :
    n = x.toNat ↔ x.toNat < 2 ^ 32 := by
  rw [toInt_cut] at h
  split at h <;> omega

/-- An offset inside a file is exact as a signed number. -/
theorem toInt64_of_lt {x : UInt64} (h : x.toNat < 2 ^ 63) : x.toInt64.toInt = x.toNat :=
  toInt_toInt64_of_lt rfl h

/-- An array cut to 32 bits has the designated length only if nothing was cut. -/
theorem extend_slice_eq_iff {image : Bytes} {o n start : ℕ} {size : UInt64}
    (hn : size.toUInt32.toInt32.toInt = n) (hinside : Inside image start size.toNat)
    (ho : 0 < size.toNat → o = start) :
    extend n (slice o n image) = slice start size.toNat image ↔ size.toNat < 2 ^ 32 := by
  rw [← cut_eq_iff hn]
  constructor
  · intro h
    have hlen := congrArg List.length h
    rwa [length_extend_slice, hinside.length_slice] at hlen
  · rintro rfl
    rcases Nat.eq_zero_or_pos size.toNat with hzero | hpos
    · rw [hzero]
      simp [extend, slice, zeros]
    · rw [ho hpos, hinside.extend_slice]

/-! ## The designated bytes -/

/-- The vbmeta offset, from the footer if there is one. -/
def vbMetaOffset (info : AVBInfo) : UInt64 :=
  match info.footer with
  | some footer => footer.vbMetaOffset
  | none => 0

namespace Header

/-- The exact places the header designates, for a vbmeta image at an offset. -/
def hashStart (header : Header) (offset : UInt64) : ℕ :=
  offset.toNat + 256 + header.hashOffset.toNat

def signatureStart (header : Header) (offset : UInt64) : ℕ :=
  offset.toNat + 256 + header.signatureOffset.toNat

def auxStart (header : Header) (offset : UInt64) : ℕ :=
  offset.toNat + 256 + header.authenticationDataBlockSize.toNat

def pubkeyStart (header : Header) (offset : UInt64) : ℕ :=
  header.auxStart offset + header.publicKeyOffset.toNat

def pkmdStart (header : Header) (offset : UInt64) : ℕ :=
  header.auxStart offset + header.publicKeyMetadataOffset.toNat

def descriptorsStart (header : Header) (offset : UInt64) : ℕ :=
  header.auxStart offset + header.descriptorsOffset.toNat

/-- The end of the hash, where the signed sums of the offsets lead to. -/
def hashEnd (header : Header) (offset : UInt64) : ℕ :=
  (offset.toInt64.toInt + 256 + header.hashOffset.toInt64.toInt).toNat + header.hashSize.toNat

end Header

/-- What is returned are the bytes the header designates, and these are in the file. -/
structure Designates (vm : Jvm) (crypto : Crypto) (image : Bytes) (header : Header)
    (info : AVBInfo) : Prop where
  hash : ∀ auth, info.authBlob = some auth →
    Inside image (header.hashStart (vbMetaOffset info)) header.hashSize.toNat ∧
      auth.hash = some (toHexString
        (slice (header.hashStart (vbMetaOffset info)) header.hashSize.toNat image))
  signature : ∀ auth, info.authBlob = some auth →
    Inside image (header.signatureStart (vbMetaOffset info)) header.signatureSize.toNat ∧
      auth.signature = some (toHexString
        (slice (header.signatureStart (vbMetaOffset info)) header.signatureSize.toNat image))
  pubkey : ∀ aux key, info.auxBlob = some aux → aux.pubkey = some key →
    Inside image (header.pubkeyStart (vbMetaOffset info)) header.publicKeySize.toNat ∧
      key.pubkey =
        slice (header.pubkeyStart (vbMetaOffset info)) header.publicKeySize.toNat image
  pkmd : ∀ aux keyMeta, info.auxBlob = some aux → aux.pubkeyMeta = some keyMeta →
    Inside image (header.pkmdStart (vbMetaOffset info)) header.publicKeyMetadataSize.toNat ∧
      keyMeta.pkmd =
        slice (header.pkmdStart (vbMetaOffset info)) header.publicKeyMetadataSize.toNat image
  descriptors : ∀ aux, info.auxBlob = some aux → 0 < header.descriptorsSize →
    Inside image (header.descriptorsStart (vbMetaOffset info)) header.descriptorsSize.toNat ∧
      ∃ ds, UnknownDescriptor.parseDescriptors2 vm crypto
          ((InputStream.fileInputStream image).advance
            (header.descriptorsStart (vbMetaOffset info)))
          header.descriptorsSize.toInt64 = .ok ds ∧
        aux = { AuxBlob.addAll {} ds with pubkey := aux.pubkey, pubkeyMeta := aux.pubkeyMeta }

/-- The ranges of the parts that are there lie in the file, no size is cut to 32 bits,
and the designated signature stands behind the hash. -/
structure InPlace (image : Bytes) (header : Header) (offset : UInt64) : Prop where
  hash : 0 < header.authenticationDataBlockSize → header.hashSize.toNat < 2 ^ 32 ∧
    Inside image (header.hashStart offset) header.hashSize.toNat
  signature : 0 < header.authenticationDataBlockSize → header.signatureSize.toNat < 2 ^ 32 ∧
    Inside image (header.signatureStart offset) header.signatureSize.toNat ∧
    extend header.signatureSize.toNat
        (slice (header.hashEnd offset) header.signatureSize.toNat image) =
      slice (header.signatureStart offset) header.signatureSize.toNat image
  pubkey : 0 < header.publicKeySize → header.publicKeySize.toNat < 2 ^ 32 ∧
    Inside image (header.pubkeyStart offset) header.publicKeySize.toNat
  pkmd : 0 < header.publicKeyMetadataSize → header.publicKeyMetadataSize.toNat < 2 ^ 32 ∧
    Inside image (header.pkmdStart offset) header.publicKeyMetadataSize.toNat
  descriptors : 0 < header.descriptorsSize →
    Inside image (header.descriptorsStart offset) header.descriptorsSize.toNat

/-! ## The parts -/

section

variable {vm : Jvm} {crypto : Crypto} {image : Bytes} {header : Header} {offset : UInt64}

/-- The hash and the signature. -/
theorem authBlob_designates_iff (hfile : image.length < 2 ^ 63) {auth : Option AuthBlob}
    (h : readAuthBlob image offset header = .ok auth) :
    (∀ a, auth = some a →
      (Inside image (header.hashStart offset) header.hashSize.toNat ∧
        a.hash = some (toHexString
          (slice (header.hashStart offset) header.hashSize.toNat image))) ∧
      (Inside image (header.signatureStart offset) header.signatureSize.toNat ∧
        a.signature = some (toHexString
          (slice (header.signatureStart offset) header.signatureSize.toNat image)))) ↔
    (0 < header.authenticationDataBlockSize →
      (header.hashSize.toNat < 2 ^ 32 ∧
        Inside image (header.hashStart offset) header.hashSize.toNat) ∧
      (header.signatureSize.toNat < 2 ^ 32 ∧
        Inside image (header.signatureStart offset) header.signatureSize.toNat ∧
        extend header.signatureSize.toNat
            (slice (header.hashEnd offset) header.signatureSize.toNat image) =
          slice (header.signatureStart offset) header.signatureSize.toNat image)) := by
  rcases readAuthBlob_eq_ok h with ⟨rfl, hnone⟩ |
    ⟨a, o, m, n, rfl, hpos, ho, hm, hn, hhash, hsig⟩
  · constructor
    · intro _ hpos
      exact absurd hpos hnone
    · rintro _ a ⟨⟩
  · have hstart : Inside image (header.hashStart offset) header.hashSize.toNat →
        0 < header.hashSize.toNat → o = header.hashStart offset := by
      intro hinside hsize
      have hle := hinside.resolve_left (by omega)
      unfold Header.hashStart at hle ⊢
      rw [toInt64_of_lt (by omega), toInt64_of_lt (by omega)] at ho
      omega
    have hend : header.hashSize.toNat < 2 ^ 32 → o + m = header.hashEnd offset := by
      intro hlt
      rw [Header.hashEnd, ← ho, Int.toNat_natCast, (cut_eq_iff hm).mpr hlt]
    constructor
    · intro hall _
      obtain ⟨⟨hinside, heq⟩, hinside', heq'⟩ := hall a rfl
      rw [hhash] at heq
      rw [hsig] at heq'
      have hlt := (extend_slice_eq_iff hm hinside (hstart hinside)).mp
        (toHexString_inj (Option.some.inj heq))
      have hbytes := toHexString_inj (Option.some.inj heq')
      have hsize : n = header.signatureSize.toNat := by
        have hlen := congrArg List.length hbytes
        rwa [length_extend_slice, hinside'.length_slice] at hlen
      refine ⟨⟨hlt, hinside⟩, (cut_eq_iff hn).mp hsize, hinside', ?_⟩
      rw [← hend hlt, ← hbytes, hsize]
    · intro hall b hb
      cases hb
      obtain ⟨⟨hlt, hinside⟩, hlt', hinside', hbytes⟩ := hall hpos
      refine ⟨⟨hinside, ?_⟩, hinside', ?_⟩
      · rw [hhash, (extend_slice_eq_iff hm hinside (hstart hinside)).mpr hlt]
      · rw [hsig, hend hlt, (cut_eq_iff hn).mpr hlt', hbytes]

/-- The start of the auxiliary block, where it is in the file. -/
theorem auxStart_eq {place : UInt64} (hle : header.auxStart offset + place.toNat < 2 ^ 63) :
    (offset + 256 + header.authenticationDataBlockSize).toInt64.toInt + place.toInt64.toInt =
      (header.auxStart offset + place.toNat : ℕ) := by
  unfold Header.auxStart at hle ⊢
  have hsum : (offset + 256 + header.authenticationDataBlockSize).toNat =
      offset.toNat + 256 + header.authenticationDataBlockSize.toNat := by
    have h256 : (256 : UInt64).toNat = 256 := rfl
    rw [UInt64.toNat_add, UInt64.toNat_add, h256]
    omega
  rw [toInt64_of_lt (by omega), toInt64_of_lt (by omega), hsum]
  push_cast
  rfl

/-- An array of the auxiliary block, read after two skips. -/
theorem array_designates_iff (hfile : image.length < 2 ^ 63) {place size : UInt64} {data : Bytes}
    {fis s : InputStream} (hpos : 0 < size)
    (hopen : openAt image [(offset + 256 + header.authenticationDataBlockSize).toInt64.toInt,
      place.toInt64.toInt] = .ok fis)
    (hread : readArray fis size.toUInt32.toInt32 = .ok (data, s)) :
    (Inside image (header.auxStart offset + place.toNat) size.toNat ∧
        data = slice (header.auxStart offset + place.toNat) size.toNat image) ↔
      size.toNat < 2 ^ 32 ∧ Inside image (header.auxStart offset + place.toNat) size.toNat := by
  obtain ⟨o, n, ho, hn, rfl⟩ := readArray_openAt_eq_ok hopen hread
  have hsize : 0 < size.toNat := UInt64.lt_iff_toNat_lt.mp hpos
  have hstart : Inside image (header.auxStart offset + place.toNat) size.toNat →
      0 < size.toNat → o = header.auxStart offset + place.toNat := by
    intro hinside _
    have hle := hinside.resolve_left (by omega)
    rw [auxStart_eq (by omega)] at ho
    exact_mod_cast ho
  constructor
  · rintro ⟨hinside, heq⟩
    exact ⟨(extend_slice_eq_iff hn hinside (hstart hinside)).mp heq, hinside⟩
  · rintro ⟨hlt, hinside⟩
    exact ⟨hinside, (extend_slice_eq_iff hn hinside (hstart hinside)).mpr hlt⟩

theorem pubkey_designates_iff (hfile : image.length < 2 ^ 63) {pubkey : Option PubKeyInfo}
    (h : readPubKey image (offset + 256 + header.authenticationDataBlockSize) header =
      .ok pubkey) :
    (∀ key, pubkey = some key →
      Inside image (header.pubkeyStart offset) header.publicKeySize.toNat ∧
        key.pubkey = slice (header.pubkeyStart offset) header.publicKeySize.toNat image) ↔
    (0 < header.publicKeySize → header.publicKeySize.toNat < 2 ^ 32 ∧
      Inside image (header.pubkeyStart offset) header.publicKeySize.toNat) := by
  unfold readPubKey at h
  by_cases hpos : 0 < header.publicKeySize
  · rw [if_pos hpos] at h
    obtain ⟨fis, hopen, h⟩ := bind_eq_ok.mp h
    obtain ⟨⟨data, s⟩, hread, h⟩ := bind_eq_ok.mp h
    cases h
    have hiff := array_designates_iff hfile hpos hopen hread
    constructor
    · intro hall _
      exact hiff.mp (hall _ rfl)
    · intro hall key hkey
      cases hkey
      exact hiff.mpr (hall hpos)
  · rw [if_neg hpos] at h
    cases h
    exact ⟨fun _ hpos' => absurd hpos' hpos, fun _ key hkey => by cases hkey⟩

theorem pkmd_designates_iff (hfile : image.length < 2 ^ 63)
    {pubkeyMeta : Option PubKeyMetadataInfo}
    (h : readPubKeyMeta image (offset + 256 + header.authenticationDataBlockSize) header =
      .ok pubkeyMeta) :
    (∀ keyMeta, pubkeyMeta = some keyMeta →
      Inside image (header.pkmdStart offset) header.publicKeyMetadataSize.toNat ∧
        keyMeta.pkmd =
          slice (header.pkmdStart offset) header.publicKeyMetadataSize.toNat image) ↔
    (0 < header.publicKeyMetadataSize → header.publicKeyMetadataSize.toNat < 2 ^ 32 ∧
      Inside image (header.pkmdStart offset) header.publicKeyMetadataSize.toNat) := by
  unfold readPubKeyMeta at h
  by_cases hpos : 0 < header.publicKeyMetadataSize
  · rw [if_pos hpos] at h
    obtain ⟨fis, hopen, h⟩ := bind_eq_ok.mp h
    obtain ⟨⟨data, s⟩, hread, h⟩ := bind_eq_ok.mp h
    cases h
    have hiff := array_designates_iff hfile hpos hopen hread
    constructor
    · intro hall _
      exact hiff.mp (hall _ rfl)
    · intro hall keyMeta hkey
      cases hkey
      exact hiff.mpr (hall hpos)
  · rw [if_neg hpos] at h
    cases h
    exact ⟨fun _ hpos' => absurd hpos' hpos, fun _ key hkey => by cases hkey⟩

/-- The descriptors are read at the designated place, if that is in the file. -/
theorem descriptors_of_inside (hfile : image.length < 2 ^ 63) {ds : List AnyDescriptor}
    (h : readDescriptors vm crypto image
      (offset + 256 + header.authenticationDataBlockSize) header = .ok ds)
    (hpos : 0 < header.descriptorsSize)
    (hinside : Inside image (header.descriptorsStart offset) header.descriptorsSize.toNat) :
    UnknownDescriptor.parseDescriptors2 vm crypto
      ((InputStream.fileInputStream image).advance (header.descriptorsStart offset))
      header.descriptorsSize.toInt64 = .ok ds := by
  have hsize : 0 < header.descriptorsSize.toNat := UInt64.lt_iff_toNat_lt.mp hpos
  have hle := hinside.resolve_left (by omega)
  unfold readDescriptors at h
  rw [if_pos hpos] at h
  obtain ⟨fis, hopen, h⟩ := bind_eq_ok.mp h
  obtain ⟨o, ho, rfl⟩ := openAt_eq_ok hopen
  have hstart : o = header.descriptorsStart offset := by
    unfold Header.descriptorsStart Header.auxStart at hle ⊢
    have hsum : (offset + 256 + header.authenticationDataBlockSize +
        header.descriptorsOffset).toNat = offset.toNat + 256 +
          header.authenticationDataBlockSize.toNat + header.descriptorsOffset.toNat := by
      have h256 : (256 : UInt64).toNat = 256 := rfl
      rw [UInt64.toNat_add, UInt64.toNat_add, UInt64.toNat_add, h256]
      omega
    rw [List.foldl_cons, List.foldl_nil, toInt64_of_lt (by omega), hsum] at ho
    omega
  rwa [hstart] at h

end

/-! ## The whole -/

/-- What `parseVbMeta` puts together. -/
theorem parseVbMeta_eq_ok {vm : Jvm} {crypto : Crypto} {image : Bytes} {info : AVBInfo}
    (h : parseVbMeta vm crypto image = .ok info) :
    ∃ header ds pubkey pubkeyMeta, info.header = some header ∧
      readAuthBlob image (vbMetaOffset info) header = .ok info.authBlob ∧
      readDescriptors vm crypto image
        (vbMetaOffset info + 256 + header.authenticationDataBlockSize) header = .ok ds ∧
      readPubKey image
        (vbMetaOffset info + 256 + header.authenticationDataBlockSize) header = .ok pubkey ∧
      readPubKeyMeta image
        (vbMetaOffset info + 256 + header.authenticationDataBlockSize) header = .ok pubkeyMeta ∧
      info.auxBlob = some { AuxBlob.addAll {} ds with pubkey, pubkeyMeta } := by
  obtain ⟨footer, -, h⟩ := bind_eq_ok.mp h
  obtain ⟨fis, -, h⟩ := bind_eq_ok.mp h
  obtain ⟨header, -, h⟩ := bind_eq_ok.mp h
  obtain ⟨auth, hauth, h⟩ := bind_eq_ok.mp h
  obtain ⟨ds, hds, h⟩ := bind_eq_ok.mp h
  obtain ⟨pubkey, hpubkey, h⟩ := bind_eq_ok.mp h
  obtain ⟨pubkeyMeta, hmeta, h⟩ := bind_eq_ok.mp h
  cases h
  exact ⟨header, ds, pubkey, pubkeyMeta, rfl, hauth, hds, hpubkey, hmeta, rfl⟩

/-- `parseVbMeta` returns the bytes the header designates exactly where these are in
the file, in their places. -/
theorem parseVbMeta_designates_iff (vm : Jvm) (crypto : Crypto) (image : Bytes) (info : AVBInfo)
    (hfile : image.length < 2 ^ 63) (h : parseVbMeta vm crypto image = .ok info) :
    ∃ header, info.header = some header ∧
      (Designates vm crypto image header info ↔ InPlace image header (vbMetaOffset info)) := by
  obtain ⟨header, ds, pubkey, pubkeyMeta, hheader, hauth, hds, hpubkey, hmeta, haux⟩ :=
    parseVbMeta_eq_ok h
  have hauth_iff := authBlob_designates_iff hfile hauth
  have hpubkey_iff := pubkey_designates_iff hfile hpubkey
  have hmeta_iff := pkmd_designates_iff hfile hmeta
  refine ⟨header, hheader, ?_⟩
  constructor
  · intro hd
    have hplace := hauth_iff.mp (fun a ha => ⟨hd.hash a ha, hd.signature a ha⟩)
    exact {
      hash := fun hpos => (hplace hpos).1
      signature := fun hpos => (hplace hpos).2
      pubkey := hpubkey_iff.mp (fun key hkey => hd.pubkey _ key haux hkey)
      pkmd := hmeta_iff.mp (fun keyMeta hkey => hd.pkmd _ keyMeta haux hkey)
      descriptors := fun hpos => (hd.descriptors _ haux hpos).1 }
  · intro hp
    have hall := hauth_iff.mpr (fun hpos => ⟨hp.hash hpos, hp.signature hpos⟩)
    refine {
      hash := fun a ha => (hall a ha).1
      signature := fun a ha => (hall a ha).2
      pubkey := ?_
      pkmd := ?_
      descriptors := ?_ }
    · intro aux key haux' hkey
      obtain rfl := Option.some.inj (haux.symm.trans haux')
      exact hpubkey_iff.mpr hp.pubkey key hkey
    · intro aux keyMeta haux' hkey
      obtain rfl := Option.some.inj (haux.symm.trans haux')
      exact hmeta_iff.mpr hp.pkmd keyMeta hkey
    · intro aux haux' hpos
      obtain rfl := Option.some.inj (haux.symm.trans haux')
      have hinside := hp.descriptors hpos
      exact ⟨hinside, ds, descriptors_of_inside hfile hds hpos hinside, rfl⟩

/-- A header that designates a hash of two bytes, and an authentication block. -/
theorem parseVbMeta_designates_iff_applies :
    let vm : Jvm := ⟨false, .littleEndian⟩
    let crypto : Crypto := ⟨fun _ _ => [], fun _ => .error .io, fun _ => .error .io,
      fun _ _ => .error .io, zeros⟩
    let header : Header := { authenticationDataBlockSize := 64, hashSize := 2 }
    let image : Bytes := header.layout ++ zeros 64
    let info : AVBInfo :=
      { header := some header
        authBlob := some
          { offset := 256, size := 64, hash := some (units "0000"), signature := some [] }
        auxBlob := some {} }
    ∃ header, info.header = some header ∧
      (Designates vm crypto image header info ↔ InPlace image header (vbMetaOffset info)) := by
  intro vm crypto header image info
  exact parseVbMeta_designates_iff vm crypto image info (by decide +kernel) (by decide +kernel)

/-- The same header at the end of a file: the hash is made up of zeros. -/
theorem parseVbMeta_past_end :
    ¬ ∀ (vm : Jvm) (crypto : Crypto) (image : Bytes) (info : AVBInfo),
      vm.assertionsEnabled = false → image.length < 2 ^ 63 →
        parseVbMeta vm crypto image = .ok info →
          ∃ header, info.header = some header ∧ Designates vm crypto image header info := by
  intro h
  let crypto : Crypto := ⟨fun _ _ => [], fun _ => .error .io, fun _ => .error .io,
    fun _ _ => .error .io, zeros⟩
  let header : Header := { authenticationDataBlockSize := 64, hashSize := 2 }
  let info : AVBInfo :=
    { header := some header
      authBlob := some
        { offset := 256, size := 64, hash := some (units "0000"), signature := some [] }
      auxBlob := some {} }
  obtain ⟨header', hheader, hd⟩ := h ⟨false, .littleEndian⟩ crypto header.layout info rfl
    (by decide +kernel) (by decide +kernel)
  obtain rfl := Option.some.inj hheader
  obtain ⟨hinside, -⟩ := hd.hash _ rfl
  rcases hinside with hzero | hle
  · exact absurd hzero (by decide)
  · exact absurd hle (by decide +kernel)

end Avb

end BootImageEditor
