import BootImageEditor.Avb.Reread
import BootImageEditor.Avb.VbMetaVerify

/-!
# Parsing a packed vbmeta image

`parseVbMeta` reads the header at the start of a file and follows its offsets. On a blob
that `packVbMeta` wrote, with any bytes after it that do not end in a footer, it finds
the header, the descriptors, the key, the key metadata, the hash and the signature.
-/

namespace BootImageEditor

open Codec Fallible Struct3 Helper

namespace Avb

/-! ## Reading a file at an offset -/

theorem toInt_toInt64_of_lt {u : UInt64} {n : ℕ} (hu : u.toNat = n) (h : n < 2 ^ 63) :
    u.toInt64.toInt = n := by
  obtain rfl : UInt64.ofNat n = u := by rw [← hu, UInt64.ofNat_toNat]
  rw [UInt64.toInt64_ofNat', Int64.toInt_ofNat_of_lt h]

theorem toInt_toInt32_of_le {u : UInt64} {n : ℕ} (hu : u.toNat = n) (h : n ≤ intMax) :
    u.toUInt32.toInt32.toInt = n := by
  obtain rfl : UInt64.ofNat n = u := by rw [← hu, UInt64.ofNat_toNat]
  exact WireDescriptor.toInt_size h

theorem skip_file (image : Bytes) (o n : ℕ) :
    ((InputStream.fileInputStream image).advance o).skip n =
      .ok ((n : ℤ), (InputStream.fileInputStream image).advance (o + n)) := by
  have hpos : ¬ ((o : ℤ) + n < 0) := by omega
  simp [InputStream.skip, InputStream.advance, InputStream.fileInputStream, hpos]
  omega

/-- Skipping forward from the start of a file. -/
theorem openAt_one (image : Bytes) (a : ℕ) :
    openAt image [(a : ℤ)] = .ok ((InputStream.fileInputStream image).advance a) := by
  have h := skip_file image 0 a
  rw [InputStream.advance_zero, Nat.zero_add] at h
  simp only [openAt, List.foldlM_cons, List.foldlM_nil, h, ok_bind]
  rfl

theorem openAt_two (image : Bytes) (a b : ℕ) :
    openAt image [(a : ℤ), (b : ℤ)] =
      .ok ((InputStream.fileInputStream image).advance (a + b)) := by
  have h := skip_file image 0 a
  rw [InputStream.advance_zero, Nat.zero_add] at h
  simp only [openAt, List.foldlM_cons, List.foldlM_nil, h, skip_file, ok_bind]
  rfl

theorem openAt_three (image : Bytes) (a b c : ℕ) :
    openAt image [(a : ℤ), (b : ℤ), (c : ℤ)] =
      .ok ((InputStream.fileInputStream image).advance (a + b + c)) := by
  have h := skip_file image 0 a
  rw [InputStream.advance_zero, Nat.zero_add] at h
  simp only [openAt, List.foldlM_cons, List.foldlM_nil, h, skip_file, ok_bind]
  rfl

theorem rest_advance_file (image : Bytes) (o n : ℕ) :
    ((InputStream.fileInputStream image).advance o).rest =
      slice o n image ++ image.drop (o + n) := by
  rw [InputStream.rest_advance, InputStream.rest_fileInputStream, slice, ← List.drop_drop,
    List.take_append_drop]

/-- Reading an array that lies in the file. -/
theorem readArray_file (image : Bytes) {o n : ℕ} {count : Int32} (hcount : count.toInt = n)
    (h : o + n ≤ image.length) :
    readArray ((InputStream.fileInputStream image).advance o) count =
      .ok (slice o n image, (InputStream.fileInputStream image).advance (o + n)) := by
  have hlen : (slice o n image).length = n := length_slice h
  have hread := InputStream.read_available (rest_advance_file image o n)
  rw [hlen, if_neg (fun hx => by cases hx.2.1)] at hread
  rw [readArray, hcount, if_neg (by omega), Int.toNat_natCast, hread]
  simp only [InputStream.advance_advance]

/-- The last 64 bytes of a file. -/
def lastBytes (image : Bytes) : Bytes := image.drop (image.length - 64)

theorem lastBytes_append (a : Bytes) {b : Bytes} (h : 64 ≤ b.length) :
    lastBytes (a ++ b) = lastBytes b := by
  have hlen : (a ++ b).length - 64 = a.length + (b.length - 64) := by
    rw [List.length_append]
    omega
  rw [lastBytes, hlen, List.drop_length_add_append, lastBytes]

/-- Zeros at the end of a file are no footer. -/
theorem lastBytes_zeros (a : Bytes) {n : ℕ} (h : 64 ≤ n) :
    (lastBytes (a ++ zeros n)).take 4 ≠ Footer.magicBytes := by
  rw [lastBytes_append a (by rwa [length_zeros]), lastBytes, length_zeros, zeros,
    List.drop_replicate, List.take_replicate]
  have hfour : min 4 (n - (n - 64)) = 4 := by omega
  rw [hfour]
  decide

/-- The footer of a file of at least 64 bytes. -/
theorem readFooter_eq (vm : Jvm) {image : Bytes} (h : 64 ≤ image.length) :
    readFooter vm image = .ok (if (lastBytes image).take 4 = Footer.magicBytes
      then some (Footer.decoded (lastBytes image)) else none) := by
  have hopen : openAt image [(image.length : ℤ) - 64] =
      .ok ((InputStream.fileInputStream image).advance (image.length - 64)) := by
    have hcast : (image.length : ℤ) - 64 = ((image.length - 64 : ℕ) : ℤ) := by omega
    rw [hcast, openAt_one]
  have hrest : ((InputStream.fileInputStream image).advance (image.length - 64)).rest =
      lastBytes image ++ [] := by
    rw [InputStream.rest_advance, InputStream.rest_fileInputStream, List.append_nil, lastBytes]
  have hlen : (lastBytes image).length = 64 := by
    rw [lastBytes, List.length_drop]
    omega
  rw [readFooter, hopen, ok_bind, Footer.ofStream_eq vm hrest hlen]
  by_cases hmagic : (lastBytes image).take 4 = Footer.magicBytes
  · rw [if_pos hmagic, if_pos hmagic]
  · rw [if_neg hmagic, if_neg hmagic]
    rfl

/-! ## The parts of a packed image -/

namespace Packed

variable {vm : Jvm} {crypto : Crypto} {ai : AVBInfo}

/-- Where the auxiliary block of an image starts. -/
def auxOffset (p : Packed vm crypto ai) : ℕ :=
  256 + roundUp 64 (p.alg.hashNumBytes + p.alg.signatureNumBytes)

theorem auxOffset_lt (p : Packed vm crypto ai) : p.auxOffset < 2 ^ 32 := by
  obtain ⟨-, hsmall, -⟩ := Algorithms.shape_of_mem p.alg p.alg_mem
  have hlt := roundUp_lt (p := 64) (by omega) (p.alg.hashNumBytes + p.alg.signatureNumBytes)
  unfold auxOffset
  omega

theorem toNat_auxBlockOffset (p : Packed vm crypto ai) :
    (0 + 256 + p.filled.authenticationDataBlockSize).toNat = p.auxOffset := by
  have hlt := p.auxOffset_lt
  have h256 : ((0 : UInt64) + 256).toNat = 256 := rfl
  rw [UInt64.toNat_add, h256, p.toNat_auth, ← auxOffset, Nat.mod_eq_of_lt (by omega)]

theorem length_image (p : Packed vm crypto ai) (hcrypto : crypto.Conforms p.alg)
    (trailing : Bytes) : p.auxOffset + p.auxSize ≤ (p.blob ++ trailing).length := by
  rw [List.length_append, p.length_blob, p.length_auth hcrypto, auxOffset]
  omega

theorem header_ofStream (p : Packed vm crypto ai) (hascii : Utf8.Ascii p.header.releaseString)
    (trailing : Bytes) :
    Header.ofStream vm (.fileInputStream (p.blob ++ trailing)) = .ok p.filled := by
  have hlen : p.filled.releaseString.length ≤ 47 := by
    have hfits := p.release_fits
    rwa [Utf8.length_encode_ascii hascii] at hfits
  exact Header.ofStream_layout vm hascii hlen (p.blob_eq trailing)

/-- A segment of the auxiliary block. -/
theorem slice_aux (p : Packed vm crypto ai) (hcrypto : crypto.Conforms p.alg) (trailing : Bytes)
    {o n : ℕ} (h : o + n ≤ p.auxSize) :
    slice (p.auxOffset + o) n (p.blob ++ trailing) = slice o n p.auxBytes :=
  (p.slices_blob hcrypto trailing).2.2 o n h

theorem slices_auxBytes (p : Packed vm crypto ai) :
    slice 0 p.desc.length p.auxBytes = p.desc ∧
    slice p.desc.length p.key.length p.auxBytes = p.key ∧
    slice (p.desc.length + p.key.length) p.aux.pkmd.length p.auxBytes = p.aux.pkmd := by
  have hbytes : p.auxBytes = p.desc ++ (p.key ++ (p.aux.pkmd ++
      zeros (p.auxSize - (AuxBlob.content p.desc p.key p.aux.pkmd).length))) := by
    simp [auxBytes, extend, AuxBlob.content]
  refine ⟨?_, ?_, ?_⟩
  · rw [hbytes]
    exact slice_zero _ _ rfl
  · rw [hbytes]
    exact slice_middle _ _ _ rfl rfl
  · rw [hbytes, ← List.append_assoc]
    exact slice_middle _ _ _ (List.length_append) rfl

/-- What `parseVbMeta` finds in the authentication block. -/
theorem readAuthBlob_blob (p : Packed vm crypto ai) (hcrypto : crypto.Conforms p.alg)
    (trailing : Bytes) :
    ∃ auth, readAuthBlob (p.blob ++ trailing) 0 p.filled = .ok auth ∧
      (p.alg = Algorithms.none → auth = none) ∧
      (p.alg ≠ Algorithms.none → ∃ hasher signature,
        pyAlg2java p.alg.hashName = .ok hasher ∧
        crypto.rawSign (AuthBlob.signingKey p.alg) (p.alg.padding ++
          crypto.digest hasher (signedData p.blob)) = .ok signature ∧
        auth = some
          { offset := 256
            size := p.filled.authenticationDataBlockSize
            hash := some (toHexString (crypto.digest hasher (signedData p.blob)))
            signature := some (toHexString signature) }) := by
  have hsize := p.toNat_auth
  rw [p.signedData_blob hcrypto]
  unfold readAuthBlob
  rcases p.auth_cases hcrypto with ⟨halg, -⟩ | ⟨halg, hasher, signature, hhasher, hsign, hlen,
    hsigLen, hauth⟩
  · have hzero : ¬ 0 < p.filled.authenticationDataBlockSize := by
      rw [halg] at hsize
      rw [UInt64.lt_iff_toNat_lt, hsize]
      decide
    rw [if_neg hzero]
    exact ⟨none, rfl, fun _ => rfl, fun h => absurd halg h⟩
  · obtain ⟨hshape, hsmall, -⟩ := Algorithms.shape_of_mem p.alg p.alg_mem
    obtain ⟨-, hhashPos, -⟩ := hshape.resolve_left halg
    have hle := le_roundUp (p := 64) (by omega) (p.alg.hashNumBytes + p.alg.signatureNumBytes)
    have hpos : 0 < p.filled.authenticationDataBlockSize := by
      rw [UInt64.lt_iff_toNat_lt, hsize, UInt64.toNat_zero]
      omega
    have himage := p.length_image hcrypto trailing
    have hauthLen := p.length_auth hcrypto
    obtain ⟨-, hauthSlice, -⟩ := p.slices_blob hcrypto trailing
    obtain ⟨hhashSlice, hsigSlice⟩ := AuthBlob.slices_block
      (crypto.digest hasher (p.filled.layout ++ p.auxBytes)) signature
    rw [hlen, ← hauth] at hhashSlice hsigSlice
    rw [hsigLen] at hsigSlice
    have hhash := hauthSlice 0 p.alg.hashNumBytes (by omega)
    have hsig := hauthSlice p.alg.hashNumBytes p.alg.signatureNumBytes (by omega)
    rw [hhashSlice] at hhash
    rw [hsigSlice] at hsig
    have hopen : openAt (p.blob ++ trailing) [(0 : UInt64).toInt64.toInt, 256,
        p.filled.hashOffset.toInt64.toInt] =
          .ok ((InputStream.fileInputStream (p.blob ++ trailing)).advance 256) :=
      openAt_three (p.blob ++ trailing) 0 256 0
    obtain ⟨-, -, hhashSize, -, hsigSize, -⟩ := p.toNat_filled
    unfold auxOffset at himage
    have hhashCount := toInt_toInt32_of_le hhashSize (by unfold intMax; omega)
    have hsigCount := toInt_toInt32_of_le hsigSize (by unfold intMax; omega)
    have hreadHash := readArray_file (p.blob ++ trailing) (o := 256) hhashCount (by omega)
    have hreadSig := readArray_file (p.blob ++ trailing) (o := 256 + p.alg.hashNumBytes)
      hsigCount (by omega)
    rw [Nat.add_zero] at hhash
    refine ⟨_, ?_, fun h => absurd h halg, fun _ => ⟨hasher, signature, hhasher, hsign, rfl⟩⟩
    rw [if_pos hpos, hopen, ok_bind, hreadHash, ok_bind]
    simp only [hreadSig, ok_bind, hhash, hsig]
    rfl

/-- What `parseVbMeta` finds in the descriptor section. -/
theorem readDescriptors_blob (p : Packed vm crypto ai) (hcrypto : crypto.Conforms p.alg)
    (hplain : ∀ d ∈ p.aux.descList, d.Plain)
    (hprint : ∀ d ∈ p.aux.descList, d.Printable)
    (hbare : vm.assertionsEnabled = true → ∀ d ∈ p.aux.descList, ¬ d.EndsBare)
    (trailing : Bytes) :
    readDescriptors vm crypto (p.blob ++ trailing)
        (0 + 256 + p.filled.authenticationDataBlockSize) p.filled =
      .ok (AnyDescriptor.rereadFrom crypto 0 p.aux.sortedDescriptors) := by
  obtain ⟨hfits, hlen, hdesc⟩ := AuxBlob.encodeDescriptors_eq_ok_iff.mp p.desc_eq
  have hmem : ∀ d ∈ p.aux.sortedDescriptors, d ∈ p.aux.descList := fun d hd => mem_sortBy.mp hd
  obtain ⟨ws, hbytes, htags, hprints, hbares, hdecs⟩ := AnyDescriptor.exists_section crypto
    (fun d hd => hplain d (hmem d hd)) (fun d hd => hfits d (hmem d hd))
  rw [← hbytes] at hdesc hlen
  have hread : ∀ w ∈ ws, w.Readable vm := by
    intro w hw
    refine ⟨?_, htags w hw, hprints (fun d hd => hprint d (hmem d hd)) w hw⟩
    rintro ⟨hvm, hwbare⟩
    obtain ⟨d, hd, hdbare⟩ := hbares.mp ⟨w, hw, hwbare⟩
    exact hbare hvm d (hmem d hd) hdbare
  obtain ⟨-, -, -, -, -, -, hdescSize, -⟩ := p.toNat_filled
  unfold readDescriptors
  by_cases hws : ws = []
  · have hzero : ¬ 0 < p.filled.descriptorsSize := by
      rw [UInt64.lt_iff_toNat_lt, hdescSize, hdesc, hws]
      decide
    rw [if_neg hzero, ← hdecs, hws]
    rfl
  · have hpos : 0 < p.filled.descriptorsSize := by
      rw [UInt64.lt_iff_toNat_lt, hdescSize, hdesc, UInt64.toNat_zero]
      exact List.length_pos_iff.mpr (fun h => hws (WireDescriptor.sectionBytes_eq_nil_iff.mp h))
    have hlt := p.auxOffset_lt
    have hparts := p.parts_le
    have hstart : (0 + 256 + p.filled.authenticationDataBlockSize +
        p.filled.descriptorsOffset).toInt64.toInt = p.auxOffset := by
      have hzero : p.filled.descriptorsOffset = 0 := rfl
      rw [hzero, UInt64.add_zero]
      exact toInt_toInt64_of_lt p.toNat_auxBlockOffset (by omega)
    have hsize : p.filled.descriptorsSize.toInt64 =
        Int64.ofNat (WireDescriptor.sectionBytes ws).length := by
      rw [← hdesc]
      exact UInt64.toInt64_ofNat'
    have hslice := p.slice_aux hcrypto trailing (o := 0) (n := p.desc.length) (by omega)
    rw [p.slices_auxBytes.1, Nat.add_zero, hdesc] at hslice
    have hrest := rest_advance_file (p.blob ++ trailing) p.auxOffset
      (WireDescriptor.sectionBytes ws).length
    rw [hslice] at hrest
    rw [if_pos hpos, hstart, openAt_one, ok_bind, hsize, ← hdecs]
    exact WireDescriptor.parseDescriptors2_file hws hread rfl hrest hlen

/-- What `parseVbMeta` finds where the public key is. -/
theorem readPubKey_blob (p : Packed vm crypto ai) (hcrypto : crypto.Conforms p.alg)
    (trailing : Bytes) :
    ∃ pubkey, readPubKey (p.blob ++ trailing)
        (0 + 256 + p.filled.authenticationDataBlockSize) p.filled = .ok pubkey ∧
      pubkey.map PubKeyInfo.pubkey = if p.key = [] then none else some p.key := by
  obtain ⟨-, -, -, -, -, -, -, hkeyOffset, hkeySize, -⟩ := p.toNat_filled
  unfold readPubKey
  by_cases hkey : p.key = []
  · have hzero : ¬ 0 < p.filled.publicKeySize := by
      rw [UInt64.lt_iff_toNat_lt, hkeySize, hkey]
      decide
    rw [if_neg hzero, if_pos hkey]
    exact ⟨none, rfl, rfl⟩
  · have hpos : 0 < p.filled.publicKeySize := by
      rw [UInt64.lt_iff_toNat_lt, hkeySize]
      exact List.length_pos_iff.mpr hkey
    have hlt := p.auxOffset_lt
    have hparts := p.parts_le
    have hmax : intMax = 2 ^ 31 - 1 := rfl
    have himage := p.length_image hcrypto trailing
    have hstart := toInt_toInt64_of_lt p.toNat_auxBlockOffset (by omega)
    have hoffset := toInt_toInt64_of_lt hkeyOffset (by omega)
    have hcount := toInt_toInt32_of_le hkeySize (by omega)
    have hslice := p.slice_aux hcrypto trailing (o := p.desc.length) (n := p.key.length) (by omega)
    rw [p.slices_auxBytes.2.1] at hslice
    rw [if_pos hpos, hstart, hoffset, openAt_two, ok_bind, readArray_file _ hcount (by omega),
      ok_bind, hslice, if_neg hkey]
    exact ⟨_, rfl, rfl⟩

/-- What `parseVbMeta` finds where the key metadata are. -/
theorem readPubKeyMeta_blob (p : Packed vm crypto ai) (hcrypto : crypto.Conforms p.alg)
    (trailing : Bytes) :
    ∃ pubkeyMeta, readPubKeyMeta (p.blob ++ trailing)
        (0 + 256 + p.filled.authenticationDataBlockSize) p.filled = .ok pubkeyMeta ∧
      pubkeyMeta.map PubKeyMetadataInfo.pkmd =
        if p.aux.pkmd = [] then none else some p.aux.pkmd := by
  obtain ⟨-, -, -, -, -, -, -, -, -, hmetaOffset, hmetaSize⟩ := p.toNat_filled
  unfold readPubKeyMeta
  by_cases hpkmd : p.aux.pkmd = []
  · have hzero : ¬ 0 < p.filled.publicKeyMetadataSize := by
      rw [UInt64.lt_iff_toNat_lt, hmetaSize, hpkmd]
      decide
    rw [if_neg hzero, if_pos hpkmd]
    exact ⟨none, rfl, rfl⟩
  · have hpos : 0 < p.filled.publicKeyMetadataSize := by
      rw [UInt64.lt_iff_toNat_lt, hmetaSize]
      exact List.length_pos_iff.mpr hpkmd
    have hlt := p.auxOffset_lt
    have hparts := p.parts_le
    have hmax : intMax = 2 ^ 31 - 1 := rfl
    have himage := p.length_image hcrypto trailing
    have hstart := toInt_toInt64_of_lt p.toNat_auxBlockOffset (by omega)
    have hoffset := toInt_toInt64_of_lt hmetaOffset (by omega)
    have hcount := toInt_toInt32_of_le hmetaSize (by omega)
    have hslice := p.slice_aux hcrypto trailing (o := p.desc.length + p.key.length)
      (n := p.aux.pkmd.length) (by omega)
    rw [p.slices_auxBytes.2.2] at hslice
    rw [if_pos hpos, hstart, hoffset, openAt_two, ok_bind, readArray_file _ hcount (by omega),
      ok_bind, hslice, if_neg hpkmd]
    exact ⟨_, rfl, rfl⟩

/-- Distributing the descriptors over the six lists keeps their order. -/
theorem sortedDescriptors_rereadFrom (p : Packed vm crypto ai)
    (hplain : ∀ d ∈ p.aux.descList, d.Plain) :
    (AuxBlob.addAll {} (AnyDescriptor.rereadFrom crypto 0
        p.aux.sortedDescriptors)).sortedDescriptors =
      AnyDescriptor.rereadFrom crypto 0 p.aux.sortedDescriptors := by
  obtain ⟨hfits, hlen, -⟩ := AuxBlob.encodeDescriptors_eq_ok_iff.mp p.desc_eq
  have hmem : ∀ d ∈ p.aux.sortedDescriptors, d ∈ p.aux.descList := fun d hd => mem_sortBy.mp hd
  obtain ⟨ws, hbytes, -, -, -, hdecs⟩ := AnyDescriptor.exists_section crypto
    (fun d hd => hplain d (hmem d hd)) (fun d hd => hfits d (hmem d hd))
  have hcount := WireDescriptor.length_sectionBytes_ge ws
  rw [hbytes] at hcount
  rw [← hdecs]
  refine AuxBlob.sortedDescriptors_addAll (WireDescriptor.pairwise_decodedFrom ?_)
  rw [Int32.toInt_zero]
  omega

/-- Parsing a packed image that does not end in a footer. -/
theorem parseVbMeta_blob (p : Packed vm crypto ai) (hcrypto : crypto.Conforms p.alg)
    (hrelease : Utf8.Ascii p.header.releaseString) (hplain : ∀ d ∈ p.aux.descList, d.Plain)
    (hprint : ∀ d ∈ p.aux.descList, d.Printable)
    (hbare : vm.assertionsEnabled = true → ∀ d ∈ p.aux.descList, ¬ d.EndsBare)
    {trailing : Bytes} (hfooter : (lastBytes (p.blob ++ trailing)).take 4 ≠ Footer.magicBytes) :
    ∃ auth pubkey pubkeyMeta,
      readAuthBlob (p.blob ++ trailing) 0 p.filled = .ok auth ∧
      readPubKey (p.blob ++ trailing) (0 + 256 + p.filled.authenticationDataBlockSize) p.filled =
        .ok pubkey ∧
      readPubKeyMeta (p.blob ++ trailing) (0 + 256 + p.filled.authenticationDataBlockSize)
        p.filled = .ok pubkeyMeta ∧
      parseVbMeta vm crypto (p.blob ++ trailing) = .ok
        { header := some p.filled
          authBlob := auth
          auxBlob := some { AuxBlob.addAll {} (AnyDescriptor.rereadFrom crypto 0
            p.aux.sortedDescriptors) with pubkey, pubkeyMeta }
          footer := none } := by
  obtain ⟨auth, hauth, -⟩ := p.readAuthBlob_blob hcrypto trailing
  obtain ⟨pubkey, hpubkey, -⟩ := p.readPubKey_blob hcrypto trailing
  obtain ⟨pubkeyMeta, hmeta, -⟩ := p.readPubKeyMeta_blob hcrypto trailing
  have himage := p.length_image hcrypto trailing
  unfold auxOffset at himage
  have hopen : openAt (p.blob ++ trailing) [(0 : UInt64).toInt64.toInt] =
      .ok (.fileInputStream (p.blob ++ trailing)) := openAt_one (p.blob ++ trailing) 0
  refine ⟨auth, pubkey, pubkeyMeta, hauth, hpubkey, hmeta, ?_⟩
  unfold parseVbMeta
  rw [readFooter_eq vm (by omega), if_neg hfooter, ok_bind]
  simp only [hopen, p.header_ofStream hrelease trailing, hauth, hpubkey, hmeta,
    p.readDescriptors_blob hcrypto hplain hprint hbare trailing, ok_bind]

end Packed

/-- Parsing inverts packing. Of a packed image, with any bytes after it that do not end in a
footer, `parseVbMeta` returns the header that was written; the descriptors in the order of
their sequence numbers, numbered from one on, with the fields that encoding computes from
others up to date; the public key and the key metadata, unless they are empty; and hash and
signature, unless the image is not signed. The text that is logged for a descriptor has to
fit a `String`, and with assertions enabled no descriptor may end in an empty array without
padding. -/
theorem parseVbMeta_packVbMeta (vm : Jvm) (crypto : Crypto) (ai : AVBInfo) (header : Header)
    (alg : Algorithm) (aux : AuxBlob) (hheader : ai.header = some header)
    (halg : Algorithms.getByType header.algorithmType.toInt32 = some alg)
    (haux : ai.auxBlob = some aux) (hrelease : Utf8.Ascii header.releaseString)
    (hcrypto : crypto.Conforms alg) (hplain : ∀ d ∈ aux.descList, d.Plain)
    (hprint : ∀ d ∈ aux.descList, d.Printable)
    (hbare : vm.assertionsEnabled = true → ∀ d ∈ aux.descList, ¬ d.EndsBare)
    (blob : Bytes) (ai' : AVBInfo) (hpack : packVbMeta vm crypto ai = .ok (blob, ai'))
    (trailing : Bytes) (hfooter : (lastBytes (blob ++ trailing)).take 4 ≠ Footer.magicBytes) :
    ∃ parsed aux' key, parseVbMeta vm crypto (blob ++ trailing) = .ok parsed ∧
      parsed.header = ai'.header ∧ parsed.footer = none ∧ parsed.auxBlob = some aux' ∧
      aux'.sortedDescriptors = AnyDescriptor.rereadFrom crypto 0 aux.sortedDescriptors ∧
      AuxBlob.encodePubKey vm crypto alg = .ok key ∧
      aux'.pubkey.map PubKeyInfo.pubkey = (if key = [] then none else some key) ∧
      aux'.pubkeyMeta.map PubKeyMetadataInfo.pkmd =
        (if aux.pkmd = [] then none else some aux.pkmd) ∧
      (alg = Algorithms.none → parsed.authBlob = none) ∧
      (alg ≠ Algorithms.none → ∃ authBlob hasher signature,
        parsed.authBlob = some authBlob ∧ pyAlg2java alg.hashName = .ok hasher ∧
        crypto.rawSign (AuthBlob.signingKey alg)
          (alg.padding ++ crypto.digest hasher (signedData blob)) = .ok signature ∧
        authBlob.hash = some (toHexString (crypto.digest hasher (signedData blob))) ∧
        authBlob.signature = some (toHexString signature)) := by
  obtain ⟨p, hp⟩ := packVbMeta_eq_ok_iff.mp hpack
  obtain ⟨rfl, rfl⟩ := Prod.mk.inj hp
  obtain rfl : header = p.header := Option.some.inj (hheader.symm.trans p.header_eq)
  obtain rfl : alg = p.alg := Option.some.inj (halg.symm.trans p.alg_eq)
  obtain rfl : aux = p.aux := Option.some.inj (haux.symm.trans p.aux_eq)
  obtain ⟨auth, pubkey, pubkeyMeta, hauth, hpubkey, hmeta, hparse⟩ :=
    p.parseVbMeta_blob hcrypto hrelease hplain hprint hbare hfooter
  obtain ⟨auth', hauth', hnone, hsigned⟩ := p.readAuthBlob_blob hcrypto trailing
  obtain ⟨pubkey', hpubkey', hkey⟩ := p.readPubKey_blob hcrypto trailing
  obtain ⟨pubkeyMeta', hmeta', hpkmd⟩ := p.readPubKeyMeta_blob hcrypto trailing
  obtain rfl := Except.ok.inj (hauth.symm.trans hauth')
  obtain rfl := Except.ok.inj (hpubkey.symm.trans hpubkey')
  obtain rfl := Except.ok.inj (hmeta.symm.trans hmeta')
  refine ⟨_, _, p.key, hparse, rfl, rfl, rfl, ?_, p.key_eq, hkey, hpkmd, hnone, ?_⟩
  · exact p.sortedDescriptors_rereadFrom hplain
  · intro hne
    obtain ⟨hasher, signature, hhasher, hsign, hsome⟩ := hsigned hne
    exact ⟨_, hasher, signature, hsome, hhasher, hsign, rfl, rfl⟩

/-- A signed image with a property and a hash descriptor, filled up to a whole block. -/
theorem parseVbMeta_packVbMeta_applies :
    let vm : Jvm := ⟨true, .littleEndian⟩
    let crypto : Crypto := ⟨fun _ _ => zeros 32, fun _ => .ok [], fun _ => .ok (zeros 520),
      fun _ _ => .ok (zeros 256), zeros⟩
    let aux : AuxBlob :=
      { propertyDescriptor := [{ key := units "k", value := units "v", sequence := 2 }]
        hashDescriptors := [{ partitionName := units "b", hashAlgorithm := units "sha256",
                              salt := [1], digest := [2], sequence := 1 }]
        pubkeyMeta := some { pkmd := [3] } }
    let ai : AVBInfo := { header := some { algorithmType := 1 }, auxBlob := some aux }
    ∃ blob ai' parsed aux', packVbMeta vm crypto ai = .ok (blob, ai') ∧
      parseVbMeta vm crypto (blob ++ zeros (gap 4096 blob.length)) = .ok parsed ∧
      parsed.auxBlob = some aux' ∧
      aux'.sortedDescriptors = AnyDescriptor.rereadFrom crypto 0 aux.sortedDescriptors := by
  intro vm crypto aux ai
  have hcrypto : crypto.Conforms Algorithms.sha256Rsa2048 :=
    ⟨fun _ => ⟨[], zeros 520, rfl, rfl, length_zeros 520⟩, fun _ _ _ => length_zeros 32,
      fun _ _ => ⟨zeros 256, rfl, length_zeros 256⟩⟩
  have hlayouts : (AnyDescriptor.layouts aux.sortedDescriptors).length = 176 := by
    decide +kernel
  have hencodable : aux.Encodable Algorithms.sha256Rsa2048 := by
    refine ⟨by decide +kernel, ?_⟩
    rw [hlayouts]
    decide +kernel
  obtain ⟨⟨blob, ai'⟩, hpack⟩ := (returns_packVbMeta_iff vm ai rfl rfl rfl
    (by decide +kernel) hcrypto).mpr hencodable
  obtain ⟨p, hp⟩ := packVbMeta_eq_ok_iff.mp hpack
  obtain ⟨hblob, -⟩ := Prod.mk.inj hp
  have halg : p.alg = Algorithms.sha256Rsa2048 := by
    have hheader : some p.header = some { algorithmType := 1 } := p.header_eq.symm
    have hget := p.alg_eq
    rw [Option.some.inj hheader] at hget
    exact (Option.some.inj hget).symm
  have haux : p.aux = aux := (Option.some.inj p.aux_eq).symm
  have hlen : blob.length = 1280 := by
    rw [hblob, p.length_blob_eq (halg ▸ hcrypto), halg, haux, hlayouts]
    decide +kernel
  have hgap : gap 4096 blob.length = 2816 := by
    rw [hlen]
    decide
  have hfooter : (lastBytes (blob ++ zeros (gap 4096 blob.length))).take 4 ≠ Footer.magicBytes :=
    lastBytes_zeros blob (by rw [hgap]; decide)
  obtain ⟨parsed, aux', key, hparse, -, -, haux', hdescs, -⟩ := parseVbMeta_packVbMeta vm crypto ai
    { algorithmType := 1 } Algorithms.sha256Rsa2048 aux rfl rfl rfl (by decide +kernel) hcrypto
    (by decide +kernel) (by decide +kernel) (fun _ => by decide +kernel) blob ai' hpack _ hfooter
  exact ⟨blob, ai', parsed, aux', hpack, hparse, haux', hdescs⟩

/-- The length fields of a hash descriptor that was never encoded are not what is read
back. -/
theorem parseVbMeta_packVbMeta_lengths :
    let vm : Jvm := ⟨false, .littleEndian⟩
    let crypto : Crypto := ⟨fun _ _ => [], fun _ => .error .io, fun _ => .error .io,
      fun _ _ => .error .io, zeros⟩
    let d : HashDescriptor :=
      { partitionName := units "b", hashAlgorithm := units "sha256", salt := [1], digest := [2],
        sequence := 1 }
    let ai : AVBInfo := { header := some {}, auxBlob := some { hashDescriptors := [d] } }
    ∃ blob ai' parsed aux' d', packVbMeta vm crypto ai = .ok (blob, ai') ∧
      parseVbMeta vm crypto (blob ++ zeros (gap 4096 blob.length)) = .ok parsed ∧
      parsed.auxBlob = some aux' ∧ aux'.sortedDescriptors = [.hash d'] ∧
      d'.partitionNameLen ≠ d.partitionNameLen := by
  intro vm crypto d ai
  have hcrypto : crypto.Conforms Algorithms.none := by
    refine ⟨fun h => absurd h (by decide), fun hasher h => ?_, fun h => absurd h (by decide)⟩
    cases h
  have hlayouts : (AnyDescriptor.layouts (AuxBlob.sortedDescriptors
      { hashDescriptors := [d] })).length = 136 := by decide +kernel
  have hencodable : AuxBlob.Encodable { hashDescriptors := [d] } Algorithms.none := by
    refine ⟨by decide +kernel, ?_⟩
    rw [hlayouts]
    decide +kernel
  obtain ⟨⟨blob, ai'⟩, hpack⟩ := (returns_packVbMeta_iff vm ai rfl rfl rfl
    (by decide +kernel) hcrypto).mpr hencodable
  obtain ⟨p, hp⟩ := packVbMeta_eq_ok_iff.mp hpack
  obtain ⟨hblob, -⟩ := Prod.mk.inj hp
  have hheader : p.header = {} := (Option.some.inj p.header_eq).symm
  have halg : p.alg = Algorithms.none := by
    have hget := p.alg_eq
    rw [hheader] at hget
    exact (Option.some.inj hget).symm
  have haux : p.aux = { hashDescriptors := [d] } := (Option.some.inj p.aux_eq).symm
  have hcrypto' : crypto.Conforms p.alg := halg ▸ hcrypto
  have hplain : ∀ d ∈ p.aux.descList, d.Plain := by
    rw [haux]
    decide +kernel
  have hlen : blob.length = 448 := by
    rw [hblob, p.length_blob_eq hcrypto', halg, haux, hlayouts]
    decide +kernel
  have hfooter : (lastBytes (p.blob ++ zeros (gap 4096 blob.length))).take 4 ≠
      Footer.magicBytes :=
    lastBytes_zeros p.blob (by rw [hlen]; decide)
  obtain ⟨auth, pubkey, pubkeyMeta, -, -, -, hparse⟩ := p.parseVbMeta_blob hcrypto'
    (by rw [hheader]; decide +kernel) hplain (by rw [haux]; decide +kernel)
    (fun h => absurd h (by decide)) hfooter
  have hsorted := p.sortedDescriptors_rereadFrom hplain
  rw [← hblob] at hparse
  refine ⟨blob, ai', _, _, d.reread 1, hpack, hparse, rfl, hsorted.trans ?_, by decide +kernel⟩
  rw [haux]
  rfl

end Avb

end BootImageEditor
