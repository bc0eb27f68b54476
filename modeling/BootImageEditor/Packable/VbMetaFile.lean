import BootImageEditor.Library.Durable
import BootImageEditor.Packable.BootImgParser

/-!
# The file of a packed vbmeta

`packVbMetaWithPadding` writes its bytes over the file `.signed` of an earlier run, and opens
it with `CREATE` alone. A file that is there is not shortened: what the earlier run wrote
behind the new image stays.
-/

namespace BootImageEditor

open Codec Fallible Struct3 Helper Avb

namespace BootImgParser

inductive StandardOpenOption where
  | create
  | truncateExisting
  | write
  deriving DecidableEq, Repr

/-- `Files.write(path, bytes, options)`, from the content of the file, if there is one, to its
content afterwards. No options stand for all three. -/
def filesWrite (bytes : Bytes) (options : List StandardOpenOption) (previous : Option Bytes) :
    Result (Option Bytes) :=
  let opened := if options = [] then [.create, .truncateExisting, .write] else options
  match previous with
  | none => if .create ∈ opened then .ok (some bytes) else .error .io
  | some content =>
      if .truncateExisting ∈ opened then .ok (some bytes)
      else .ok (some (bytes ++ content.drop bytes.length))

/-- `packVbMetaWithPadding(image_file, info)` with the file it writes. -/
def writeVbMetaWithPadding (vm : Jvm) (crypto : Crypto) (info : AVBInfo) :
    Durable (Option Bytes) Throwable PUnit := do
  let paddedBlob ← Durable.lift (packVbMetaWithPadding vm crypto info)
  Durable.update (filesWrite paddedBlob [.create])

theorem filesWrite_create (bytes : Bytes) (previous : Option Bytes) :
    filesWrite bytes [.create] previous =
      .ok (some (bytes ++ (previous.getD []).drop bytes.length)) := by
  cases previous with
  | none =>
      rw [Option.getD_none, List.drop_nil, List.append_nil]
      rfl
  | some content => rfl

/-- The bytes of a packed image, and the zeros behind it. -/
theorem packVbMetaWithPadding_eq {vm : Jvm} {crypto : Crypto} {info : AVBInfo}
    (p : Packed vm crypto info) :
    packVbMetaWithPadding vm crypto info = join [p.blob, zeros (gap 4096 p.blob.length)] := by
  have hlen := p.length_blob_le
  have hpack := packVbMeta_eq_ok_iff.mpr ⟨p, rfl⟩
  have hsize : (int32Size p.blob).toInt64 = fileLength p.blob := toInt64_int32Size hlen
  have hgap := @imgPadding_eq p.blob (by unfold intMax at hlen; omega)
  have hsmall := gap_lt (by norm_num : 0 < 4096) p.blob.length
  have hint : (Int64.ofNat (gap 4096 p.blob.length)).toInt = (gap 4096 p.blob.length : ℕ) :=
    Int64.toInt_ofNat_of_lt (by omega)
  have hpad : packX vm (gap 4096 p.blob.length : ℕ) .null =
      .ok (zeros (gap 4096 p.blob.length)) := packX_zero (.inl rfl) (by unfold intMax; omega)
  unfold packVbMetaWithPadding
  simp only [hpack, ok_bind, hsize, hgap, hint, hpad]

theorem packVbMetaWithPadding_eq_ok {vm : Jvm} {crypto : Crypto} {info : AVBInfo} {out : Bytes}
    (h : packVbMetaWithPadding vm crypto info = .ok out) :
    ∃ p : Packed vm crypto info, out = p.blob ++ zeros (gap 4096 p.blob.length) := by
  obtain ⟨raw, hraw, -⟩ := bind_eq_ok.mp h
  obtain ⟨p, -⟩ := packVbMeta_eq_ok_iff.mp hraw
  rw [packVbMetaWithPadding_eq p] at h
  obtain ⟨-, hout⟩ := join_eq_ok_iff.mp h
  exact ⟨p, by simpa using hout⟩

/-- A run that returns writes its bytes to the front of the file. -/
theorem run_writeVbMetaWithPadding {vm : Jvm} {crypto : Crypto} {info : AVBInfo}
    {previous file : Option Bytes} {u : PUnit}
    (h : (writeVbMetaWithPadding vm crypto info).run previous = (.ok u, file)) :
    ∃ p : Packed vm crypto info, file = some (p.blob ++ zeros (gap 4096 p.blob.length) ++
      (previous.getD []).drop (roundUp 4096 p.blob.length)) := by
  obtain ⟨out, s, hlift, hwrite⟩ := Durable.run_bind_eq_ok.mp h
  obtain ⟨hout, rfl⟩ := Durable.run_lift_eq_ok.mp hlift
  obtain ⟨p, rfl⟩ := packVbMetaWithPadding_eq_ok hout
  have hsum := add_gap (by norm_num : 0 < 4096) p.blob.length
  rw [Durable.run_update_eq_ok, filesWrite_create, List.length_append, length_zeros, hsum,
    Except.ok.injEq] at hwrite
  exact ⟨p, hwrite.symm⟩

/-- A run returns when the padded image fits an array. -/
theorem run_writeVbMetaWithPadding_of_le {vm : Jvm} {crypto : Crypto} {info : AVBInfo}
    (p : Packed vm crypto info) (hfits : roundUp 4096 p.blob.length ≤ intMax)
    (previous : Option Bytes) :
    ∃ file, (writeVbMetaWithPadding vm crypto info).run previous = (.ok ⟨⟩, file) := by
  have hsum := add_gap (by norm_num : 0 < 4096) p.blob.length
  have hflat : [p.blob, zeros (gap 4096 p.blob.length)].flatten.length ≤ intMax := by
    simp only [List.flatten_cons, List.flatten_nil, List.append_nil, List.length_append,
      length_zeros, hsum]
    exact hfits
  have hpadded := packVbMetaWithPadding_eq p
  rw [join_of_le hflat] at hpadded
  have hlift := Durable.run_lift_eq_ok (s := previous).mpr ⟨hpadded, rfl⟩
  have hwrite := filesWrite_create [p.blob, zeros (gap 4096 p.blob.length)].flatten previous
  exact ⟨_, Durable.run_bind_eq_ok.mpr ⟨_, previous, hlift, Durable.run_update_eq_ok.mpr hwrite⟩⟩

/-- The size of the vbmeta image of an `AVBInfo`: header, authentication block and auxiliary
block. -/
def vbmetaSize (info : AVBInfo) : ℕ :=
  match info.header, info.auxBlob with
  | some header, some aux =>
      match Algorithms.getByType header.algorithmType.toInt32 with
      | some alg =>
          256 + roundUp 64 (alg.hashNumBytes + alg.signatureNumBytes) +
            roundUp 64 ((AnyDescriptor.layouts aux.sortedDescriptors).length +
              alg.publicKeyNumBytes + aux.pkmd.length)
      | none => 0
  | _, _ => 0

/-- Keys, digests and signatures have the lengths that the algorithm of the header declares. -/
def ConformsTo (crypto : Crypto) (info : AVBInfo) : Prop :=
  ∀ header alg, info.header = some header →
    Algorithms.getByType header.algorithmType.toInt32 = some alg → crypto.Conforms alg

theorem length_blob_eq_vbmetaSize {vm : Jvm} {crypto : Crypto} {info : AVBInfo}
    (p : Packed vm crypto info) (hcrypto : ConformsTo crypto info) :
    p.blob.length = vbmetaSize info := by
  have hlen := p.length_blob_eq (hcrypto p.header p.alg p.header_eq p.alg_eq)
  unfold vbmetaSize
  rw [p.header_eq, p.aux_eq]
  simp only [p.alg_eq]
  exact hlen

/-- After a run that returns, the file holds the image and the zeros behind it exactly where
the file of the earlier run was not longer. -/
theorem writeVbMetaWithPadding_exact_iff (vm : Jvm) (crypto : Crypto) (info : AVBInfo)
    (previous file : Option Bytes) (hcrypto : ConformsTo crypto info)
    (hrun : (writeVbMetaWithPadding vm crypto info).run previous = (.ok ⟨⟩, file)) :
    (∃ blob info', packVbMeta vm crypto info = .ok (blob, info') ∧
        file = some (blob ++ zeros (gap 4096 blob.length))) ↔
      (previous.getD []).length ≤ roundUp 4096 (vbmetaSize info) := by
  obtain ⟨p, rfl⟩ := run_writeVbMetaWithPadding hrun
  have hpack := packVbMeta_eq_ok_iff.mpr ⟨p, rfl⟩
  rw [← length_blob_eq_vbmetaSize p hcrypto, ← List.drop_eq_nil_iff]
  constructor
  · rintro ⟨blob, info', hblob, hfile⟩
    obtain ⟨rfl, -⟩ := Prod.mk.inj (Except.ok.inj (hblob.symm.trans hpack))
    exact List.append_right_eq_self.mp (Option.some.inj hfile)
  · intro hdrop
    exact ⟨p.blob, p.info, hpack, by rw [hdrop, List.append_nil]⟩

/-! ## A vbmeta that gets smaller -/

/-- An unsigned vbmeta with a property and a hash descriptor. -/
def smallVbMeta : AVBInfo :=
  { header := some {}
    auxBlob := some
      { propertyDescriptor := [{ sequence := 1, key := units "k", value := units "v" }]
        hashDescriptors := [{ packedHash with sequence := 2 }] } }

theorem unsignedCrypto_conforms : unsignedCrypto.Conforms Algorithms.none := by
  refine ⟨fun h => absurd h (by decide), fun hasher h => ?_, fun h => absurd h (by decide)⟩
  cases h

theorem conformsTo_smallVbMeta : ConformsTo unsignedCrypto smallVbMeta := by
  intro header alg hheader halg
  obtain rfl := Option.some.inj hheader
  obtain rfl := Option.some.inj halg
  exact unsignedCrypto_conforms

theorem vbmetaSize_smallVbMeta : vbmetaSize smallVbMeta = 448 := by decide +kernel

theorem returns_smallVbMeta (vm : Jvm) : Returns (packVbMeta vm unsignedCrypto smallVbMeta) := by
  refine (returns_packVbMeta_iff vm smallVbMeta rfl rfl rfl (by decide +kernel)
    unsignedCrypto_conforms).mpr ⟨?_, ?_⟩
  · decide +kernel
  · decide +kernel

theorem length_blob_smallVbMeta {vm : Jvm} (p : Packed vm unsignedCrypto smallVbMeta) :
    p.blob.length = 448 :=
  (length_blob_eq_vbmetaSize p conformsTo_smallVbMeta).trans vbmetaSize_smallVbMeta

theorem run_smallVbMeta (vm : Jvm) (previous : Option Bytes) :
    ∃ file, (writeVbMetaWithPadding vm unsignedCrypto smallVbMeta).run previous =
      (.ok ⟨⟩, file) := by
  obtain ⟨out, hout⟩ := returns_smallVbMeta vm
  obtain ⟨p, -⟩ := packVbMeta_eq_ok_iff.mp hout
  refine run_writeVbMetaWithPadding_of_le p ?_ previous
  rw [length_blob_smallVbMeta p]
  decide

/-- Writing over a file of a hundred bytes. -/
theorem writeVbMetaWithPadding_exact_shorter :
    let previous : Option Bytes := some (List.replicate 100 1)
    ∃ file,
      (writeVbMetaWithPadding ⟨false, .littleEndian⟩ unsignedCrypto smallVbMeta).run previous =
        (.ok ⟨⟩, file) ∧
      ((∃ blob info', packVbMeta ⟨false, .littleEndian⟩ unsignedCrypto smallVbMeta =
          .ok (blob, info') ∧ file = some (blob ++ zeros (gap 4096 blob.length))) ↔
        (previous.getD []).length ≤ roundUp 4096 (vbmetaSize smallVbMeta)) := by
  intro previous
  obtain ⟨file, hrun⟩ := run_smallVbMeta ⟨false, .littleEndian⟩ previous
  exact ⟨file, hrun, writeVbMetaWithPadding_exact_iff _ _ _ _ _ conformsTo_smallVbMeta hrun⟩

/-- A file of two pages keeps its second page. -/
theorem writeVbMetaWithPadding_keeps_tail :
    ¬ ∀ (vm : Jvm) (crypto : Crypto) (info : AVBInfo) (previous file : Option Bytes),
      ConformsTo crypto info →
      (writeVbMetaWithPadding vm crypto info).run previous = (.ok ⟨⟩, file) →
        ∃ blob info', packVbMeta vm crypto info = .ok (blob, info') ∧
          file = some (blob ++ zeros (gap 4096 blob.length)) := by
  intro h
  let vm : Jvm := ⟨false, .littleEndian⟩
  let previous : Option Bytes := some (List.replicate 8192 1)
  obtain ⟨file, hrun⟩ := run_smallVbMeta vm previous
  obtain ⟨blob, info', hblob, hexact⟩ := h vm unsignedCrypto smallVbMeta previous file
    conformsTo_smallVbMeta hrun
  obtain ⟨p, hfile⟩ := run_writeVbMetaWithPadding hrun
  obtain ⟨rfl, -⟩ := Prod.mk.inj (Except.ok.inj (hblob.symm.trans
    (packVbMeta_eq_ok_iff.mpr ⟨p, rfl⟩)))
  have hround : roundUp 4096 448 = 4096 := by decide
  have htail := List.append_right_eq_self.mp (Option.some.inj (hfile.symm.trans hexact))
  rw [length_blob_smallVbMeta p, hround, Option.getD_some, List.drop_eq_nil_iff,
    List.length_replicate] at htail
  omega

end BootImgParser

end BootImageEditor
