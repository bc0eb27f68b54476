import BootImageEditor.Avb.HashFooterImage

/-!
# Refreshing vbmeta.img

After `boot.img` is packed and signed, its new hash descriptor goes into the main
vbmeta: `pack` removes the first hash descriptor of the partition, appends the new one
under the sequence number of the old one, and packs the vbmeta again, where the
descriptors are put in the order of their sequence numbers.
-/

namespace BootImageEditor

open Codec Fallible Struct3 Helper Avb

namespace BootImgParser

/-- The loop over the hash descriptors: it removes the first one of the partition and
stops. What is left, and the sequence number. -/
def removeFirstNamed (partitionName : KString) :
    List HashDescriptor → List HashDescriptor × Int32
  | [] => ([], 0)
  | itrValue :: itr =>
      if itrValue.partitionName = partitionName then (itr, itrValue.sequence)
      else
        let (rest, seq) := removeFirstNamed partitionName itr
        (itrValue :: rest, seq)

/-- `auxBlob!!.hashDescriptors.get(0)`. -/
def firstHashDescriptor (info : AVBInfo) : Result HashDescriptor :=
  match info.auxBlob with
  | none => .error .nullPointer
  | some aux =>
      match aux.hashDescriptors with
      | [] => .error .indexOutOfBounds
      | hd :: _ => .ok hd

/-- The descriptors with the one of the partition replaced. -/
def refreshed (partitionName : KString) (hd : HashDescriptor) (aux : AuxBlob) : AuxBlob :=
  let (rest, seq) := removeFirstNamed partitionName aux.hashDescriptors
  { aux with hashDescriptors := rest ++ [{ hd with sequence := seq }] }

/-- What is done to the `AVBInfo` of `vbmeta.img`. -/
def replaceHashDescriptor (partitionName : KString) (newHashDesc mainVBMeta : AVBInfo) :
    Result AVBInfo :=
  match mainVBMeta.auxBlob with
  | none => .error .nullPointer
  | some aux => do
      let hd ← firstHashDescriptor newHashDesc
      .ok { mainVBMeta with auxBlob := some (refreshed partitionName hd aux) }

/-- `packVbMetaWithPadding(image_file, info)`: the bytes that are written. -/
def packVbMetaWithPadding (vm : Jvm) (crypto : Crypto) (info : AVBInfo) : Result Bytes := do
  let (rawBlob, _) ← packVbMeta vm crypto info
  let paddingSize := roundToMultipleLong (int32Size rawBlob).toInt64 4096 -
    (int32Size rawBlob).toInt64
  let padding ← packX vm paddingSize.toInt .null
  join [rawBlob, padding]

/-- The part of `pack(fileName)` that writes `vbmeta.img.signed`: from the `AVBInfo` of
the image and of `vbmeta.img`, and the signed image. -/
def refreshVbMeta (vm : Jvm) (crypto : Crypto) (info mainVBMeta : AVBInfo) (signed : Bytes) :
    Result Bytes := do
  let old ← firstHashDescriptor info
  let newHashDesc ← parseVbMeta vm crypto signed
  match newHashDesc.auxBlob with
  | none => .error .nullPointer
  | some newAux => do
      vm.assert (newAux.hashDescriptors.length = 1)
      let mainVBMeta ← replaceHashDescriptor old.partitionName newHashDesc mainVBMeta
      packVbMetaWithPadding vm crypto mainVBMeta

/-! ## Removing -/

/-- What the loop removes: nothing, or the first descriptor of the partition. -/
theorem removeFirstNamed_cases (partitionName : KString) (hds : List HashDescriptor) :
    (removeFirstNamed partitionName hds = (hds, 0) ∧ hds.filter (named partitionName) = []) ∨
      ∃ before old after, hds = before ++ old :: after ∧ named partitionName old = true ∧
        before.filter (named partitionName) = [] ∧
        removeFirstNamed partitionName hds = (before ++ after, old.sequence) := by
  induction hds with
  | nil => exact .inl ⟨rfl, rfl⟩
  | cons hd hds ih =>
      by_cases hname : hd.partitionName = partitionName
      · refine .inr ⟨[], hd, hds, rfl, by simp [named, hname], rfl, ?_⟩
        simp [removeFirstNamed, hname]
      · have hnot : named partitionName hd = false := by simp [named, hname]
        rcases ih with ⟨heq, hnone⟩ | ⟨before, old, after, rfl, hold, hbefore, heq⟩
        · refine .inl ⟨?_, ?_⟩
          · simp [removeFirstNamed, hname, heq]
          · rw [List.filter_cons, hnot]
            exact hnone
        · refine .inr ⟨hd :: before, old, after, rfl, hold, ?_, ?_⟩
          · rw [List.filter_cons, hnot]
            exact hbefore
          · simp [removeFirstNamed, hname, heq]

/-- Both loops leave the same descriptors exactly where there is at most one to
remove. -/
theorem removeFirstNamed_fst_eq_iff (partitionName : KString) (hds : List HashDescriptor)
    (hd : HashDescriptor) :
    (removeFirstNamed partitionName hds).1 = (removeNamed partitionName hds hd).1 ↔
      (hds.filter (named partitionName)).length ≤ 1 := by
  rw [removeNamed_fst]
  rcases removeFirstNamed_cases partitionName hds with
    ⟨heq, hnone⟩ | ⟨before, old, after, rfl, hold, hbefore, heq⟩
  · have hall : hds.filter (fun d => !named partitionName d) = hds := by
      rw [List.filter_eq_self]
      intro d hd
      simpa using List.filter_eq_nil_iff.mp hnone d hd
    rw [heq, hall, hnone]
    simp
  · have hkeep : before.filter (fun d => !named partitionName d) = before := by
      rw [List.filter_eq_self]
      intro d hd
      simpa using List.filter_eq_nil_iff.mp hbefore d hd
    rw [heq, List.filter_append, List.filter_append, List.filter_cons, List.filter_cons, hold,
      hkeep, hbefore]
    simp only [Bool.not_true, Bool.false_eq_true, if_false, if_true, List.nil_append,
      List.append_cancel_left_eq, List.length_cons]
    have hzero : (after.filter (named partitionName)).length + 1 ≤ 1 ↔
        (after.filter (named partitionName)).length = 0 := by omega
    rw [eq_comm, List.filter_eq_self, hzero, List.length_eq_zero_iff, List.filter_eq_nil_iff]
    simp

/-! ## The descriptor sequence -/

/-- What refreshing promises about the sequence of descriptors that is encoded: one
hash descriptor of the partition, with the new values; the other descriptors with
their bytes, in their order; and a single old descriptor makes room for the new one at
its position. -/
structure Replaces (vm : Jvm) (partitionName : KString) (hd : HashDescriptor)
    (before after : List AnyDescriptor) : Prop where
  one : ∃ d, after.filter (isNamed partitionName) = [.hash d] ∧ d.digest = hd.digest ∧
    d.salt = hd.salt ∧ d.imageSize = hd.imageSize
  others : (after.filter fun d => !isNamed partitionName d).map (AnyDescriptor.encode vm) =
    (before.filter fun d => !isNamed partitionName d).map (AnyDescriptor.encode vm)
  position : ∀ front old back, before = front ++ old :: back → isNamed partitionName old = true →
    (front ++ back).filter (isNamed partitionName) = [] →
      ∃ d, isNamed partitionName d = true ∧ after = front ++ d :: back

section

variable {partitionName : KString} {hd : HashDescriptor} {aux : AuxBlob}

theorem perm_descList (aux : AuxBlob) (hds : List HashDescriptor) :
    ({ aux with hashDescriptors := hds } : AuxBlob).descList.Perm
      (hds.map .hash ++ ({ aux with hashDescriptors := [] } : AuxBlob).descList) := by
  rw [List.perm_iff_count]
  intro a
  simp only [AuxBlob.descList, List.count_append, List.map_nil, List.count_nil]
  omega

/-- The hash descriptors of the partition lose their first one and get the new one. -/
theorem filter_named_refreshed (hname : hd.partitionName = partitionName) :
    ∃ new, (refreshed partitionName hd aux).hashDescriptors.filter (named partitionName) =
        (aux.hashDescriptors.filter (named partitionName)).tail ++ [new] ∧
      new.digest = hd.digest ∧ new.salt = hd.salt ∧ new.imageSize = hd.imageSize := by
  have hnew : ∀ seq, named partitionName { hd with sequence := seq } = true := by
    intro seq
    simpa [named] using hname
  unfold refreshed
  rcases removeFirstNamed_cases partitionName aux.hashDescriptors with
    ⟨heq, hnone⟩ | ⟨before, old, after, hsplit, hold, hbefore, heq⟩
  · refine ⟨{ hd with sequence := 0 }, ?_, rfl, rfl, rfl⟩
    rw [heq]
    simp only [List.filter_append, hnone, List.filter_cons, hnew, if_true, List.filter_nil,
      List.tail_nil]
  · refine ⟨{ hd with sequence := old.sequence }, ?_, rfl, rfl, rfl⟩
    rw [heq, hsplit]
    simp only [List.filter_append, hbefore, List.filter_cons, hold, hnew, if_true,
      List.filter_nil, List.nil_append, List.tail_cons]

theorem filter_not_named_refreshed (hname : hd.partitionName = partitionName) :
    (refreshed partitionName hd aux).hashDescriptors.filter (fun d => !named partitionName d) =
      aux.hashDescriptors.filter fun d => !named partitionName d := by
  have hnew : ∀ seq, named partitionName { hd with sequence := seq } = true := by
    intro seq
    simpa [named] using hname
  unfold refreshed
  rcases removeFirstNamed_cases partitionName aux.hashDescriptors with
    ⟨heq, hnone⟩ | ⟨before, old, after, hsplit, hold, hbefore, heq⟩
  · rw [heq]
    simp [hnew]
  · rw [heq, hsplit]
    simp [hnew, hold]

/-- The new descriptor takes the place of a single old one. -/
theorem sortedDescriptors_refreshed (hname : hd.partitionName = partitionName)
    (hdistinct : (aux.descList.map AnyDescriptor.sequence).Nodup)
    {front back : List AnyDescriptor} {old : AnyDescriptor}
    (hbefore : aux.sortedDescriptors = front ++ old :: back)
    (hold : isNamed partitionName old = true)
    (hsingle : (front ++ back).filter (isNamed partitionName) = []) :
    ∃ d, isNamed partitionName d = true ∧
      (refreshed partitionName hd aux).sortedDescriptors = front ++ d :: back := by
  have hkeys : (aux.descList.map fun d => d.sequence.toInt).Nodup := by
    have hmap : (aux.descList.map fun d => d.sequence.toInt) =
        (aux.descList.map AnyDescriptor.sequence).map Int32.toInt := by
      rw [List.map_map]
      rfl
    rw [hmap]
    exact hdistinct.map (fun a b => Int32.toInt_inj.mp)
  have hone : List.Perm ((aux.hashDescriptors.filter (named partitionName)).map .hash) [old] := by
    have hfilter := filter_isNamed_descList partitionName aux
    have hperm := (perm_sortBy (fun d => d.sequence.toInt) aux.descList).filter
      (isNamed partitionName)
    have hsorted : aux.sortedDescriptors.filter (isNamed partitionName) = [old] := by
      rw [hbefore, List.filter_append, List.filter_cons, hold, if_pos rfl]
      rw [List.filter_append, List.append_eq_nil_iff] at hsingle
      rw [hsingle.1, hsingle.2]
      rfl
    rw [hfilter] at hperm
    exact hperm.symm.trans (List.Perm.of_eq hsorted)
  rcases removeFirstNamed_cases partitionName aux.hashDescriptors with
    ⟨heq, hnone⟩ | ⟨before, first, after, hsplit, hfirst, hfront, heq⟩
  · rw [hnone] at hone
    cases hone.length_eq
  · -- The removed descriptor is the single old one.
    have hfirst_eq : AnyDescriptor.hash first = old := by
      have hmem : AnyDescriptor.hash first ∈ [old] := by
        rw [← hone.mem_iff]
        apply List.mem_map_of_mem
        rw [List.mem_filter]
        exact ⟨by simp [hsplit], hfirst⟩
      exact List.mem_singleton.mp hmem
    have hlist : aux.descList.Perm (old :: ((before ++ after).map AnyDescriptor.hash ++
        ({ aux with hashDescriptors := [] } : AuxBlob).descList)) := by
      refine (perm_descList aux aux.hashDescriptors).trans ?_
      rw [hsplit, ← hfirst_eq, ← List.cons_append]
      apply List.Perm.append_right
      rw [← List.map_cons]
      exact List.perm_middle.map _
    refine ⟨.hash { hd with sequence := first.sequence }, by simpa [isNamed, named] using hname,
      ?_⟩
    refine sortBy_exchange hlist ?_ (by rw [← hfirst_eq]; rfl) hkeys hbefore
    have hrefreshed : refreshed partitionName hd aux = { aux with
        hashDescriptors := before ++ after ++ [{ hd with sequence := first.sequence }] } := by
      rw [refreshed, heq]
    rw [hrefreshed]
    refine (perm_descList aux _).trans ?_
    rw [← List.cons_append]
    apply List.Perm.append_right
    rw [← List.map_cons]
    exact (List.perm_append_singleton _ _).map _

theorem replaces_refreshed_iff (vm : Jvm) (hname : hd.partitionName = partitionName)
    (hdistinct : (aux.descList.map AnyDescriptor.sequence).Nodup) :
    Replaces vm partitionName hd aux.sortedDescriptors
        (refreshed partitionName hd aux).sortedDescriptors ↔
      (aux.hashDescriptors.filter (named partitionName)).length ≤ 1 := by
  obtain ⟨new, hfilter, hdigest, hsalt, hsize⟩ : ∃ new,
      (refreshed partitionName hd aux).hashDescriptors.filter (named partitionName) =
          (aux.hashDescriptors.filter (named partitionName)).tail ++ [new] ∧
        new.digest = hd.digest ∧ new.salt = hd.salt ∧ new.imageSize = hd.imageSize :=
    filter_named_refreshed hname
  have hsorted : (refreshed partitionName hd aux).sortedDescriptors.filter
        (isNamed partitionName) =
      sortBy (fun d => d.sequence.toInt)
        (((aux.hashDescriptors.filter (named partitionName)).tail ++ [new]).map .hash) := by
    rw [AuxBlob.sortedDescriptors, filter_sortBy, filter_isNamed_descList, hfilter]
  constructor
  · intro h
    obtain ⟨d, hone, -⟩ := h.one
    have hlen := (perm_sortBy (fun d : AnyDescriptor => d.sequence.toInt)
      (((aux.hashDescriptors.filter (named partitionName)).tail ++ [new]).map .hash)).length_eq
    rw [← hsorted, hone] at hlen
    simp at hlen
    omega
  · intro hcount
    have htail : (aux.hashDescriptors.filter (named partitionName)).tail = [] := by
      rw [← List.length_eq_zero_iff, List.length_tail]
      omega
    refine ⟨⟨new, ?_, hdigest, hsalt, hsize⟩, ?_, ?_⟩
    · rw [hsorted, htail]
      rfl
    · have hrefreshed : refreshed partitionName hd aux =
        { aux with hashDescriptors := (refreshed partitionName hd aux).hashDescriptors } := rfl
      simp only [AuxBlob.sortedDescriptors, filter_sortBy]
      rw [hrefreshed, filter_not_isNamed_descList (filter_not_named_refreshed hname)]
    · intro front old back hbefore hold hsingle
      exact sortedDescriptors_refreshed hname hdistinct hbefore hold hsingle

end

/-! ## The vbmeta that is written -/

/-- The refreshed vbmeta image: its descriptor section is the encodings of the refreshed
descriptors, one after the other. -/
theorem refreshVbMeta_eq_ok {vm : Jvm} {crypto : Crypto} {info mainVBMeta newHashDesc : AVBInfo}
    {old hd : HashDescriptor} {aux : AuxBlob} {signed written : Bytes}
    (hold : firstHashDescriptor info = .ok old) (haux : mainVBMeta.auxBlob = some aux)
    (hparse : parseVbMeta vm crypto signed = .ok newHashDesc)
    (hd_eq : firstHashDescriptor newHashDesc = .ok hd)
    (h : refreshVbMeta vm crypto info mainVBMeta signed = .ok written) :
    ∃ (p : Packed vm crypto
          { mainVBMeta with auxBlob := some (refreshed old.partitionName hd aux) })
        (encodings : List Bytes) (padding : Bytes),
      written = p.blob ++ padding ∧ p.desc = encodings.flatten ∧
        List.Forall₂ (fun d e => AnyDescriptor.encode vm d = .ok e)
          (refreshed old.partitionName hd aux).sortedDescriptors encodings := by
  unfold refreshVbMeta at h
  rw [hold, ok_bind, hparse, ok_bind] at h
  cases hnew : newHashDesc.auxBlob with
  | none =>
      rw [hnew] at h
      cases h
  | some newAux =>
      rw [hnew] at h
      obtain ⟨-, -, h⟩ := bind_eq_ok.mp h
      rw [replaceHashDescriptor, haux] at h
      simp only [hd_eq, ok_bind] at h
      obtain ⟨out, hout, h⟩ := bind_eq_ok.mp h
      obtain ⟨p, rfl⟩ := packVbMeta_eq_ok_iff.mp hout
      obtain ⟨padding, -, h⟩ := bind_eq_ok.mp h
      obtain ⟨-, rfl⟩ := join_eq_ok_iff.mp h
      have haux_eq : p.aux = refreshed old.partitionName hd aux := by
        have hsome := p.aux_eq
        exact (Option.some.inj hsome).symm
      have hdesc := p.desc_eq
      rw [haux_eq] at hdesc
      obtain ⟨encodings, hall, heq⟩ := encodeLoop_eq_ok hdesc
      exact ⟨p, encodings, padding, by simp, by simpa using heq, hall⟩

/-- Refreshing `vbmeta.img` writes the encodings of the refreshed descriptors, and these
replace the descriptor of the partition exactly where there is at most one to replace. -/
theorem refreshVbMeta_replaces_iff (vm : Jvm) (crypto : Crypto) (info mainVBMeta : AVBInfo)
    (signed : Bytes) (old hd : HashDescriptor) (aux : AuxBlob)
    (hold : firstHashDescriptor info = .ok old) (haux : mainVBMeta.auxBlob = some aux)
    (hdistinct : (aux.descList.map AnyDescriptor.sequence).Nodup)
    (hname : hd.partitionName = old.partitionName) :
    (∀ newHashDesc written, parseVbMeta vm crypto signed = .ok newHashDesc →
      firstHashDescriptor newHashDesc = .ok hd →
      refreshVbMeta vm crypto info mainVBMeta signed = .ok written →
        ∃ (p : Packed vm crypto
              { mainVBMeta with auxBlob := some (refreshed old.partitionName hd aux) })
            (encodings : List Bytes) (padding : Bytes),
          written = p.blob ++ padding ∧ p.desc = encodings.flatten ∧
            List.Forall₂ (fun d e => AnyDescriptor.encode vm d = .ok e)
              (refreshed old.partitionName hd aux).sortedDescriptors encodings) ∧
      (Replaces vm old.partitionName hd aux.sortedDescriptors
          (refreshed old.partitionName hd aux).sortedDescriptors ↔
        (aux.hashDescriptors.filter (named old.partitionName)).length ≤ 1) := by
  constructor
  · intro newHashDesc written hparse hd_eq h
    exact refreshVbMeta_eq_ok hold haux hparse hd_eq h
  · exact replaces_refreshed_iff vm hname hdistinct

/-- Nothing is signed. -/
def unsignedCrypto : Crypto :=
  ⟨fun _ _ => [], fun _ => .error .io, fun _ => .error .io, fun _ _ => .error .io, zeros⟩

/-- The hash descriptor of a boot image that was packed anew. -/
def packedHash : HashDescriptor :=
  { partitionName := units "boot", hashAlgorithm := units "sha256", imageSize := 4096
    salt := [1, 2], digest := [3, 4, 5, 6] }

/-- The vbmeta image with it. -/
def packedBoot : Bytes :=
  match packVbMeta ⟨false, .littleEndian⟩ unsignedCrypto
      { header := some {}, auxBlob := some { hashDescriptors := [packedHash] } } with
  | .ok (blob, _) => blob
  | .error _ => []

/-- A main vbmeta with a property before the hash descriptor of the partition, and a descriptor of
another partition. -/
theorem refreshVbMeta_replaces_iff_applies :
    let vm : Jvm := ⟨false, .littleEndian⟩
    let old : HashDescriptor :=
      { partitionName := units "boot", sequence := 2, hashAlgorithm := units "sha256",
        digest := [9] }
    let aux : AuxBlob :=
      { hashDescriptors := [old, { partitionName := units "dtbo", sequence := 3 }]
        propertyDescriptor := [{ sequence := 1, key := units "k", value := units "v" }] }
    let info : AVBInfo := { auxBlob := some { hashDescriptors := [old] } }
    let mainVBMeta : AVBInfo := { header := some {}, auxBlob := some aux }
    ∃ newHashDesc hd written, parseVbMeta vm unsignedCrypto packedBoot = .ok newHashDesc ∧
      firstHashDescriptor newHashDesc = .ok hd ∧ hd.digest = [3, 4, 5, 6] ∧
      refreshVbMeta vm unsignedCrypto info mainVBMeta packedBoot = .ok written ∧
      (∃ (p : Packed vm unsignedCrypto
            { mainVBMeta with auxBlob := some (refreshed old.partitionName hd aux) })
          (encodings : List Bytes) (padding : Bytes),
        written = p.blob ++ padding ∧ p.desc = encodings.flatten ∧
          List.Forall₂ (fun d e => AnyDescriptor.encode vm d = .ok e)
            (refreshed old.partitionName hd aux).sortedDescriptors encodings) ∧
      (Replaces vm old.partitionName hd aux.sortedDescriptors
          (refreshed old.partitionName hd aux).sortedDescriptors ↔
        (aux.hashDescriptors.filter (named old.partitionName)).length ≤ 1) := by
  intro vm old aux info mainVBMeta
  have hparsed : ((parseVbMeta vm unsignedCrypto packedBoot).bind firstHashDescriptor).map
      (fun hd => (hd.partitionName, hd.digest)) = .ok (units "boot", [3, 4, 5, 6]) := by
    decide +kernel
  have hlength : (refreshVbMeta vm unsignedCrypto info mainVBMeta packedBoot).map List.length =
      .ok 4096 := by decide +kernel
  cases hparse : parseVbMeta vm unsignedCrypto packedBoot with
  | error e =>
      rw [hparse] at hparsed
      cases hparsed
  | ok newHashDesc =>
      rw [hparse] at hparsed
      cases hd_eq : firstHashDescriptor newHashDesc with
      | error e =>
          simp only [Except.bind, hd_eq] at hparsed
          cases hparsed
      | ok hd =>
          simp only [Except.bind, hd_eq, Except.map, Except.ok.injEq, Prod.mk.injEq] at hparsed
          cases hwritten : refreshVbMeta vm unsignedCrypto info mainVBMeta packedBoot with
          | error e =>
              rw [hwritten] at hlength
              cases hlength
          | ok written =>
              obtain ⟨himage, hreplaces⟩ := refreshVbMeta_replaces_iff vm unsignedCrypto info
                mainVBMeta packedBoot old hd aux rfl rfl (by decide +kernel) hparsed.1
              exact ⟨newHashDesc, hd, written, rfl, hd_eq, hparsed.2, rfl,
                himage newHashDesc written hparse hd_eq hwritten, hreplaces⟩

/-- Two hash descriptors of the partition: the second one stays, with the stale
digest. -/
theorem replaces_refreshed_twice :
    ¬ ∀ (vm : Jvm) (aux : AuxBlob) (partitionName : KString) (hd : HashDescriptor),
      (aux.descList.map AnyDescriptor.sequence).Nodup → hd.partitionName = partitionName →
        Replaces vm partitionName hd aux.sortedDescriptors
          (refreshed partitionName hd aux).sortedDescriptors := by
  intro h
  let old : HashDescriptor := { partitionName := units "boot", sequence := 1, digest := [1] }
  let stale : HashDescriptor := { partitionName := units "boot", sequence := 2, digest := [2] }
  let hd : HashDescriptor := { partitionName := units "boot", digest := [3] }
  have hdistinct : (({ hashDescriptors := [old, stale] } : AuxBlob).descList.map
      AnyDescriptor.sequence).Nodup := by decide +kernel
  have hreplaces := h ⟨false, .littleEndian⟩ { hashDescriptors := [old, stale] } (units "boot") hd
    hdistinct rfl
  have hname : hd.partitionName = units "boot" := rfl
  have hcount := (replaces_refreshed_iff _ hname hdistinct).mp hreplaces
  exact absurd hcount (by decide +kernel)

end BootImgParser

end BootImageEditor
