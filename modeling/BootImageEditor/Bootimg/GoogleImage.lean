import BootImageEditor.Bootimg.EncodedHeader

/-!
# The image of the packer and that of the reference packer

`pack` compares its image with the one of `mkbootimg.py`, called with the arguments of the
refreshed object. The two differ where a file with a load offset has become empty, since
`refresh` only drops the offset of a component whose configured length is zero, and where the
header size of the configuration is not rounded up to one page.
-/

namespace BootImageEditor

open Codec Fallible Struct3

namespace Bootimg

namespace Mkbootimg

open BootImgHeader

/-! ## Refreshing -/

theorem length_toBootImgHeader (i : BootImgInfo) (c : Component) :
    i.toBootImgHeader.length c = i.length c := by
  cases c <;> rfl

/-- The components that the image id is made of. -/
def idComponents (headerVersion : ℕ) : List Component :=
  [.kernel, .ramdisk, .second] ++ (if 0 < headerVersion then [.recoveryDtbo] else []) ++
    (if 1 < headerVersion then [.dtb] else [])

/-- What the digest of an image id is taken of. -/
def idBytes (files : Files) (i : BootImgInfo) (cs : List Component) : Bytes :=
  (cs.map fun c => Packer.part files i c ++
    ByteOrder.littleEndian.encode 4 (Packer.part files i c).length).flatten

theorem digestInput_param {files : Files} {i : BootImgInfo} (hpresent : Present files i)
    (cs : List Component) :
    digestInput files (cs.map i.toBootImgHeader.param) = .ok (idBytes files i cs) := by
  induction cs with
  | nil => rfl
  | cons c cs ih =>
      have hparam : i.toBootImgHeader.param c =
          if i.length c = 0 then none else some c.path := by
        rw [BootImgHeader.param, length_toBootImgHeader]
      have hbytes : idBytes files i (c :: cs) = Packer.part files i c ++
          ByteOrder.littleEndian.encode 4 (Packer.part files i c).length ++
            idBytes files i cs := by
        simp [idBytes]
      rw [List.map_cons, hparam, hbytes]
      by_cases hlength : i.length c = 0
      · rw [if_pos hlength, digestInput, ih, ok_bind, Packer.part, if_pos hlength]
        rfl
      · obtain ⟨data, hdata, -⟩ := hpresent c hlength
        rw [if_neg hlength, digestInput, hdata, Packer.part, if_neg hlength, hdata]
        simp only [ih, ok_bind, Option.getD_some]

theorem imageId_eq {sha1 : Bytes → Bytes} {files : Files} {i : BootImgInfo}
    (hversion : i.headerVersion = 0 ∨ i.headerVersion = 1 ∨ i.headerVersion = 2)
    (hpresent : Present files i) :
    i.toBootImgHeader.imageId sha1 files =
      .ok (sha1 (idBytes files i (idComponents i.headerVersion.toNat))) := by
  have hdigest := digestInput_param hpresent (idComponents i.headerVersion.toNat)
  unfold BootImgHeader.imageId
  rcases hversion with h | h | h
  · rw [h] at hdigest ⊢
    rw [if_pos rfl, hashFileAndSize]
    exact congrArg (Except.map sha1) hdigest
  · rw [h] at hdigest ⊢
    rw [if_neg (by decide), if_pos rfl, hashFileAndSize]
    exact congrArg (Except.map sha1) hdigest
  · rw [h] at hdigest ⊢
    rw [if_neg (by decide), if_neg (by decide), if_pos rfl, hashFileAndSize]
    exact congrArg (Except.map sha1) hdigest

/-- The tool makes the image id of the same bytes. -/
theorem imageId_givenArgs {sha1 : Bytes → Bytes} {files : Files} {i : BootImgInfo}
    {output : KString} {v p : ℕ}
    (hversion : i.headerVersion = 0 ∨ i.headerVersion = 1 ∨ i.headerVersion = 2)
    (hlengths : Packer.VersionLengths i.toBootImgHeader)
    (hlen : files.size (Component.path .kernel) = (i.length .kernel).toNat) :
    imageId sha1 (givenArgs files i output v p) =
      sha1 (idBytes files i (idComponents i.headerVersion.toNat)) := by
  obtain ⟨hramdisk, hsecond, hdtbo, hdtb⟩ := @givenArgs_files files i output v p hversion hlengths
  have hv : (givenArgs files i output v p).headerVersion = i.headerVersion.toNat := rfl
  have hkernel : (givenArgs files i output v p).kernel = files (Component.path .kernel) := rfl
  have hgetD := getD_kernel hlen
  unfold imageId hashed idBytes idComponents filesize
  rw [hramdisk, hsecond, hdtbo, hdtb, hv, hkernel]
  split_ifs <;> simp [hgetD, getD_given]

/-- The sizes of the files fit the buffer. -/
def Room (files : Files) (i : BootImgInfo) : Prop :=
  (Packer.components.map (Packer.paddedSize files i)).sum ≤ 67108864

theorem paddedSize_le {files : Files} {i : BootImgInfo} (hroom : Room files i) (c : Component) :
    Packer.paddedSize files i c ≤ 67108864 := by
  have hmem : c ∈ Packer.components := by cases c <;> decide
  exact le_trans (List.le_sum_of_mem (List.mem_map_of_mem hmem)) hroom

theorem paddedSize_lt {files : Files} {i : BootImgInfo} (hroom : Room files i) :
    Packer.paddedSize files i .kernel + Packer.paddedSize files i .ramdisk +
      Packer.paddedSize files i .second ≤ 67108864 := by
  have hsum := hroom
  simp only [Room, Packer.components, List.map_cons, List.map_nil, List.sum_cons,
    List.sum_nil] at hsum
  omega

theorem roundToMultiple_fileLength {files : Files} {i : BootImgInfo}
    (hp : Packer.PageSize i.pageSize) (hroom : Room files i) (c : Component) :
    (Helper.roundToMultiple (i.toBootImgHeader.fileLength files c) i.pageSize).toNat =
      Packer.paddedSize files i c := by
  have hbounds := hp.bounds
  have hle := paddedSize_le hroom c
  unfold Packer.paddedSize at hle ⊢
  rw [BootImgHeader.fileLength, length_toBootImgHeader]
  have hround : ∀ n, roundUp i.pageSize.toNat n ≤ 67108864 →
      (Helper.roundToMultiple (UInt32.ofNat n) i.pageSize).toNat = roundUp i.pageSize.toNat n := by
    intro n hn
    have hge := le_roundUp (by omega : 0 < i.pageSize.toNat) n
    have heq := @Helper.roundToMultiple_ofNat n i.pageSize.toNat (by omega) (by omega)
      i.pageSize.toNat_lt
    rw [UInt32.ofNat_toNat] at heq
    rw [heq]
    exact UInt32.toNat_ofNat_of_lt' (by simp only [UInt32.size]; omega)
  by_cases hlength : i.length c = 0
  · have hzero : roundUp i.pageSize.toNat 0 = 0 :=
      roundUp_eq_self (by omega) (Nat.zero_mod _)
    rw [if_pos hlength, if_pos hlength]
    exact (hround 0 (by omega)).trans hzero
  · rw [if_neg hlength] at hle
    rw [if_neg hlength, if_neg hlength]
    exact hround _ hle

/-- The offset of the recovery dtbo as the encoder computes it. -/
def dtboOffset (files : Files) (i : BootImgInfo) : ℕ :=
  if i.recoveryDtboLength = 0 then 0
  else ((Helper.roundToMultiple i.headerSize i.pageSize).toNat +
    Packer.paddedSize files i .kernel + Packer.paddedSize files i .ramdisk +
    Packer.paddedSize files i .second) % 2 ^ 32

theorem refreshDtboOffset_eq {files : Files} {i : BootImgInfo}
    (hp : Packer.PageSize i.pageSize) (hroom : Room files i) :
    ∃ offset, i.toBootImgHeader.refreshDtboOffset files = .ok offset ∧
      offset.toNat = dtboOffset files i := by
  have hbounds := hp.bounds
  have hne : i.pageSize ≠ 0 := by
    intro hzero
    rw [hzero] at hbounds
    exact absurd hbounds.1 (by decide)
  unfold refreshDtboOffset dtboOffset
  by_cases hlength : i.recoveryDtboLength = 0
  · exact ⟨0, if_pos hlength, (if_pos hlength).symm⟩
  · rw [if_neg hlength, if_neg hlength, BootImgHeader.getRecoveryDtboOffset]
    refine ⟨_, congrArg (Except.map UInt32.toUInt64) (if_neg hne), ?_⟩
    have hkernel := roundToMultiple_fileLength hp hroom .kernel
    have hramdisk := roundToMultiple_fileLength hp hroom .ramdisk
    have hsecond := roundToMultiple_fileLength hp hroom .second
    rw [UInt32.toNat_toUInt64, UInt32.toNat_add, UInt32.toNat_add, UInt32.toNat_add]
    simp only [refreshParts]
    rw [hkernel, hramdisk, hsecond]
    omega

/-! ## Comparing the images -/

/-- The object as `encode` leaves it, also where it throws. -/
def afterEncode (sha1 : Bytes → Bytes) (files : Files) (h : BootImgHeader) : BootImgHeader :=
  if h.kernelLength = 0 then h
  else
    match h.refreshDtboOffset files with
    -- the dtb comes behind the recovery dtbo
    | .error _ => { h.refreshParts files with dtbLength := h.dtbLength }
    | .ok recoveryDtboOffset =>
        match h.imageId sha1 files with
        | .error _ => { h.refreshParts files with recoveryDtboOffset }
        | .ok digest => { h.refreshParts files with recoveryDtboOffset, hash := some digest }

theorem refresh_eq {sha1 : Bytes → Bytes} {files : Files} {i : BootImgInfo}
    (hversion : i.headerVersion = 0 ∨ i.headerVersion = 1 ∨ i.headerVersion = 2)
    (hp : Packer.PageSize i.pageSize) (hpresent : Present files i) (hroom : Room files i)
    (hkernel : i.kernelLength ≠ 0) :
    ∃ offset, offset.toNat = dtboOffset files i ∧
      i.toBootImgHeader.refresh sha1 files = .ok (afterEncode sha1 files i.toBootImgHeader) ∧
      afterEncode sha1 files i.toBootImgHeader =
        { i.toBootImgHeader.refreshParts files with
          recoveryDtboOffset := offset
          hash := some (sha1 (idBytes files i (idComponents i.headerVersion.toNat))) } := by
  obtain ⟨offset, hoffset, hnat⟩ := refreshDtboOffset_eq hp hroom
  have hid := @imageId_eq sha1 files i hversion hpresent
  have hafter : afterEncode sha1 files i.toBootImgHeader =
      { i.toBootImgHeader.refreshParts files with
        recoveryDtboOffset := offset
        hash := some (sha1 (idBytes files i (idComponents i.headerVersion.toNat))) } := by
    rw [afterEncode, if_neg hkernel]
    simp only [hoffset, hid]
  refine ⟨offset, hnat, ?_, hafter⟩
  rw [hafter, BootImgHeader.refresh, if_neg hkernel, hoffset, ok_bind, hid, ok_bind]

/-- The fields of a header that both sides write alike, and the three offsets that may differ. -/
def fieldsWith (i : BootImgInfo) (word : ℕ) (hash : Bytes)
    (ramdiskOffset secondOffset dtboOffset : ℕ) : List Bytes :=
  headerFields [i.kernelLength.toNat, i.kernelOffset.toNat, i.ramdiskLength.toNat, ramdiskOffset,
    i.secondBootloaderLength.toNat, secondOffset, i.tagsOffset.toNat, i.pageSize.toNat,
    i.headerVersion.toNat, word] i.board i.cmdline hash i.recoveryDtboLength.toNat dtboOffset
    (headerSizeOf i.headerVersion) i.dtbLength.toNat
    (if 1 < i.headerVersion then i.dtbOffset.toNat else 0)

theorem fieldsWith_inj {i : BootImgInfo} {word : ℕ} {hash : Bytes} {r s d r' s' d' : ℕ}
    (hr : r < 2 ^ 32) (hs : s < 2 ^ 32) (hd : d < 2 ^ 64) (hr' : r' < 2 ^ 32) (hs' : s' < 2 ^ 32)
    (hd' : d' < 2 ^ 64) :
    (fieldsWith i word hash r s d).flatten = (fieldsWith i word hash r' s' d').flatten ↔
      r = r' ∧ s = s' ∧ d = d' := by
  constructor
  · intro h
    have hfields := flatten_inj (by simp [fieldsWith, headerFields]) h
    simp only [fieldsWith, headerFields, List.map_cons, List.map_nil, List.cons_append,
      List.nil_append, List.cons.injEq, and_true, true_and] at hfields
    obtain ⟨hr4, hs4, hd8⟩ := hfields
    exact ⟨ByteOrder.littleEndian.encode_inj_of_lt hr hr' hr4,
      ByteOrder.littleEndian.encode_inj_of_lt hs hs' hs4,
      ByteOrder.littleEndian.encode_inj_of_lt hd hd' hd8⟩
  · rintro ⟨rfl, rfl, rfl⟩
    rfl

/-- The object that the command line is made from. -/
def after (sha1 : Bytes → Bytes) (files : Files) (i : BootImgInfo) : BootImgInfo :=
  { i with toBootImgHeader := afterEncode sha1 files i.toBootImgHeader }

/-- What both sides are compared on. -/
structure Setting (files : Files) (i : BootImgInfo) : Prop where
  version : i.headerVersion = 0 ∨ i.headerVersion = 1 ∨ i.headerVersion = 2
  page : Packer.PageSize i.pageSize
  lengths : Packer.VersionLengths i.toBootImgHeader
  present : ∀ c, i.length c ≠ 0 → ∃ data, files c.path = some data
  room : Room files i
  board : isBlank i.board = true → i.board = []

theorem size_le {files : Files} {i : BootImgInfo} (hset : Setting files i) {c : Component}
    (hlength : i.length c ≠ 0) : files.size c.path ≤ 67108864 := by
  have hbounds := hset.page.bounds
  have hle := paddedSize_le hset.room c
  rw [Packer.paddedSize, if_neg hlength] at hle
  exact le_trans (le_roundUp (by omega) _) hle

theorem Setting.fits {files : Files} {i : BootImgInfo} (hset : Setting files i) :
    Present files i := by
  intro c hlength
  obtain ⟨data, hdata⟩ := hset.present c hlength
  have hle := size_le hset hlength
  rw [Files.size, hdata, Option.getD_some] at hle
  exact ⟨data, hdata, lt_of_le_of_lt hle (by decide)⟩

theorem toNat_length_after {sha1 : Bytes → Bytes} {files : Files} {i : BootImgInfo}
    (hset : Setting files i) (hkernel : i.kernelLength ≠ 0) (c : Component) :
    ((after sha1 files i).length c).toNat = if i.length c = 0 then 0 else files.size c.path := by
  obtain ⟨offset, -, hrefresh, -⟩ :=
    @refresh_eq sha1 files i hset.version hset.page hset.fits hset.room hkernel
  rw [← Packer.toNat_length_refresh hset.page hset.room hrefresh c]
  cases c <;> rfl

theorem matches_after {sha1 : Bytes → Bytes} {files : Files} {i : BootImgInfo}
    (hset : Setting files i) (hkernel : i.kernelLength ≠ 0) :
    Packer.Matches files (after sha1 files i) := by
  intro c hne
  have hnat := @toNat_length_after sha1 files i hset hkernel c
  by_cases hlength : i.length c = 0
  · rw [if_pos hlength] at hnat
    exact absurd (UInt32.toNat_inj.mp hnat) hne
  · obtain ⟨data, hdata⟩ := hset.present c hlength
    rw [if_neg hlength, Files.size, hdata] at hnat
    exact ⟨data, hdata, hnat.symm⟩

theorem part_after {sha1 : Bytes → Bytes} {files : Files} {i : BootImgInfo}
    (hset : Setting files i) (hkernel : i.kernelLength ≠ 0) (c : Component) :
    Packer.part files (after sha1 files i) c = Packer.part files i c := by
  have hnat := @toNat_length_after sha1 files i hset hkernel c
  unfold Packer.part
  by_cases hlength : i.length c = 0
  · rw [if_pos hlength] at hnat
    have hafter : (after sha1 files i).length c = 0 := UInt32.toNat_inj.mp hnat
    rw [if_pos hafter, if_pos hlength]
  · rw [if_neg hlength] at hnat ⊢
    split_ifs with hafter
    · rw [hafter] at hnat
      exact (List.eq_nil_of_length_eq_zero hnat.symm).symm
    · rfl

/-- What does not change when the object is refreshed. -/
theorem after_fields {sha1 : Bytes → Bytes} {files : Files} {i : BootImgInfo} :
    (after sha1 files i).headerVersion = i.headerVersion ∧
      (after sha1 files i).pageSize = i.pageSize ∧ (after sha1 files i).board = i.board ∧
      (after sha1 files i).cmdline = i.cmdline ∧ (after sha1 files i).osVersion = i.osVersion ∧
      (after sha1 files i).osPatchLevel = i.osPatchLevel := by
  unfold after afterEncode
  split_ifs
  · exact ⟨rfl, rfl, rfl, rfl, rfl, rfl⟩
  · cases i.toBootImgHeader.refreshDtboOffset files with
    | error e => exact ⟨rfl, rfl, rfl, rfl, rfl, rfl⟩
    | ok offset =>
        cases i.toBootImgHeader.imageId sha1 files with
        | error e => exact ⟨rfl, rfl, rfl, rfl, rfl, rfl⟩
        | ok digest => exact ⟨rfl, rfl, rfl, rfl, rfl, rfl⟩

theorem lengths_after {sha1 : Bytes → Bytes} {files : Files} {i : BootImgInfo}
    (hset : Setting files i) (hkernel : i.kernelLength ≠ 0) :
    Packer.VersionLengths (after sha1 files i).toBootImgHeader := by
  obtain ⟨offset, -, hrefresh, -⟩ :=
    @refresh_eq sha1 files i hset.version hset.page hset.fits hset.room hkernel
  exact hset.lengths.refresh hrefresh

/-- The offset of the recovery dtbo as the tool computes it. -/
def toolDtboOffset (i : BootImgInfo) : ℕ :=
  if i.recoveryDtboLength = 0 then 0
  else i.pageSize.toNat + i.pages i.kernelLength + i.pages i.ramdiskLength +
    i.pages i.secondBootloaderLength

theorem getNumberOfPages_mul {n p : ℕ} (hp : 0 < p) : p * getNumberOfPages n p = roundUp p n := by
  rw [getNumberOfPages, roundUp, Nat.mul_comm, Nat.add_sub_assoc hp]

/-- The fields that the tool writes. -/
theorem headerFields_givenArgs {sha1 : Bytes → Bytes} {files : Files} {i : BootImgInfo}
    {output : KString} {v p : ℕ}
    (hversion : i.headerVersion = 0 ∨ i.headerVersion = 1 ∨ i.headerVersion = 2)
    (hp : Packer.PageSize i.pageSize) (hlengths : Packer.VersionLengths i.toBootImgHeader)
    (hmatches : Packer.Matches files i)
    (hlen : files.size (Component.path .kernel) = (i.length .kernel).toNat)
    (hboard : isBlank i.board = true → i.board = []) :
    padFile (headerBytes sha1 (givenArgs files i output v p)) i.pageSize.toNat =
      (fieldsWith i ((v <<< 11) ||| p)
        (sha1 (idBytes files i (idComponents i.headerVersion.toNat)))
        (if 0 < i.ramdiskLength.toNat then i.ramdiskOffset.toNat else 0)
        (if 0 < i.secondBootloaderLength.toNat then i.secondBootloaderOffset.toNat else 0)
        (toolDtboOffset i)).flatten ++ zeros (i.pageSize.toNat - 1660) := by
  obtain ⟨hramdisk, hsecond, hdtbo, hdtb⟩ := @givenArgs_files files i output v p hversion hlengths
  have hbounds := hp.bounds
  have hramdiskSize := filesize_given hmatches .ramdisk
  have hsecondSize := filesize_given hmatches .second
  have hdtboSize := filesize_given hmatches .recoveryDtbo
  have hdtbSize := filesize_given hmatches .dtb
  have hkernelSize : filesize (givenArgs files i output v p).kernel = i.kernelLength.toNat := hlen
  rw [← hramdisk] at hramdiskSize
  rw [← hsecond] at hsecondSize
  rw [← hdtbo] at hdtboSize
  rw [← hdtb] at hdtbSize
  have hboardGiven : (givenArgs files i output v p).board = i.board := by
    have hite : (givenArgs files i output v p).board =
        if !isBlank i.board then i.board else [] := rfl
    rw [hite]
    split_ifs with hblank
    · rfl
    · exact (hboard (by simpa using hblank)).symm
  have hnumbers : numbers (givenArgs files i output v p) =
      [i.kernelLength.toNat, i.kernelOffset.toNat, i.ramdiskLength.toNat,
        if 0 < i.ramdiskLength.toNat then i.ramdiskOffset.toNat else 0,
        i.secondBootloaderLength.toNat,
        if 0 < i.secondBootloaderLength.toNat then i.secondBootloaderOffset.toNat else 0,
        i.tagsOffset.toNat, i.pageSize.toNat, i.headerVersion.toNat, (v <<< 11) ||| p] := by
    have hsecondOffset : (givenArgs files i output v p).secondOffset =
        if 0 < i.secondBootloaderLength then i.secondBootloaderOffset.toNat
        else 0x00f00000 := rfl
    have hpos : 0 < i.secondBootloaderLength ↔ 0 < i.secondBootloaderLength.toNat :=
      UInt32.lt_iff_toNat_lt
    unfold numbers
    rw [hkernelSize, hramdiskSize, hsecondSize, hsecondOffset]
    simp only [hpos, givenArgs, numbersArgs, Nat.zero_add, BootImgInfo.length]
    split_ifs <;> rfl
  have hoffset : getRecoveryDtboOffset (givenArgs files i output v p) =
      i.pageSize.toNat + i.pages i.kernelLength + i.pages i.ramdiskLength +
        i.pages i.secondBootloaderLength := by
    have hpagesize : (givenArgs files i output v p).pagesize = i.pageSize.toNat := rfl
    have hpos : 0 < i.pageSize.toNat := by omega
    rw [getRecoveryDtboOffset, hkernelSize, hramdiskSize, hsecondSize, hpagesize]
    simp only [Nat.mul_add, Nat.mul_one, getNumberOfPages_mul hpos]
    rfl
  have hv : (givenArgs files i output v p).headerVersion = i.headerVersion.toNat := rfl
  have hcmdline : (givenArgs files i output v p).cmdline = i.cmdline := rfl
  obtain ⟨hzero, hone⟩ := not_lt_version hversion
  have hltZero : 0 < i.headerVersion ↔ 0 < i.headerVersion.toNat := UInt32.lt_iff_toNat_lt
  have hltOne : 1 < i.headerVersion ↔ 1 < i.headerVersion.toNat := UInt32.lt_iff_toNat_lt
  have hdtboLength : (if 0 < i.headerVersion.toNat then (i.length .recoveryDtbo).toNat else 0) =
      i.recoveryDtboLength.toNat := by
    split_ifs with hpos
    · rfl
    · have hnone : i.recoveryDtboLength = 0 :=
        hlengths.version_zero (hzero fun h => hpos (hltZero.mp h))
      rw [hnone]
      rfl
  have hdtbLength : (if 1 < i.headerVersion.toNat then (i.length .dtb).toNat else 0) =
      i.dtbLength.toNat := by
    split_ifs with hpos
    · rfl
    · have hnone : i.dtbLength = 0 := hlengths.version_one (hone fun h => hpos (hltOne.mp h))
      rw [hnone]
      rfl
  have hdtbOffset : (if 1 < i.headerVersion.toNat then
      (givenArgs files i output v p).base + (givenArgs files i output v p).dtbOffset else 0) =
        if 1 < i.headerVersion then i.dtbOffset.toNat else 0 := by
    have hgiven : (givenArgs files i output v p).dtbOffset =
        if 1 < i.headerVersion then i.dtbOffset.toNat else 0x01f00000 := rfl
    have hbase : (givenArgs files i output v p).base = 0 := rfl
    rw [hgiven, hbase, Nat.zero_add]
    by_cases hpos : 1 < i.headerVersion
    · rw [if_pos (hltOne.mp hpos), if_pos hpos, if_pos hpos]
    · rw [if_neg (fun h => hpos (hltOne.mpr h)), if_neg hpos]
  have hdtboOffset : (if 0 < i.headerVersion.toNat then
      if (givenArgs files i output v p).recoveryDtbo.isSome then
        i.pageSize.toNat + i.pages i.kernelLength + i.pages i.ramdiskLength +
          i.pages i.secondBootloaderLength
      else 0 else 0) = toolDtboOffset i := by
    unfold toolDtboOffset
    rw [hdtbo, given]
    by_cases hlength : i.recoveryDtboLength = 0
    · have hnone : i.length .recoveryDtbo = 0 := hlength
      rw [if_pos hlength, if_pos hnone]
      exact ite_self 0
    · have hsome : i.length .recoveryDtbo ≠ 0 := hlength
      obtain ⟨data, hdata, -⟩ := hmatches .recoveryDtbo hsome
      have hpos : 0 < i.headerVersion.toNat := by
        by_contra hnot
        exact hlength (hlengths.version_zero (hzero fun h => hnot (hltZero.mp h)))
      rw [if_pos hpos, if_neg hlength, if_neg hsome, hdata]
      rfl
  rw [padFile_headerBytes hp, hnumbers, hboardGiven, hcmdline,
    imageId_givenArgs hversion hlengths hlen, hdtboSize, hdtbSize, hoffset, hv, hdtboLength,
    hdtbLength, hdtbOffset, hdtboOffset]
  rfl

theorem singleByte_of_asciiText : ∀ {s : KString}, AsciiText s → Utf8.SingleByte s
  | [], _ => trivial
  | [u], h => by
      have hu : u.toNat < 0x80 := by simpa [AsciiText] using h
      exact Or.inl hu
  | u :: v :: vs, h => by
      unfold AsciiText at h
      rw [List.all_cons, Bool.and_eq_true, decide_eq_true_iff] at h
      obtain ⟨hu, hvs⟩ := h
      refine ⟨?_, Or.inl hu, singleByte_of_asciiText hvs⟩
      rw [(Utf8.not_surrogate_of_lt hu).2, Bool.false_and]
      decide

theorem length_encode_of_asciiText {s : KString} (h : AsciiText s) :
    (Utf8.encode s).length = s.length :=
  (Utf8.length_encode_eq_iff s).mpr (singleByte_of_asciiText h)

/-- A cut in two of an ASCII text fits the two fields of the command line. -/
theorem length_encode_cmdline {s : KString} (hascii : AsciiText s)
    (hlen : (Utf8.encode s).length ≤ 1536) :
    (Utf8.encode (s.take 512)).length ≤ 512 ∧ (Utf8.encode (s.drop 512)).length ≤ 1024 := by
  obtain ⟨htake, hdrop⟩ := asciiText_take hascii 512
  rw [length_encode_of_asciiText hascii] at hlen
  rw [length_encode_of_asciiText htake, length_encode_of_asciiText hdrop, List.length_take,
    List.length_drop]
  omega

theorem pages_after {sha1 : Bytes → Bytes} {files : Files} {i : BootImgInfo}
    (hset : Setting files i) (hkernel : i.kernelLength ≠ 0) (c : Component) :
    (after sha1 files i).pages ((after sha1 files i).length c) = Packer.paddedSize files i c := by
  have hbounds := hset.page.bounds
  have hzero : roundUp i.pageSize.toNat 0 = 0 := roundUp_eq_self (by omega) (Nat.zero_mod _)
  rw [BootImgInfo.pages, toNat_length_after hset hkernel, after_fields.2.1, Packer.paddedSize]
  split_ifs
  · exact hzero
  · rfl

/-- The image of the encoder, where the os_version word is packed. -/
theorem clearImage_eq {vm : Jvm} {sha1 : Bytes → Bytes} {files : Files} {i : BootImgInfo}
    {w : UInt32} {osVersion osPatchLevel : Int32} (hset : Setting files i)
    (hkernel : i.kernelLength ≠ 0) (hsha1 : ∀ bs, (sha1 bs).length = 20)
    (hboard : (Utf8.encode i.board).length ≤ 16)
    (htake : (Utf8.encode (i.cmdline.take 512)).length ≤ 512)
    (hdrop : (Utf8.encode (i.cmdline.drop 512)).length ≤ 1024)
    (hversion : packOsVersion vm i.osVersion = .ok osVersion)
    (hpatchLevel : packOsPatchLevel vm i.osPatchLevel = .ok osPatchLevel)
    (hword : (osVersion <<< 11) ||| osPatchLevel = w.toInt32) (hw : w.toNat < 2 ^ 31) :
    Packer.clearImage vm sha1 files i =
      .ok ((fieldsWith (after sha1 files i) w.toNat
        (sha1 (idBytes files i (idComponents i.headerVersion.toNat)))
        (after sha1 files i).ramdiskOffset.toNat (after sha1 files i).secondBootloaderOffset.toNat
        (dtboOffset files i)).flatten ++ zeros (i.pageSize.toNat - 1660) ++
          Packer.written files (after sha1 files i) Packer.components) := by
  obtain ⟨offset, hoffset, hrefresh, hafter⟩ :=
    @refresh_eq sha1 files i hset.version hset.page hset.fits hset.room hkernel
  obtain ⟨hkeptVersion, hkeptPage, hkeptBoard, hkeptCmdline, hkeptOsVersion, hkeptPatchLevel⟩ :=
    @after_fields sha1 files i
  have hbounds := hset.page.bounds
  have hint := toInt_toInt32_cond w
  rw [if_pos hw] at hint
  have hchoice : vm.assert ((after sha1 files i).pageSize.toNat ∈
      [2 ^ 11, 2 ^ 12, 2 ^ 13, 2 ^ 14]) = .ok () := by
    apply Jvm.assert_of_true
    rw [hkeptPage]
    rcases hset.page with h | h | h | h <;> rw [h] <;> decide
  have hhash : (after sha1 files i).hash =
      some (sha1 (idBytes files i (idComponents i.headerVersion.toNat))) := by
    rw [after, hafter]
  have hpack := @packFormat_arguments vm (after sha1 files i).toBootImgHeader
    (sha1 (idBytes files i (idComponents i.headerVersion.toNat))) w.toInt32
    (by rw [hkeptVersion]; exact hset.version) (by omega)
    (by rw [hsha1]; decide) (by rw [hkeptBoard]; exact hboard)
    (by rw [hkeptCmdline]; exact htake) (by rw [hkeptCmdline]; exact hdrop)
  have hdtbo : (if 0 < (after sha1 files i).headerVersion then
      (after sha1 files i).recoveryDtboOffset.toNat else 0) = dtboOffset files i := by
    have hvalue : (after sha1 files i).recoveryDtboOffset = offset := by rw [after, hafter]
    rw [hkeptVersion, hvalue]
    split_ifs with hpos
    · exact hoffset
    · have hnone : i.recoveryDtboLength = 0 :=
        hset.lengths.version_zero ((not_lt_version hset.version).1 hpos)
      rw [dtboOffset, if_pos hnone]
  have hencode : i.toBootImgHeader.encode vm sha1 files =
      .ok ((fieldsWith (after sha1 files i) w.toNat
        (sha1 (idBytes files i (idComponents i.headerVersion.toNat)))
        (after sha1 files i).ramdiskOffset.toNat (after sha1 files i).secondBootloaderOffset.toNat
        (dtboOffset files i)).flatten, (after sha1 files i).toBootImgHeader) := by
    have hself : afterEncode sha1 files i.toBootImgHeader =
      (after sha1 files i).toBootImgHeader := rfl
    rw [hself] at hrefresh
    rw [BootImgHeader.encode, hrefresh, ok_bind, hchoice, ok_bind, hkeptOsVersion, hversion,
      ok_bind, hkeptPatchLevel, hpatchLevel, ok_bind, hhash]
    simp only [hword]
    rw [hpack, ok_bind, hdtbo, UInt32.toUInt32_toInt32]
    rfl
  have hlen : (fieldsWith (after sha1 files i) w.toNat
      (sha1 (idBytes files i (idComponents i.headerVersion.toNat)))
      (after sha1 files i).ramdiskOffset.toNat (after sha1 files i).secondBootloaderOffset.toNat
      (dtboOffset files i)).flatten.length = 1660 := by
    have hmagic : (Utf8.encode magic).length = 8 := by decide
    simp [fieldsWith, headerFields, hmagic]
  have hpageAfter : Packer.PageSize (after sha1 files i).pageSize := by
    rw [hkeptPage]
    exact hset.page
  have hmatches := @matches_after sha1 files i hset hkernel
  obtain ⟨kernel, hdata⟩ := hset.present .kernel hkernel
  have hkernelLength : kernel.length = ((after sha1 files i).length .kernel).toNat := by
    rw [toNat_length_after hset hkernel, if_neg (by exact hkernel), Files.size, hdata,
      Option.getD_some]
  have hroom : Packer.pagesOf (after sha1 files i) Packer.components ≤ 67108864 := by
    have hsame : (fun c => (after sha1 files i).pages ((after sha1 files i).length c)) =
        Packer.paddedSize files i := by
      funext c
      rw [pages_after hset hkernel]
    rw [Packer.pagesOf, hsame]
    exact hset.room
  have hpage := Packer.headerPage_eq hpageAfter hlen
  have hwritten := Packer.writeData_eq vm hpageAfter hmatches hdata hkernelLength hroom
  rw [Packer.clearImage, hencode, ok_bind]
  simp only
  rw [hpage, ok_bind]
  have hself : { i with toBootImgHeader := (after sha1 files i).toBootImgHeader } =
    after sha1 files i := rfl
  rw [hself, hwritten, ok_bind, hkeptPage]

/-! ## The two images -/

/-- Where the header page of the encoder is that of the tool: a file that was configured with a
load offset has not become empty, and the offset of the recovery dtbo is computed from one page
of header. -/
structure Agrees (files : Files) (i : BootImgInfo) : Prop where
  kernel : i.kernelLength ≠ 0
  ramdisk : i.ramdiskLength = 0 ∨ files.size (Component.path .ramdisk) ≠ 0 ∨ i.ramdiskOffset = 0
  second : i.secondBootloaderLength = 0 ∨ files.size (Component.path .second) ≠ 0 ∨
    i.secondBootloaderOffset = 0
  recoveryDtbo : i.recoveryDtboLength = 0 ∨
    (files.size (Component.path .recoveryDtbo) ≠ 0 ∧
      Helper.roundToMultiple i.headerSize i.pageSize = i.pageSize) ∨
    (files.size (Component.path .recoveryDtbo) = 0 ∧
      ((Helper.roundToMultiple i.headerSize i.pageSize).toNat +
        Packer.paddedSize files i .kernel + Packer.paddedSize files i .ramdisk +
          Packer.paddedSize files i .second) % 2 ^ 32 = 0)

theorem offset_eq_iff {length offset : UInt32} {size : ℕ} :
    ((if length = 0 then 0 else offset).toNat =
        if 0 < (if length = 0 then 0 else size) then (if length = 0 then 0 else offset).toNat
        else 0) ↔
      length = 0 ∨ size ≠ 0 ∨ offset = 0 := by
  by_cases hlength : length = 0
  · simp [hlength]
  · rw [if_neg hlength, if_neg hlength]
    by_cases hsize : size = 0
    · rw [if_neg (by omega)]
      constructor
      · intro hzero
        exact Or.inr (Or.inr (UInt32.toNat_inj.mp hzero))
      · rintro (h | h | h)
        · exact absurd h hlength
        · exact absurd hsize h
        · rw [h]
          rfl
    · rw [if_pos (by omega)]
      exact iff_of_true rfl (Or.inr (Or.inl hsize))

theorem dtboOffset_eq_iff {sha1 : Bytes → Bytes} {files : Files} {i : BootImgInfo}
    (hset : Setting files i) (hkernel : i.kernelLength ≠ 0) :
    dtboOffset files i = toolDtboOffset (after sha1 files i) ↔
      i.recoveryDtboLength = 0 ∨
        (files.size (Component.path .recoveryDtbo) ≠ 0 ∧
          Helper.roundToMultiple i.headerSize i.pageSize = i.pageSize) ∨
        (files.size (Component.path .recoveryDtbo) = 0 ∧
          ((Helper.roundToMultiple i.headerSize i.pageSize).toNat +
            Packer.paddedSize files i .kernel + Packer.paddedSize files i .ramdisk +
              Packer.paddedSize files i .second) % 2 ^ 32 = 0) := by
  have hbounds := hset.page.bounds
  have hpages := paddedSize_lt hset.room
  have hnat := @toNat_length_after sha1 files i hset hkernel .recoveryDtbo
  have hround := (Helper.roundToMultiple i.headerSize i.pageSize).toNat_lt
  have htool : toolDtboOffset (after sha1 files i) =
      if (after sha1 files i).length .recoveryDtbo = 0 then 0
      else i.pageSize.toNat + Packer.paddedSize files i .kernel +
        Packer.paddedSize files i .ramdisk + Packer.paddedSize files i .second := by
    rw [← @pages_after sha1 files i hset hkernel .kernel,
      ← @pages_after sha1 files i hset hkernel .ramdisk,
      ← @pages_after sha1 files i hset hkernel .second, ← (@after_fields sha1 files i).2.1]
    rfl
  rw [htool]
  unfold dtboOffset
  by_cases hlength : i.recoveryDtboLength = 0
  · have habsent : i.length .recoveryDtbo = 0 := hlength
    rw [if_pos habsent] at hnat
    have hafter : (after sha1 files i).length .recoveryDtbo = 0 := UInt32.toNat_inj.mp hnat
    rw [if_pos hlength, if_pos hafter]
    exact iff_of_true rfl (Or.inl hlength)
  · have hpresent : i.length .recoveryDtbo ≠ 0 := hlength
    rw [if_neg hpresent] at hnat
    rw [if_neg hlength]
    by_cases hsize : files.size (Component.path .recoveryDtbo) = 0
    · have hafter : (after sha1 files i).length .recoveryDtbo = 0 :=
        UInt32.toNat_inj.mp (hnat.trans hsize)
      rw [if_pos hafter]
      exact ⟨fun h => Or.inr (Or.inr ⟨hsize, h⟩), fun h =>
        (h.resolve_left hlength).elim (fun h' => absurd hsize h'.1) fun h' => h'.2⟩
    · have hafter : (after sha1 files i).length .recoveryDtbo ≠ 0 := by
        intro hzero
        rw [hzero] at hnat
        exact hsize hnat.symm
      rw [if_neg hafter]
      constructor
      · intro h
        refine Or.inr (Or.inl ⟨hsize, UInt32.toNat_inj.mp ?_⟩)
        omega
      · rintro (h | ⟨-, h⟩ | ⟨h, -⟩)
        · exact absurd h hlength
        · rw [h]
          omega
        · exact absurd h hsize

theorem clearImage_eq_google_iff {vm : Jvm} {sha1 : Bytes → Bytes} {files : Files}
    {i : BootImgInfo} {output : KString} {w : UInt32} {v p : ℕ} (hset : Setting files i)
    (hkernel : i.kernelLength ≠ 0) (hsha1 : ∀ bs, (sha1 bs).length = 20)
    (haccepted : Accepted files i output) (htexts : TextsOf w i.osVersion i.osPatchLevel)
    (hv : givenOsVersion i = some v) (hp : givenOsPatchLevel i = some p) :
    Packer.clearImage vm sha1 files i =
        .ok (writeData (givenArgs files (after sha1 files i) output v p)
          (padFile (headerBytes sha1 (givenArgs files (after sha1 files i) output v p))
            (after sha1 files i).pageSize.toNat)) ↔
      Agrees files i := by
  obtain ⟨hkeptVersion, hkeptPage, hkeptBoard, hkeptCmdline, -, -⟩ := @after_fields sha1 files i
  have hbounds := hset.page.bounds
  have hw := unsigned_of_givenOsVersion htexts haccepted.osVersion
  obtain ⟨osVersion, osPatchLevel, hosVersion, hosPatchLevel, hword, hor⟩ :=
    packOs_of_textsOf vm htexts hw hv hp
  have hboard : (Utf8.encode i.board).length ≤ 16 := by
    cases hblank : isBlank i.board with
    | true =>
        rw [hset.board hblank]
        decide
    | false => exact (haccepted.board (by rw [hblank]; rfl)).2.2
  obtain ⟨htake, hdrop⟩ := length_encode_cmdline haccepted.cmdline.2.1 haccepted.cmdline.2.2
  have hversionAfter : (after sha1 files i).headerVersion = 0 ∨
      (after sha1 files i).headerVersion = 1 ∨ (after sha1 files i).headerVersion = 2 := by
    rw [hkeptVersion]
    exact hset.version
  have hpageAfter : Packer.PageSize (after sha1 files i).pageSize := by
    rw [hkeptPage]
    exact hset.page
  have hmatches := @matches_after sha1 files i hset hkernel
  have hlengths := @lengths_after sha1 files i hset hkernel
  obtain ⟨kernel, hdata⟩ := hset.present .kernel hkernel
  have hkernelSize : files.size (Component.path .kernel) =
      ((after sha1 files i).length .kernel).toNat := by
    rw [toNat_length_after hset hkernel, if_neg (by exact hkernel)]
  have hkernelLength : kernel.length = ((after sha1 files i).length .kernel).toNat := by
    rw [← hkernelSize, Files.size, hdata, Option.getD_some]
  have hid : idBytes files (after sha1 files i)
      (idComponents (after sha1 files i).headerVersion.toNat) =
        idBytes files i (idComponents i.headerVersion.toNat) := by
    unfold idBytes
    rw [hkeptVersion]
    simp only [part_after hset hkernel]
  have hfields := @headerFields_givenArgs sha1 files (after sha1 files i) output v p hversionAfter
    hpageAfter hlengths hmatches hkernelSize (by rw [hkeptBoard]; exact hset.board)
  rw [hid, hor] at hfields
  have hlen : ∀ r s d, (fieldsWith (after sha1 files i) w.toNat
      (sha1 (idBytes files i (idComponents i.headerVersion.toNat))) r s d).flatten.length =
        1660 := by
    intro r s d
    have hmagic : (Utf8.encode magic).length = 8 := by decide
    simp [fieldsWith, headerFields, hmagic]
  rw [clearImage_eq hset hkernel hsha1 hboard htake hdrop hosVersion hosPatchLevel hword hw,
    hfields, writeData_givenArgs hversionAfter hpageAfter hlengths hmatches hdata hkernelLength
      (by
        rw [List.length_append, hlen, length_zeros, hkeptPage]
        have hsum : 1660 + (i.pageSize.toNat - 1660) = i.pageSize.toNat := by omega
        rw [hsum, Nat.mod_self]), hkeptPage, Except.ok.injEq, List.append_left_inj,
    List.append_left_inj]
  obtain ⟨offset, -, -, hafter⟩ :=
    @refresh_eq sha1 files i hset.version hset.page hset.fits hset.room hkernel
  have hramdiskOffset : (after sha1 files i).ramdiskOffset =
      if i.ramdiskLength = 0 then 0 else i.ramdiskOffset := by
    rw [after, hafter]
    rfl
  have hsecondOffset : (after sha1 files i).secondBootloaderOffset =
      if i.secondBootloaderLength = 0 then 0 else i.secondBootloaderOffset := by
    rw [after, hafter]
    rfl
  have hramdiskLength : (after sha1 files i).ramdiskLength.toNat =
      if i.ramdiskLength = 0 then 0 else files.size (Component.path .ramdisk) :=
    toNat_length_after hset hkernel .ramdisk
  have hsecondLength : (after sha1 files i).secondBootloaderLength.toNat =
      if i.secondBootloaderLength = 0 then 0 else files.size (Component.path .second) :=
    toNat_length_after hset hkernel .second
  have hpages := paddedSize_lt hset.room
  have hdtboLt : dtboOffset files i < 2 ^ 64 := by
    unfold dtboOffset
    split_ifs <;> omega
  have htoolLt : toolDtboOffset (after sha1 files i) < 2 ^ 64 := by
    unfold toolDtboOffset
    have hk := @pages_after sha1 files i hset hkernel .kernel
    have hr := @pages_after sha1 files i hset hkernel .ramdisk
    have hs := @pages_after sha1 files i hset hkernel .second
    simp only [BootImgInfo.length] at hk hr hs
    rw [hk, hr, hs, hkeptPage]
    split_ifs <;> omega
  have hite : ∀ (n : ℕ) (x : UInt32), (if 0 < n then x.toNat else 0) < 2 ^ 32 := by
    intro n x
    have hx := x.toNat_lt
    split_ifs <;> omega
  rw [fieldsWith_inj (UInt32.toNat_lt _) (UInt32.toNat_lt _) hdtboLt (hite _ _) (hite _ _) htoolLt,
    hramdiskOffset, hsecondOffset, hramdiskLength, hsecondLength, offset_eq_iff, offset_eq_iff,
    dtboOffset_eq_iff hset hkernel]
  exact ⟨fun h => ⟨hkernel, h.1, h.2.1, h.2.2⟩, fun h => ⟨h.ramdisk, h.second, h.recoveryDtbo⟩⟩

/-! ## Configurations -/

/-- What `toBootImgInfo` takes over; a component that the configuration leaves out has no
length. -/
theorem kept_of_toBootImgInfo {config : UnifiedConfig} {info : BootImgInfo}
    (hto : UnifiedConfig.toBootImgInfo config = .ok info) :
    info.headerVersion = config.info.headerVersion ∧ info.board = config.info.board.getD [] ∧
      info.osVersion = config.info.osVersion ∧ info.osPatchLevel = config.info.osPatchLevel ∧
      (config.recoveryDtbo = none → info.recoveryDtboLength = 0) ∧
      (config.dtb = none → info.dtbLength = 0) := by
  obtain ⟨kernelOffset, -, hto⟩ := bind_eq_ok.mp hto
  obtain ⟨kernelLength, -, hto⟩ := bind_eq_ok.mp hto
  obtain ⟨ramdisk, -, hto⟩ := bind_eq_ok.mp hto
  obtain ⟨second, -, hto⟩ := bind_eq_ok.mp hto
  obtain ⟨recoveryDtbo, hdtbo, hto⟩ := bind_eq_ok.mp hto
  obtain ⟨dtb, hdtb, hto⟩ := bind_eq_ok.mp hto
  obtain ⟨tagsOffset, -, hto⟩ := bind_eq_ok.mp hto
  cases hto
  refine ⟨rfl, rfl, rfl, rfl, ?_, ?_⟩
  · intro hnone
    rw [hnone, UnifiedConfig.readArgsLong] at hdtbo
    cases hdtbo
    rfl
  · intro hnone
    rw [hnone, UnifiedConfig.readArgsLong] at hdtb
    cases hdtb
    rfl

/-- What `fromBootImgInfo` hands over; the components of later header versions are left out. -/
theorem kept_of_fromBootImgInfo {header : BootImgInfo} {config : UnifiedConfig}
    (hfrom : UnifiedConfig.fromBootImgInfo header = .ok config) :
    config.info.headerVersion = header.headerVersion ∧
      config.info.board.getD [] = (if isBlank header.board then []
        else header.board) ∧
      config.info.osVersion = header.osVersion ∧
      config.info.osPatchLevel = header.osPatchLevel ∧
      (¬ 0 < header.headerVersion → config.recoveryDtbo = none) ∧
      (¬ 1 < header.headerVersion → config.dtb = none) := by
  have hboard : (if isBlank header.board then none else some header.board).getD [] =
      (if isBlank header.board then [] else header.board) := by
    split_ifs
    · rfl
    · rfl
  unfold UnifiedConfig.fromBootImgInfo at hfrom
  split at hfrom
  · cases hfrom
    exact ⟨rfl, hboard, rfl, rfl, fun hversion => if_neg hversion,
      fun hversion => if_neg hversion⟩
  · cases hfrom

/-- What a header that was read keeps on its way through the configuration. -/
theorem kept_of_config {header : BootImgHeader} {signatureType : Option VerifyType}
    {imageSize : Int64} {config : UnifiedConfig} {info : BootImgInfo}
    (hfrom : UnifiedConfig.fromBootImgInfo ⟨header, signatureType, imageSize⟩ = .ok config)
    (hto : UnifiedConfig.toBootImgInfo config = .ok info) :
    info.headerVersion = header.headerVersion ∧
      info.board = (if isBlank header.board then [] else header.board) ∧
      info.osVersion = header.osVersion ∧ info.osPatchLevel = header.osPatchLevel ∧
      (¬ 0 < header.headerVersion → info.recoveryDtboLength = 0) ∧
      (¬ 1 < header.headerVersion → info.dtbLength = 0) := by
  obtain ⟨hversion, hboard, hosVersion, hosPatchLevel, hdtbo, hdtb⟩ :=
    kept_of_fromBootImgInfo hfrom
  obtain ⟨hversion', hboard', hosVersion', hosPatchLevel', hdtbo', hdtb'⟩ :=
    kept_of_toBootImgInfo hto
  refine ⟨hversion'.trans hversion, hboard'.trans hboard, hosVersion'.trans hosVersion,
    hosPatchLevel'.trans hosPatchLevel, ?_, ?_⟩
  · intro h
    exact hdtbo' (hdtbo h)
  · intro h
    exact hdtb' (hdtb h)

/-- The bytes of the files that are handed over, each up to a page. -/
def dataSize (files : Files) (i : BootImgInfo) : ℕ :=
  roundUp i.pageSize.toNat (files.size (Component.path .kernel)) +
    Packer.paddedSize files i .ramdisk + Packer.paddedSize files i .second +
    Packer.paddedSize files i .recoveryDtbo + Packer.paddedSize files i .dtb

theorem accepted_after {sha1 : Bytes → Bytes} {files : Files} {i : BootImgInfo} {output : KString}
    (hset : Setting files i) (hkernel : i.kernelLength ≠ 0) :
    Accepted files (after sha1 files i) output ↔ Accepted files i output := by
  obtain ⟨hkeptVersion, -, hkeptBoard, hkeptCmdline, hkeptOsVersion, hkeptPatchLevel⟩ :=
    @after_fields sha1 files i
  have hosVersion : givenOsVersion (after sha1 files i) = givenOsVersion i := by
    rw [givenOsVersion, hkeptOsVersion]
    rfl
  have hosPatchLevel : givenOsPatchLevel (after sha1 files i) = givenOsPatchLevel i := by
    rw [givenOsPatchLevel, hkeptPatchLevel]
    rfl
  have hnat := @toNat_length_after sha1 files i hset hkernel .dtb
  have hdtb : (after sha1 files i).dtbLength ≠ 0 ∧ files.size (Component.path .dtb) ≠ 0 ↔
      i.dtbLength ≠ 0 ∧ files.size (Component.path .dtb) ≠ 0 := by
    have hzero : (after sha1 files i).dtbLength = 0 ↔
        ((after sha1 files i).length .dtb).toNat = 0 :=
      ⟨fun h => congrArg UInt32.toNat h, fun h => UInt32.toNat_inj.mp h⟩
    rw [ne_eq, hzero, hnat]
    by_cases hlength : i.dtbLength = 0
    · have habsent : i.length .dtb = 0 := hlength
      rw [if_pos habsent]
      exact iff_of_false (fun h => h.1 rfl) fun h => h.1 hlength
    · have hpresent : i.length .dtb ≠ 0 := hlength
      rw [if_neg hpresent]
      exact ⟨fun h => ⟨hlength, h.2⟩, fun h => ⟨h.2, h.2⟩⟩
  constructor
  · rintro ⟨h1, h2, h3, h4, h5, h6, h7⟩
    rw [hkeptBoard] at h2
    rw [hkeptCmdline] at h3
    rw [hosVersion] at h4
    rw [hosPatchLevel] at h5
    rw [hkeptVersion, hdtb] at h6
    exact ⟨h1, h2, h3, h4, h5, h6, h7⟩
  · rintro ⟨h1, h2, h3, h4, h5, h6, h7⟩
    rw [← hkeptBoard] at h2
    rw [← hkeptCmdline] at h3
    rw [← hosVersion] at h4
    rw [← hosPatchLevel] at h5
    rw [← hkeptVersion, ← hdtb] at h6
    exact ⟨h1, h2, h3, h4, h5, h6, h7⟩

/-- The image of the encoder is the one that the tool writes, whenever the tool writes one,
exactly when the tool refuses the arguments or the header pages agree. -/
theorem clearImage_eq_google {vm vm' : Jvm} {sha1 : Bytes → Bytes} {files : Files}
    {s : InputStream} {header : BootImgHeader} {signatureType : Option VerifyType}
    {imageSize : Int64} {config : UnifiedConfig} {info : BootImgInfo} {output : KString}
    (hsha1 : ∀ bs, (sha1 bs).length = 20) (hread : BootImgHeader.ofStream vm' s = .ok header)
    (hversion : header.headerVersion = 0 ∨ header.headerVersion = 1 ∨ header.headerVersion = 2)
    (hfrom : UnifiedConfig.fromBootImgInfo ⟨header, signatureType, imageSize⟩ = .ok config)
    (hto : UnifiedConfig.toBootImgInfo config = .ok info)
    (hpage : Packer.PageSize info.pageSize)
    (hfiles : ∀ c, info.length c ≠ 0 → ∃ data, files c.path = some data)
    (hroom : dataSize files info ≤ 67108864) :
    (∀ google, main sha1 files ((after sha1 files info).toCommandLine ++ [output]) = some google →
        Packer.clearImage vm sha1 files info = .ok google) ↔
      (Accepted files info output → Agrees files info) := by
  obtain ⟨hkeptVersion, hkeptBoard, hkeptOsVersion, hkeptPatchLevel, hdtbo, hdtb⟩ :=
    kept_of_config hfrom hto
  obtain ⟨w, htexts⟩ := exists_textsOf_of_ofStream hread
  rw [← hkeptOsVersion, ← hkeptPatchLevel] at htexts
  have hbounds := hpage.bounds
  have hkernelSize : files.size (Component.path .kernel) ≤ 67108864 := by
    have hge := le_roundUp (by omega : 0 < info.pageSize.toNat)
      (files.size (Component.path .kernel))
    unfold dataSize at hroom
    omega
  have hpadded : Packer.paddedSize files info .kernel ≤
      roundUp info.pageSize.toNat (files.size (Component.path .kernel)) := by
    unfold Packer.paddedSize
    split_ifs
    · exact Nat.zero_le _
    · exact le_rfl
  have hset : Setting files info := by
    refine ⟨by rw [hkeptVersion]; exact hversion, hpage, ⟨?_, ?_⟩, hfiles, ?_, ?_⟩
    · intro hzero
      rw [hkeptVersion] at hzero
      exact hdtbo (by rw [hzero]; decide)
    · intro hlow
      rw [hkeptVersion] at hlow
      rcases hlow with hzero | hone
      · exact hdtb (by rw [hzero]; decide)
      · exact hdtb (by rw [hone]; decide)
    · simp only [Room, Packer.components, List.map_cons, List.map_nil, List.sum_cons,
        List.sum_nil]
      unfold dataSize at hroom
      omega
    · intro hblank
      rw [hkeptBoard] at hblank ⊢
      split_ifs at hblank ⊢
      · rfl
      · contradiction
  by_cases hkernel : info.kernelLength = 0
  · have hafter : after sha1 files info = info := by
      rw [after, afterEncode, if_pos hkernel]
    have herror : ∀ google, Packer.clearImage vm sha1 files info ≠ .ok google := by
      intro google
      rw [Packer.clearImage, BootImgHeader.encode, BootImgHeader.refresh, if_pos hkernel]
      exact fun h => by cases h
    rw [hafter]
    constructor
    · intro h haccepted
      obtain ⟨v, hv⟩ := Option.ne_none_iff_exists'.mp haccepted.osVersion
      obtain ⟨p, hp⟩ := Option.ne_none_iff_exists'.mp haccepted.osPatchLevel
      exact absurd (h _ ((main_eq_some_iff hset.version hpage hset.fits
        (lt_of_le_of_lt hkernelSize (by decide))).mpr ⟨haccepted, v, p, hv, hp, rfl⟩)) (herror _)
    · intro h google hgoogle
      obtain ⟨haccepted, -⟩ := (main_eq_some_iff hset.version hpage hset.fits
        (lt_of_le_of_lt hkernelSize (by decide))).mp hgoogle
      exact absurd hkernel (h haccepted).kernel
  · obtain ⟨hafterVersion, hafterPage, -, -, hafterOsVersion, hafterPatchLevel⟩ :=
      @after_fields sha1 files info
    have hversionAfter : (after sha1 files info).headerVersion = 0 ∨
        (after sha1 files info).headerVersion = 1 ∨ (after sha1 files info).headerVersion = 2 := by
      rw [hafterVersion]
      exact hset.version
    have hpageAfter : Packer.PageSize (after sha1 files info).pageSize := by
      rw [hafterPage]
      exact hpage
    have hpresent : Present files (after sha1 files info) := by
      intro c hlength
      obtain ⟨data, hdata, hlen⟩ := matches_after hset hkernel c hlength
      exact ⟨data, hdata, hlen ▸ UInt32.toNat_lt _⟩
    have hosVersion : givenOsVersion (after sha1 files info) = givenOsVersion info := by
      rw [givenOsVersion, hafterOsVersion]
      rfl
    have hosPatchLevel : givenOsPatchLevel (after sha1 files info) = givenOsPatchLevel info := by
      rw [givenOsPatchLevel, hafterPatchLevel]
      rfl
    have hmain : ∀ google, main sha1 files ((after sha1 files info).toCommandLine ++ [output]) =
        some google ↔ _ := fun google => main_eq_some_iff hversionAfter hpageAfter hpresent
          (lt_of_le_of_lt hkernelSize (by decide))
    constructor
    · intro h haccepted
      obtain ⟨v, hv⟩ := Option.ne_none_iff_exists'.mp haccepted.osVersion
      obtain ⟨p, hp⟩ := Option.ne_none_iff_exists'.mp haccepted.osPatchLevel
      exact (clearImage_eq_google_iff hset hkernel hsha1 haccepted htexts hv hp).mp
        (h _ ((hmain _).mpr ⟨(accepted_after hset hkernel).mpr haccepted, v, p,
          hosVersion.trans hv, hosPatchLevel.trans hp, rfl⟩))
    · intro h google hgoogle
      obtain ⟨haccepted, v, p, hv, hp, rfl⟩ := (hmain google).mp hgoogle
      have haccepted' := (accepted_after hset hkernel).mp haccepted
      exact (clearImage_eq_google_iff hset hkernel hsha1 haccepted' htexts
        (hosVersion.symm.trans hv) (hosPatchLevel.symm.trans hp)).mpr (h haccepted')

/-- A digest that is always zero. -/
def sampleSha1 : Bytes → Bytes := fun _ => zeros 20

theorem length_sampleSha1 (bs : Bytes) : (sampleSha1 bs).length = 20 := length_zeros 20

/-- A kernel and a dtb. -/
def sampleFiles : Files := fun name =>
  if name = Component.path .kernel then some [0x6B]
  else if name = Component.path .dtb then some [0xD0]
  else none

theorem clearImage_eq_google_sample :
    ∃ header config info,
      BootImgHeader.ofStream ⟨true, .littleEndian⟩
        (.byteArrayInputStream (UnifiedConfig.sampleBytes 5 0x61 7)) = .ok header ∧
      UnifiedConfig.fromBootImgInfo ⟨header, some .avb, 8192⟩ = .ok config ∧
      UnifiedConfig.toBootImgInfo config = .ok info ∧
      ((∀ google, main sampleSha1 sampleFiles
            ((after sampleSha1 sampleFiles info).toCommandLine ++ [units "boot.img.google"]) =
              some google →
          Packer.clearImage ⟨true, .littleEndian⟩ sampleSha1 sampleFiles info = .ok google) ↔
        (Accepted sampleFiles info (units "boot.img.google") → Agrees sampleFiles info)) := by
  have hvalues : (do
      let header ← BootImgHeader.ofStream ⟨true, .littleEndian⟩
        (.byteArrayInputStream (UnifiedConfig.sampleBytes 5 0x61 7))
      let config ← UnifiedConfig.fromBootImgInfo ⟨header, some .avb, 8192⟩
      let info ← UnifiedConfig.toBootImgInfo config
      .ok (header.headerVersion, info.pageSize, Packer.components.map info.length)) =
        (.ok (2, 4096, [5, 0, 0, 0, 3]) : Result (UInt32 × UInt32 × List UInt32)) := by
    decide +kernel
  obtain ⟨header, hread, hvalues⟩ := bind_eq_ok.mp hvalues
  obtain ⟨config, hfrom, hvalues⟩ := bind_eq_ok.mp hvalues
  obtain ⟨info, hto, hvalues⟩ := bind_eq_ok.mp hvalues
  simp only [Except.ok.injEq, Prod.mk.injEq, Packer.components, List.map_cons, List.map_nil,
    List.cons.injEq, and_true] at hvalues
  obtain ⟨hversion, hpage, hkernel, hramdisk, hsecond, hdtbo, hdtb⟩ := hvalues
  refine ⟨header, config, info, hread, hfrom, hto, clearImage_eq_google length_sampleSha1 hread
    (Or.inr (Or.inr hversion)) hfrom hto ?_ ?_ ?_⟩
  · rw [hpage]
    exact Or.inr (Or.inl rfl)
  · intro c hlength
    cases c with
    | kernel => exact ⟨_, rfl⟩
    | ramdisk => exact absurd hramdisk hlength
    | second => exact absurd hsecond hlength
    | recoveryDtbo => exact absurd hdtbo hlength
    | dtb => exact ⟨[0xD0], by decide⟩
  · simp only [dataSize, Packer.paddedSize, hpage, hramdisk, hsecond, hdtbo, hdtb]
    decide

/-- A header of version 1 with a ramdisk of three bytes that is loaded at 0x11000000. -/
def ramdiskBytes : Bytes :=
  [Utf8.encode BootImgHeader.magic, ByteOrder.littleEndian.encode 4 5, zeros 4,
    ByteOrder.littleEndian.encode 4 3, ByteOrder.littleEndian.encode 4 0x11000000, zeros 12,
    ByteOrder.littleEndian.encode 4 2048, ByteOrder.littleEndian.encode 4 1, zeros 4, zeros 16,
    zeros 512, zeros 32, zeros 1024, zeros 12, ByteOrder.littleEndian.encode 4 1648,
    zeros 12].flatten

/-- A kernel, and a ramdisk that has become empty. -/
def emptiedFiles : Files := fun name =>
  if name = Component.path .kernel then some [0x6B]
  else if name = Component.path .ramdisk then some []
  else none

/-- The encoder keeps the load offset of a ramdisk that has become empty, the tool writes zero. -/
theorem clearImage_ramdisk_emptied :
    (do
      let header ← BootImgHeader.ofStream ⟨true, .littleEndian⟩
        (.byteArrayInputStream ramdiskBytes)
      let config ← UnifiedConfig.fromBootImgInfo ⟨header, some .avb, 8192⟩
      let info ← UnifiedConfig.toBootImgInfo config
      let image ← Packer.clearImage ⟨true, .littleEndian⟩ sampleSha1 emptiedFiles info
      .ok (slice 20 4 image, (main sampleSha1 emptiedFiles
        ((after sampleSha1 emptiedFiles info).toCommandLine ++ [units "boot.img.google"])).map
          (slice 20 4))) =
      (.ok ([0, 0, 0, 0x11], some [0, 0, 0, 0]) : Result (Bytes × Option Bytes)) := by
  decide +kernel

end Mkbootimg

end Bootimg

end BootImageEditor
