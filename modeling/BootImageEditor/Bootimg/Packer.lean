import BootImageEditor.Helper
import BootImageEditor.Bootimg.HeaderEncode

/-!
# Packing a boot image

`pack` writes the header, filled up to a page, and behind it the components that are present,
each filled up to a page in a buffer of 64 MiB. The positions that `BootImgInfo` computes from
the decoded header lead back to the components.
-/

namespace BootImageEditor

open Codec Fallible Struct3

namespace Bootimg

namespace Packer

/-- `padFile(inBF, padding)`. -/
def padFile (inBF : ByteBuffer) (padding : Int32) : Result ByteBuffer :=
  let pad := (padding - (Int32.ofNat inBF.content.length &&& (padding - 1))) &&& (padding - 1)
  if pad < 0 then .error .negativeArraySize else inBF.put (zeros pad.toInt.toNat)

/-- `writePaddedFile(inBF, srcFile, padding)`. -/
def writePaddedFile (vm : Jvm) (files : Files) (inBF : ByteBuffer) (srcFile : KString)
    (padding : UInt32) : Result ByteBuffer := do
  vm.assert (padding.toNat < intMax)
  match files srcFile with
  | none => .error .io
  | some data => do
      let bf ← inBF.put data
      padFile bf padding.toInt32

/-- A component that may be absent. -/
def writeOptional (vm : Jvm) (files : Files) (info2 : BootImgInfo) (c : Component)
    (bf : ByteBuffer) : Result ByteBuffer :=
  if 0 < info2.length c then writePaddedFile vm files bf c.path info2.pageSize else .ok bf

/-- `writeData(info2, outputFile)`: what is appended to the output. -/
def writeData (vm : Jvm) (files : Files) (info2 : BootImgInfo) : Result Bytes := do
  -- 64 MiB
  let bf ← ByteBuffer.allocate 67108864
  let bf ← writePaddedFile vm files bf (Component.path .kernel) info2.pageSize
  let bf ← writeOptional vm files info2 .ramdisk bf
  let bf ← writeOptional vm files info2 .second bf
  let bf ← writeOptional vm files info2 .recoveryDtbo bf
  let bf ← writeOptional vm files info2 .dtb bf
  .ok bf.content

/-- The header and the zeros behind it. -/
def headerPage (encodedHeader : Bytes) (pageSize : UInt32) : Result Bytes :=
  if pageSize = 0 then .error .arithmetic
  else
    let size := UInt32.ofNat encodedHeader.length
    let n := (Helper.roundToMultiple size pageSize - size).toInt32
    if n < 0 then .error .negativeArraySize else .ok (encodedHeader ++ zeros n.toInt.toNat)

/-- `pack(mkbootfsBin)` as far as the file `.clear`. -/
def clearImage (vm : Jvm) (sha1 : Bytes → Bytes) (files : Files) (info2 : BootImgInfo) :
    Result Bytes := do
  let (encodedHeader, header) ← info2.toBootImgHeader.encode vm sha1 files
  let page ← headerPage encodedHeader header.pageSize
  let data ← writeData vm files { info2 with toBootImgHeader := header }
  .ok (page ++ data)

/-! ## The buffer -/

/-- The page sizes that are chosen from. -/
def PageSize (p : UInt32) : Prop :=
  p.toNat = 2048 ∨ p.toNat = 4096 ∨ p.toNat = 8192 ∨ p.toNat = 16384

theorem PageSize.exists_two_pow {p : UInt32} (hp : PageSize p) :
    ∃ k, p.toNat = 2 ^ k ∧ 11 ≤ k ∧ k ≤ 14 := by
  rcases hp with h | h | h | h
  · exact ⟨11, h, by decide, by decide⟩
  · exact ⟨12, h, by decide, by decide⟩
  · exact ⟨13, h, by decide, by decide⟩
  · exact ⟨14, h, by decide, by decide⟩

theorem PageSize.bounds {p : UInt32} (hp : PageSize p) : 2048 ≤ p.toNat ∧ p.toNat ≤ 16384 := by
  unfold PageSize at hp
  omega

/-- The header takes one page. -/
theorem PageSize.roundUp_header {p : UInt32} (hp : PageSize p) {n : ℕ} (hn : 0 < n)
    (hle : n ≤ 2048) : roundUp p.toNat n = p.toNat := by
  obtain ⟨hlow, -⟩ := hp.bounds
  apply le_antisymm
  · exact roundUp_le (by omega) (by omega) (Nat.mod_self _)
  · exact Nat.le_of_dvd (lt_of_lt_of_le hn (le_roundUp (by omega) n)) (dvd_roundUp _ n)

/-- `padFile` puts the padding of its position. -/
theorem padFile_eq_put {p : UInt32} {k : ℕ} (hp : p.toNat = 2 ^ k) (hk : k < 31)
    (bf : ByteBuffer) (hlen : bf.content.length < 2 ^ 32) :
    padFile bf p.toInt32 = bf.put (zeros (gap p.toNat bf.content.length)) := by
  have hnat : (UInt32.ofNat bf.content.length).toNat = bf.content.length :=
    UInt32.toNat_ofNat_of_lt' hlen
  have hint := BootImgInfo.toInt_getPaddingSizeInt hp hk (UInt32.ofNat bf.content.length)
  rw [hnat, UInt32.toInt32_ofNat'] at hint
  have hpad : (p.toInt32 - (Int32.ofNat bf.content.length &&& (p.toInt32 - 1))) &&&
      (p.toInt32 - 1) =
        BootImgInfo.getPaddingSizeInt (Int32.ofNat bf.content.length) p.toInt32 := rfl
  have hpos : ¬ BootImgInfo.getPaddingSizeInt (Int32.ofNat bf.content.length) p.toInt32 < 0 := by
    rw [Int32.lt_iff_toInt_lt, hint]
    exact not_lt.mpr (Int.natCast_nonneg _)
  rw [padFile, hpad]
  simp only [if_neg hpos, hint, Int.toNat_natCast]

theorem padFile_eq {bf : ByteBuffer} {p : UInt32} (hp : PageSize p)
    (hlen : bf.content.length ≤ 67108864)
    (hroom : bf.content.length + gap p.toNat bf.content.length ≤ bf.capacity) :
    padFile bf p.toInt32 =
      .ok { bf with content := bf.content ++ zeros (gap p.toNat bf.content.length) } := by
  obtain ⟨k, hk, -, hle⟩ := hp.exists_two_pow
  rw [padFile_eq_put hk (by omega) bf (by omega), ByteBuffer.put, length_zeros, if_pos hroom]

theorem writePaddedFile_eq (vm : Jvm) {files : Files} {bf : ByteBuffer} {srcFile : KString}
    {data : Bytes} {p : UInt32} (hp : PageSize p) (hfile : files srcFile = some data)
    (haligned : bf.content.length % p.toNat = 0) (hcapacity : bf.capacity ≤ 67108864)
    (hroom : bf.content.length + roundUp p.toNat data.length ≤ bf.capacity) :
    writePaddedFile vm files bf srcFile p =
      .ok { bf with content := bf.content ++ (data ++ zeros (gap p.toNat data.length)) } := by
  have hbounds := hp.bounds
  have hpos : 0 < p.toNat := by omega
  have hsum := add_gap hpos data.length
  have hput : bf.put data = .ok { bf with content := bf.content ++ data } := by
    rw [ByteBuffer.put, if_pos (by omega)]
  have hgap : gap p.toNat (bf.content ++ data).length = gap p.toNat data.length := by
    rw [List.length_append, gap_add hpos haligned]
  have hfull : (bf.content ++ data).length ≤ 67108864 := by
    rw [List.length_append]
    omega
  have hroom' : (bf.content ++ data).length + gap p.toNat (bf.content ++ data).length ≤
      bf.capacity := by
    rw [hgap, List.length_append]
    omega
  have hpad := @padFile_eq { bf with content := bf.content ++ data } p hp hfull hroom'
  rw [writePaddedFile, Jvm.assert_of_true vm (by unfold intMax; exact decide_eq_true (by omega)),
    ok_bind, hfile]
  simp only [hput, ok_bind, hpad, hgap, List.append_assoc]

/-! ## The data -/

/-- The files hold as many bytes as the header says. -/
def Matches (files : Files) (i : BootImgInfo) : Prop :=
  ∀ c, i.length c ≠ 0 → ∃ data, files c.path = some data ∧ data.length = (i.length c).toNat

/-- The bytes of a component, none where it is absent. -/
def part (files : Files) (i : BootImgInfo) (c : Component) : Bytes :=
  if i.length c = 0 then [] else (files c.path).getD []

/-- The zeros behind a component. -/
def tail (i : BootImgInfo) (c : Component) : Bytes :=
  zeros (gap i.pageSize.toNat (i.length c).toNat)

theorem length_part {files : Files} {i : BootImgInfo} (h : Matches files i) (c : Component) :
    (part files i c).length = (i.length c).toNat := by
  unfold part
  by_cases hlength : i.length c = 0
  · rw [if_pos hlength, hlength]
    rfl
  · obtain ⟨data, hdata, hlen⟩ := h c hlength
    rw [if_neg hlength, hdata, Option.getD_some, hlen]

theorem length_part_tail {files : Files} {i : BootImgInfo} (hp : PageSize i.pageSize)
    (h : Matches files i) (c : Component) :
    (part files i c ++ tail i c).length = i.pages (i.length c) := by
  have hbounds := hp.bounds
  rw [List.length_append, length_part h, tail, length_zeros, add_gap (by omega)]
  rfl

theorem part_tail_of_absent {files : Files} {i : BootImgInfo} (hp : PageSize i.pageSize)
    {c : Component} (hlength : i.length c = 0) : part files i c ++ tail i c = [] := by
  have hbounds := hp.bounds
  have hgap : gap i.pageSize.toNat 0 = 0 := (gap_eq_zero_iff (by omega)).mpr (Nat.zero_mod _)
  have hzero : (0 : UInt32).toNat = 0 := rfl
  rw [part, if_pos hlength, tail, hlength, hzero, hgap]
  rfl

/-- A component behind an aligned content. -/
theorem writeOptional_eq (vm : Jvm) {files : Files} {i : BootImgInfo} {bf : ByteBuffer}
    {c : Component} (hp : PageSize i.pageSize) (h : Matches files i)
    (haligned : bf.content.length % i.pageSize.toNat = 0) (hcapacity : bf.capacity = 67108864)
    (hroom : bf.content.length + i.pages (i.length c) ≤ 67108864) :
    writeOptional vm files i c bf =
      .ok { bf with content := bf.content ++ (part files i c ++ tail i c) } := by
  unfold writeOptional
  by_cases hlength : i.length c = 0
  · rw [part_tail_of_absent hp hlength, List.append_nil, hlength]
    rfl
  · obtain ⟨data, hdata, hlen⟩ := h c hlength
    have hpos : 0 < i.length c := UInt32.pos_iff_ne_zero.mpr hlength
    have hroom' : bf.content.length + roundUp i.pageSize.toNat data.length ≤ bf.capacity := by
      rw [hlen, hcapacity]
      exact hroom
    rw [if_pos hpos, writePaddedFile_eq vm hp hdata haligned (by omega) hroom', part,
      if_neg hlength, hdata, Option.getD_some, tail, hlen]

/-- The content of the buffer after some components. -/
def written (files : Files) (i : BootImgInfo) (cs : List Component) : Bytes :=
  (cs.map fun c => part files i c ++ tail i c).flatten

/-- The pages of some components. -/
def pagesOf (i : BootImgInfo) (cs : List Component) : ℕ :=
  (cs.map fun c => i.pages (i.length c)).sum

theorem pagesOf_append (i : BootImgInfo) (cs : List Component) (c : Component) :
    pagesOf i (cs ++ [c]) = pagesOf i cs + i.pages (i.length c) := by
  simp [pagesOf]

theorem written_append (files : Files) (i : BootImgInfo) (cs : List Component) (c : Component) :
    written files i (cs ++ [c]) = written files i cs ++ (part files i c ++ tail i c) := by
  simp [written]

theorem length_written {files : Files} {i : BootImgInfo} (hp : PageSize i.pageSize)
    (h : Matches files i) (cs : List Component) :
    (written files i cs).length = pagesOf i cs := by
  induction cs using List.reverseRecOn with
  | nil => rfl
  | append_singleton cs c ih =>
      rw [written_append, List.length_append, ih, length_part_tail hp h, pagesOf_append]

theorem pagesOf_mod (i : BootImgInfo) (cs : List Component) :
    pagesOf i cs % i.pageSize.toNat = 0 := by
  induction cs using List.reverseRecOn with
  | nil => exact Nat.zero_mod _
  | append_singleton cs c ih =>
      rw [pagesOf_append, Nat.add_mod, ih, BootImgInfo.pages, roundUp_mod]
      exact Nat.zero_mod _

/-- One more component in the buffer. -/
theorem writeOptional_written (vm : Jvm) {files : Files} {i : BootImgInfo} {cs : List Component}
    {c : Component} (hp : PageSize i.pageSize) (h : Matches files i)
    (hroom : pagesOf i (cs ++ [c]) ≤ 67108864) :
    writeOptional vm files i c ⟨67108864, written files i cs⟩ =
      .ok ⟨67108864, written files i (cs ++ [c])⟩ := by
  have hlength := length_written hp h cs
  rw [pagesOf_append] at hroom
  rw [written_append]
  exact writeOptional_eq vm hp h (by rw [hlength, pagesOf_mod]) rfl (by rw [hlength]; exact hroom)

theorem writeKernel_written (vm : Jvm) {files : Files} {i : BootImgInfo} (hp : PageSize i.pageSize)
    {data : Bytes} (hdata : files (Component.path .kernel) = some data)
    (hlen : data.length = (i.length .kernel).toNat)
    (hroom : pagesOf i [.kernel] ≤ 67108864) :
    writePaddedFile vm files ⟨67108864, []⟩ (Component.path .kernel) i.pageSize =
      .ok ⟨67108864, written files i [.kernel]⟩ := by
  have hpages : roundUp i.pageSize.toNat data.length = pagesOf i [.kernel] := by
    rw [hlen]
    simp [pagesOf, BootImgInfo.pages]
  have hpart : part files i .kernel = data := by
    unfold part
    by_cases hlength : i.length .kernel = 0
    · rw [hlength] at hlen
      rw [if_pos hlength, List.eq_nil_of_length_eq_zero hlen]
    · rw [if_neg hlength, hdata, Option.getD_some]
  have hwritten : written files i [.kernel] =
      data ++ zeros (gap i.pageSize.toNat data.length) := by
    simp [written, hpart, tail, hlen]
  rw [writePaddedFile_eq vm hp hdata (Nat.zero_mod _) le_rfl (by simp [hpages, hroom]), hwritten]
  rfl

def components : List Component := [.kernel, .ramdisk, .second, .recoveryDtbo, .dtb]

theorem writeData_eq (vm : Jvm) {files : Files} {i : BootImgInfo} (hp : PageSize i.pageSize)
    (h : Matches files i) {data : Bytes} (hdata : files (Component.path .kernel) = some data)
    (hlen : data.length = (i.length .kernel).toNat) (hroom : pagesOf i components ≤ 67108864) :
    writeData vm files i = .ok (written files i components) := by
  have hle : ∀ cs ds : List Component, cs ++ ds = components → pagesOf i cs ≤ 67108864 := by
    intro cs ds hds
    have hsum : pagesOf i (cs ++ ds) = pagesOf i cs + pagesOf i ds := by simp [pagesOf]
    rw [hds] at hsum
    omega
  have halloc : ByteBuffer.allocate 67108864 = .ok ⟨67108864, []⟩ := rfl
  have hramdisk := @writeOptional_written vm files i [.kernel] .ramdisk hp h
    (hle _ [.second, .recoveryDtbo, .dtb] rfl)
  have hsecond := @writeOptional_written vm files i [.kernel, .ramdisk] .second hp h
    (hle _ [.recoveryDtbo, .dtb] rfl)
  have hdtbo := @writeOptional_written vm files i [.kernel, .ramdisk, .second] .recoveryDtbo hp h
    (hle _ [.dtb] rfl)
  have hdtb := @writeOptional_written vm files i [.kernel, .ramdisk, .second, .recoveryDtbo] .dtb
    hp h (hle _ [] rfl)
  simp only [List.cons_append, List.nil_append] at hramdisk hsecond hdtbo hdtb
  rw [writeData, halloc, ok_bind,
    writeKernel_written vm hp hdata hlen (hle _ [.ramdisk, .second, .recoveryDtbo, .dtb] rfl),
    ok_bind, hramdisk, ok_bind, hsecond, ok_bind, hdtbo, ok_bind, hdtb, ok_bind]
  rfl

/-! ## The image -/

theorem headerPage_eq {encodedHeader : Bytes} {p : UInt32} (hp : PageSize p)
    (hlen : encodedHeader.length = 1660) :
    headerPage encodedHeader p = .ok (encodedHeader ++ zeros (p.toNat - 1660)) := by
  have hbounds := hp.bounds
  have hne : p ≠ 0 := by
    rintro rfl
    exact absurd hbounds.1 (by decide)
  have hround : Helper.roundToMultiple (UInt32.ofNat 1660) p = p := by
    have hnat := @Helper.roundToMultiple_ofNat 1660 p.toNat (by omega) (by decide) p.toNat_lt
    rwa [hp.roundUp_header (by decide) (by decide), UInt32.ofNat_toNat] at hnat
  have hsub : (p - UInt32.ofNat 1660).toNat = p.toNat - 1660 :=
    UInt32.toNat_sub_of_le _ _ (UInt32.le_iff_toNat_le.mpr (le_trans (by decide) hbounds.1))
  have hint := toInt_toInt32_cond (p - UInt32.ofNat 1660)
  rw [hsub, if_pos (by omega)] at hint
  have hpos : ¬ (p - UInt32.ofNat 1660).toInt32 < 0 := by
    rw [Int32.lt_iff_toInt_lt, hint]
    have hzero : (0 : Int32).toInt = 0 := rfl
    omega
  rw [headerPage, if_neg hne, hlen]
  simp only [hround, if_neg hpos, hint, Int.toNat_natCast]

/-- The place of a component in the image. -/
def rank : Component → ℕ
  | .kernel => 0
  | .ramdisk => 1
  | .second => 2
  | .recoveryDtbo => 3
  | .dtb => 4

/-- What `BootImgInfo` finds in an image: the files, at page-aligned positions, one behind the
other. -/
structure Found (files : Files) (image : Bytes) (i : BootImgInfo) : Prop where
  content : ∀ c, i.length c ≠ 0 →
    (i.offset c).toInt + (i.length c).toNat ≤ image.length ∧
      files c.path = some (slice (i.offset c).toInt.toNat (i.length c).toNat image)
  aligned : ∀ c, (i.pageSize.toNat : ℤ) ∣ (i.offset c).toInt
  ordered : ∀ c d, rank c < rank d →
    (i.offset c).toInt + (i.length c).toNat ≤ (i.offset d).toInt

/-- The parts of an image. -/
def fields (files : Files) (i : BootImgInfo) (page : Bytes) : List Bytes :=
  [page, part files i .kernel, tail i .kernel, part files i .ramdisk, tail i .ramdisk,
    part files i .second, tail i .second, part files i .recoveryDtbo, tail i .recoveryDtbo,
    part files i .dtb, tail i .dtb]

theorem flatten_fields (files : Files) (i : BootImgInfo) (page : Bytes) :
    (fields files i page).flatten = page ++ written files i components := by
  simp [fields, written, components]

theorem position_dtb_le {i : BootImgInfo} (hp : PageSize i.pageSize)
    (hroom : pagesOf i components ≤ 67108864) (c : Component) :
    i.position c ≤ 16384 + 67108864 := by
  have hbounds := hp.bounds
  have hheader : i.pages 1648 = i.pageSize.toNat := hp.roundUp_header (by decide) (by decide)
  simp only [pagesOf, components, List.map_cons, List.map_nil, List.sum_cons, List.sum_nil,
    BootImgInfo.length] at hroom
  cases c <;> simp only [BootImgInfo.position] <;> omega

theorem wrapped_eq {i : BootImgInfo} (h : ∀ c, i.position c < 2 ^ 32) (c : Component) :
    i.wrapped c = i.position c := by
  have hramdisk := Nat.mod_eq_of_lt (h .ramdisk)
  have hsecond := Nat.mod_eq_of_lt (h .second)
  cases c with
  | kernel => rfl
  | ramdisk => exact hramdisk
  | second => exact hsecond
  | recoveryDtbo => rw [BootImgInfo.wrapped, hsecond, BootImgInfo.position, BootImgInfo.position]
  | dtb => rw [BootImgInfo.wrapped, hsecond, BootImgInfo.position, BootImgInfo.position]

/-- A part stands at the position of its component. -/
theorem slice_fields {files : Files} {i : BootImgInfo} {page : Bytes} (hp : PageSize i.pageSize)
    (h : Matches files i) (hpage : page.length = i.pageSize.toNat) (trailing : Bytes)
    (c : Component) :
    slice (i.position c) (i.length c).toNat ((fields files i page).flatten ++ trailing) =
      part files i c := by
  have hbounds := hp.bounds
  have hheader : i.pages 1648 = i.pageSize.toNat := hp.roundUp_header (by decide) (by decide)
  have hpages : ∀ c, (part files i c).length + (tail i c).length = i.pages (i.length c) := by
    intro c
    rw [← length_part_tail hp h c, List.length_append]
  have hkernel := hpages .kernel
  have hramdisk := hpages .ramdisk
  have hsecond := hpages .second
  have hdtbo := hpages .recoveryDtbo
  have hfield : (fields files i page)[2 * rank c + 1]? = some (part files i c) := by
    cases c <;> rfl
  have hoffset : (((fields files i page).take (2 * rank c + 1)).map List.length).sum =
      i.position c := by
    simp only [BootImgInfo.length] at hkernel hramdisk hsecond hdtbo
    cases c <;> simp [fields, rank, BootImgInfo.position] <;> omega
  have hslice := slice_flatten hfield trailing
  rwa [hoffset, length_part h] at hslice

theorem dvd_position (i : BootImgInfo) (c : Component) : i.pageSize.toNat ∣ i.position c := by
  have hpages : ∀ n, i.pageSize.toNat ∣ i.pages n := fun n => dvd_roundUp _ n.toNat
  have hkernel := hpages 1648
  have hramdisk := Nat.dvd_add hkernel (hpages i.kernelLength)
  have hsecond := Nat.dvd_add hramdisk (hpages i.ramdiskLength)
  have hdtbo := Nat.dvd_add hsecond (hpages i.secondBootloaderLength)
  cases c with
  | kernel => exact hkernel
  | ramdisk => exact hramdisk
  | second => exact hsecond
  | recoveryDtbo => exact hdtbo
  | dtb => exact Nat.dvd_add hdtbo (hpages i.recoveryDtboLength)

/-- A component ends before the next one. -/
theorem position_add_le {i : BootImgInfo} (hp : PageSize i.pageSize) {c d : Component}
    (hrank : rank c < rank d) : i.position c + (i.length c).toNat ≤ i.position d := by
  have hbounds := hp.bounds
  have hpages : ∀ n, n.toNat ≤ i.pages n := fun n => le_roundUp (by omega) n.toNat
  have hkernel := hpages i.kernelLength
  have hramdisk := hpages i.ramdiskLength
  have hsecond := hpages i.secondBootloaderLength
  have hdtbo := hpages i.recoveryDtboLength
  cases c <;> cases d <;> simp only [rank] at hrank <;>
    simp only [BootImgInfo.position, BootImgInfo.length] <;> omega

theorem found_fields {files : Files} {i : BootImgInfo} {page : Bytes} (hp : PageSize i.pageSize)
    (h : Matches files i) (hpage : page.length = i.pageSize.toNat)
    (hroom : pagesOf i components ≤ 67108864) (trailing : Bytes) :
    Found files ((fields files i page).flatten ++ trailing) i := by
  obtain ⟨k, hk, -⟩ := hp.exists_two_pow
  have hbounds := hp.bounds
  have hoffset : ∀ c, (i.offset c).toInt = i.position c := by
    intro c
    rw [BootImgInfo.toInt_offset ⟨k, hk⟩, wrapped_eq]
    intro d
    have hle := position_dtb_le hp hroom d
    omega
  constructor
  · intro c hlength
    obtain ⟨data, hdata, hlen⟩ := h c hlength
    have hpart : part files i c = data := by
      rw [part, if_neg hlength, hdata, Option.getD_some]
    have hslice := slice_fields hp h hpage trailing c
    have hne : (i.length c).toNat ≠ 0 := fun hzero => hlength (UInt32.toNat_inj.mp hzero)
    have hcount := congrArg List.length hslice
    rw [hpart, slice, List.length_take, List.length_drop, hlen] at hcount
    rw [hoffset c, Int.toNat_natCast, hslice, hpart]
    exact ⟨by omega, hdata⟩
  · intro c
    rw [hoffset c]
    exact Int.natCast_dvd_natCast.mpr (dvd_position i c)
  · intro c d hrank
    have hle := position_add_le hp hrank
    rw [hoffset c, hoffset d]
    exact_mod_cast hle

/-! ## Packing and decoding -/

/-- Components that a header of a version does not have are absent. -/
structure VersionLengths (h : BootImgHeader) : Prop where
  version_zero : h.headerVersion = 0 → h.recoveryDtboLength = 0
  version_one : h.headerVersion = 0 ∨ h.headerVersion = 1 → h.dtbLength = 0

/-- The bytes that a component takes in the buffer. -/
def paddedSize (files : Files) (i : BootImgInfo) (c : Component) : ℕ :=
  if i.length c = 0 then 0 else roundUp i.pageSize.toNat (files.size c.path)

theorem digestInput_kernel {files : Files} {name : KString} {inFiles : List (Option KString)}
    {bs : Bytes} (h : BootImgHeader.digestInput files (some name :: inFiles) = .ok bs) :
    ∃ data, files name = some data := by
  rw [BootImgHeader.digestInput] at h
  cases hdata : files name with
  | none =>
      rw [hdata] at h
      cases h
  | some data => exact ⟨data, rfl⟩

/-- Where an image id is computed there is a kernel. -/
theorem kernel_of_imageId {sha1 : Bytes → Bytes} {files : Files} {h : BootImgHeader} {hash : Bytes}
    (hkernel : h.kernelLength ≠ 0) (hid : h.imageId sha1 files = .ok hash) :
    ∃ data, files (Component.path .kernel) = some data := by
  have hparam : h.param .kernel = some (Component.path .kernel) := if_neg hkernel
  have hinput : ∀ {inFiles : List (Option KString)},
      BootImgHeader.hashFileAndSize sha1 files (h.param .kernel :: inFiles) = .ok hash →
        ∃ data, files (Component.path .kernel) = some data := by
    intro inFiles hhash
    rw [BootImgHeader.hashFileAndSize, hparam] at hhash
    cases hdigest : BootImgHeader.digestInput files (some (Component.path .kernel) :: inFiles) with
    | error e =>
        rw [hdigest] at hhash
        cases hhash
    | ok bs => exact digestInput_kernel hdigest
  unfold BootImgHeader.imageId at hid
  split_ifs at hid
  · exact hinput hid
  · exact hinput hid
  · exact hinput hid

theorem VersionLengths.refresh {sha1 : Bytes → Bytes} {files : Files} {h h' : BootImgHeader}
    (hlengths : VersionLengths h) (hrefresh : h.refresh sha1 files = .ok h') :
    VersionLengths h' := by
  obtain ⟨-, offset, hash, -, -, rfl⟩ := BootImgHeader.refresh_eq_ok hrefresh
  exact ⟨fun hversion => BootImgHeader.fileLength_eq_zero (hlengths.version_zero hversion),
    fun hversion => BootImgHeader.fileLength_eq_zero (hlengths.version_one hversion)⟩

/-- The decoded header has the lengths of the header that was packed. -/
theorem length_decodedAs {h : BootImgHeader} (hlengths : VersionLengths h)
    (hversion : h.headerVersion = 0 ∨ h.headerVersion = 1 ∨ h.headerVersion = 2)
    (hash : Bytes) (osNPatch headerSize : UInt32) (c : Component) :
    (h.decodedAs hash osNPatch headerSize).length c = h.length c := by
  have hzero : ¬ 0 < h.headerVersion → h.headerVersion = 0 := by
    rcases hversion with hv | hv | hv <;> rw [hv] <;> decide
  have hone : ¬ 1 < h.headerVersion → h.headerVersion = 0 ∨ h.headerVersion = 1 := by
    rcases hversion with hv | hv | hv <;> rw [hv] <;> decide
  cases c with
  | kernel => rfl
  | ramdisk => rfl
  | second => rfl
  | recoveryDtbo =>
      exact ite_eq_left_iff.mpr fun hnot => (hlengths.version_zero (hzero hnot)).symm
  | dtb => exact ite_eq_left_iff.mpr fun hnot => (hlengths.version_one (hone hnot)).symm

/-- An image is found by what the lengths and the page size of the header say. -/
theorem Found.of_lengths {files : Files} {image : Bytes} {i j : BootImgInfo}
    (h : Found files image i) (hpage : j.pageSize = i.pageSize)
    (hlengths : ∀ c, j.length c = i.length c) : Found files image j := by
  have hkernel : j.kernelLength = i.kernelLength := hlengths .kernel
  have hramdisk : j.ramdiskLength = i.ramdiskLength := hlengths .ramdisk
  have hsecond : j.secondBootloaderLength = i.secondBootloaderLength := hlengths .second
  have hdtbo : j.recoveryDtboLength = i.recoveryDtboLength := hlengths .recoveryDtbo
  have hoffset : ∀ c, j.offset c = i.offset c := by
    intro c
    cases c <;>
      simp only [BootImgInfo.offset, BootImgInfo.kernelPosition, BootImgInfo.ramdiskPosition,
        BootImgInfo.secondBootloaderPosition, BootImgInfo.recoveryDtboPosition,
        BootImgInfo.dtbPosition, hpage, hkernel, hramdisk, hsecond, hdtbo]
  constructor
  · intro c hlength
    rw [hlengths c] at hlength ⊢
    rw [hoffset c]
    exact h.content c hlength
  · intro c
    rw [hpage, hoffset c]
    exact h.aligned c
  · intro c d hrank
    rw [hlengths c, hoffset c, hoffset d]
    exact h.ordered c d hrank

/-- The lengths of a refreshed header are the sizes of the files, where these fit the buffer. -/
theorem toNat_length_refresh {sha1 : Bytes → Bytes} {files : Files} {info2 : BootImgInfo}
    {h' : BootImgHeader} (hp : PageSize info2.pageSize)
    (hroom : (components.map (paddedSize files info2)).sum ≤ 67108864)
    (hrefresh : info2.toBootImgHeader.refresh sha1 files = .ok h') (c : Component) :
    (h'.length c).toNat = if info2.length c = 0 then 0 else files.size c.path := by
  have hbounds := hp.bounds
  have hmem : c ∈ components := by cases c <;> decide
  have hle : paddedSize files info2 c ≤ 67108864 :=
    le_trans (List.le_sum_of_mem (List.mem_map_of_mem hmem)) hroom
  have hround := le_roundUp (by omega : 0 < info2.pageSize.toNat) (files.size c.path)
  have hlength : h'.length c =
      if info2.length c = 0 then 0 else UInt32.ofNat (files.size c.path) := by
    rw [BootImgHeader.length_refresh hrefresh, BootImgHeader.fileLength]
    cases c <;> rfl
  unfold paddedSize at hle
  rw [hlength]
  by_cases hzero : info2.length c = 0
  · rw [if_pos hzero, if_pos hzero]
    rfl
  · rw [if_neg hzero] at hle
    rw [if_neg hzero, if_neg hzero]
    exact UInt32.toNat_ofNat_of_lt' (by simp only [UInt32.size]; omega)

/-- A header with the sizes of the files matches them. -/
theorem matches_of_sizes {files : Files} {info2 i : BootImgInfo}
    (h : ∀ c, (i.length c).toNat = if info2.length c = 0 then 0 else files.size c.path) :
    Matches files i := by
  intro c hne
  have hcount := h c
  have hpos : (i.length c).toNat ≠ 0 := fun hzero => hne (UInt32.toNat_inj.mp hzero)
  by_cases hzero : info2.length c = 0
  · rw [if_pos hzero] at hcount
    exact absurd hcount hpos
  · rw [if_neg hzero] at hcount
    cases hdata : files c.path with
    | none =>
        rw [Files.size, hdata] at hcount
        exact absurd hcount hpos
    | some data =>
        rw [Files.size, hdata] at hcount
        exact ⟨data, rfl, hcount.symm⟩

/-- The pages of the components are the sizes that were padded. -/
theorem pagesOf_of_sizes {files : Files} {info2 i : BootImgInfo} (hp : PageSize info2.pageSize)
    (hpage : i.pageSize = info2.pageSize)
    (h : ∀ c, (i.length c).toNat = if info2.length c = 0 then 0 else files.size c.path)
    (cs : List Component) : pagesOf i cs = (cs.map (paddedSize files info2)).sum := by
  have hsame : (fun c => i.pages (i.length c)) = paddedSize files info2 := by
    funext c
    have hzero : roundUp info2.pageSize.toNat 0 = 0 :=
      roundUp_eq_self (by have hbounds := hp.bounds; omega) (Nat.zero_mod _)
    rw [BootImgInfo.pages, h c, hpage, paddedSize]
    by_cases habsent : info2.length c = 0
    · rw [if_pos habsent, if_pos habsent, hzero]
    · rw [if_neg habsent, if_neg habsent]
  rw [pagesOf, hsame]

/-- Whatever is packed is found: the image is written when its header is encoded and its
components fit the buffer, and the header decoded from it has the size of every component that
was present and leads to its bytes. -/
theorem clearImage_found {vm vm' : Jvm} (hvm : vm'.assertionsEnabled = false)
    {sha1 : Bytes → Bytes} {files : Files} {info2 : BootImgInfo} {bs : Bytes} {h' : BootImgHeader}
    (hpage : PageSize info2.pageSize) (hlengths : VersionLengths info2.toBootImgHeader)
    (hroom : (components.map (paddedSize files info2)).sum ≤ 67108864)
    (hencode : info2.toBootImgHeader.encode vm sha1 files = .ok (bs, h')) :
    ∃ image, clearImage vm sha1 files info2 = .ok image ∧
      ∀ (s : InputStream) (trailing : Bytes), s.rest = image ++ trailing →
        ∃ decoded, BootImgHeader.ofStream vm' s = .ok decoded ∧
          (∀ c, (decoded.length c).toNat =
            if info2.length c = 0 then 0 else files.size c.path) ∧
          ∀ signatureType imageSize,
            Found files (image ++ trailing) ⟨decoded, signatureType, imageSize⟩ := by
  obtain ⟨hrefresh, hash, osNPatch, -, hpack⟩ := BootImgHeader.encode_eq_ok hencode
  obtain ⟨hkernel, offset, hash', -, hid, hobject⟩ := BootImgHeader.refresh_eq_ok hrefresh
  have hkept : h'.headerVersion = info2.headerVersion ∧ h'.pageSize = info2.pageSize := by
    rw [hobject]
    exact ⟨rfl, rfl⟩
  have hversion := BootImgHeader.version_of_imageId hid
  rw [← hkept.1] at hversion
  obtain ⟨i, hi⟩ : ∃ i : BootImgInfo, i = { info2 with toBootImgHeader := h' } := ⟨_, rfl⟩
  have hpageSize : i.pageSize = info2.pageSize := by
    rw [hi]
    exact hkept.2
  have hp : PageSize i.pageSize := by rwa [hpageSize]
  have hlength : ∀ c, i.length c = h'.length c := by
    intro c
    rw [hi]
    cases c <;> rfl
  have hnat : ∀ c, (i.length c).toNat =
      if info2.length c = 0 then 0 else files.size c.path := by
    intro c
    rw [hlength c, toNat_length_refresh hpage hroom hrefresh c]
  have hmatches := matches_of_sizes hnat
  have hpages : pagesOf i components ≤ 67108864 := by
    rw [pagesOf_of_sizes hpage hpageSize hnat]
    exact hroom
  obtain ⟨data, hdata⟩ := kernel_of_imageId hkernel hid
  have hpresent : info2.length .kernel ≠ 0 := hkernel
  have hdataLength : data.length = (i.length .kernel).toNat := by
    rw [hnat .kernel, if_neg hpresent, Files.size, hdata, Option.getD_some]
  have hbs : bs.length = 1660 := Avb.length_of_packFormat (BootImgHeader.new_formatString vm) rfl
    (by decide) (BootImgHeader.allFill_arguments h' hash osNPatch) hpack
  have hheader := headerPage_eq hp hbs
  have hwritten := writeData_eq vm hp hmatches hdata hdataLength hpages
  have hpageLength : (bs ++ zeros (i.pageSize.toNat - 1660)).length = i.pageSize.toNat := by
    have hbounds := hp.bounds
    rw [List.length_append, length_zeros, hbs]
    omega
  refine ⟨bs ++ zeros (i.pageSize.toNat - 1660) ++ written files i components, ?_, ?_⟩
  · rw [clearImage, hencode, ok_bind]
    simp only [← hi]
    rw [hkept.2, ← hpageSize, hheader, ok_bind, hwritten, ok_bind]
  · intro s trailing hrest
    rw [List.append_assoc, List.append_assoc] at hrest
    obtain ⟨board, cmdline, headerSize, hread⟩ :=
      BootImgHeader.ofStream_arguments_texts hvm hpack hversion hrest
    have hdecoded : ∀ c, ({ h' with board, cmdline }.decodedAs (extend 32 hash) osNPatch.toUInt32
        headerSize).length c = i.length c := by
      intro c
      have hrefreshed := hlengths.refresh hrefresh
      rw [@length_decodedAs { h' with board, cmdline }
        ⟨hrefreshed.version_zero, hrefreshed.version_one⟩ hversion, hlength c]
      cases c <;> rfl
    refine ⟨_, hread, fun c => by rw [hdecoded c, hnat c], fun signatureType imageSize => ?_⟩
    have hfound := found_fields hp hmatches hpageLength hpages trailing
    rw [flatten_fields] at hfound
    refine hfound.of_lengths ?_ ?_
    · rw [hpageSize, ← hkept.2]
      rfl
    · intro c
      rw [← hdecoded c]
      cases c <;> rfl

theorem clearImage_found_fiveFiles :
    ∃ image, clearImage ⟨true, .littleEndian⟩ BootImgHeader.fiveFilesSha1 BootImgHeader.fiveFiles
        { toBootImgHeader := BootImgHeader.fiveFilesHeader } = .ok image ∧
      ∀ (s : InputStream) (trailing : Bytes), s.rest = image ++ trailing →
        ∃ decoded, BootImgHeader.ofStream ⟨false, .littleEndian⟩ s = .ok decoded ∧
          (∀ c, (decoded.length c).toNat = if BootImgHeader.fiveFilesHeader.length c = 0 then 0
            else BootImgHeader.fiveFiles.size c.path) ∧
          ∀ signatureType imageSize, Found BootImgHeader.fiveFiles (image ++ trailing)
            ⟨decoded, signatureType, imageSize⟩ := by
  have hreturns : (BootImgHeader.fiveFilesHeader.encode ⟨true, .littleEndian⟩
      BootImgHeader.fiveFilesSha1 BootImgHeader.fiveFiles).map (fun p => p.1.length) =
        .ok 1660 := by decide +kernel
  have hlengths : VersionLengths BootImgHeader.fiveFilesHeader := by constructor <;> decide
  cases hencode : BootImgHeader.fiveFilesHeader.encode ⟨true, .littleEndian⟩
      BootImgHeader.fiveFilesSha1 BootImgHeader.fiveFiles with
  | error e =>
      rw [hencode] at hreturns
      cases hreturns
  | ok p => exact clearImage_found rfl (Or.inl rfl) hlengths (by decide) hencode

end Packer

end Bootimg

end BootImageEditor
