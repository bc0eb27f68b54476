import BootImageEditor.Library.Align
import BootImageEditor.Library.Segments
import BootImageEditor.Struct3.RoundTrip
import BootImageEditor.UnifiedConfig

/-!
# Extracting the parts of a boot image

`extractBootImg` copies the kernel, the ramdisk and the other parts of an image into files, each
from the position that the lengths before it add up to. The positions are 32-bit sums as far as
the second bootloader, and only an assertion compares the bytes that were read with the length of
the part, so a part can come from a wrapped position, or end with bytes that are not in the image.
-/

namespace BootImageEditor

open Codec Fallible Struct3

namespace Bootimg

/-- The work directory. -/
abbrev Files := KString → Option Bytes

def Files.write (files : Files) (name : KString) (data : Bytes) : Files :=
  fun other => if other = name then some data else files other

inductive Component where
  | kernel
  | ramdisk
  | second
  | recoveryDtbo
  | dtb
  deriving DecidableEq, Repr

namespace Component

/-- The file of a component. -/
def path : Component → KString
  | kernel => ({} : UnifiedConfig.ParamConfig).kernel
  | ramdisk => ({} : UnifiedConfig.ParamConfig).ramdisk
  | second => ({} : UnifiedConfig.ParamConfig).second
  | recoveryDtbo => ({} : UnifiedConfig.ParamConfig).dtbo
  | dtb => ({} : UnifiedConfig.ParamConfig).dtb

theorem path_inj {c d : Component} (h : c.path = d.path) : c = d := by
  revert h
  cases c <;> cases d <;> decide

end Component

namespace BootImgInfo

def length (i : BootImgInfo) : Component → UInt32
  | .kernel => i.kernelLength
  | .ramdisk => i.ramdiskLength
  | .second => i.secondBootloaderLength
  | .recoveryDtbo => i.recoveryDtboLength
  | .dtb => i.dtbLength

/-- The position of a component, `toLong()`. -/
def offset (i : BootImgInfo) : Component → Int64
  | .kernel => i.kernelPosition.toUInt64.toInt64
  | .ramdisk => i.ramdiskPosition.toUInt64.toInt64
  | .second => i.secondBootloaderPosition.toUInt64.toInt64
  | .recoveryDtbo => i.recoveryDtboPosition.toInt64
  | .dtb => i.dtbPosition.toInt64

end BootImgInfo

/-- `Helper.extractFile(fileName, outImgName, offset, length)`. The output file is opened without
truncating it. -/
def extractFile (vm : Jvm) (image : Bytes) (outImgName : KString) (offset : Int64)
    (length : Int32) (files : Files) : Result Files :=
  if length = 0 then .ok files
  else if offset < 0 then .error .io
  else if length < 0 then .error .negativeArraySize
  else do
    let (count, data, _) := (InputStream.mk .file image offset.toInt.toNat).read length.toInt.toNat
    vm.assert (decide ((length.toInt : ℤ) = count))
    .ok (files.write outImgName (data ++ ((files outImgName).getD []).drop data.length))

/-- The steps that hand an extracted file to the kernel extractor, to `gunzip` and `cpio`, and to
`dtc`. They may fail; the files they write are taken to have other names than those of the
components. -/
structure Tools where
  parseKernelInfo : Files → Result Unit
  unpackRamdisk : Files → Result Unit
  decompile : Files → Result Unit

/-- One component of the image. -/
def extractComponent (vm : Jvm) (image : Bytes) (info : BootImgInfo) (c : Component)
    (files : Files) : Result Files :=
  extractFile vm image c.path (info.offset c) (info.length c).toInt32 files

/-- A component that may be absent, and the step after it. -/
def extractOptional (vm : Jvm) (after : Files → Result Unit) (image : Bytes)
    (info : BootImgInfo) (c : Component) (files : Files) : Result Files :=
  if 0 < info.length c then do
    let files ← extractComponent vm image info c files
    after files
    .ok files
  else .ok files

/-- `extractBootImg(fileName, info2)`. -/
def extractBootImg (vm : Jvm) (tools : Tools) (image : Bytes) (info : BootImgInfo)
    (files : Files) : Result Files :=
  if info.kernelLength = 0 then .error (.runtime "bad boot image: no kernel found")
  else do
    let files ← extractComponent vm image info .kernel files
    tools.parseKernelInfo files
    let files ← extractOptional vm tools.unpackRamdisk image info .ramdisk files
    let files ← extractOptional vm (fun _ => .ok ()) image info .second files
    let files ← extractOptional vm (fun _ => .ok ()) image info .recoveryDtbo files
    extractOptional vm tools.decompile image info .dtb files

/-! ## Positions -/

namespace BootImgInfo

/-- The page size is a power of two. -/
def PowerPage (i : BootImgInfo) : Prop := ∃ k, i.pageSize.toNat = 2 ^ k

/-- The pages of a part. -/
def pages (i : BootImgInfo) (length : UInt32) : ℕ := roundUp i.pageSize.toNat length.toNat

/-- The page-aligned position of a component, without limits. -/
def position (i : BootImgInfo) : Component → ℕ
  | .kernel => i.pages 1648
  | .ramdisk => i.pages 1648 + i.pages i.kernelLength
  | .second => i.pages 1648 + i.pages i.kernelLength + i.pages i.ramdiskLength
  | .recoveryDtbo =>
      i.pages 1648 + i.pages i.kernelLength + i.pages i.ramdiskLength +
        i.pages i.secondBootloaderLength
  | .dtb =>
      i.pages 1648 + i.pages i.kernelLength + i.pages i.ramdiskLength +
        i.pages i.secondBootloaderLength + i.pages i.recoveryDtboLength

/-- The position as it is computed: the sum up to the second bootloader has 32 bits. -/
def wrapped (i : BootImgInfo) : Component → ℕ
  | .kernel => i.position .kernel
  | .ramdisk => i.position .ramdisk % 2 ^ 32
  | .second => i.position .second % 2 ^ 32
  | .recoveryDtbo => i.position .second % 2 ^ 32 + i.pages i.secondBootloaderLength
  | .dtb =>
      i.position .second % 2 ^ 32 + i.pages i.secondBootloaderLength +
        i.pages i.recoveryDtboLength

theorem toNat_and_pred {n p : UInt32} {k : ℕ} (hp : p.toNat = 2 ^ k) :
    (n &&& (p - 1)).toNat = n.toNat % 2 ^ k := by
  have hpos : 1 ≤ p.toNat := by
    rw [hp]
    exact Nat.one_le_two_pow
  have hone : (1 : UInt32) ≤ p := UInt32.le_iff_toNat_le.mpr hpos
  have hpred : (p - 1).toNat = 2 ^ k - 1 := by
    rw [UInt32.toNat_sub_of_le _ _ hone, hp]
    rfl
  rw [UInt32.toNat_and, hpred, Nat.and_two_pow_sub_one_eq_mod]

/-- The padding behind a part. -/
theorem toNat_getPaddingSize {p : UInt32} {k : ℕ} (hp : p.toNat = 2 ^ k) (n : UInt32) :
    (getPaddingSize n p).toNat = gap p.toNat n.toNat := by
  have hpos : 0 < 2 ^ k := Nat.two_pow_pos k
  have hlow := toNat_and_pred hp (n := n)
  have hlt := Nat.mod_lt n.toNat hpos
  have hle : n &&& (p - 1) ≤ p := by
    rw [UInt32.le_iff_toNat_le, hlow, hp]
    omega
  rw [getPaddingSize, toNat_and_pred hp, UInt32.toNat_sub_of_le _ _ hle, hlow, hp,
    gap_eq_mod hpos]

theorem page_pos {p : UInt32} {k : ℕ} (hp : p.toNat = 2 ^ k) : 0 < p.toNat := by
  rw [hp]
  exact Nat.two_pow_pos k

theorem page_le {p : UInt32} {k : ℕ} (hp : p.toNat = 2 ^ k) (hk : k < 31) : p.toNat ≤ 2 ^ 30 := by
  rw [hp]
  exact Nat.pow_le_pow_right (by norm_num) (by omega)

/-- The signed mask has the bits of the unsigned one, and is not negative. -/
theorem toInt_getPaddingSizeInt {p : UInt32} {k : ℕ} (hp : p.toNat = 2 ^ k) (hk : k < 31)
    (n : UInt32) : (getPaddingSizeInt n.toInt32 p.toInt32).toInt = gap p.toNat n.toNat := by
  have hbits : getPaddingSizeInt n.toInt32 p.toInt32 = (getPaddingSize n p).toInt32 := rfl
  have hpos := page_pos hp
  have hlt := gap_lt hpos n.toNat
  have hle := page_le hp hk
  rw [hbits, toInt_toInt32_cond, toNat_getPaddingSize hp, if_pos (by omega)]

theorem pages_lt (i : BootImgInfo) (n : UInt32) : i.pages n < 2 ^ 33 := by
  have hlt := n.toNat_lt
  have hpage := i.pageSize.toNat_lt
  unfold pages
  by_cases hpos : 0 < i.pageSize.toNat
  · have hround := roundUp_lt hpos n.toNat
    omega
  · have hzero : i.pageSize.toNat = 0 := by omega
    rw [hzero, roundUp, Nat.mul_zero]
    omega

theorem toNat_kernelPosition {i : BootImgInfo} (hpage : i.PowerPage) :
    i.kernelPosition.toNat = i.pages 1648 := by
  obtain ⟨k, hk⟩ := hpage
  have hpad : (getPaddingSize 1648 i.pageSize).toNat = gap i.pageSize.toNat 1648 :=
    toNat_getPaddingSize hk 1648
  have hpos := page_pos hk
  have hsum := add_gap hpos 1648
  have hround := roundUp_lt hpos 1648
  have hhalf : i.pageSize.toNat ≤ 2 ^ 31 := by
    have hlt := i.pageSize.toNat_lt
    rw [hk] at hlt ⊢
    have hexp : k < 32 := (Nat.pow_lt_pow_iff_right (by decide)).mp hlt
    exact Nat.pow_le_pow_right (by decide) (by omega)
  have hdef : i.kernelPosition = getPaddingSize 1648 i.pageSize + 1648 := rfl
  have hlit : (1648 : UInt32).toNat = 1648 := rfl
  have hpages : i.pages 1648 = roundUp i.pageSize.toNat 1648 := rfl
  rw [hdef, UInt32.toNat_add, hpad, hlit, hpages]
  omega

theorem pages_eq {i : BootImgInfo} (hpage : i.PowerPage) (n : UInt32) :
    n.toNat + (getPaddingSize n i.pageSize).toNat = i.pages n := by
  obtain ⟨k, hk⟩ := hpage
  have hpos := page_pos hk
  rw [toNat_getPaddingSize hk, add_gap hpos]
  rfl

theorem toNat_ramdiskPosition {i : BootImgInfo} (hpage : i.PowerPage) :
    i.ramdiskPosition.toNat = i.position .ramdisk % 2 ^ 32 := by
  have hkernel := toNat_kernelPosition hpage
  have hpages := pages_eq hpage i.kernelLength
  rw [ramdiskPosition, UInt32.toNat_add, UInt32.toNat_add, hkernel, position]
  omega

theorem toNat_secondBootloaderPosition {i : BootImgInfo} (hpage : i.PowerPage) :
    i.secondBootloaderPosition.toNat = i.position .second % 2 ^ 32 := by
  have hramdisk := toNat_ramdiskPosition hpage
  have hpages := pages_eq hpage i.ramdiskLength
  rw [secondBootloaderPosition, UInt32.toNat_add, UInt32.toNat_add, hramdisk, position, position]
  omega

theorem toNat_recoveryDtboPosition {i : BootImgInfo} (hpage : i.PowerPage) :
    i.recoveryDtboPosition.toNat =
      i.position .second % 2 ^ 32 + i.pages i.secondBootloaderLength := by
  have hsecond := toNat_secondBootloaderPosition hpage
  have hpages := pages_eq hpage i.secondBootloaderLength
  have hlt := i.pages_lt i.secondBootloaderLength
  rw [recoveryDtboPosition, UInt64.toNat_add, UInt64.toNat_add, UInt32.toNat_toUInt64,
    UInt32.toNat_toUInt64, UInt32.toNat_toUInt64, hsecond]
  omega

theorem toNat_dtbPosition {i : BootImgInfo} (hpage : i.PowerPage) :
    i.dtbPosition.toNat = i.position .second % 2 ^ 32 + i.pages i.secondBootloaderLength +
      i.pages i.recoveryDtboLength := by
  have hdtbo := toNat_recoveryDtboPosition hpage
  have hpages := pages_eq hpage i.recoveryDtboLength
  have hlt := i.pages_lt i.secondBootloaderLength
  have hlt' := i.pages_lt i.recoveryDtboLength
  rw [dtbPosition, UInt64.toNat_add, UInt64.toNat_add, UInt32.toNat_toUInt64,
    UInt32.toNat_toUInt64, hdtbo]
  omega

theorem toInt_toInt64_of_lt {x : UInt64} (h : x.toNat < 2 ^ 63) : x.toInt64.toInt = x.toNat := by
  have hint : x.toInt64.toInt = x.toBitVec.toInt := rfl
  have hnat : x.toBitVec.toNat = x.toNat := rfl
  rw [hint, BitVec.toInt_eq_toNat_of_lt (by omega), hnat]

/-- The position that is sought. -/
theorem toInt_offset {i : BootImgInfo} (hpage : i.PowerPage) (c : Component) :
    (i.offset c).toInt = i.wrapped c := by
  have hword : ∀ n : UInt32, n.toUInt64.toInt64.toInt = n.toNat := by
    intro n
    have hlt := n.toNat_lt
    rw [toInt_toInt64_of_lt (by rw [UInt32.toNat_toUInt64]; omega), UInt32.toNat_toUInt64]
  have hlt := i.pages_lt i.secondBootloaderLength
  have hlt' := i.pages_lt i.recoveryDtboLength
  cases c with
  | kernel => rw [offset, hword, toNat_kernelPosition hpage, wrapped, position]
  | ramdisk => rw [offset, hword, toNat_ramdiskPosition hpage, wrapped]
  | second => rw [offset, hword, toNat_secondBootloaderPosition hpage, wrapped]
  | recoveryDtbo =>
      have hnat := toNat_recoveryDtboPosition hpage
      rw [offset, toInt_toInt64_of_lt (by omega), hnat, wrapped]
  | dtb =>
      have hnat := toNat_dtbPosition hpage
      rw [offset, toInt_toInt64_of_lt (by omega), hnat, wrapped]

/-- Wrapping only moves a position back. -/
theorem wrapped_le (i : BootImgInfo) (c : Component) : i.wrapped c ≤ i.position c := by
  have hmod := Nat.mod_le (i.position .ramdisk) (2 ^ 32)
  have hmod' := Nat.mod_le (i.position .second) (2 ^ 32)
  cases c with
  | kernel => exact le_refl _
  | ramdisk => exact hmod
  | second => exact hmod'
  | recoveryDtbo | dtb =>
      simp only [wrapped, position] at hmod' ⊢
      omega

end BootImgInfo

/-! ## One file -/

theorem read_eq_extend (s : InputStream) (n : ℕ) :
    (s.read n).2.1 = extend n (s.rest.take n) := by
  unfold InputStream.read
  by_cases hzero : n = 0
  · rw [if_pos hzero, hzero]
    rfl
  · rw [if_neg hzero]
    by_cases hrest : s.rest = []
    · rw [if_pos hrest, hrest]
      simp [extend]
    · rw [if_neg hrest]
      rfl

/-- What is written for a component: its bytes as far as the image has them, and zeros. -/
def copied (image : Bytes) (i : BootImgInfo) (c : Component) : Bytes :=
  extend (i.length c).toNat (slice (i.wrapped c) (i.length c).toNat image)

/-- The work directory after a component, if it is present. -/
def extracted (image : Bytes) (i : BootImgInfo) (c : Component) (files : Files) : Files :=
  if i.length c = 0 then files else files.write c.path (copied image i c)

/-- Without assertions a component that is extracted is copied, whatever the image holds. -/
theorem extractComponent_eq_ok {vm : Jvm} {image : Bytes} {i : BootImgInfo} {c : Component}
    {files files' : Files} (hpage : i.PowerPage) (hnew : files c.path = none)
    (h : extractComponent vm image i c files = .ok files') :
    files' = extracted image i c files := by
  have hint := toInt_toInt32_cond (i.length c)
  have hlt := (i.length c).toNat_lt
  have hzero : (0 : Int32).toInt = 0 := rfl
  unfold extractComponent extractFile at h
  unfold extracted
  by_cases hlen : i.length c = 0
  · rw [if_pos (by rw [hlen]; rfl)] at h
    cases h
    rw [if_pos hlen]
  · rw [if_neg hlen]
    have hne : (i.length c).toNat ≠ 0 := fun h => hlen (UInt32.toNat_inj.mp h)
    have hne' : ¬ (i.length c).toInt32 = 0 := by
      intro heq
      rw [heq, hzero] at hint
      split at hint <;> omega
    rw [if_neg hne'] at h
    obtain ⟨-, h⟩ := ite_error_eq_ok_iff.mp h
    obtain ⟨hpos, h⟩ := ite_error_eq_ok_iff.mp h
    rw [Int32.not_lt, Int32.le_iff_toInt_le, hzero] at hpos
    have hnat : (i.length c).toInt32.toInt.toNat = (i.length c).toNat := by
      split at hint <;> omega
    obtain ⟨⟨count, data, rest⟩, hread⟩ : ∃ r, (InputStream.mk .file image
      (i.offset c).toInt.toNat).read (i.length c).toInt32.toInt.toNat = r := ⟨_, rfl⟩
    rw [hread] at h
    obtain ⟨u, -, h⟩ := bind_eq_ok.mp h
    cases h
    have hdata : data = copied image i c := by
      have hsame := congrArg (fun r => r.2.1) hread
      simp only [read_eq_extend] at hsame
      rw [← hsame, hnat, BootImgInfo.toInt_offset hpage, Int.toNat_natCast]
      rfl
    rw [hnew, Option.getD_none, List.drop_nil, List.append_nil, hdata]

theorem extracted_of_absent {image : Bytes} {i : BootImgInfo} {c : Component} {files : Files}
    (h : ¬ 0 < i.length c) : extracted image i c files = files := by
  rw [UInt32.not_lt, UInt32.le_iff_toNat_le] at h
  exact if_pos (UInt32.toNat_inj.mp (Nat.le_zero.mp h))

theorem extracted_apply {image : Bytes} {i : BootImgInfo} {c : Component} {files : Files}
    (d : Component) :
    extracted image i c files d.path =
      if i.length c ≠ 0 ∧ d = c then some (copied image i c) else files d.path := by
  unfold extracted Files.write
  by_cases hlen : i.length c = 0
  · rw [if_pos hlen, if_neg (fun h => h.1 hlen)]
  · rw [if_neg hlen]
    by_cases hd : d = c
    · subst hd
      simp [hlen]
    · have hpath : ¬ d.path = c.path := fun h => hd (Component.path_inj h)
      have hother : ¬ (i.length c ≠ 0 ∧ d = c) := fun h => hd h.2
      rw [if_neg hother]
      exact if_neg hpath

theorem extractOptional_eq_ok {vm : Jvm} {after : Files → Result Unit} {image : Bytes}
    {i : BootImgInfo} {c : Component} {files files' : Files} (hpage : i.PowerPage)
    (hnew : files c.path = none) (h : extractOptional vm after image i c files = .ok files') :
    files' = extracted image i c files := by
  unfold extractOptional at h
  by_cases hlen : 0 < i.length c
  · rw [if_pos hlen] at h
    obtain ⟨g, hg, h⟩ := bind_eq_ok.mp h
    obtain ⟨u, -, h⟩ := bind_eq_ok.mp h
    cases h
    exact extractComponent_eq_ok hpage hnew hg
  · rw [if_neg hlen] at h
    cases h
    exact (extracted_of_absent hlen).symm

/-! ## The whole image -/

def noFiles : Files := fun _ => none

/-- The components in the order in which they are extracted, and the steps after some of them. -/
theorem extractBootImg_eq_ok {vm : Jvm} {tools : Tools} {image : Bytes} {i : BootImgInfo}
    {files : Files} (hpage : i.PowerPage)
    (h : extractBootImg vm tools image i noFiles = .ok files) :
    i.kernelLength ≠ 0 ∧
      files = extracted image i .dtb (extracted image i .recoveryDtbo
        (extracted image i .second (extracted image i .ramdisk
          (extracted image i .kernel noFiles)))) := by
  obtain ⟨hkernel, h⟩ := ite_error_eq_ok_iff.mp h
  obtain ⟨files₁, h₁, h⟩ := bind_eq_ok.mp h
  obtain ⟨u, -, h⟩ := bind_eq_ok.mp h
  obtain ⟨files₂, h₂, h⟩ := bind_eq_ok.mp h
  obtain ⟨files₃, h₃, h⟩ := bind_eq_ok.mp h
  obtain ⟨files₄, h₄, h⟩ := bind_eq_ok.mp h
  obtain rfl := extractComponent_eq_ok hpage rfl h₁
  obtain rfl := extractOptional_eq_ok hpage (by simp [extracted_apply, noFiles]) h₂
  obtain rfl := extractOptional_eq_ok hpage (by simp [extracted_apply, noFiles]) h₃
  obtain rfl := extractOptional_eq_ok hpage (by simp [extracted_apply, noFiles]) h₄
  obtain rfl := extractOptional_eq_ok hpage (by simp [extracted_apply, noFiles]) h
  exact ⟨hkernel, rfl⟩

/-- The file of every component that the header declares. -/
theorem files_of_extractBootImg {vm : Jvm} {tools : Tools} {image : Bytes} {i : BootImgInfo}
    {files : Files} (hpage : i.PowerPage)
    (h : extractBootImg vm tools image i noFiles = .ok files) (c : Component) :
    files c.path = if i.length c = 0 then none else some (copied image i c) := by
  obtain ⟨-, rfl⟩ := extractBootImg_eq_ok hpage h
  cases c <;> simp [extracted_apply, noFiles]

/-- The declared bytes of a component: its range lies in the image, and its file holds them. -/
def Faithful (image : Bytes) (i : BootImgInfo) (files : Files) (c : Component) : Prop :=
  i.position c + (i.length c).toNat ≤ image.length ∧
    files c.path = some (slice (i.position c) (i.length c).toNat image)

/-- The range of a component lies in the image, and the position that is computed leads to the
same bytes: it has not wrapped, or they stand at the wrapped position as well. -/
def Reachable (image : Bytes) (i : BootImgInfo) (c : Component) : Prop :=
  i.position c + (i.length c).toNat ≤ image.length ∧
    slice (i.wrapped c) (i.length c).toNat image = slice (i.position c) (i.length c).toNat image

/-- When the extraction returns, every declared component is faithful exactly
when every declared component is reachable. -/
theorem extractBootImg_faithful_iff {vm : Jvm} {tools : Tools} {image : Bytes}
    {i : BootImgInfo} {files : Files} (hpage : i.PowerPage)
    (h : extractBootImg vm tools image i noFiles = .ok files) :
    (∀ c, i.length c ≠ 0 → Faithful image i files c) ↔
      ∀ c, i.length c ≠ 0 → Reachable image i c := by
  have hfiles := files_of_extractBootImg hpage h
  refine forall_congr' fun c => forall_congr' fun hlen => ?_
  unfold Faithful Reachable
  rw [hfiles c, if_neg hlen, Option.some.injEq, copied]
  refine and_congr_right fun hin => ?_
  have hle := i.wrapped_le c
  have hfull : (slice (i.wrapped c) (i.length c).toNat image).length = (i.length c).toNat :=
    length_slice (by omega)
  have hextend : extend (i.length c).toNat (slice (i.wrapped c) (i.length c).toNat image) =
      slice (i.wrapped c) (i.length c).toNat image := by
    rw [extend, hfull, Nat.sub_self]
    simp [zeros]
  rw [hextend]

/-- Tools that do nothing. -/
def noTools : Tools := ⟨fun _ => .ok (), fun _ => .ok (), fun _ => .ok ()⟩

/-- A kernel of two bytes behind a page. -/
def sampleInfo : BootImgInfo := { kernelLength := 2, pageSize := 2048 }

theorem extractBootImg_faithful_iff_sample :
    ∃ files, extractBootImg ⟨false, .littleEndian⟩ noTools (zeros 2050) sampleInfo noFiles =
        .ok files ∧
      ((∀ c, sampleInfo.length c ≠ 0 → Faithful (zeros 2050) sampleInfo files c) ↔
        ∀ c, sampleInfo.length c ≠ 0 → Reachable (zeros 2050) sampleInfo c) := by
  have hkernel : (extractBootImg ⟨false, .littleEndian⟩ noTools (zeros 2050) sampleInfo
      noFiles).map (fun files => files (Component.path .kernel)) = .ok (some [0, 0]) := by
    decide +kernel
  cases h : extractBootImg ⟨false, .littleEndian⟩ noTools (zeros 2050) sampleInfo noFiles with
  | error e =>
      rw [h] at hkernel
      cases hkernel
  | ok files => exact ⟨files, rfl, extractBootImg_faithful_iff ⟨11, rfl⟩ h⟩

/-- An image that ends behind its header: the five bytes of the kernel file are not in it. -/
theorem extractBootImg_invents :
    (do
      let image := UnifiedConfig.sampleBytes 5 0x61 7
      let header ← BootImgHeader.ofStream ⟨false, .littleEndian⟩ (.fileInputStream image)
      let files ← extractBootImg ⟨false, .littleEndian⟩ noTools image ⟨header, none, 0⟩ noFiles
      .ok (files (Component.path .kernel), BootImgInfo.position ⟨header, none, 0⟩ .kernel,
        image.length) : Result (Option Bytes × ℕ × ℕ)) =
      .ok (some [0, 0, 0, 0, 0], 4096, 1660) := by
  decide +kernel

end Bootimg

end BootImageEditor
