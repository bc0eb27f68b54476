import BootImageEditor.Bootimg.BootImgHeader

/-!
# The JSON configuration

`UnifiedConfig` carries a boot header through a JSON file: numbers are written as hexadecimal
texts and read back. A kernel length is read by `Integer.decode`, which has 31 bits, and a dtb
offset is written with 32; a blank board is not written.
-/

namespace BootImageEditor

open Codec Fallible Struct3 Bootimg

namespace UnifiedConfig

def workDir : KString := units "build/unzip_boot/"

/-- The files of `ParamConfig`. -/
structure ParamConfig where
  kernel : KString := workDir ++ units "kernel"
  ramdisk : KString := workDir ++ units "ramdisk.img.gz"
  second : KString := workDir ++ units "second"
  dtbo : KString := workDir ++ units "recoveryDtbo"
  dtb : KString := workDir ++ units "dtb"

structure CommArgs where
  file : Option KString := none
  position : KString := units "0"
  size : KString := units "0"
  loadOffset : KString := units "0"
  deriving DecidableEq

structure MiscInfo where
  headerVersion : UInt32 := 0
  headerSize : UInt32 := 0
  loadBase : KString := []
  tagsOffset : KString := units "0"
  board : Option KString := none
  pageSize : UInt32 := 0
  cmdline : KString := []
  osVersion : Option KString := none
  osPatchLevel : Option KString := none
  hash : Bytes := []
  verify : VerifyType := .verify
  imageSize : Int64 := 0
  deriving DecidableEq

end UnifiedConfig

open UnifiedConfig in
structure UnifiedConfig where
  info : MiscInfo := {}
  kernel : CommArgs := {}
  ramdisk : Option CommArgs := none
  secondBootloader : Option CommArgs := none
  recoveryDtbo : Option CommArgs := none
  dtb : Option CommArgs := none
  deriving DecidableEq

namespace UnifiedConfig

/-! ## Numbers as texts -/

/-- `"0x${Integer.toHexString(n)}"`. -/
def hexInt (n : Int32) : KString := units "0x" ++ Numeral.render 16 n.toUInt32.toNat

/-- `"0x${java.lang.Long.toHexString(n)}"`. -/
def hexLong (n : Int64) : KString := units "0x" ++ Numeral.render 16 n.toUInt64.toNat

/-- `removePrefix(prefix)`. -/
def removePrefix (p s : KString) : KString := if p.isPrefixOf s then s.drop p.length else s

/-- A hexadecimal number below a bound, with or without a plus sign. -/
def unsigned (bound : ℕ) (s : KString) : Result ℕ :=
  match Numeral.parse 16 (removePrefix (units "+") s) with
  | none => .error .numberFormat
  | some n => if n < bound then .ok n else .error .numberFormat

/-- `removePrefix("0x").toUInt(16)`. -/
def toUInt (s : KString) : Result UInt32 := do
  let n ← unsigned (2 ^ 32) (removePrefix (units "0x") s)
  .ok (UInt32.ofNat n)

/-- `removePrefix("0x").toULong(16)`. -/
def toULong (s : KString) : Result UInt64 := do
  let n ← unsigned (2 ^ 64) (removePrefix (units "0x") s)
  .ok (UInt64.ofNat n)

/-! ## Conversions -/

/-- A component with a 32-bit load offset: the offset and the length. -/
def readArgs : Option CommArgs → Result (UInt32 × UInt32)
  | none => .ok (0, 0)
  | some it => do
      let loadOffset ← toUInt it.loadOffset
      let size ← toUInt it.size
      .ok (loadOffset, size)

/-- A component with a 64-bit load offset. -/
def readArgsLong : Option CommArgs → Result (UInt64 × UInt32)
  | none => .ok (0, 0)
  | some it => do
      let loadOffset ← toULong it.loadOffset
      let size ← toUInt it.size
      .ok (loadOffset, size)

/-- `toBootImgInfo()`. -/
def toBootImgInfo (config : UnifiedConfig) : Result BootImgInfo := do
  let kernelOffset ← toUInt config.kernel.loadOffset
  let kernelLength ← integerDecode config.kernel.size
  let (ramdiskOffset, ramdiskLength) ← readArgs config.ramdisk
  let (secondBootloaderOffset, secondBootloaderLength) ← readArgs config.secondBootloader
  let (recoveryDtboOffset, recoveryDtboLength) ← readArgsLong config.recoveryDtbo
  let (dtbOffset, dtbLength) ← readArgsLong config.dtb
  let tagsOffset ← toUInt config.info.tagsOffset
  .ok
    { kernelOffset, kernelLength := (Int32.ofInt kernelLength).toUInt32, ramdiskOffset
      ramdiskLength, secondBootloaderOffset, secondBootloaderLength, recoveryDtboOffset
      recoveryDtboLength, dtbOffset, dtbLength, tagsOffset
      headerSize := config.info.headerSize
      headerVersion := config.info.headerVersion
      board := config.info.board.getD []
      cmdline := config.info.cmdline
      osVersion := config.info.osVersion
      osPatchLevel := config.info.osPatchLevel
      hash := some config.info.hash
      pageSize := config.info.pageSize
      signatureType := some config.info.verify
      imageSize := config.info.imageSize }

/-- `fromBootImgInfo(info)`. -/
def fromBootImgInfo (info : BootImgInfo) : Result UnifiedConfig :=
  let param : ParamConfig := {}
  match info.hash, info.signatureType with
  | some hash, some signatureType =>
      .ok
        { kernel :=
            { file := some param.kernel
              loadOffset := hexInt info.kernelOffset.toInt32
              size := hexInt info.kernelLength.toInt32
              position := hexInt info.kernelPosition.toInt32 }
          ramdisk := some
            { loadOffset := hexInt info.ramdiskOffset.toInt32
              size := hexInt info.ramdiskLength.toInt32
              position := hexLong info.ramdiskPosition.toInt32.toInt64
              file := if 0 < info.ramdiskLength then some param.ramdisk else none }
          secondBootloader := some
            { loadOffset := hexInt info.secondBootloaderOffset.toInt32
              size := hexInt info.secondBootloaderLength.toInt32
              position := hexInt info.secondBootloaderPosition.toInt32
              file := if 0 < info.secondBootloaderLength then some param.second else none }
          recoveryDtbo :=
            if 0 < info.headerVersion then some
              { file := if 0 < info.recoveryDtboLength then some param.dtbo else none
                loadOffset := hexLong info.recoveryDtboOffset.toInt64
                size := hexInt info.recoveryDtboLength.toInt32
                position := hexLong info.recoveryDtboPosition.toInt64 }
            else none
          dtb :=
            if 1 < info.headerVersion then some
              { file := if 0 < info.dtbLength then some param.dtb else none
                -- the sibling above writes all 64 bits
                loadOffset := hexInt info.dtbOffset.toUInt32.toInt32
                size := hexInt info.dtbLength.toInt32
                position := hexLong info.dtbPosition.toInt64 }
            else none
          info :=
            { headerSize := info.headerSize
              headerVersion := info.headerVersion
              loadBase := hexLong 0
              board := if isBlank info.board then none else some info.board
              tagsOffset := hexLong info.tagsOffset.toUInt64.toInt64
              cmdline := info.cmdline
              osVersion := info.osVersion
              osPatchLevel := info.osPatchLevel
              hash
              pageSize := info.pageSize
              verify := signatureType
              imageSize := info.imageSize } }
  | _, _ => .error .nullPointer

/-! ## Reading what was written -/

theorem removePrefix_append (p s : KString) : removePrefix p (p ++ s) = s := by
  have hp : p.isPrefixOf (p ++ s) = true := List.isPrefixOf_iff_prefix.mpr (List.prefix_append p s)
  rw [removePrefix, if_pos hp, List.drop_left]

/-- A numeral has no sign. -/
theorem removePrefix_plus_render (n : ℕ) :
    removePrefix (units "+") (Numeral.render 16 n) = Numeral.render 16 n := by
  refine if_neg ?_
  intro hplus
  obtain ⟨t, ht⟩ := List.isPrefixOf_iff_prefix.mp hplus
  have hmem : (0x2B : UInt16) ∈ Numeral.render 16 n := by
    rw [← ht]
    simp [units]
  obtain ⟨d, hd, heq⟩ := Numeral.exists_digit_of_mem_render (by omega) hmem
  have hnat := Numeral.digitUnit_toNat (d := d) (by omega)
  rw [← heq] at hnat
  have hplusNat : (0x2B : UInt16).toNat = 43 := rfl
  rw [hplusNat] at hnat
  split_ifs at hnat <;> omega

theorem unsigned_render {bound n : ℕ} (h : n < bound) :
    unsigned bound (Numeral.render 16 n) = .ok n := by
  rw [unsigned, removePrefix_plus_render, Numeral.parse_render (by omega) (by omega)]
  exact if_pos h

theorem toUInt_hexInt (n : UInt32) : toUInt (hexInt n.toInt32) = .ok n := by
  have hlt := n.toNat_lt
  rw [toUInt, hexInt, removePrefix_append, UInt32.toUInt32_toInt32, unsigned_render hlt, ok_bind,
    UInt32.ofNat_toNat]

theorem toUInt_hexLong (n : UInt32) : toUInt (hexLong n.toUInt64.toInt64) = .ok n := by
  have hlt := n.toNat_lt
  rw [toUInt, hexLong, removePrefix_append, UInt64.toUInt64_toInt64, UInt32.toNat_toUInt64,
    unsigned_render hlt, ok_bind, UInt32.ofNat_toNat]

theorem toULong_hexLong (n : UInt64) : toULong (hexLong n.toInt64) = .ok n := by
  have hlt := n.toNat_lt
  rw [toULong, hexLong, removePrefix_append, UInt64.toUInt64_toInt64, unsigned_render hlt, ok_bind,
    UInt64.ofNat_toNat]

/-- An offset that is cut to 32 bits is read back when it has no more. -/
theorem toULong_hexInt {n : UInt64} (h : n.toNat < 2 ^ 32) :
    toULong (hexInt n.toUInt32.toInt32) = .ok n := by
  rw [toULong, hexInt, removePrefix_append, UInt32.toUInt32_toInt32, UInt64.toNat_toUInt32,
    Nat.mod_eq_of_lt h, unsigned_render (by omega), ok_bind, UInt64.ofNat_toNat]

/-- `Integer.decode` reads a length of 31 bits. -/
theorem integerDecode_hexInt {n : UInt32} (h : n.toNat < 2 ^ 31) :
    integerDecode (hexInt n.toInt32) = .ok n.toNat := by
  have hbody : ∀ s : KString, integerDecode (units "0x" ++ s) =
      match Numeral.parse 16 s with
      | none => .error .numberFormat
      | some k => if -(intMax : ℤ) - 1 ≤ k ∧ (k : ℤ) ≤ intMax then .ok k
          else .error .numberFormat := fun _ => rfl
  rw [hexInt, hbody, UInt32.toUInt32_toInt32, Numeral.parse_render (by omega) (by omega)]
  refine if_pos ⟨?_, ?_⟩
  · unfold intMax
    omega
  · unfold intMax
    omega

theorem readArgs_hexInt (loadOffset size : UInt32) (file : Option KString) (position : KString) :
    readArgs (some ⟨file, position, hexInt size.toInt32, hexInt loadOffset.toInt32⟩) =
      .ok (loadOffset, size) := by
  simp only [readArgs, toUInt_hexInt, ok_bind]

/-- A component of a later version is left out, and its numbers are zero. -/
theorem readArgsLong_ite {p : Prop} [Decidable p] {loadOffset : UInt64} {size : UInt32}
    {text : KString} (htext : toULong text = .ok loadOffset)
    (hzero : ¬ p → size = 0 ∧ loadOffset = 0) (file : Option KString) (position : KString) :
    readArgsLong (if p then some ⟨file, position, hexInt size.toInt32, text⟩ else none) =
      .ok (loadOffset, size) := by
  by_cases h : p
  · simp only [if_pos h, readArgsLong, htext, toUInt_hexInt, ok_bind]
  · obtain ⟨rfl, rfl⟩ := hzero h
    simp only [if_neg h, readArgsLong]

theorem toUInt32_ofInt (n : UInt32) : (Int32.ofInt n.toNat).toUInt32 = n := by
  have hofInt : Int32.ofInt n.toNat = n.toInt32 := by
    rw [Int32.ofInt_eq_ofNat, ← UInt32.toInt32_ofNat', UInt32.ofNat_toNat]
  rw [hofInt, UInt32.toUInt32_toInt32]

/-- The configuration carries a header that was read, with a blank board as an empty one. -/
theorem toBootImgInfo_fromBootImgInfo (vm : Jvm) (s : InputStream) (header : BootImgHeader)
    (signatureType : VerifyType) (imageSize : Int64)
    (hread : BootImgHeader.ofStream vm s = .ok header)
    (hkernel : header.kernelLength.toNat < 2 ^ 31) (hdtb : header.dtbOffset.toNat < 2 ^ 32) :
    ∃ config, fromBootImgInfo ⟨header, some signatureType, imageSize⟩ = .ok config ∧
      toBootImgInfo config =
        .ok ⟨{ header with board := if isBlank header.board then [] else header.board },
          some signatureType, imageSize⟩ := by
  have hdecoded := BootImgHeader.decoded_of_ofStream hread
  obtain ⟨hash, hhash⟩ := Option.ne_none_iff_exists'.mp hdecoded.hash
  have hboard : (if isBlank header.board then none else some header.board).getD [] =
      if isBlank header.board then [] else header.board := by
    split <;> rfl
  refine ⟨_, by simp only [fromBootImgInfo, hhash]; rfl, ?_⟩
  simp only [toBootImgInfo, toUInt_hexInt, integerDecode_hexInt hkernel, readArgs_hexInt,
    readArgsLong_ite (toULong_hexLong _) hdecoded.version_zero,
    readArgsLong_ite (toULong_hexInt hdtb) hdecoded.version_one, toUInt_hexLong, ok_bind, hboard,
    toUInt32_ofInt, hhash]

/-- The bytes of a header of version 2 with page size 4096. -/
def sampleBytes (kernelLength : ℕ) (board : UInt8) (dtbOffset : ℕ) : Bytes :=
  [Utf8.encode BootImgHeader.magic, ByteOrder.littleEndian.encode 4 kernelLength, zeros 24,
    ByteOrder.littleEndian.encode 4 4096, ByteOrder.littleEndian.encode 4 2, zeros 4, [board],
    zeros 15, zeros 512, zeros 32, zeros 1024, zeros 12, ByteOrder.littleEndian.encode 4 1660,
    ByteOrder.littleEndian.encode 4 3, ByteOrder.littleEndian.encode 8 dtbOffset].flatten

/-- A kernel of five bytes, a board of one letter. -/
theorem toBootImgInfo_fromBootImgInfo_applies :
    ∃ header config, BootImgHeader.ofStream ⟨true, .littleEndian⟩
        (.byteArrayInputStream (sampleBytes 5 0x61 7)) = .ok header ∧
      fromBootImgInfo ⟨header, some .avb, 8192⟩ = .ok config ∧
      toBootImgInfo config =
        .ok ⟨{ header with board := if isBlank header.board then [] else header.board },
          some .avb, 8192⟩ := by
  have hsizes : (BootImgHeader.ofStream ⟨true, .littleEndian⟩
      (.byteArrayInputStream (sampleBytes 5 0x61 7))).map
        (fun h => (h.kernelLength, h.dtbOffset)) = .ok (5, 7) := by decide +kernel
  cases hread : BootImgHeader.ofStream ⟨true, .littleEndian⟩
      (.byteArrayInputStream (sampleBytes 5 0x61 7)) with
  | error e =>
      rw [hread] at hsizes
      cases hsizes
  | ok header =>
      rw [hread] at hsizes
      simp only [Except.map, Except.ok.injEq, Prod.mk.injEq] at hsizes
      obtain ⟨config, hfrom, hto⟩ := toBootImgInfo_fromBootImgInfo ⟨true, .littleEndian⟩ _ header
        .avb 8192 hread (by rw [hsizes.1]; decide) (by rw [hsizes.2]; decide)
      exact ⟨header, config, rfl, hfrom, hto⟩

/-- Whether a header comes back through the configuration as it was read. -/
def comesBack (bytes : Bytes) : Result Bool := do
  let header ← BootImgHeader.ofStream ⟨true, .littleEndian⟩ (.byteArrayInputStream bytes)
  let config ← fromBootImgInfo ⟨header, some .verify, 0⟩
  let info ← toBootImgInfo config
  .ok (decide (info = ⟨header, some .verify, 0⟩))

/-- A kernel length of 32 bits is refused, a dtb offset of 33 bits and a blank board are
lost. -/
theorem comesBack_lossy :
    comesBack (sampleBytes (2 ^ 31) 0x61 7) = .error .numberFormat ∧
      comesBack (sampleBytes 5 0x61 (2 ^ 32)) = .ok false ∧
      comesBack (sampleBytes 5 0x20 7) = .ok false := by
  refine ⟨?_, ?_, ?_⟩
  · decide +kernel
  · decide +kernel
  · decide +kernel

end UnifiedConfig

end BootImageEditor
