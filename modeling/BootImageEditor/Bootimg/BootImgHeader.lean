import BootImageEditor.Struct3.Unpack

/-!
# Boot image headers

`BootImgHeader(iS)` reads the header of a boot image of version 0, 1 or 2. Fields of a later
version than the header's own keep their initial value.
-/

namespace BootImageEditor

open Codec Fallible Struct3

namespace Bootimg

structure BootImgHeader where
  kernelLength : UInt32 := 0
  kernelOffset : UInt32 := 0
  ramdiskLength : UInt32 := 0
  ramdiskOffset : UInt32 := 0
  secondBootloaderLength : UInt32 := 0
  secondBootloaderOffset : UInt32 := 0
  recoveryDtboLength : UInt32 := 0
  recoveryDtboOffset : UInt64 := 0
  dtbLength : UInt32 := 0
  dtbOffset : UInt64 := 0
  tagsOffset : UInt32 := 0
  pageSize : UInt32 := 0
  headerSize : UInt32 := 0
  headerVersion : UInt32 := 0
  board : KString := []
  cmdline : KString := []
  hash : Option Bytes := none
  osVersion : Option KString := none
  osPatchLevel : Option KString := none
  deriving DecidableEq

namespace BootImgHeader

def magic : KString := units "ANDROID!"

def formatString : KString := units "8s10I16s512s32b1024sIQIIQ"

/-! ## Versions -/

/-- `%d`. -/
def decimal (x : Int32) : KString :=
  if x.toInt < 0 then units "-" ++ Numeral.render 10 x.toInt.natAbs
  else Numeral.render 10 x.toInt.toNat

/-- `%02d`. -/
def decimalTwo (x : Int32) : KString :=
  if (decimal x).length < 2 then units "0" ++ decimal x else decimal x

def parseOsVersion (x : Int32) : KString :=
  let a := x >>> 14
  let b := (x - (a <<< 14)) >>> 7
  let c := x &&& 0x7f
  decimal a ++ units "." ++ decimal b ++ units "." ++ decimal c

def parseOsPatchLevel (x : Int32) : KString :=
  let y := x >>> 4
  let m := x &&& 0xf
  decimal (y + 2000) ++ units "-" ++ decimalTwo m ++ units "-" ++ decimalTwo 0

/-! ## Reading -/

/-- `BootImgHeader(iS)`. -/
def ofStream (vm : Jvm) (s : InputStream) : Result BootImgHeader := do
  let (info, _) ← unpackFormat vm formatString s
  vm.assert (info.length = 20)
  match info with
  | [.string head, .uint kernelLength, .uint kernelOffset, .uint ramdiskLength,
      .uint ramdiskOffset, .uint secondBootloaderLength, .uint secondBootloaderOffset,
      .uint tagsOffset, .uint pageSize, .uint headerVersion, .uint osNPatch, .string board,
      .string cmdline1, .byteArray hash, .string cmdline2, .uint recoveryDtboLength,
      .ulong recoveryDtboOffset, .uint headerSize, .uint dtbLength, .ulong dtbOffset] =>
      if head ≠ magic then
        .error (.illegalArgument "stream doesn't look like Android Boot Image Header")
      else do
        vm.assert (headerSize.toInt32 = 1660 ∨ headerSize.toInt32 = 1648)
        .ok
          { kernelLength, kernelOffset, ramdiskLength, ramdiskOffset, secondBootloaderLength
            secondBootloaderOffset, tagsOffset, pageSize, headerVersion, board, headerSize
            -- 0 is 'reserved' in the image
            osVersion :=
              if osNPatch ≠ 0 then some (parseOsVersion (osNPatch.toInt32 >>> 11)) else none
            osPatchLevel :=
              if osNPatch ≠ 0 then some (parseOsPatchLevel (osNPatch &&& 0x7ff).toInt32) else none
            cmdline := cmdline1 ++ cmdline2
            hash := some hash
            recoveryDtboLength := if 0 < headerVersion then recoveryDtboLength else 0
            recoveryDtboOffset := if 0 < headerVersion then recoveryDtboOffset else 0
            dtbLength := if 1 < headerVersion then dtbLength else 0
            dtbOffset := if 1 < headerVersion then dtbOffset else 0 }
  | _ => .error .classCast

/-- What is known of a header that was read. -/
structure Decoded (h : BootImgHeader) : Prop where
  hash : h.hash ≠ none
  version_zero : ¬ 0 < h.headerVersion → h.recoveryDtboLength = 0 ∧ h.recoveryDtboOffset = 0
  version_one : ¬ 1 < h.headerVersion → h.dtbLength = 0 ∧ h.dtbOffset = 0

theorem decoded_of_ofStream {vm : Jvm} {s : InputStream} {h : BootImgHeader}
    (hread : ofStream vm s = .ok h) : h.Decoded := by
  obtain ⟨⟨info, s'⟩, -, hread⟩ := bind_eq_ok.mp hread
  obtain ⟨u, -, hread⟩ := bind_eq_ok.mp hread
  split at hread
  · obtain ⟨-, hread⟩ := ite_error_eq_ok_iff.mp hread
    obtain ⟨u', -, hread⟩ := bind_eq_ok.mp hread
    cases hread
    refine ⟨by simp, ?_, ?_⟩
    · intro hversion
      exact ⟨if_neg hversion, if_neg hversion⟩
    · intro hversion
      exact ⟨if_neg hversion, if_neg hversion⟩
  · cases hread

end BootImgHeader

/-! ## Positions -/

inductive VerifyType where
  | verify
  | avb
  deriving DecidableEq

/-- The header with what is known of the image around it. -/
structure BootImgInfo extends BootImgHeader where
  signatureType : Option VerifyType := none
  imageSize : Int64 := 0
  deriving DecidableEq

namespace BootImgInfo

def getHeaderSize (pageSize : UInt32) : UInt32 :=
  let pad := (pageSize - (1648 &&& (pageSize - 1))) &&& (pageSize - 1)
  pad + 1648

def getPaddingSize (position pageSize : UInt32) : UInt32 :=
  (pageSize - (position &&& (pageSize - 1))) &&& (pageSize - 1)

/-- `getPaddingSize` on `Int`. -/
def getPaddingSizeInt (position pageSize : Int32) : Int32 :=
  (pageSize - (position &&& (pageSize - 1))) &&& (pageSize - 1)

def kernelPosition (i : BootImgInfo) : UInt32 := getHeaderSize i.pageSize

def ramdiskPosition (i : BootImgInfo) : UInt32 :=
  i.kernelPosition + i.kernelLength + getPaddingSize i.kernelLength i.pageSize

def secondBootloaderPosition (i : BootImgInfo) : UInt32 :=
  i.ramdiskPosition + i.ramdiskLength + getPaddingSize i.ramdiskLength i.pageSize

def recoveryDtboPosition (i : BootImgInfo) : UInt64 :=
  i.secondBootloaderPosition.toUInt64 + i.secondBootloaderLength.toUInt64 +
    (getPaddingSize i.secondBootloaderLength i.pageSize).toUInt64

def dtbPosition (i : BootImgInfo) : UInt64 :=
  i.recoveryDtboPosition + i.recoveryDtboLength.toUInt64 +
    (getPaddingSize i.recoveryDtboLength i.pageSize).toUInt64

end BootImgInfo

end Bootimg

end BootImageEditor
