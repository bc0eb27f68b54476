import BootImageEditor.Bootimg.Extract
import BootImageEditor.Bootimg.OsVersion
import BootImageEditor.Avb.DescriptorParse

/-!
# Encoding boot image headers

`encode` brings the object up to date with the files of the components and packs its fields. A
component whose length is zero stays absent; the offset of the recovery dtbo is computed, and the
command line is cut in two. The decoder takes the fields of a later version than the header's own
for zero.
-/

namespace BootImageEditor

open Codec Fallible Struct3

namespace Bootimg

/-- `File(name).length()`, which is zero where there is no file. -/
def Files.size (files : Files) (name : KString) : ℕ := ((files name).getD []).length

namespace BootImgHeader

/-! ## Refreshing -/

/-- What `hashFileAndSize` passes to the digest: each file and its size. -/
def digestInput (files : Files) : List (Option KString) → Result Bytes
  | [] => .ok []
  | none :: inFiles => do
      let rest ← digestInput files inFiles
      .ok (ByteOrder.littleEndian.encode 4 0 ++ rest)
  | some item :: inFiles =>
      match files item with
      | none => .error .io
      | some data => do
          let rest ← digestInput files inFiles
          .ok (data ++ ByteOrder.littleEndian.encode 4 data.length ++ rest)

def hashFileAndSize (sha1 : Bytes → Bytes) (files : Files) (inFiles : List (Option KString)) :
    Result Bytes := (digestInput files inFiles).map sha1

def getRecoveryDtboOffset (h : BootImgHeader) : Result UInt32 :=
  if h.pageSize = 0 then .error .arithmetic
  else
    .ok (Helper.roundToMultiple h.headerSize h.pageSize +
      Helper.roundToMultiple h.kernelLength h.pageSize +
      Helper.roundToMultiple h.ramdiskLength h.pageSize +
      Helper.roundToMultiple h.secondBootloaderLength h.pageSize)

/-- The length of a component. -/
def length (h : BootImgHeader) (c : Component) : UInt32 :=
  BootImgInfo.length { toBootImgHeader := h } c

/-- The file of a component, `null` where its length is zero. -/
def param (h : BootImgHeader) (c : Component) : Option KString :=
  if h.length c = 0 then none else some c.path

/-- The size of the file of a component, where its length is not zero. -/
def fileLength (files : Files) (h : BootImgHeader) (c : Component) : UInt32 :=
  if h.length c = 0 then 0 else UInt32.ofNat (files.size c.path)

/-- The lengths after `refresh`, and the offsets of what is absent. -/
def refreshParts (files : Files) (h : BootImgHeader) : BootImgHeader :=
  { h with
    kernelLength := h.fileLength files .kernel
    ramdiskLength := h.fileLength files .ramdisk
    ramdiskOffset := if h.ramdiskLength = 0 then 0 else h.ramdiskOffset
    secondBootloaderLength := h.fileLength files .second
    secondBootloaderOffset := if h.secondBootloaderLength = 0 then 0 else h.secondBootloaderOffset
    recoveryDtboLength := h.fileLength files .recoveryDtbo
    dtbLength := h.fileLength files .dtb }

def refreshDtboOffset (files : Files) (h : BootImgHeader) : Result UInt64 :=
  if h.recoveryDtboLength = 0 then .ok 0
  else (h.refreshParts files).getRecoveryDtboOffset.map UInt32.toUInt64

def imageId (sha1 : Bytes → Bytes) (files : Files) (h : BootImgHeader) : Result Bytes :=
  if h.headerVersion = 0 then
    hashFileAndSize sha1 files [h.param .kernel, h.param .ramdisk, h.param .second]
  else if h.headerVersion = 1 then
    hashFileAndSize sha1 files
      [h.param .kernel, h.param .ramdisk, h.param .second, h.param .recoveryDtbo]
  else if h.headerVersion = 2 then
    hashFileAndSize sha1 files
      [h.param .kernel, h.param .ramdisk, h.param .second, h.param .recoveryDtbo, h.param .dtb]
  else .error (.illegalArgument s!"headerVersion {h.headerVersion} illegal")

/-- `refresh()`. -/
def refresh (sha1 : Bytes → Bytes) (files : Files) (h : BootImgHeader) : Result BootImgHeader :=
  if h.kernelLength = 0 then .error (.illegalArgument "kernel size can not be 0")
  else do
    let recoveryDtboOffset ← h.refreshDtboOffset files
    let hash ← h.imageId sha1 files
    .ok { h.refreshParts files with recoveryDtboOffset, hash := some hash }

/-! ## Encoding -/

/-- The size that a header of each version states. -/
def statedSize (headerVersion : UInt32) : Value :=
  if headerVersion = 0 then .int 0
  else if headerVersion = 1 then .int 1648
  else if headerVersion = 2 then .int 1660
  -- the branch yields an exception object, it does not throw it
  else .other

/-- The arguments of `pack`. -/
def arguments (h : BootImgHeader) (hash : Bytes) (osNPatch : Int32) : List Value :=
  [.string magic, .uint h.kernelLength, .uint h.kernelOffset, .uint h.ramdiskLength,
    .uint h.ramdiskOffset, .uint h.secondBootloaderLength, .uint h.secondBootloaderOffset,
    .uint h.tagsOffset, .uint h.pageSize, .uint h.headerVersion, .int osNPatch, .string h.board,
    .string (h.cmdline.take (min 512 h.cmdline.length)), .byteArray hash,
    .string (if 512 < h.cmdline.length then h.cmdline.drop 512 else []),
    .uint h.recoveryDtboLength, if 0 < h.headerVersion then .ulong h.recoveryDtboOffset else .int 0,
    statedSize h.headerVersion, .uint h.dtbLength,
    if 1 < h.headerVersion then .ulong h.dtbOffset else .int 0]

/-- `encode()`: the bytes, and the object as it is left. -/
def encode (vm : Jvm) (sha1 : Bytes → Bytes) (files : Files) (h : BootImgHeader) :
    Result (Bytes × BootImgHeader) := do
  let h ← h.refresh sha1 files
  vm.assert (h.pageSize.toNat ∈ [2 ^ 11, 2 ^ 12, 2 ^ 13, 2 ^ 14])
  let osVersion ← packOsVersion vm h.osVersion
  let osPatchLevel ← packOsPatchLevel vm h.osPatchLevel
  match h.hash with
  | none => .error .nullPointer
  | some hash => do
      let bytes ← packFormat vm formatString
        (h.arguments hash ((osVersion <<< 11) ||| osPatchLevel))
      .ok (bytes, h)

theorem refresh_eq_ok {sha1 : Bytes → Bytes} {files : Files} {h h' : BootImgHeader}
    (hrefresh : h.refresh sha1 files = .ok h') :
    h.kernelLength ≠ 0 ∧ ∃ offset hash, h.refreshDtboOffset files = .ok offset ∧
      h.imageId sha1 files = .ok hash ∧
      h' = { h.refreshParts files with recoveryDtboOffset := offset, hash := some hash } := by
  obtain ⟨hkernel, hrefresh⟩ := ite_error_eq_ok_iff.mp hrefresh
  obtain ⟨offset, hoffset, hrefresh⟩ := bind_eq_ok.mp hrefresh
  obtain ⟨hash, hhash, hrefresh⟩ := bind_eq_ok.mp hrefresh
  exact ⟨hkernel, offset, hash, hoffset, hhash, (Except.ok.inj hrefresh).symm⟩

/-- An image id is computed for the versions 0, 1 and 2. -/
theorem version_of_imageId {sha1 : Bytes → Bytes} {files : Files} {h : BootImgHeader} {hash : Bytes}
    (hid : h.imageId sha1 files = .ok hash) :
    h.headerVersion = 0 ∨ h.headerVersion = 1 ∨ h.headerVersion = 2 := by
  unfold imageId at hid
  split_ifs at hid with h0 h1 h2
  · exact Or.inl h0
  · exact Or.inr (Or.inl h1)
  · exact Or.inr (Or.inr h2)

theorem encode_eq_ok {vm : Jvm} {sha1 : Bytes → Bytes} {files : Files} {h h' : BootImgHeader}
    {bs : Bytes} (hencode : h.encode vm sha1 files = .ok (bs, h')) :
    h.refresh sha1 files = .ok h' ∧ ∃ hash osNPatch, h'.hash = some hash ∧
      packFormat vm formatString (h'.arguments hash osNPatch) = .ok bs := by
  obtain ⟨h₁, hrefresh, hencode⟩ := bind_eq_ok.mp hencode
  obtain ⟨u, -, hencode⟩ := bind_eq_ok.mp hencode
  obtain ⟨osVersion, -, hencode⟩ := bind_eq_ok.mp hencode
  obtain ⟨osPatchLevel, -, hencode⟩ := bind_eq_ok.mp hencode
  cases hhash : h₁.hash with
  | none =>
      rw [hhash] at hencode
      cases hencode
  | some hash =>
      rw [hhash] at hencode
      obtain ⟨bytes, hbytes, hencode⟩ := bind_eq_ok.mp hencode
      cases hencode
      exact ⟨hrefresh, hash, _, hhash, hbytes⟩

/-! ## Decoding what was encoded -/

def formats : List Format :=
  [.text 8, .one .uint, .one .uint, .one .uint, .one .uint, .one .uint, .one .uint, .one .uint,
    .one .uint, .one .uint, .one .uint, .text 16, .text 512, .bytes 32, .text 1024, .one .uint,
    .one .ulong, .one .uint, .one .uint, .one .ulong]

theorem new_formatString (vm : Jvm) :
    Struct3.new vm formatString = .ok ⟨.littleEndian, formats⟩ := rfl

theorem allFill_arguments (h : BootImgHeader) (hash : Bytes) (osNPatch : Int32) :
    AllFill formats (h.arguments hash osNPatch) := by
  simp [AllFill, Fills, formats, arguments, Format.one, Format.text, Format.bytes]

theorem text_arguments {h : BootImgHeader} (hboard : Utf8.Ascii h.board)
    (hcmdline : Utf8.Ascii h.cmdline) (hash : Bytes) (osNPatch : Int32) :
    ∀ arg ∈ h.arguments hash osNPatch, Text arg := by
  have hascii : ∀ s : KString, Utf8.Ascii s → Utf8.WellFormed s ∧ (0 : UInt16) ∉ s := by
    intro s hs
    exact ⟨Utf8.wellFormed_ascii hs, fun hmem => absurd (hs 0 hmem).1 (by decide)⟩
  have hgated : ∀ (p : Prop) [Decidable p] (n : UInt64) (s : KString),
      Value.string s ≠ if p then .ulong n else .int 0 := by
    intro p _ n s
    split_ifs <;> simp
  have hstated : ∀ s : KString, Value.string s ≠ statedSize h.headerVersion := by
    intro s
    unfold statedSize
    split_ifs <;> simp
  rintro arg harg s rfl
  simp only [arguments, List.mem_cons, List.not_mem_nil, or_false, reduceCtorEq, false_or,
    hgated, hstated, Value.string.injEq] at harg
  rcases harg with rfl | rfl | rfl | rfl
  · exact hascii _ (by decide)
  · exact hascii _ hboard
  · exact hascii _ (fun u hu => hcmdline u (List.mem_of_mem_take hu))
  · split_ifs
    · exact hascii _ (fun u hu => hcmdline u (List.mem_of_mem_drop hu))
    · exact hascii _ (by simp [Utf8.Ascii])

theorem readBack_gated (p : Prop) [Decidable p] (n : UInt64) :
    readBack (.one .ulong) (if p then .ulong n else .int 0) = .ulong (if p then n else 0) := by
  split_ifs <;> rfl

theorem readBack_statedSize {v : UInt32} (hv : v = 0 ∨ v = 1 ∨ v = 2) :
    ∃ n, readBack (.one .uint) (statedSize v) = .uint n := by
  rcases hv with rfl | rfl | rfl
  · exact ⟨_, rfl⟩
  · exact ⟨_, rfl⟩
  · exact ⟨_, rfl⟩

theorem take_append_drop_cmdline (cmdline : KString) :
    cmdline.take (min 512 cmdline.length) ++
      (if 512 < cmdline.length then cmdline.drop 512 else []) = cmdline := by
  split_ifs with hlen
  · rw [min_eq_left hlen.le, List.take_append_drop]
  · rw [min_eq_right (by omega), List.take_length, List.append_nil]

theorem gated_gated (p : Prop) [Decidable p] (n : UInt64) :
    (if p then if p then n else 0 else 0) = if p then n else 0 := by
  split_ifs <;> rfl

/-- The header that a decoder makes of the fields of a header. -/
def decodedAs (h : BootImgHeader) (hash : Bytes) (osNPatch headerSize : UInt32) : BootImgHeader :=
  { h with
    osVersion := if osNPatch ≠ 0 then some (parseOsVersion (osNPatch.toInt32 >>> 11)) else none
    osPatchLevel :=
      if osNPatch ≠ 0 then some (parseOsPatchLevel (osNPatch &&& 0x7ff).toInt32) else none
    headerSize
    hash := some hash
    recoveryDtboLength := if 0 < h.headerVersion then h.recoveryDtboLength else 0
    recoveryDtboOffset := if 0 < h.headerVersion then h.recoveryDtboOffset else 0
    dtbLength := if 1 < h.headerVersion then h.dtbLength else 0
    dtbOffset := if 1 < h.headerVersion then h.dtbOffset else 0 }

/-- The packed fields are read back, with the hash at its full size. -/
theorem ofStream_arguments {vm vm' : Jvm} (hvm : vm'.assertionsEnabled = false)
    {h : BootImgHeader} {hash bs r : Bytes} {osNPatch : Int32} {s : InputStream}
    (hpack : packFormat vm formatString (h.arguments hash osNPatch) = .ok bs)
    (hboard : Utf8.Ascii h.board) (hcmdline : Utf8.Ascii h.cmdline)
    (hversion : h.headerVersion = 0 ∨ h.headerVersion = 1 ∨ h.headerVersion = 2)
    (hrest : s.rest = bs ++ r) :
    ∃ headerSize, ofStream vm' s =
      .ok (h.decodedAs (extend 32 hash) osNPatch.toUInt32 headerSize) := by
  have hfill := allFill_arguments h hash osNPatch
  have hunpack : unpackFormat vm' formatString s =
      .ok (readBackAll formats (h.arguments hash osNPatch), s.advance 1660) := by
    rw [packFormat_eq (new_formatString vm)] at hpack
    rw [unpackFormat_eq (new_formatString vm'), unpack_pack hpack hrest hfill (by decide)
      (text_arguments hboard hcmdline hash osNPatch),
      if_neg (fun hend => absurd hend.2.2 (by decide))]
    rfl
  obtain ⟨headerSize, hstated⟩ := readBack_statedSize hversion
  have hinfo : readBackAll formats (h.arguments hash osNPatch) =
      [.string magic, .uint h.kernelLength, .uint h.kernelOffset, .uint h.ramdiskLength,
        .uint h.ramdiskOffset, .uint h.secondBootloaderLength, .uint h.secondBootloaderOffset,
        .uint h.tagsOffset, .uint h.pageSize, .uint h.headerVersion, .uint osNPatch.toUInt32,
        .string h.board, .string (h.cmdline.take (min 512 h.cmdline.length)),
        .byteArray (extend 32 hash),
        .string (if 512 < h.cmdline.length then h.cmdline.drop 512 else []),
        .uint h.recoveryDtboLength,
        .ulong (if 0 < h.headerVersion then h.recoveryDtboOffset else 0), .uint headerSize,
        .uint h.dtbLength, .ulong (if 1 < h.headerVersion then h.dtbOffset else 0)] := by
    simp only [formats, arguments, readBackAll, readBack_gated, hstated]
    rfl
  unfold ofStream
  rw [hunpack, ok_bind, hinfo]
  refine ⟨headerSize, ?_⟩
  simp only [Jvm.assert_disabled hvm, ok_bind, take_append_drop_cmdline, gated_gated]
  rw [if_neg (not_not.mpr rfl)]
  rfl

/-- The numbers that were packed are read back, whatever the texts are. -/
theorem ofStream_arguments_texts {vm vm' : Jvm} (hvm : vm'.assertionsEnabled = false)
    {h : BootImgHeader} {hash bs r : Bytes} {osNPatch : Int32} {s : InputStream}
    (hpack : packFormat vm formatString (h.arguments hash osNPatch) = .ok bs)
    (hversion : h.headerVersion = 0 ∨ h.headerVersion = 1 ∨ h.headerVersion = 2)
    (hrest : s.rest = bs ++ r) :
    ∃ board cmdline headerSize, ofStream vm' s =
      .ok ({ h with board, cmdline }.decodedAs (extend 32 hash) osNPatch.toUInt32 headerSize) := by
  have hfill := allFill_arguments h hash osNPatch
  have hitems := (Avb.packFormat_eq_ok_iff (new_formatString vm) rfl (by decide) hfill).mp hpack
  have hlength : bs.length = formatsSize formats := length_packItems hitems hfill rfl
  have hunpack : unpackFormat vm' formatString s =
      .ok (decodeItems .littleEndian formats bs, s.advance 1660) := by
    rw [unpackFormat_eq (new_formatString vm'), unpack_eq hrest hlength (by decide),
      if_neg (fun hend => absurd hend.2.2 (by decide))]
    rfl
  have hmagic : (decodeItems .littleEndian formats bs).head? = some (.string magic) := by
    obtain ⟨b, hb, hrest⟩ := bind_eq_ok.mp hitems
    obtain ⟨bs', -, hrest⟩ := bind_eq_ok.mp hrest
    cases hrest
    have hsize : b.length = (Format.text 8).size := length_packItem hb hfill.1
    have hread := decodeItem_packItem hb hfill.1 (by decide)
      (text_arguments (h := {}) (by decide) (by decide) hash osNPatch (.string magic)
        (by simp [arguments]))
    rw [formats, decodeItems, List.take_left' hsize, hread]
    rfl
  have hmap := map_withoutText_decodeItems hitems rfl hfill (by decide)
  obtain ⟨headerSize, hstated⟩ := readBack_statedSize hversion
  obtain ⟨head, kernelLength, kernelOffset, ramdiskLength, ramdiskOffset, secondLength,
    secondOffset, tagsOffset, pageSize, headerVersion, osNPatch', board, cmdline1, hash', cmdline2,
    dtboLength, dtboOffset, headerSize', dtbLength, dtbOffset, hlist⟩ :
      ∃ head kernelLength kernelOffset ramdiskLength ramdiskOffset secondLength secondOffset
        tagsOffset pageSize headerVersion osNPatch' board cmdline1 hash' cmdline2 dtboLength
        dtboOffset headerSize' dtbLength dtbOffset,
        decodeItems .littleEndian formats bs =
          [.string head, .uint kernelLength, .uint kernelOffset, .uint ramdiskLength,
            .uint ramdiskOffset, .uint secondLength, .uint secondOffset, .uint tagsOffset,
            .uint pageSize, .uint headerVersion, .uint osNPatch', .string board, .string cmdline1,
            .byteArray hash', .string cmdline2, .uint dtboLength, .ulong dtboOffset,
            .uint headerSize', .uint dtbLength, .ulong dtbOffset] :=
    ⟨_, _, _, _, _, _, _, _, _, _, _, _, _, _, _, _, _, _, _, _, rfl⟩
  rw [hlist, List.head?_cons, Option.some.injEq] at hmagic
  rw [hlist] at hmap
  simp only [formats, arguments, readBackAll, readBack_gated, hstated, List.map_cons,
    List.map_nil] at hmap
  have hnumbers : [Value.uint kernelLength, .uint kernelOffset, .uint ramdiskLength,
      .uint ramdiskOffset, .uint secondLength, .uint secondOffset, .uint tagsOffset,
      .uint pageSize, .uint headerVersion, .uint osNPatch', .byteArray hash', .uint dtboLength,
      .ulong dtboOffset, .uint headerSize', .uint dtbLength, .ulong dtbOffset] =
      [.uint h.kernelLength, .uint h.kernelOffset, .uint h.ramdiskLength, .uint h.ramdiskOffset,
        .uint h.secondBootloaderLength, .uint h.secondBootloaderOffset, .uint h.tagsOffset,
        .uint h.pageSize, .uint h.headerVersion, .uint osNPatch.toUInt32,
        .byteArray (extend 32 hash), .uint h.recoveryDtboLength,
        .ulong (if 0 < h.headerVersion then h.recoveryDtboOffset else 0), .uint headerSize,
        .uint h.dtbLength, .ulong (if 1 < h.headerVersion then h.dtbOffset else 0)] := by
    simp only [List.cons.injEq] at hmap ⊢
    obtain ⟨-, h1, h2, h3, h4, h5, h6, h7, h8, h9, h10, -, -, h13, -, h15, h16, h17, h18, h19,
      h20⟩ := hmap
    exact ⟨h1, h2, h3, h4, h5, h6, h7, h8, h9, h10, h13, h15, h16, h17, h18, h19, h20⟩
  simp only [List.cons.injEq, Value.uint.injEq, Value.ulong.injEq, Value.byteArray.injEq,
    Value.string.injEq, and_true] at hnumbers hmagic
  obtain ⟨rfl, rfl, rfl, rfl, rfl, rfl, rfl, rfl, rfl, rfl, rfl, rfl, rfl, rfl, rfl, rfl⟩ :=
    hnumbers
  refine ⟨board, cmdline1 ++ cmdline2, headerSize', ?_⟩
  unfold ofStream
  rw [hunpack, ok_bind, hlist, hmagic]
  simp only [Jvm.assert_disabled hvm, ok_bind, gated_gated]
  rw [if_neg (not_not.mpr rfl)]
  rfl

/-- The fields that a header of a version does not have are zero. -/
structure VersionFields (h : BootImgHeader) : Prop where
  version_zero : h.headerVersion = 0 → h.recoveryDtboLength = 0 ∧ h.recoveryDtboOffset = 0
  version_one : h.headerVersion = 0 ∨ h.headerVersion = 1 → h.dtbLength = 0 ∧ h.dtbOffset = 0

/-- The decoded header has the fields of the refreshed object and the sizes of the files. -/
structure Restores (files : Files) (h refreshed decoded : BootImgHeader) : Prop where
  headerVersion : decoded.headerVersion = refreshed.headerVersion
  pageSize : decoded.pageSize = refreshed.pageSize
  tagsOffset : decoded.tagsOffset = refreshed.tagsOffset
  board : decoded.board = refreshed.board
  cmdline : decoded.cmdline = refreshed.cmdline
  kernelOffset : decoded.kernelOffset = refreshed.kernelOffset
  ramdiskOffset : decoded.ramdiskOffset = refreshed.ramdiskOffset
  secondBootloaderOffset : decoded.secondBootloaderOffset = refreshed.secondBootloaderOffset
  recoveryDtboOffset : decoded.recoveryDtboOffset = refreshed.recoveryDtboOffset
  dtbOffset : decoded.dtbOffset = refreshed.dtbOffset
  /-- A part whose configured length is zero stays absent. -/
  length : ∀ c, (decoded.length c).toNat = if h.length c = 0 then 0 else files.size c.path
  ramdisk_absent : h.ramdiskLength = 0 → decoded.ramdiskOffset = 0
  second_absent : h.secondBootloaderLength = 0 → decoded.secondBootloaderOffset = 0
  recoveryDtbo_absent : h.recoveryDtboLength = 0 → decoded.recoveryDtboOffset = 0
  hash : ∃ hash, refreshed.hash = some hash ∧ hash.length ≤ 32 ∧
    decoded.hash = some (hash ++ zeros (32 - hash.length))

/-- A hash that is packed fits its field. -/
theorem length_hash_le {vm : Jvm} {h : BootImgHeader} {hash bs : Bytes} {osNPatch : Int32}
    (hpack : packFormat vm formatString (h.arguments hash osNPatch) = .ok bs) :
    hash.length ≤ 32 := by
  have hitems := (Avb.packFormat_eq_ok_iff (new_formatString vm) rfl (by decide)
    (allFill_arguments h hash osNPatch)).mp hpack
  obtain ⟨b, hb⟩ := @packItem_of_mem_zip _ _ _ _ _ hitems (.bytes 32, .byteArray hash)
    (by simp [formats, arguments])
  have happend : appendByteArray hash 32 = .ok b := hb
  exact Nat.le_of_not_lt (ite_error_eq_ok_iff.mp happend).1

theorem fileLength_toNat {files : Files} (h : BootImgHeader) {c : Component}
    (hsize : files.size c.path < 2 ^ 31) :
    (h.fileLength files c).toNat = if h.length c = 0 then 0 else files.size c.path := by
  unfold fileLength
  split_ifs
  · rfl
  · exact UInt32.toNat_ofNat_of_lt' (by simp only [UInt32.size]; omega)

theorem fileLength_eq_zero {files : Files} {h : BootImgHeader} {c : Component}
    (hlength : h.length c = 0) : h.fileLength files c = 0 := if_pos hlength

/-- Refreshing leaves the fields at zero that the version does not have. -/
theorem VersionFields.refresh {sha1 : Bytes → Bytes} {files : Files} {h h' : BootImgHeader}
    (hfields : h.VersionFields) (hrefresh : h.refresh sha1 files = .ok h') : h'.VersionFields := by
  obtain ⟨-, offset, hash, hoffset, -, rfl⟩ := refresh_eq_ok hrefresh
  constructor
  · intro hversion
    obtain ⟨hlength, -⟩ := hfields.version_zero hversion
    rw [refreshDtboOffset, if_pos hlength] at hoffset
    exact ⟨fileLength_eq_zero hlength, (Except.ok.inj hoffset).symm⟩
  · intro hversion
    obtain ⟨hlength, hoffset⟩ := hfields.version_one hversion
    exact ⟨fileLength_eq_zero hlength, hoffset⟩

/-- A header with the fields of its version is decoded without changes to them. -/
theorem VersionFields.decodedAs {h : BootImgHeader} (hfields : h.VersionFields)
    (hversion : h.headerVersion = 0 ∨ h.headerVersion = 1 ∨ h.headerVersion = 2) (hash : Bytes)
    (osNPatch headerSize : UInt32) :
    ∃ osVersion osPatchLevel, h.decodedAs hash osNPatch headerSize =
      { h with osVersion, osPatchLevel, headerSize, hash := some hash } := by
  have hzero : ¬ 0 < h.headerVersion → h.headerVersion = 0 := by
    rcases hversion with hv | hv | hv <;> rw [hv] <;> decide
  have hone : ¬ 1 < h.headerVersion → h.headerVersion = 0 ∨ h.headerVersion = 1 := by
    rcases hversion with hv | hv | hv <;> rw [hv] <;> decide
  have hdtboLength : (if 0 < h.headerVersion then h.recoveryDtboLength else 0) =
      h.recoveryDtboLength :=
    ite_eq_left_iff.mpr fun hnot => (hfields.version_zero (hzero hnot)).1.symm
  have hdtboOffset : (if 0 < h.headerVersion then h.recoveryDtboOffset else 0) =
      h.recoveryDtboOffset :=
    ite_eq_left_iff.mpr fun hnot => (hfields.version_zero (hzero hnot)).2.symm
  have hdtbLength : (if 1 < h.headerVersion then h.dtbLength else 0) = h.dtbLength :=
    ite_eq_left_iff.mpr fun hnot => (hfields.version_one (hone hnot)).1.symm
  have hdtbOffset : (if 1 < h.headerVersion then h.dtbOffset else 0) = h.dtbOffset :=
    ite_eq_left_iff.mpr fun hnot => (hfields.version_one (hone hnot)).2.symm
  rw [BootImgHeader.decodedAs, hdtboLength, hdtboOffset, hdtbLength, hdtbOffset]
  exact ⟨_, _, rfl⟩

/-- The lengths of a refreshed object. -/
theorem length_refresh {sha1 : Bytes → Bytes} {files : Files} {h h' : BootImgHeader}
    (hrefresh : h.refresh sha1 files = .ok h') (c : Component) :
    h'.length c = h.fileLength files c := by
  obtain ⟨-, offset, hash, -, -, rfl⟩ := refresh_eq_ok hrefresh
  cases c <;> rfl

/-- The offsets of what is absent are zero in a refreshed object. -/
theorem offset_refresh {sha1 : Bytes → Bytes} {files : Files} {h h' : BootImgHeader}
    (hrefresh : h.refresh sha1 files = .ok h') :
    (h.ramdiskLength = 0 → h'.ramdiskOffset = 0) ∧
      (h.secondBootloaderLength = 0 → h'.secondBootloaderOffset = 0) ∧
      (h.recoveryDtboLength = 0 → h'.recoveryDtboOffset = 0) := by
  obtain ⟨-, offset, hash, hoffset, -, rfl⟩ := refresh_eq_ok hrefresh
  refine ⟨fun hlength => if_pos hlength, fun hlength => if_pos hlength, fun hlength => ?_⟩
  rw [refreshDtboOffset, if_pos hlength] at hoffset
  exact (Except.ok.inj hoffset).symm

/-- What `encode` returns is decoded to the fields of the refreshed object, the sizes of the files
and the hash at its full size. -/
theorem ofStream_encode {vm vm' : Jvm} (hvm : vm'.assertionsEnabled = false)
    {sha1 : Bytes → Bytes} {files : Files} {h h' : BootImgHeader} {bs r : Bytes} {s : InputStream}
    (hfields : h.VersionFields) (hboard : Utf8.Ascii h.board) (hcmdline : Utf8.Ascii h.cmdline)
    (hsizes : ∀ c : Component, files.size c.path < 2 ^ 31)
    (hencode : h.encode vm sha1 files = .ok (bs, h')) (hrest : s.rest = bs ++ r) :
    bs.length = 1660 ∧ h.refresh sha1 files = .ok h' ∧
      ∃ decoded, ofStream vm' s = .ok decoded ∧ Restores files h h' decoded := by
  obtain ⟨hrefresh, hash, osNPatch, hhash, hpack⟩ := encode_eq_ok hencode
  obtain ⟨-, offset, hash', hoffset, hid, hobject⟩ := refresh_eq_ok hrefresh
  have hkept : h'.headerVersion = h.headerVersion ∧ h'.board = h.board ∧
      h'.cmdline = h.cmdline := by
    rw [hobject]
    exact ⟨rfl, rfl, rfl⟩
  have hversion := version_of_imageId hid
  rw [← hkept.1] at hversion
  rw [← hkept.2.1] at hboard
  rw [← hkept.2.2] at hcmdline
  have hlength : bs.length = 1660 := Avb.length_of_packFormat (new_formatString vm) rfl
    (by decide) (allFill_arguments h' hash osNPatch) hpack
  obtain ⟨headerSize, hread⟩ := ofStream_arguments hvm hpack hboard hcmdline hversion hrest
  obtain ⟨osVersion, osPatchLevel, hdecoded⟩ := (hfields.refresh hrefresh).decodedAs hversion
    (extend 32 hash) osNPatch.toUInt32 headerSize
  obtain ⟨hramdisk, hsecond, hdtbo⟩ := offset_refresh hrefresh
  have hlengths : ∀ c, (h'.length c).toNat = if h.length c = 0 then 0 else files.size c.path := by
    intro c
    rw [length_refresh hrefresh, fileLength_toNat h (hsizes c)]
  rw [hdecoded] at hread
  refine ⟨hlength, hrefresh, _, hread, ?_⟩
  exact
    { headerVersion := rfl, pageSize := rfl, tagsOffset := rfl, board := rfl, cmdline := rfl
      kernelOffset := rfl, ramdiskOffset := rfl, secondBootloaderOffset := rfl
      recoveryDtboOffset := rfl, dtbOffset := rfl
      length := fun c => by
        rw [← hlengths c]
        cases c <;> rfl
      ramdisk_absent := hramdisk
      second_absent := hsecond
      recoveryDtbo_absent := hdtbo
      hash := ⟨hash, hhash, length_hash_le hpack, rfl⟩ }

/-- A work directory with a file for every component. -/
def fiveFiles : Files := fun name =>
  if name = Component.kernel.path then some [0x6B, 0x31]
  else if name = Component.ramdisk.path then some [0x72, 0x64, 0x00]
  else if name = Component.second.path then some [0x73]
  else if name = Component.recoveryDtbo.path then some [0xD7, 0xB7]
  else if name = Component.dtb.path then some [0xD0, 0x0D, 0xFE, 0xED]
  else none

/-- The digest of the files of `fiveFiles`. -/
def fiveFilesSha1 : Bytes → Bytes := fun _ =>
  [0x41, 0x95, 0x26, 0xD8, 0x68, 0x67, 0xB9, 0x5C, 0xA3, 0xD8, 0x6D, 0xBA, 0x0E, 0x09, 0xFF, 0x27,
    0x90, 0xA8, 0xD7, 0x1A]

/-- The lengths are those of an earlier image. -/
def fiveFilesHeader : BootImgHeader :=
  { kernelLength := 7, kernelOffset := 0x10008000, ramdiskLength := 1, ramdiskOffset := 0x11000000
    secondBootloaderLength := 9, secondBootloaderOffset := 0x10F00000, recoveryDtboLength := 5
    dtbLength := 4, dtbOffset := 0x11F00000, tagsOffset := 0x10000100, pageSize := 2048
    headerVersion := 2, board := units "b", cmdline := units "quiet"
    osVersion := some (units "10.0.0"), osPatchLevel := some (units "2019-06-05") }

theorem ofStream_encode_fiveFiles :
    ∃ bs h',
      fiveFilesHeader.encode ⟨true, .littleEndian⟩ fiveFilesSha1 fiveFiles = .ok (bs, h') ∧
      bs.length = 1660 ∧ fiveFilesHeader.refresh fiveFilesSha1 fiveFiles = .ok h' ∧
      ∃ decoded, ofStream ⟨false, .littleEndian⟩ (.byteArrayInputStream (bs ++ [0xFF])) =
          .ok decoded ∧ Restores fiveFiles fiveFilesHeader h' decoded := by
  have hreturns : (fiveFilesHeader.encode ⟨true, .littleEndian⟩ fiveFilesSha1 fiveFiles).map
      (fun p => p.1.length) = .ok 1660 := by decide +kernel
  have hsizes : ∀ c : Component, fiveFiles.size c.path < 2 ^ 31 := by
    intro c
    cases c <;> decide
  have hfields : fiveFilesHeader.VersionFields := by constructor <;> decide
  cases hencode : fiveFilesHeader.encode ⟨true, .littleEndian⟩ fiveFilesSha1 fiveFiles with
  | error e =>
      rw [hencode] at hreturns
      cases hreturns
  | ok p =>
      exact ⟨p.1, p.2, rfl, ofStream_encode rfl hfields (by decide) (by decide) hsizes hencode rfl⟩

end BootImgHeader

end Bootimg

end BootImageEditor
