import BootImageEditor.Bootimg.OsVersionWord
import BootImageEditor.Bootimg.Packer

/-!
# The reference packer

`toCommandLine` hands the header to `mkbootimg.py`, and `pack` compares the image that this
writes with its own. `Mkbootimg.main` is the tool for the header versions 0, 1 and 2: the options
are parsed, the header is written field by field and filled up to a page, and so is each file
behind it.
-/

namespace BootImageEditor

open Codec Fallible Struct3

namespace Bootimg

def isNullOrBlank (s : Option KString) : Bool := isBlank (s.getD [])

/-- `toCommandLine()`: the options, without the blanks that the library trims, and their values, up
to the name of the output. -/
def BootImgInfo.toCommandLine (i : BootImgInfo) : List KString :=
  [units "--header_version", Numeral.render 10 i.headerVersion.toNat,
    units "--base", UnifiedConfig.hexLong 0,
    units "--kernel", Component.path .kernel,
    units "--kernel_offset", UnifiedConfig.hexInt i.kernelOffset.toInt32] ++
  (if 0 < i.ramdiskLength then [units "--ramdisk", Component.path .ramdisk] else []) ++
  [units "--ramdisk_offset", UnifiedConfig.hexInt i.ramdiskOffset.toInt32] ++
  (if 0 < i.secondBootloaderLength then
    [units "--second", Component.path .second,
      units "--second_offset", UnifiedConfig.hexInt i.secondBootloaderOffset.toInt32]
  else []) ++
  (if !isBlank i.board then [units "--board", i.board] else []) ++
  (if 0 < i.headerVersion ∧ 0 < i.recoveryDtboLength then
    [units "--recovery_dtbo", Component.path .recoveryDtbo]
  else []) ++
  (if 1 < i.headerVersion ∧ 0 < i.dtbLength then [units "--dtb", Component.path .dtb] else []) ++
  (if 1 < i.headerVersion then
    [units "--dtb_offset", UnifiedConfig.hexLong i.dtbOffset.toInt64]
  else []) ++
  [units "--pagesize", BootImgHeader.decimal i.pageSize.toInt32, units "--cmdline", i.cmdline] ++
  (if !isNullOrBlank i.osVersion then [units "--os_version", i.osVersion.getD []] else []) ++
  (if !isNullOrBlank i.osPatchLevel then
    [units "--os_patch_level", i.osPatchLevel.getD []]
  else []) ++
  [units "--tags_offset", UnifiedConfig.hexInt i.tagsOffset.toInt32, units "--id",
    units "--output"]

namespace Mkbootimg

open BootImgHeader

/-! ## Options -/

/-- All option strings of the parser. -/
def optionStrings : List KString :=
  [units "-h", units "--help", units "--kernel", units "--ramdisk", units "--second",
    units "--dtb", units "--recovery_dtbo", units "--recovery_acpio", units "--cmdline",
    units "--vendor_cmdline", units "--base", units "--kernel_offset", units "--ramdisk_offset",
    units "--second_offset", units "--dtb_offset", units "--os_version",
    units "--os_patch_level", units "--tags_offset", units "--board", units "--pagesize",
    units "--id", units "--header_version", units "-o", units "--output", units "--vendor_boot",
    units "--vendor_ramdisk"]

/-- The option strings that an argument with a dash stands for, written in full or not. -/
def optionTuples : KString → List KString
  | 0x2D :: 0x2D :: s =>
      optionStrings.filter ((0x2D :: 0x2D :: s.takeWhile (· ≠ 0x3D)).isPrefixOf ·)
  | 0x2D :: c :: s => optionStrings.filter fun o => o = [0x2D, c] || (0x2D :: c :: s).isPrefixOf o
  | _ => []

/-- `^-\d+$|^-\d*\.\d+$`, behind the dash. -/
def isNumber (s : KString) : Bool :=
  -- `$` also matches before a newline at the end
  let s := if s.getLast? = some 0x0A then s.dropLast else s
  match s.dropWhile isDigit with
  | [] => s ≠ []
  | c :: f => c = 0x2E && f ≠ [] && f.all isDigit

/-- Whether the parser takes an argument for the value of the option before it. -/
def isValue : KString → Bool
  | [] => true
  | [_] => true
  | 0x2D :: s => optionTuples (0x2D :: s) = [] && (isNumber s || s.contains 0x20)
  | _ => true

structure Args where
  kernel : Option Bytes := none
  ramdisk : Option Bytes := none
  second : Option Bytes := none
  dtb : Option Bytes := none
  recoveryDtbo : Option Bytes := none
  cmdline : KString := []
  base : ℕ := 0x10000000
  kernelOffset : ℕ := 0x00008000
  ramdiskOffset : ℕ := 0x01000000
  secondOffset : ℕ := 0x00f00000
  dtbOffset : ℕ := 0x01f00000
  osVersion : ℕ := 0
  osPatchLevel : ℕ := 0
  tagsOffset : ℕ := 0x00000100
  board : KString := []
  pagesize : ℕ := 2048
  headerVersion : ℕ := 0
  output : Option KString := none

/-- The options with a value, for boot images of the versions 0, 1 and 2. -/
inductive Opt where
  | kernel
  | ramdisk
  | second
  | dtb
  | recoveryDtbo
  | recoveryAcpio
  | cmdline
  | base
  | kernelOffset
  | ramdiskOffset
  | secondOffset
  | dtbOffset
  | osVersion
  | osPatchLevel
  | tagsOffset
  | board
  | pagesize
  | headerVersion
  | output
  deriving DecidableEq

namespace Opt

def text : Opt → KString
  | kernel => units "--kernel"
  | ramdisk => units "--ramdisk"
  | second => units "--second"
  | dtb => units "--dtb"
  | recoveryDtbo => units "--recovery_dtbo"
  | recoveryAcpio => units "--recovery_acpio"
  | cmdline => units "--cmdline"
  | base => units "--base"
  | kernelOffset => units "--kernel_offset"
  | ramdiskOffset => units "--ramdisk_offset"
  | secondOffset => units "--second_offset"
  | dtbOffset => units "--dtb_offset"
  | osVersion => units "--os_version"
  | osPatchLevel => units "--os_patch_level"
  | tagsOffset => units "--tags_offset"
  | board => units "--board"
  | pagesize => units "--pagesize"
  | headerVersion => units "--header_version"
  | output => units "--output"

def all : List Opt :=
  [kernel, ramdisk, second, dtb, recoveryDtbo, recoveryAcpio, cmdline, base, kernelOffset,
    ramdiskOffset, secondOffset, dtbOffset, osVersion, osPatchLevel, tagsOffset, board, pagesize,
    headerVersion, output]

def ofText (s : KString) : Option Opt := all.find? fun o => o.text = s

end Opt

/-- `parse_int(x)`: `int(x, 0)`. -/
def parseInt (x : KString) : Option ℕ :=
  if x.take 2 = units "0x" then Numeral.parse 16 (x.drop 2)
  else if x.take 1 = units "0" then Numeral.parse 8 x
  else Numeral.parse 10 x

/-- `parse_os_patch_level(x)`; `none` when one of its assertions fails. -/
def parseOsPatchLevel (x : KString) : Option ℕ :=
  match findPatchLevel x with
  | none => some 0
  | some (year, month, _) =>
      let m := int month
      if 2000 ≤ int year ∧ int year - 2000 < 128 ∧ 0 < m ∧ m ≤ 12 then
        some (((int year - 2000) <<< 4) ||| m)
      else none

/-- `ValidateStrLenAction` counts bytes. -/
def validateStrLen (maxlen : ℕ) (values : KString) : Option KString :=
  if maxlen < (Utf8.encode values).length then none else some values

/-- The action of an option. -/
def setOption (files : Files) (a : Args) (value : KString) : Opt → Option Args
  | .kernel => (files value).map fun f => { a with kernel := some f }
  | .ramdisk => (files value).map fun f => { a with ramdisk := some f }
  | .second => (files value).map fun f => { a with second := some f }
  | .dtb => (files value).map fun f => { a with dtb := some f }
  | .recoveryDtbo => (files value).map fun f => { a with recoveryDtbo := some f }
  | .recoveryAcpio => (files value).map fun f => { a with recoveryDtbo := some f }
  | .cmdline => (validateStrLen 1536 value).map fun s => { a with cmdline := s }
  | .base => (parseInt value).map fun n => { a with base := n }
  | .kernelOffset => (parseInt value).map fun n => { a with kernelOffset := n }
  | .ramdiskOffset => (parseInt value).map fun n => { a with ramdiskOffset := n }
  | .secondOffset => (parseInt value).map fun n => { a with secondOffset := n }
  | .dtbOffset => (parseInt value).map fun n => { a with dtbOffset := n }
  | .osVersion => (parseOsVersion value).map fun n => { a with osVersion := n }
  | .osPatchLevel => (parseOsPatchLevel value).map fun n => { a with osPatchLevel := n }
  | .tagsOffset => (parseInt value).map fun n => { a with tagsOffset := n }
  | .board => (validateStrLen 16 value).map fun s => { a with board := s }
  | .pagesize =>
      match parseInt value with
      | none => none
      | some n => if n ∈ [2048, 4096, 8192, 16384] then some { a with pagesize := n } else none
  | .headerVersion => (parseInt value).map fun n => { a with headerVersion := n }
  | .output => some { a with output := some value }

/-- `parse_cmdline()` on options that are written in full. -/
def parseCmdline (files : Files) : List KString → Args → Option Args
  | [], a => some a
  | name :: argv, a =>
      if name = units "--id" then parseCmdline files argv a
      else
        match argv with
        | [] => none
        | value :: argv =>
            match Opt.ofText name with
            | none => none
            | some option =>
                if isValue value then
                  match setOption files a value option with
                  | none => none
                  | some a => parseCmdline files argv a
                else none

/-! ## Writing -/

def filesize (f : Option Bytes) : ℕ := (f.getD []).length

/-- `pack('I', n)`. -/
def packI (n : ℕ) : Option Bytes :=
  if n < 2 ^ 32 then some (ByteOrder.littleEndian.encode 4 n) else none

/-- `pack('Q', n)`. -/
def packQ (n : ℕ) : Option Bytes :=
  if n < 2 ^ 64 then some (ByteOrder.littleEndian.encode 8 n) else none

/-- `pack('{width}s', bs)`. -/
def packS (width : ℕ) (bs : Bytes) : Bytes := bs.take width ++ zeros (width - bs.length)

/-- `s.encode()`, which decodes the bytes of `s` as ASCII first. -/
def asciiEncode (s : KString) : Option Bytes :=
  if s.all (·.toNat < 0x80) then some (Utf8.encode s) else none

/-- `update_sha(sha, f)`: what is passed to the digest. -/
def updateSha (f : Option Bytes) : Option Bytes := do
  let size ← packI (filesize f)
  some (f.getD [] ++ size)

/-- `pad_file(f, padding)`. -/
def padFile (f : Bytes) (padding : ℕ) : Bytes :=
  f ++ zeros ((padding - (f.length &&& (padding - 1))) &&& (padding - 1))

def getNumberOfPages (imageSize pageSize : ℕ) : ℕ := (imageSize + pageSize - 1) / pageSize

def getRecoveryDtboOffset (args : Args) : ℕ :=
  let numHeaderPages := 1
  let numKernelPages := getNumberOfPages (filesize args.kernel) args.pagesize
  let numRamdiskPages := getNumberOfPages (filesize args.ramdisk) args.pagesize
  let numSecondPages := getNumberOfPages (filesize args.second) args.pagesize
  args.pagesize * (numHeaderPages + numKernelPages + numRamdiskPages + numSecondPages)

/-- What stands behind the command line from version 1 on. -/
def writeVersionOne (args : Args) : Option Bytes :=
  if 0 < args.headerVersion then do
    let size ← packI (filesize args.recoveryDtbo)
    let offset ← packQ (if args.recoveryDtbo.isSome then getRecoveryDtboOffset args else 0)
    let headerSize ← packI (if args.headerVersion = 1 then 1648 else 1660)
    some (size ++ offset ++ headerSize)
  else some []

/-- What stands behind it in version 2. -/
def writeVersionTwo (args : Args) : Option Bytes :=
  if 1 < args.headerVersion then
    if filesize args.dtb = 0 then none
    else do
      let size ← packI (filesize args.dtb)
      let offset ← packQ (args.base + args.dtbOffset)
      some (size ++ offset)
  else some []

/-- What the image id is the digest of. -/
def idInput (args : Args) : Option Bytes := do
  let parts ← ([args.kernel, args.ramdisk, args.second] ++
    (if 0 < args.headerVersion then [args.recoveryDtbo] else []) ++
    (if 1 < args.headerVersion then [args.dtb] else [])).mapM updateSha
  some parts.flatten

/-- The ten numbers behind the magic. -/
def numbers (args : Args) : List ℕ :=
  [filesize args.kernel, args.base + args.kernelOffset, filesize args.ramdisk,
    if 0 < filesize args.ramdisk then args.base + args.ramdiskOffset else 0,
    filesize args.second, if 0 < filesize args.second then args.base + args.secondOffset else 0,
    args.base + args.tagsOffset, args.pagesize, args.headerVersion,
    (args.osVersion <<< 11) ||| args.osPatchLevel]

/-- `write_header(args)`. -/
def writeHeader (sha1 : Bytes → Bytes) (args : Args) : Option Bytes :=
  -- version 3 has a header of its own
  if 2 < args.headerVersion then none
  else do
    let words ← (numbers args).mapM packI
    let board ← asciiEncode args.board
    let cmdline1 ← asciiEncode (args.cmdline.take 512)
    let input ← idInput args
    let cmdline2 ← asciiEncode (args.cmdline.drop 512)
    let one ← writeVersionOne args
    let two ← writeVersionTwo args
    some (padFile (Utf8.encode magic ++ words.flatten ++ packS 16 board ++ packS 512 cmdline1 ++
      packS 32 (sha1 input) ++ packS 1024 cmdline2 ++ one ++ two) args.pagesize)

/-- `write_padded_file(f_out, f_in, padding)`. -/
def writePaddedFile (out : Bytes) (f : Option Bytes) (padding : ℕ) : Bytes :=
  match f with
  | none => out
  | some data => padFile (out ++ data) padding

/-- `write_data(args, pagesize)`, behind the header. -/
def writeData (args : Args) (out : Bytes) : Bytes :=
  let out := writePaddedFile out args.kernel args.pagesize
  let out := writePaddedFile out args.ramdisk args.pagesize
  let out := writePaddedFile out args.second args.pagesize
  let out :=
    if 0 < args.headerVersion ∧ args.headerVersion < 3 then
      writePaddedFile out args.recoveryDtbo args.pagesize
    else out
  if args.headerVersion = 2 then writePaddedFile out args.dtb args.pagesize else out

/-- `main()`: the content of the output, `none` where the tool fails. -/
def main (sha1 : Bytes → Bytes) (files : Files) (argv : List KString) : Option Bytes := do
  let args ← parseCmdline files argv {}
  if args.output = none ∨ args.kernel = none then none
  else do
    let header ← writeHeader sha1 args
    some (writeData args header)

/-! ## Parsing what `toCommandLine` writes -/

theorem Opt.ofText_text (o : Opt) : Opt.ofText o.text = some o := by
  cases o <;> decide

theorem Opt.text_ne_id (o : Opt) : o.text ≠ units "--id" := by
  cases o <;> decide

theorem isValue_of_head {s : KString} (h : ∀ c ∈ s.head?, c ≠ 0x2D) : isValue s = true := by
  unfold isValue
  split
  · rfl
  · rfl
  · exact absurd rfl (h _ rfl)
  · rfl

theorem isValue_hex (n : ℕ) : isValue (units "0x" ++ Numeral.render 16 n) = true := by
  apply isValue_of_head
  rintro c hc
  obtain rfl : 0x30 = c := Option.some.inj hc
  decide

theorem parseInt_hex (n : ℕ) : parseInt (units "0x" ++ Numeral.render 16 n) = some n := by
  have hlen : (units "0x").length = 2 := by decide
  rw [parseInt, List.take_left' hlen, if_pos rfl, List.drop_left' hlen,
    Numeral.parse_render (by decide) (by decide)]

/-- The argument of an option is taken for its value, and handed to the action. -/
theorem parseCmdline_option (files : Files) (o : Opt) (value : KString) (argv : List KString)
    (a : Args) :
    parseCmdline files (o.text :: value :: argv) a =
      (if isValue value then setOption files a value o else none).bind
        (parseCmdline files argv) := by
  rw [parseCmdline.eq_def]
  simp only [if_neg o.text_ne_id, Opt.ofText_text]
  split_ifs
  · cases setOption files a value o with
    | none => rfl
    | some a => rfl
  · rfl

theorem parseCmdline_id (files : Files) (argv : List KString) (a : Args) :
    parseCmdline files (units "--id" :: argv) a = parseCmdline files argv a := by
  rw [parseCmdline.eq_def]
  exact if_pos rfl

/-- An option that may be left out. -/
theorem parseCmdline_optional (files : Files) (p : Prop) [Decidable p] (o : Opt)
    (value : KString) (argv : List KString) (a : Args) :
    parseCmdline files ((if p then [o.text, value] else []) ++ argv) a =
      (if p then if isValue value then setOption files a value o else none else some a).bind
        (parseCmdline files argv) := by
  split_ifs with hp hvalue
  · rw [List.cons_append, List.cons_append, parseCmdline_option, if_pos hvalue, List.nil_append]
  · rw [List.cons_append, List.cons_append, parseCmdline_option, if_neg hvalue, List.nil_append]
  · rfl

/-- The two options of the second bootloader. -/
theorem parseCmdline_optional_two (files : Files) (p : Prop) [Decidable p] (o o' : Opt)
    (value value' : KString) (argv : List KString) (a : Args) :
    parseCmdline files ((if p then [o.text, value, o'.text, value'] else []) ++ argv) a =
      (if p then
        (if isValue value then setOption files a value o else none).bind fun a =>
          if isValue value' then setOption files a value' o' else none
      else some a).bind (parseCmdline files argv) := by
  by_cases hp : p
  · simp only [if_pos hp, List.cons_append, List.nil_append, parseCmdline_option]
    by_cases hvalue : isValue value
    · by_cases hvalue' : isValue value'
      · simp only [if_pos hvalue, if_pos hvalue', Option.bind_assoc]
      · simp only [if_pos hvalue, if_neg hvalue', Option.bind_assoc]
    · simp only [if_neg hvalue, Option.bind_none]
  · simp only [if_neg hp, List.nil_append, Option.bind_some]

/-- A file that is handed over if its component is present. -/
def givenFile (files : Files) (p : Prop) [Decidable p] (c : Component) : Option (Option Bytes) :=
  if p then (files c.path).map some else some none

/-- The value of an option that may be left out. -/
def givenValue {α : Type} (p : Prop) [Decidable p] (value : KString) (convert : KString → Option α)
    (default : α) : Option α :=
  if p then if isValue value then convert value else none else some default

theorem bind_givenFile {files : Files} {p : Prop} [Decidable p] {c : Component}
    {set : Bytes → Args} {a : Args} {k : Args → Option Args} {k' : Option Bytes → Option Args}
    (upd : Option Bytes → Args) (hsome : p → ∀ f, set f = upd (some f)) (hnone : ¬ p → a = upd none)
    (h : ∀ r, k (upd r) = k' r) :
    (if p then (files c.path).map set else some a).bind k = (givenFile files p c).bind k' := by
  unfold givenFile
  split_ifs with hp
  · cases files c.path with
    | none => rfl
    | some f => simp only [Option.map_some, Option.bind_some, hsome hp, h]
  · simp only [Option.bind_some, hnone hp, h]

theorem bind_givenValue {α : Type} {p : Prop} [Decidable p] {value : KString}
    {convert : KString → Option α} {default : α} {set : α → Args} {a : Args}
    {k : Args → Option Args} {k' : α → Option Args} (upd : α → Args)
    (hsome : ∀ x, set x = upd x) (hnone : ¬ p → a = upd default) (h : ∀ x, k (upd x) = k' x) :
    (if p then if isValue value then (convert value).map set else none else some a).bind k =
      (givenValue p value convert default).bind k' := by
  unfold givenValue
  split_ifs with hp hvalue
  · cases convert value with
    | none => rfl
    | some x => simp only [Option.map_some, Option.bind_some, hsome, h]
  · rfl
  · simp only [Option.bind_some, hnone hp, h]

theorem bind_value {α : Type} {value : KString} {convert : KString → Option α} {default : α}
    {set : α → Args} {k : Args → Option Args} {k' : α → Option Args}
    (h : ∀ x, k (set x) = k' x) :
    (if isValue value then (convert value).map set else none).bind k =
      (givenValue True value convert default).bind k' := by
  have hgiven := @bind_givenValue α True _ value convert default set (set default) k k' set
    (fun _ => rfl) (fun _ => rfl) h
  rwa [if_pos trivial] at hgiven

theorem bind_optional {p : Prop} [Decidable p] {a a' : Args} {k : Args → Option Args}
    {b : Option Args} (upd : Args) (hsome : p → a' = upd) (hnone : ¬ p → a = upd)
    (h : k upd = b) : (if p then some a' else some a).bind k = b := by
  split_ifs with hp
  · rw [Option.bind_some, hsome hp, h]
  · rw [Option.bind_some, hnone hp, h]

theorem map_bind_some {α : Type} (x : Option α) (set : α → Args) (g : Args → Args) :
    ((x.map set).bind fun a => some (g a)) = x.map fun f => g (set f) := by
  cases x <;> rfl

/-- What the parser makes of the numbers of a header. -/
def numbersArgs (i : BootImgInfo) : Args :=
  { base := 0
    kernelOffset := i.kernelOffset.toNat
    ramdiskOffset := i.ramdiskOffset.toNat
    secondOffset :=
      if 0 < i.secondBootloaderLength then i.secondBootloaderOffset.toNat else 0x00f00000
    dtbOffset := if 1 < i.headerVersion then i.dtbOffset.toNat else 0x01f00000
    tagsOffset := i.tagsOffset.toNat
    pagesize := i.pageSize.toNat
    headerVersion := i.headerVersion.toNat }

/-- The arguments as far as the second bootloader, with the defaults of the numbers behind it. -/
def earlyArgs (i : BootImgInfo) (kernel : Bytes) (ramdisk second : Option Bytes) : Args :=
  { numbersArgs i with
    kernel := some kernel
    ramdisk
    second
    dtbOffset := 0x01f00000
    tagsOffset := 0x00000100
    pagesize := 2048 }

theorem isValue_path (c : Component) : isValue c.path = true := by
  cases c <;> decide

theorem parseInt_pageSize {p : UInt32} (hp : Packer.PageSize p) :
    isValue (BootImgHeader.decimal p.toInt32) = true ∧
      parseInt (BootImgHeader.decimal p.toInt32) = some p.toNat ∧
      p.toNat ∈ [2048, 4096, 8192, 16384] := by
  have hp' : p = 2048 ∨ p = 4096 ∨ p = 8192 ∨ p = 16384 := by
    rcases hp with h | h | h | h
    · exact Or.inl (UInt32.toNat_inj.mp h)
    · exact Or.inr (Or.inl (UInt32.toNat_inj.mp h))
    · exact Or.inr (Or.inr (Or.inl (UInt32.toNat_inj.mp h)))
    · exact Or.inr (Or.inr (Or.inr (UInt32.toNat_inj.mp h)))
  rcases hp' with rfl | rfl | rfl | rfl <;> decide +kernel

theorem parseInt_version {v : UInt32} (hv : v = 0 ∨ v = 1 ∨ v = 2) :
    isValue (Numeral.render 10 v.toNat) = true ∧
      parseInt (Numeral.render 10 v.toNat) = some v.toNat := by
  rcases hv with rfl | rfl | rfl <;> decide

theorem toNat_hexInt (n : UInt32) : isValue (UnifiedConfig.hexInt n.toInt32) = true ∧
    parseInt (UnifiedConfig.hexInt n.toInt32) = some n.toNat := by
  rw [UnifiedConfig.hexInt, UInt32.toUInt32_toInt32]
  exact ⟨isValue_hex _, parseInt_hex _⟩

theorem toNat_hexLong (n : UInt64) : isValue (UnifiedConfig.hexLong n.toInt64) = true ∧
    parseInt (UnifiedConfig.hexLong n.toInt64) = some n.toNat := by
  rw [UnifiedConfig.hexLong, UInt64.toUInt64_toInt64]
  exact ⟨isValue_hex _, parseInt_hex _⟩

/-- The arguments of a header and its files. -/
theorem parseCmdline_toCommandLine {files : Files} {i : BootImgInfo} {output : KString}
    (hversion : i.headerVersion = 0 ∨ i.headerVersion = 1 ∨ i.headerVersion = 2)
    (hpage : Packer.PageSize i.pageSize) :
    parseCmdline files (i.toCommandLine ++ [output]) {} =
      (files (Component.path .kernel)).bind fun kernel =>
      (givenFile files (0 < i.ramdiskLength) .ramdisk).bind fun ramdisk =>
      (givenFile files (0 < i.secondBootloaderLength) .second).bind fun second =>
      (givenValue (!isBlank i.board) i.board (validateStrLen 16) []).bind fun board =>
      (givenFile files (0 < i.headerVersion ∧ 0 < i.recoveryDtboLength) .recoveryDtbo).bind
        fun recoveryDtbo =>
      (givenFile files (1 < i.headerVersion ∧ 0 < i.dtbLength) .dtb).bind fun dtb =>
      (givenValue True i.cmdline (validateStrLen 1536) []).bind fun cmdline =>
      (givenValue (!isNullOrBlank i.osVersion) (i.osVersion.getD []) parseOsVersion 0).bind
        fun osVersion =>
      (givenValue (!isNullOrBlank i.osPatchLevel) (i.osPatchLevel.getD []) parseOsPatchLevel
        0).bind fun osPatchLevel =>
      if isValue output then
        some { numbersArgs i with
          kernel := some kernel, ramdisk, second, board, recoveryDtbo, dtb, cmdline, osVersion
          osPatchLevel, output := some output }
      else none := by
  have hlist : i.toCommandLine ++ [output] =
      Opt.headerVersion.text :: Numeral.render 10 i.headerVersion.toNat ::
      Opt.base.text :: UnifiedConfig.hexLong 0 ::
      Opt.kernel.text :: Component.path .kernel ::
      Opt.kernelOffset.text :: UnifiedConfig.hexInt i.kernelOffset.toInt32 ::
      ((if 0 < i.ramdiskLength then [Opt.ramdisk.text, Component.path .ramdisk] else []) ++
      Opt.ramdiskOffset.text :: UnifiedConfig.hexInt i.ramdiskOffset.toInt32 ::
      ((if 0 < i.secondBootloaderLength then
        [Opt.second.text, Component.path .second, Opt.secondOffset.text,
          UnifiedConfig.hexInt i.secondBootloaderOffset.toInt32]
      else []) ++
      ((if !isBlank i.board then [Opt.board.text, i.board] else []) ++
      ((if 0 < i.headerVersion ∧ 0 < i.recoveryDtboLength then
        [Opt.recoveryDtbo.text, Component.path .recoveryDtbo]
      else []) ++
      ((if 1 < i.headerVersion ∧ 0 < i.dtbLength then [Opt.dtb.text, Component.path .dtb]
      else []) ++
      ((if 1 < i.headerVersion then
        [Opt.dtbOffset.text, UnifiedConfig.hexLong i.dtbOffset.toInt64]
      else []) ++
      Opt.pagesize.text :: BootImgHeader.decimal i.pageSize.toInt32 ::
      Opt.cmdline.text :: i.cmdline ::
      ((if !isNullOrBlank i.osVersion then [Opt.osVersion.text, i.osVersion.getD []] else []) ++
      ((if !isNullOrBlank i.osPatchLevel then
        [Opt.osPatchLevel.text, i.osPatchLevel.getD []]
      else []) ++
      Opt.tagsOffset.text :: UnifiedConfig.hexInt i.tagsOffset.toInt32 :: units "--id" ::
        Opt.output.text :: output :: [])))))))) := by
    simp only [BootImgInfo.toCommandLine, List.append_assoc, List.cons_append, List.nil_append]
    rfl
  obtain ⟨hversionValue, hversionInt⟩ := parseInt_version hversion
  obtain ⟨hpageValue, hpageInt, hpageChoice⟩ := parseInt_pageSize hpage
  have hbase : isValue (UnifiedConfig.hexLong 0) = true ∧
      parseInt (UnifiedConfig.hexLong 0) = some 0 := by decide
  have hkernelOffset := toNat_hexInt i.kernelOffset
  have hramdiskOffset := toNat_hexInt i.ramdiskOffset
  have hsecondOffset := toNat_hexInt i.secondBootloaderOffset
  have hdtbOffset := toNat_hexLong i.dtbOffset
  have htagsOffset := toNat_hexInt i.tagsOffset
  rw [hlist]
  simp only [parseCmdline_option, parseCmdline_optional, parseCmdline_optional_two,
    parseCmdline_id, isValue_path, hversionValue, hversionInt, hpageValue, hpageInt,
    hpageChoice, hbase, hkernelOffset, hramdiskOffset, hsecondOffset, hdtbOffset, htagsOffset,
    setOption, if_true, Option.map_some, Option.bind_some]
  cases files (Component.path .kernel) with
  | none => rfl
  | some kernel =>
      simp only [Option.map_some, Option.bind_some]
      refine bind_givenFile (fun ramdisk =>
        { base := 0, headerVersion := i.headerVersion.toNat, kernel := some kernel
          kernelOffset := i.kernelOffset.toNat, ramdisk }) (fun _ _ => rfl) (fun _ => rfl) ?_
      intro ramdisk
      simp only [map_bind_some]
      refine bind_givenFile (fun second => earlyArgs i kernel ramdisk second)
        (fun hp _ => by simp only [earlyArgs, numbersArgs, if_pos hp])
        (fun hp => by simp only [earlyArgs, numbersArgs, if_neg hp]) ?_
      intro second
      refine bind_givenValue (fun board => { earlyArgs i kernel ramdisk second with board })
        (fun _ => rfl) (fun _ => rfl) ?_
      intro board
      refine bind_givenFile (fun recoveryDtbo =>
        { earlyArgs i kernel ramdisk second with board, recoveryDtbo })
        (fun _ _ => rfl) (fun _ => rfl) ?_
      intro recoveryDtbo
      refine bind_givenFile (fun dtb =>
        { earlyArgs i kernel ramdisk second with board, recoveryDtbo, dtb })
        (fun _ _ => rfl) (fun _ => rfl) ?_
      intro dtb
      refine bind_optional
        { earlyArgs i kernel ramdisk second with
          board, recoveryDtbo, dtb, dtbOffset := (numbersArgs i).dtbOffset }
        (fun hp => by simp only [numbersArgs, if_pos hp])
        (fun hp => by simp only [numbersArgs, if_neg hp]; rfl) ?_
      simp only [parseCmdline_option, parseCmdline_optional, parseCmdline_id, hpageValue, hpageInt,
        hpageChoice, htagsOffset, setOption, if_true, Option.map_some, Option.bind_some]
      refine bind_value ?_
      intro cmdline
      rw [parseCmdline_optional]
      refine bind_givenValue (fun osVersion =>
        { numbersArgs i with
          kernel := some kernel, ramdisk, second, board, recoveryDtbo, dtb, cmdline, osVersion
          tagsOffset := 0x00000100 }) (fun _ => rfl) (fun _ => rfl) ?_
      intro osVersion
      rw [parseCmdline_optional]
      refine bind_givenValue (fun osPatchLevel =>
        { numbersArgs i with
          kernel := some kernel, ramdisk, second, board, recoveryDtbo, dtb, cmdline, osVersion
          osPatchLevel, tagsOffset := 0x00000100 }) (fun _ => rfl) (fun _ => rfl) ?_
      intro osPatchLevel
      simp only [parseCmdline_option, parseCmdline_id, htagsOffset, setOption, if_true,
        Option.map_some, Option.bind_some]
      split_ifs
      · rfl
      · rfl

end Mkbootimg

end Bootimg

end BootImageEditor
