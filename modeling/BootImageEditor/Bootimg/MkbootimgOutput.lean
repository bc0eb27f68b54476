import BootImageEditor.Bootimg.Mkbootimg

/-!
# What the reference packer writes

For arguments that `toCommandLine` makes, `Mkbootimg.main` fails exactly when a text, a file or the
size of the dtb is refused. Otherwise its header page has the fields of version 2, with zeros for
those of a later version, and the components stand behind it as in the image of `Packer`.
-/

namespace BootImageEditor

open Codec Fallible Struct3

namespace Bootimg

namespace Mkbootimg

open BootImgHeader

/-! ## The header of the tool -/

theorem mapM_packI {l : List ℕ} (h : ∀ n ∈ l, n < 2 ^ 32) :
    l.mapM packI = some (l.map (ByteOrder.littleEndian.encode 4)) := by
  induction l with
  | nil => rfl
  | cons n l ih =>
      have hn : packI n = some (ByteOrder.littleEndian.encode 4 n) :=
        if_pos (h n List.mem_cons_self)
      rw [List.mapM_cons, hn, ih fun m hm => h m (List.mem_cons_of_mem n hm)]
      rfl

theorem mapM_updateSha {l : List (Option Bytes)} (h : ∀ f ∈ l, filesize f < 2 ^ 32) :
    l.mapM updateSha =
      some (l.map fun f => f.getD [] ++ ByteOrder.littleEndian.encode 4 (filesize f)) := by
  induction l with
  | nil => rfl
  | cons f l ih =>
      have hf : updateSha f =
          some (f.getD [] ++ ByteOrder.littleEndian.encode 4 (filesize f)) := by
        rw [updateSha, packI, if_pos (h f List.mem_cons_self)]
        rfl
      rw [List.mapM_cons, hf, ih fun g hg => h g (List.mem_cons_of_mem f hg)]
      rfl

/-- The files that the image id is made of. -/
def hashed (args : Args) : List (Option Bytes) :=
  [args.kernel, args.ramdisk, args.second] ++
    (if 0 < args.headerVersion then [args.recoveryDtbo] else []) ++
    (if 1 < args.headerVersion then [args.dtb] else [])

/-- The numbers of a header fit their fields. -/
structure Fits (args : Args) : Prop where
  version : args.headerVersion ≤ 2
  numbers : ∀ n ∈ numbers args, n < 2 ^ 32
  hashed : ∀ f ∈ hashed args, filesize f < 2 ^ 32
  recoveryDtboOffset : getRecoveryDtboOffset args < 2 ^ 64
  dtbOffset : args.base + args.dtbOffset < 2 ^ 64

/-- What the header page begins with. -/
def headerBytes (sha1 : Bytes → Bytes) (args : Args) : Bytes :=
  Utf8.encode magic ++ ((numbers args).map (ByteOrder.littleEndian.encode 4)).flatten ++
    packS 16 (Utf8.encode args.board) ++ packS 512 (Utf8.encode (args.cmdline.take 512)) ++
    packS 32 (sha1 ((hashed args).map fun f =>
      f.getD [] ++ ByteOrder.littleEndian.encode 4 (filesize f)).flatten) ++
    packS 1024 (Utf8.encode (args.cmdline.drop 512)) ++
    (if 0 < args.headerVersion then
      ByteOrder.littleEndian.encode 4 (filesize args.recoveryDtbo) ++
        ByteOrder.littleEndian.encode 8
          (if args.recoveryDtbo.isSome then getRecoveryDtboOffset args else 0) ++
        ByteOrder.littleEndian.encode 4 (if args.headerVersion = 1 then 1648 else 1660)
    else []) ++
    (if 1 < args.headerVersion then
      ByteOrder.littleEndian.encode 4 (filesize args.dtb) ++
        ByteOrder.littleEndian.encode 8 (args.base + args.dtbOffset)
    else [])

/-- The texts that the tool encodes. -/
def AsciiText (s : KString) : Prop := s.all (·.toNat < 0x80) = true

theorem asciiText_take {s : KString} (h : AsciiText s) (n : ℕ) :
    AsciiText (s.take n) ∧ AsciiText (s.drop n) := by
  unfold AsciiText at h ⊢
  rw [← List.take_append_drop n s, List.all_append, Bool.and_eq_true] at h
  exact h

theorem asciiText_of_take {s : KString} {n : ℕ} (h : AsciiText (s.take n))
    (h' : AsciiText (s.drop n)) : AsciiText s := by
  unfold AsciiText at h h' ⊢
  rw [← List.take_append_drop n s, List.all_append, Bool.and_eq_true]
  exact ⟨h, h'⟩

theorem asciiEncode_of_ascii {s : KString} (h : AsciiText s) :
    asciiEncode s = some (Utf8.encode s) := if_pos h

theorem asciiEncode_of_not_ascii {s : KString} (h : ¬ AsciiText s) : asciiEncode s = none :=
  if_neg h

theorem packI_of_lt {n : ℕ} (h : n < 2 ^ 32) :
    packI n = some (ByteOrder.littleEndian.encode 4 n) := if_pos h

theorem packQ_of_lt {n : ℕ} (h : n < 2 ^ 64) :
    packQ n = some (ByteOrder.littleEndian.encode 8 n) := if_pos h

theorem writeVersionOne_eq {args : Args} (hfits : Fits args) :
    writeVersionOne args = some
      (if 0 < args.headerVersion then
        ByteOrder.littleEndian.encode 4 (filesize args.recoveryDtbo) ++
          ByteOrder.littleEndian.encode 8
            (if args.recoveryDtbo.isSome then getRecoveryDtboOffset args else 0) ++
          ByteOrder.littleEndian.encode 4 (if args.headerVersion = 1 then 1648 else 1660)
      else []) := by
  unfold writeVersionOne
  by_cases hpos : 0 < args.headerVersion
  · have hsize : filesize args.recoveryDtbo < 2 ^ 32 := hfits.hashed _ (by simp [hashed, hpos])
    have hoffset : (if args.recoveryDtbo.isSome then getRecoveryDtboOffset args else 0) <
        2 ^ 64 := by
      split_ifs
      · exact hfits.recoveryDtboOffset
      · decide
    have hheaderSize : (if args.headerVersion = 1 then 1648 else 1660) < 2 ^ 32 := by
      split_ifs <;> decide
    rw [if_pos hpos, if_pos hpos, packI_of_lt hsize, packQ_of_lt hoffset, packI_of_lt hheaderSize]
    rfl
  · rw [if_neg hpos, if_neg hpos]

theorem writeVersionTwo_eq {args : Args} (hfits : Fits args)
    (hdtb : 1 < args.headerVersion → filesize args.dtb ≠ 0) :
    writeVersionTwo args = some
      (if 1 < args.headerVersion then
        ByteOrder.littleEndian.encode 4 (filesize args.dtb) ++
          ByteOrder.littleEndian.encode 8 (args.base + args.dtbOffset)
      else []) := by
  unfold writeVersionTwo
  split_ifs with hpos hzero
  · exact absurd hzero (hdtb hpos)
  · have hsize : filesize args.dtb < 2 ^ 32 := hfits.hashed _ (by simp [hashed, hpos])
    rw [packI_of_lt hsize, packQ_of_lt hfits.dtbOffset]
    rfl
  · rfl

theorem writeHeader_eq_some_iff {sha1 : Bytes → Bytes} {args : Args} (hfits : Fits args)
    {header : Bytes} :
    writeHeader sha1 args = some header ↔
      AsciiText args.board ∧ AsciiText args.cmdline ∧
        (1 < args.headerVersion → filesize args.dtb ≠ 0) ∧
        header = padFile (headerBytes sha1 args) args.pagesize := by
  have hid : idInput args = some ((hashed args).map fun f =>
      f.getD [] ++ ByteOrder.littleEndian.encode 4 (filesize f)).flatten := by
    have hmap := mapM_updateSha hfits.hashed
    unfold hashed at hmap
    rw [idInput, hmap]
    rfl
  have hv : ¬ 2 < args.headerVersion := Nat.not_lt.mpr hfits.version
  rw [writeHeader, if_neg hv, mapM_packI hfits.numbers, hid, writeVersionOne_eq hfits]
  by_cases hboard : AsciiText args.board
  · by_cases hcmdline : AsciiText args.cmdline
    · obtain ⟨htake, hdrop⟩ := asciiText_take hcmdline 512
      rw [asciiEncode_of_ascii hboard, asciiEncode_of_ascii htake, asciiEncode_of_ascii hdrop]
      by_cases hdtb : 1 < args.headerVersion → filesize args.dtb ≠ 0
      · rw [writeVersionTwo_eq hfits hdtb]
        constructor
        · intro h
          exact ⟨hboard, hcmdline, hdtb, (Option.some.inj h).symm⟩
        · rintro ⟨-, -, -, rfl⟩
          rfl
      · have hnone : writeVersionTwo args = none := by
          rw [Classical.not_imp, not_not] at hdtb
          rw [writeVersionTwo, if_pos hdtb.1, if_pos hdtb.2]
        rw [hnone]
        exact iff_of_false (fun h => Option.some_ne_none _ h.symm) fun h => hdtb h.2.2.1
    · refine iff_of_false ?_ fun h => hcmdline h.2.1
      by_cases htake : AsciiText (args.cmdline.take 512)
      · have hdrop : ¬ AsciiText (args.cmdline.drop 512) :=
          fun hdrop => hcmdline (asciiText_of_take htake hdrop)
        rw [asciiEncode_of_not_ascii hdrop, asciiEncode_of_ascii htake,
          asciiEncode_of_ascii hboard]
        exact fun h => Option.some_ne_none _ h.symm
      · rw [asciiEncode_of_not_ascii htake, asciiEncode_of_ascii hboard]
        exact fun h => Option.some_ne_none _ h.symm
  · rw [asciiEncode_of_not_ascii hboard]
    exact iff_of_false (fun h => Option.some_ne_none _ h.symm) fun h => hboard h.1

/-! ## What the tool accepts -/

theorem parseOsVersion_lt {x : KString} {v : ℕ} (h : parseOsVersion x = some v) : v < 2 ^ 21 := by
  unfold parseOsVersion at h
  split at h
  · cases h
    decide
  · simp only [Option.ite_none_right_eq_some, Option.some.injEq] at h
    obtain ⟨⟨ha, hb, hc⟩, rfl⟩ := h
    rw [orFields hb hc]
    omega

theorem parseOsPatchLevel_lt {x : KString} {p : ℕ} (h : parseOsPatchLevel x = some p) :
    p < 2 ^ 11 := by
  unfold parseOsPatchLevel at h
  split at h
  · cases h
    decide
  · simp only [Option.ite_none_right_eq_some, Option.some.injEq] at h
    obtain ⟨⟨-, hy, -, hm⟩, rfl⟩ := h
    rw [← Nat.shiftLeft_add_eq_or_of_lt (by omega), Nat.shiftLeft_eq]
    omega

theorem givenValue_lt {p : Prop} [Decidable p] {value : KString} {convert : KString → Option ℕ}
    {bound n : ℕ} (hbound : 0 < bound) (hconvert : ∀ v, convert value = some v → v < bound)
    (h : givenValue p value convert 0 = some n) : n < bound := by
  unfold givenValue at h
  split_ifs at h
  · exact hconvert n h
  · cases h
    exact hbound

def givenOsVersion (i : BootImgInfo) : Option ℕ :=
  givenValue (!isNullOrBlank i.osVersion) (i.osVersion.getD []) parseOsVersion 0

def givenOsPatchLevel (i : BootImgInfo) : Option ℕ :=
  givenValue (!isNullOrBlank i.osPatchLevel) (i.osPatchLevel.getD []) parseOsPatchLevel 0

/-- The arguments of the tool for a header whose files are there. -/
def givenArgs (files : Files) (i : BootImgInfo) (output : KString) (osVersion osPatchLevel : ℕ) :
    Args :=
  { numbersArgs i with
    kernel := files (Component.path .kernel)
    ramdisk := if 0 < i.ramdiskLength then files (Component.path .ramdisk) else none
    second := if 0 < i.secondBootloaderLength then files (Component.path .second) else none
    board := if !isBlank i.board then i.board else []
    recoveryDtbo :=
      if 0 < i.headerVersion ∧ 0 < i.recoveryDtboLength then files (Component.path .recoveryDtbo)
      else none
    dtb :=
      if 1 < i.headerVersion ∧ 0 < i.dtbLength then files (Component.path .dtb) else none
    cmdline := i.cmdline
    osVersion
    osPatchLevel
    output := some output }

/-- The configurations that `mkbootimg.py` accepts. -/
structure Accepted (files : Files) (i : BootImgInfo) (output : KString) : Prop where
  kernel : ∃ data, files (Component.path .kernel) = some data ∧ data.length < 2 ^ 32
  board : (!isBlank i.board) = true →
    isValue i.board = true ∧ AsciiText i.board ∧ (Utf8.encode i.board).length ≤ 16
  cmdline : isValue i.cmdline = true ∧ AsciiText i.cmdline ∧ (Utf8.encode i.cmdline).length ≤ 1536
  osVersion : givenOsVersion i ≠ none
  osPatchLevel : givenOsPatchLevel i ≠ none
  dtb : 1 < i.headerVersion → i.dtbLength ≠ 0 ∧ files.size (Component.path .dtb) ≠ 0
  output : isValue output = true

/-- The files of the components that are present are there, and fit 32 bits. -/
def Present (files : Files) (i : BootImgInfo) : Prop :=
  ∀ c, i.length c ≠ 0 → ∃ data, files c.path = some data ∧ data.length < 2 ^ 32

theorem givenFile_eq {files : Files} {p : Prop} [Decidable p] {c : Component}
    (h : p → ∃ data, files c.path = some data) :
    givenFile files p c = some (if p then files c.path else none) := by
  unfold givenFile
  split_ifs with hp
  · obtain ⟨data, hdata⟩ := h hp
    rw [hdata, Option.map_some]
  · rfl

theorem filesize_ite_lt {files : Files} {p : Prop} [Decidable p] {c : Component}
    (h : p → ∃ data, files c.path = some data ∧ data.length < 2 ^ 32) :
    filesize (if p then files c.path else none) < 2 ^ 32 := by
  split_ifs with hp
  · obtain ⟨data, hdata, hlt⟩ := h hp
    rw [hdata]
    exact hlt
  · exact Nat.two_pow_pos 32

theorem getNumberOfPages_le {n p : ℕ} (hp : 0 < p) : getNumberOfPages n p ≤ n + 1 := by
  unfold getNumberOfPages
  have hn : n ≤ n * p := Nat.le_mul_of_pos_right n hp
  have hmul : (n + 1).succ * p = n * p + 2 * p := by
    rw [Nat.succ_eq_add_one]
    ring
  rw [← Nat.lt_succ_iff, Nat.div_lt_iff_lt_mul hp]
  omega

theorem fits_givenArgs {files : Files} {i : BootImgInfo} {output : KString} {v p : ℕ}
    (hversion : i.headerVersion = 0 ∨ i.headerVersion = 1 ∨ i.headerVersion = 2)
    (hpage : Packer.PageSize i.pageSize) (hpresent : Present files i)
    (hkernel : files.size (Component.path .kernel) < 2 ^ 32) (hv : v < 2 ^ 21) (hp : p < 2 ^ 11) :
    Fits (givenArgs files i output v p) := by
  have hbounds := hpage.bounds
  have hramdisk : filesize (givenArgs files i output v p).ramdisk < 2 ^ 32 :=
    filesize_ite_lt fun h => hpresent .ramdisk (UInt32.pos_iff_ne_zero.mp h)
  have hsecond : filesize (givenArgs files i output v p).second < 2 ^ 32 :=
    filesize_ite_lt fun h => hpresent .second (UInt32.pos_iff_ne_zero.mp h)
  have hdtbo : filesize (givenArgs files i output v p).recoveryDtbo < 2 ^ 32 :=
    filesize_ite_lt fun h => hpresent .recoveryDtbo (UInt32.pos_iff_ne_zero.mp h.2)
  have hdtb : filesize (givenArgs files i output v p).dtb < 2 ^ 32 :=
    filesize_ite_lt fun h => hpresent .dtb (UInt32.pos_iff_ne_zero.mp h.2)
  have hword : (v <<< 11) ||| p < 2 ^ 32 := by
    rw [← Nat.shiftLeft_add_eq_or_of_lt hp, Nat.shiftLeft_eq]
    omega
  have hnum : i.headerVersion.toNat ≤ 2 := by
    rcases hversion with h | h | h <;> rw [h] <;> decide
  constructor
  · exact hnum
  · intro n hn
    have h1 := i.kernelOffset.toNat_lt
    have h2 := i.ramdiskOffset.toNat_lt
    have h3 := i.secondBootloaderOffset.toNat_lt
    have h4 := i.tagsOffset.toNat_lt
    have hbase : (givenArgs files i output v p).base = 0 := rfl
    simp only [numbers, List.mem_cons, List.not_mem_nil, or_false, hbase, Nat.zero_add] at hn
    rcases hn with rfl | rfl | rfl | rfl | rfl | rfl | rfl | rfl | rfl | rfl
    · exact hkernel
    · exact h1
    · exact hramdisk
    · split_ifs
      · exact h2
      · exact Nat.two_pow_pos 32
    · exact hsecond
    · split_ifs with hpos
      · have hlen : (givenArgs files i output v p).secondOffset =
            if 0 < i.secondBootloaderLength then i.secondBootloaderOffset.toNat
            else 0x00f00000 := rfl
        rw [hlen]
        split_ifs
        · exact h3
        · decide
      · exact Nat.two_pow_pos 32
    · exact h4
    · exact lt_of_le_of_lt hbounds.2 (by decide)
    · exact lt_of_le_of_lt hnum (by decide)
    · exact hword
  · intro f hf
    simp only [hashed, List.mem_append, List.mem_cons, List.not_mem_nil, or_false] at hf
    rcases hf with ((rfl | rfl | rfl) | hf) | hf
    · exact hkernel
    · exact hramdisk
    · exact hsecond
    · split_ifs at hf
      · rw [List.mem_singleton.mp hf]
        exact hdtbo
      · cases hf
    · split_ifs at hf
      · rw [List.mem_singleton.mp hf]
        exact hdtb
      · cases hf
  · have hpos : 0 < i.pageSize.toNat := by omega
    have hk := @getNumberOfPages_le (filesize (givenArgs files i output v p).kernel) _ hpos
    have hr := @getNumberOfPages_le (filesize (givenArgs files i output v p).ramdisk) _ hpos
    have hs := @getNumberOfPages_le (filesize (givenArgs files i output v p).second) _ hpos
    have hkernel' : filesize (givenArgs files i output v p).kernel < 2 ^ 32 := hkernel
    refine lt_of_le_of_lt (Nat.mul_le_mul hbounds.2 (Nat.add_le_add (Nat.add_le_add
      (Nat.add_le_add le_rfl hk) hr) hs)) ?_
    omega
  · have h5 := i.dtbOffset.toNat_lt
    have hoffset : (givenArgs files i output v p).dtbOffset =
        if 1 < i.headerVersion then i.dtbOffset.toNat else 0x01f00000 := rfl
    have hbase : (givenArgs files i output v p).base = 0 := rfl
    rw [hoffset, hbase]
    split_ifs <;> omega

theorem givenValue_validate {p : Prop} [Decidable p] {value s : KString} {n : ℕ} :
    givenValue p value (validateStrLen n) [] = some s ↔
      (p → isValue value = true ∧ (Utf8.encode value).length ≤ n) ∧
        s = if p then value else [] := by
  unfold givenValue validateStrLen
  split_ifs with hp hvalue hlen
  · exact iff_of_false (fun h => h.elim) fun h => by
      have := (h.1 hp).2
      omega
  · rw [Option.some.injEq]
    exact ⟨fun h => ⟨fun _ => ⟨hvalue, Nat.not_lt.mp hlen⟩, h.symm⟩, fun h => h.2.symm⟩
  · exact iff_of_false (fun h => h.elim) fun h => hvalue (h.1 hp).1
  · rw [Option.some.injEq]
    exact ⟨fun h => ⟨fun h' => absurd h' hp, h.symm⟩, fun h => h.2.symm⟩

theorem asciiText_ite {p : Prop} [Decidable p] {s : KString} :
    AsciiText (if p then s else []) ↔ (p → AsciiText s) := by
  split_ifs with hp
  · exact ⟨fun h _ => h, fun h => h hp⟩
  · exact ⟨fun _ h => absurd h hp, fun _ => rfl⟩

theorem filesize_dtb_iff {files : Files} {i : BootImgInfo} {output : KString} {v p : ℕ} :
    (1 < (givenArgs files i output v p).headerVersion →
        filesize (givenArgs files i output v p).dtb ≠ 0) ↔
      (1 < i.headerVersion → i.dtbLength ≠ 0 ∧ files.size (Component.path .dtb) ≠ 0) := by
  have hlt : 1 < i.headerVersion ↔ 1 < (givenArgs files i output v p).headerVersion :=
    UInt32.lt_iff_toNat_lt
  have hdtb : (givenArgs files i output v p).dtb =
      if 1 < i.headerVersion ∧ 0 < i.dtbLength then files (Component.path .dtb) else none := rfl
  rw [← hlt, hdtb]
  refine imp_congr_right fun hone => ?_
  by_cases hlength : i.dtbLength = 0
  · have hpos : ¬ (1 < i.headerVersion ∧ 0 < i.dtbLength) :=
      fun h => (UInt32.pos_iff_ne_zero.mp h.2) hlength
    rw [if_neg hpos]
    exact iff_of_false (fun h => h rfl) fun h => h.1 hlength
  · rw [if_pos ⟨hone, UInt32.pos_iff_ne_zero.mpr hlength⟩]
    exact ⟨fun h => ⟨hlength, h⟩, fun h => h.2⟩

theorem main_eq_some_iff {sha1 : Bytes → Bytes} {files : Files} {i : BootImgInfo}
    {output : KString} {google : Bytes}
    (hversion : i.headerVersion = 0 ∨ i.headerVersion = 1 ∨ i.headerVersion = 2)
    (hpage : Packer.PageSize i.pageSize) (hpresent : Present files i)
    (hkernel : files.size (Component.path .kernel) < 2 ^ 32) :
    main sha1 files (i.toCommandLine ++ [output]) = some google ↔
      Accepted files i output ∧ ∃ v p, givenOsVersion i = some v ∧ givenOsPatchLevel i = some p ∧
        google = writeData (givenArgs files i output v p)
          (padFile (headerBytes sha1 (givenArgs files i output v p)) i.pageSize.toNat) := by
  have hramdisk := @givenFile_eq files (0 < i.ramdiskLength) _ .ramdisk fun h =>
    (hpresent .ramdisk (UInt32.pos_iff_ne_zero.mp h)).imp fun _ hd => hd.1
  have hsecond := @givenFile_eq files (0 < i.secondBootloaderLength) _ .second fun h =>
    (hpresent .second (UInt32.pos_iff_ne_zero.mp h)).imp fun _ hd => hd.1
  have hdtbo := @givenFile_eq files (0 < i.headerVersion ∧ 0 < i.recoveryDtboLength) _
    .recoveryDtbo fun h =>
      (hpresent .recoveryDtbo (UInt32.pos_iff_ne_zero.mp h.2)).imp fun _ hd => hd.1
  have hdtb := @givenFile_eq files (1 < i.headerVersion ∧ 0 < i.dtbLength) _ .dtb fun h =>
    (hpresent .dtb (UInt32.pos_iff_ne_zero.mp h.2)).imp fun _ hd => hd.1
  have hmain : main sha1 files (i.toCommandLine ++ [output]) =
      (parseCmdline files (i.toCommandLine ++ [output]) {}).bind fun args =>
        if args.output = none ∨ args.kernel = none then none
        else (writeHeader sha1 args).bind fun header => some (writeData args header) := rfl
  rw [hmain, parseCmdline_toCommandLine hversion hpage]
  simp only [hramdisk, hsecond, hdtbo, hdtb, Option.bind_some, Option.bind_eq_some_iff]
  constructor
  · rintro ⟨args, ⟨kernel, hk, board, hb, cmdline, hc, v, hv, p, hp, hargs⟩, hwrite⟩
    obtain ⟨hboard, rfl⟩ := givenValue_validate.mp hb
    obtain ⟨hcmdline, rfl⟩ := givenValue_validate.mp hc
    rw [Option.ite_none_right_eq_some, Option.some.injEq] at hargs
    obtain ⟨houtput, hargs⟩ := hargs
    obtain rfl : givenArgs files i output v p = args := by
      rw [← hargs, givenArgs, hk]
      rfl
    have hfits := @fits_givenArgs files i output v p hversion hpage hpresent hkernel
      (givenValue_lt (by decide) (fun _ => parseOsVersion_lt) hv)
      (givenValue_lt (by decide) (fun _ => parseOsPatchLevel_lt) hp)
    have hgiven : ¬ ((givenArgs files i output v p).output = none ∨
        (givenArgs files i output v p).kernel = none) := by
      rintro (h | h)
      · cases h
      · exact Option.some_ne_none _ (hk.symm.trans h)
    rw [if_neg hgiven, Option.bind_eq_some_iff] at hwrite
    obtain ⟨header, hheader, hgoogle⟩ := hwrite
    obtain ⟨hasciiBoard, hasciiCmdline, hdtbSize, rfl⟩ :=
      (writeHeader_eq_some_iff hfits).mp hheader
    refine ⟨⟨⟨kernel, hk, ?_⟩, ?_, ?_, ?_, ?_, filesize_dtb_iff.mp hdtbSize, houtput⟩, v, p, hv, hp,
      (Option.some.inj hgoogle).symm⟩
    · rw [Files.size, hk] at hkernel
      exact hkernel
    · intro hblank
      exact ⟨(hboard hblank).1, asciiText_ite.mp hasciiBoard hblank, (hboard hblank).2⟩
    · exact ⟨(hcmdline trivial).1, hasciiCmdline, (hcmdline trivial).2⟩
    · rw [givenOsVersion, hv]
      exact Option.some_ne_none v
    · rw [givenOsPatchLevel, hp]
      exact Option.some_ne_none p
  · rintro ⟨haccepted, v, p, hv, hp, rfl⟩
    obtain ⟨kernel, hk, -⟩ := haccepted.kernel
    have hfits := @fits_givenArgs files i output v p hversion hpage hpresent hkernel
      (givenValue_lt (by decide) (fun _ => parseOsVersion_lt) hv)
      (givenValue_lt (by decide) (fun _ => parseOsPatchLevel_lt) hp)
    refine ⟨givenArgs files i output v p, ⟨kernel, hk, _, givenValue_validate.mpr ⟨fun hblank =>
      ⟨(haccepted.board hblank).1, (haccepted.board hblank).2.2⟩, rfl⟩, _,
      givenValue_validate.mpr ⟨fun _ => ⟨haccepted.cmdline.1, haccepted.cmdline.2.2⟩, rfl⟩, v, hv,
      p, hp, ?_⟩, ?_⟩
    · rw [if_pos haccepted.output, givenArgs, hk]
      rfl
    · have hgiven : ¬ ((givenArgs files i output v p).output = none ∨
          (givenArgs files i output v p).kernel = none) := by
        rintro (h | h)
        · cases h
        · exact Option.some_ne_none _ (hk.symm.trans h)
      have hheader := (@writeHeader_eq_some_iff sha1 _ hfits _).mpr
        ⟨asciiText_ite.mpr fun hblank => (haccepted.board hblank).2.1, haccepted.cmdline.2.1,
          filesize_dtb_iff.mpr haccepted.dtb, rfl⟩
      rw [if_neg hgiven, hheader]
      rfl

/-! ## The header page -/

/-- The fields of a header, each at its full size. -/
def headerFields (numbers : List ℕ) (board cmdline : KString) (hash : Bytes)
    (dtboSize dtboOffset statedSize dtbSize dtbOffset : ℕ) : List Bytes :=
  Utf8.encode magic :: numbers.map (ByteOrder.littleEndian.encode 4) ++
    [packS 16 (Utf8.encode board), packS 512 (Utf8.encode (cmdline.take 512)), packS 32 hash,
      packS 1024 (Utf8.encode (cmdline.drop 512)), ByteOrder.littleEndian.encode 4 dtboSize,
      ByteOrder.littleEndian.encode 8 dtboOffset, ByteOrder.littleEndian.encode 4 statedSize,
      ByteOrder.littleEndian.encode 4 dtbSize, ByteOrder.littleEndian.encode 8 dtbOffset]

@[simp] theorem length_packS (width : ℕ) (bs : Bytes) : (packS width bs).length = width := by
  unfold packS
  rw [List.length_append, List.length_take, length_zeros]
  omega

theorem packS_of_le {width : ℕ} {bs : Bytes} (h : bs.length ≤ width) :
    packS width bs = bs ++ zeros (width - bs.length) := by
  rw [packS, List.take_of_length_le h]

theorem padFile_eq {p : ℕ} (hp : ∃ k, p = 2 ^ k) (f : Bytes) :
    padFile f p = f ++ zeros (gap p f.length) := by
  obtain ⟨k, rfl⟩ := hp
  rw [padFile, Nat.and_two_pow_sub_one_eq_mod, Nat.and_two_pow_sub_one_eq_mod,
    gap_eq_mod (Nat.two_pow_pos k)]

theorem length_headerBytes (sha1 : Bytes → Bytes) (args : Args) :
    (headerBytes sha1 args).length =
      1632 + (if 0 < args.headerVersion then 16 else 0) +
        if 1 < args.headerVersion then 12 else 0 := by
  have hmagic : (Utf8.encode magic).length = 8 := by decide
  have hnumbers : ((numbers args).map (ByteOrder.littleEndian.encode 4)).flatten.length = 40 := by
    simp [numbers]
  unfold headerBytes
  simp only [List.length_append, hmagic, hnumbers, length_packS]
  split_ifs <;> simp

/-- The image id of the arguments. -/
def imageId (sha1 : Bytes → Bytes) (args : Args) : Bytes :=
  sha1 ((hashed args).map fun f =>
    f.getD [] ++ ByteOrder.littleEndian.encode 4 (filesize f)).flatten

/-- The header page has the fields of version 2, with zeros for those of a later version. -/
theorem padFile_headerBytes {sha1 : Bytes → Bytes} {args : Args} {p : UInt32}
    (hp : Packer.PageSize p) :
    padFile (headerBytes sha1 args) p.toNat =
      (headerFields (numbers args) args.board args.cmdline (imageId sha1 args)
        (if 0 < args.headerVersion then filesize args.recoveryDtbo else 0)
        (if 0 < args.headerVersion then
          if args.recoveryDtbo.isSome then getRecoveryDtboOffset args else 0 else 0)
        (if 0 < args.headerVersion then if args.headerVersion = 1 then 1648 else 1660 else 0)
        (if 1 < args.headerVersion then filesize args.dtb else 0)
        (if 1 < args.headerVersion then args.base + args.dtbOffset else 0)).flatten ++
      zeros (p.toNat - 1660) := by
  obtain ⟨k, hk, -⟩ := hp.exists_two_pow
  have hbounds := hp.bounds
  have hlen := length_headerBytes sha1 args
  have hfour : ByteOrder.littleEndian.encode 4 0 = zeros 4 := by decide
  have height : ByteOrder.littleEndian.encode 8 0 = zeros 8 := by decide
  have hzeros : ∀ m n, zeros m ++ zeros n = zeros (m + n) := fun m n => by
    simp [zeros, List.replicate_append_replicate]
  have hgap : ∀ n, 0 < n → n ≤ 2048 → gap p.toNat n = p.toNat - n := by
    intro n hn hle
    have hround := hp.roundUp_header hn hle
    have hadd := add_gap (by omega : 0 < p.toNat) n
    omega
  rw [padFile_eq ⟨k, hk⟩]
  by_cases hone : 0 < args.headerVersion
  · by_cases htwo : 1 < args.headerVersion
    · rw [if_pos hone, if_pos htwo] at hlen
      rw [hlen, hgap _ (by decide) (by decide)]
      simp [headerBytes, headerFields, imageId, hone, htwo]
    · rw [if_pos hone, if_neg htwo] at hlen
      have htail : zeros (p.toNat - 1648) = zeros 4 ++ (zeros 8 ++ zeros (p.toNat - 1660)) := by
        rw [hzeros, hzeros]
        exact congrArg zeros (by omega)
      rw [hlen, hgap _ (by decide) (by decide), htail]
      simp [headerBytes, headerFields, imageId, hone, htwo, hfour, height]
  · have htwo : ¬ 1 < args.headerVersion := by omega
    rw [if_neg hone, if_neg htwo] at hlen
    have htail : zeros (p.toNat - 1632) = zeros 4 ++ (zeros 8 ++ (zeros 4 ++ (zeros 4 ++
        (zeros 8 ++ zeros (p.toNat - 1660))))) := by
      rw [hzeros, hzeros, hzeros, hzeros, hzeros]
      exact congrArg zeros (by omega)
    rw [hlen, hgap _ (by decide) (by decide), htail]
    simp [headerBytes, headerFields, imageId, hone, htwo, hfour, height]

/-! ## The data -/

/-- The file of a component that is present. -/
def given (files : Files) (i : BootImgInfo) (c : Component) : Option Bytes :=
  if i.length c = 0 then none else files c.path

theorem ite_pos_eq_given {files : Files} {i : BootImgInfo} {c : Component} :
    (if 0 < i.length c then files c.path else none) = given files i c := by
  unfold given
  by_cases h : i.length c = 0
  · rw [if_pos h, h]
    rfl
  · rw [if_neg h, if_pos (UInt32.pos_iff_ne_zero.mpr h)]

theorem ite_version_eq_given {files : Files} {i : BootImgInfo} {c : Component} {v : UInt32}
    (h : ¬ v < i.headerVersion → i.length c = 0) :
    (if v < i.headerVersion ∧ 0 < i.length c then files c.path else none) = given files i c := by
  by_cases hv : v < i.headerVersion
  · rw [← ite_pos_eq_given]
    simp only [hv, true_and]
  · rw [if_neg (fun hand => hv hand.1), given, if_pos (h hv)]

theorem not_lt_version {i : BootImgInfo}
    (hversion : i.headerVersion = 0 ∨ i.headerVersion = 1 ∨ i.headerVersion = 2) :
    (¬ 0 < i.headerVersion → i.headerVersion = 0) ∧
      (¬ 1 < i.headerVersion → i.headerVersion = 0 ∨ i.headerVersion = 1) := by
  rcases hversion with h | h | h <;> rw [h] <;> decide

theorem givenArgs_files {files : Files} {i : BootImgInfo} {output : KString} {v p : ℕ}
    (hversion : i.headerVersion = 0 ∨ i.headerVersion = 1 ∨ i.headerVersion = 2)
    (hlengths : Packer.VersionLengths i.toBootImgHeader) :
    (givenArgs files i output v p).ramdisk = given files i .ramdisk ∧
      (givenArgs files i output v p).second = given files i .second ∧
      (givenArgs files i output v p).recoveryDtbo = given files i .recoveryDtbo ∧
      (givenArgs files i output v p).dtb = given files i .dtb := by
  obtain ⟨hzero, hone⟩ := not_lt_version hversion
  exact ⟨@ite_pos_eq_given files i .ramdisk, @ite_pos_eq_given files i .second,
    @ite_version_eq_given files i .recoveryDtbo 0 fun h => hlengths.version_zero (hzero h),
    @ite_version_eq_given files i .dtb 1 fun h => hlengths.version_one (hone h)⟩

theorem getD_given (files : Files) (i : BootImgInfo) (c : Component) :
    (given files i c).getD [] = Packer.part files i c := by
  unfold given Packer.part
  split_ifs <;> rfl

theorem filesize_given {files : Files} {i : BootImgInfo} (h : Packer.Matches files i)
    (c : Component) : filesize (given files i c) = (i.length c).toNat := by
  rw [filesize, getD_given, Packer.length_part h]

/-- The kernel is handed over also when it is empty. -/
theorem getD_kernel {files : Files} {i : BootImgInfo}
    (hlen : files.size (Component.path .kernel) = (i.length .kernel).toNat) :
    (files (Component.path .kernel)).getD [] = Packer.part files i .kernel := by
  unfold Packer.part
  split_ifs with hzero
  · rw [hzero] at hlen
    exact List.eq_nil_of_length_eq_zero hlen
  · rfl

theorem writePaddedFile_some {p : UInt32} (hp : Packer.PageSize p) {out : Bytes}
    (haligned : out.length % p.toNat = 0) (data : Bytes) :
    writePaddedFile out (some data) p.toNat =
      out ++ (data ++ zeros (gap p.toNat data.length)) := by
  obtain ⟨k, hk, -⟩ := hp.exists_two_pow
  have hbounds := hp.bounds
  rw [writePaddedFile, padFile_eq ⟨k, hk⟩, List.length_append, gap_add (by omega) haligned,
    List.append_assoc]

theorem writePaddedFile_given {files : Files} {i : BootImgInfo} (hp : Packer.PageSize i.pageSize)
    (h : Packer.Matches files i) {out : Bytes} (haligned : out.length % i.pageSize.toNat = 0)
    (c : Component) :
    writePaddedFile out (given files i c) i.pageSize.toNat =
      out ++ (Packer.part files i c ++ Packer.tail i c) := by
  by_cases hlength : i.length c = 0
  · rw [Packer.part_tail_of_absent hp hlength, List.append_nil, given, if_pos hlength]
    rfl
  · obtain ⟨data, hdata, hlen⟩ := h c hlength
    rw [given, if_neg hlength, hdata, writePaddedFile_some hp haligned, Packer.part,
      if_neg hlength, hdata, Packer.tail, ← hlen]
    rfl

theorem aligned_append {files : Files} {i : BootImgInfo} (hp : Packer.PageSize i.pageSize)
    (h : Packer.Matches files i) {out : Bytes} (haligned : out.length % i.pageSize.toNat = 0)
    (c : Component) :
    (out ++ (Packer.part files i c ++ Packer.tail i c)).length % i.pageSize.toNat = 0 := by
  rw [List.length_append, Packer.length_part_tail hp h, Nat.add_mod, haligned, BootImgInfo.pages,
    roundUp_mod]
  exact Nat.zero_mod _

theorem writeData_givenArgs {files : Files} {i : BootImgInfo} {output : KString} {v p : ℕ}
    {page : Bytes} (hversion : i.headerVersion = 0 ∨ i.headerVersion = 1 ∨ i.headerVersion = 2)
    (hp : Packer.PageSize i.pageSize) (hlengths : Packer.VersionLengths i.toBootImgHeader)
    (h : Packer.Matches files i) {kernel : Bytes}
    (hkernel : files (Component.path .kernel) = some kernel)
    (hlen : kernel.length = (i.length .kernel).toNat)
    (haligned : page.length % i.pageSize.toNat = 0) :
    writeData (givenArgs files i output v p) page =
      page ++ Packer.written files i Packer.components := by
  obtain ⟨hramdisk, hsecond, hdtbo, hdtb⟩ := @givenArgs_files files i output v p hversion hlengths
  have hsize : files.size (Component.path .kernel) = (i.length .kernel).toNat := by
    rw [Files.size, hkernel, Option.getD_some, hlen]
  have hpart := getD_kernel hsize
  rw [hkernel, Option.getD_some] at hpart
  have hkernelFile : (givenArgs files i output v p).kernel = some kernel := hkernel
  have hpagesize : (givenArgs files i output v p).pagesize = i.pageSize.toNat := rfl
  have hv : (givenArgs files i output v p).headerVersion = i.headerVersion.toNat := rfl
  have h1 := aligned_append hp h haligned .kernel
  have h2 := aligned_append hp h h1 .ramdisk
  have h3 := aligned_append hp h h2 .second
  have h4 := aligned_append hp h h3 .recoveryDtbo
  have hdtboStep : ∀ out : Bytes, (if 0 < i.headerVersion.toNat ∧ i.headerVersion.toNat < 3 then
      writePaddedFile out (given files i .recoveryDtbo) i.pageSize.toNat else out) =
        writePaddedFile out (given files i .recoveryDtbo) i.pageSize.toNat := by
    intro out
    rcases hversion with hzero | hone | htwo
    · have hnone : given files i .recoveryDtbo = none := if_pos (hlengths.version_zero hzero)
      rw [hnone, hzero]
      rfl
    · rw [hone]
      rfl
    · rw [htwo]
      rfl
  have hdtbStep : ∀ out : Bytes, (if i.headerVersion.toNat = 2 then
      writePaddedFile out (given files i .dtb) i.pageSize.toNat else out) =
        writePaddedFile out (given files i .dtb) i.pageSize.toNat := by
    intro out
    by_cases htwo : i.headerVersion = 2
    · rw [htwo]
      rfl
    · have hlow : i.headerVersion = 0 ∨ i.headerVersion = 1 :=
        hversion.imp_right fun h => h.resolve_right htwo
      have hnone : given files i .dtb = none := if_pos (hlengths.version_one hlow)
      rw [hnone]
      exact ite_self out
  unfold writeData
  simp only [hkernelFile, hramdisk, hsecond, hdtbo, hdtb, hpagesize, hv]
  rw [hdtboStep, hdtbStep, writePaddedFile_some hp haligned, hlen, hpart]
  have htail : zeros (gap i.pageSize.toNat (i.length .kernel).toNat) = Packer.tail i .kernel := rfl
  rw [htail, writePaddedFile_given hp h h1, writePaddedFile_given hp h h2,
    writePaddedFile_given hp h h3, writePaddedFile_given hp h h4]
  simp [Packer.written, Packer.components]

end Mkbootimg

end Bootimg

end BootImageEditor
