import BootImageEditor.Libavb.AvbOps
import Mathlib.Data.List.TakeWhile

/-!
# Partitions in files

`CfigAvbOps` implements the device operations on the image files of a directory: the
partition `boot` is the file `boot.img`. `preload_partition` reads a file into memory
once, and loading a partition then takes the buffer. The buffers hold what the files
hold, so a load through a buffer and a load by reading agree.
-/

namespace BootImageEditor

open Codec Fallible Libavb

namespace Avbx

inductive OpenResult where
  | opened
  | noEntry
  | failed
  deriving DecidableEq, Repr

/-- What the operating system answers: the regular files `readdir` lists in the
working directory; `stat`, with the size of the file; `open`; the position after
`lseek`; what `read` puts into the buffer; and whether `malloc` returns memory. -/
structure System where
  directory : List Bytes
  stat : Bytes → Option UInt64
  openFile : Bytes → OpenResult
  lseek : Bytes → Int64 → Int64
  read : Bytes → Int64 → UInt64 → Option Bytes
  malloc : UInt64 → Bool

/-- `c_str()` of a `std::string`, as the C functions read it: up to the first NUL. -/
def cStr (s : Bytes) : Bytes := s.takeWhile (· ≠ 0)

theorem zero_notMem_cStr (s : Bytes) : (0 : UInt8) ∉ cStr s := by
  intro h
  have hne := List.mem_takeWhile_imp h
  simp at hne

theorem cStr_of_notMem {s : Bytes} (h : (0 : UInt8) ∉ s) : cStr s = s := by
  apply List.takeWhile_eq_self_iff.mpr
  intro b hb
  have hne : b ≠ 0 := fun h0 => h (h0 ▸ hb)
  simpa using hne

def cString (s : Bytes) : CString := ⟨cStr s, zero_notMem_cStr s⟩

theorem cString_bytes (partition : CString) : cString partition.bytes = partition := by
  cases partition with
  | mk bytes noNul => simp only [cString, cStr_of_notMem noNul]

/-- `".img"` -/
def extension : Bytes := [0x2e, 0x69, 0x6d, 0x67]

def getPartitionFile (partition : Bytes) : Bytes := partition ++ extension

/-- The file of a C string has no NUL, and `open` takes its whole name. -/
theorem cStr_getPartitionFile (partition : CString) :
    cStr (getPartitionFile partition.bytes) = getPartitionFile partition.bytes := by
  apply cStr_of_notMem
  rw [getPartitionFile, List.mem_append, not_or]
  exact ⟨partition.noNul, by decide⟩

/-- The state of the operations: the files that are partitions, and the buffers of
the preloaded ones, which may be null. -/
structure CfigAvbOps where
  validPartitions : List Bytes
  preloadedPartitions : List (Bytes × Option Bytes)

/-- `populatePartitions(".")`. -/
def populatePartitions (sys : System) : List Bytes :=
  sys.directory.filter fun dn => extension.isSuffixOf dn

/-- The constructor. -/
def CfigAvbOps.new (sys : System) : CfigAvbOps := ⟨populatePartitions sys, []⟩

/-- `get_file_size`: `-1` where `stat` fails. -/
def getFileSize (sys : System) (filename : Bytes) : UInt64 := (sys.stat filename).getD (-1)

namespace CfigAvbOps

def getSizeOfPartition (sys : System) (ops : CfigAvbOps) (partition : CString) :
    AvbIO UInt64 :=
  let partitionFile := getPartitionFile partition.bytes
  if partitionFile ∈ ops.validPartitions then
    let fileSize := getFileSize sys (cStr partitionFile)
    if -1 = fileSize then .error .io else .ok fileSize
  else .error .noSuchPartition

/-- The offset counted from the end of the partition, if it is negative. -/
def absoluteOffset (sys : System) (ops : CfigAvbOps) (partition : CString) (offset : Int64) :
    AvbIO Int64 :=
  if offset < 0 then do
    let fileSize ← getSizeOfPartition sys ops partition
    .ok (fileSize - (-offset).toUInt64).toInt64
  else .ok offset

def readFromPartition (sys : System) (ops : CfigAvbOps) (partition : CString) (offset : Int64)
    (numBytes : UInt64) : AvbIO Bytes :=
  let partitionFile := getPartitionFile partition.bytes
  if partitionFile ∈ ops.validPartitions then do
    let offset ← absoluteOffset sys ops partition offset
    match sys.openFile (cStr partitionFile) with
    | .noEntry => .error .noSuchPartition
    | .failed => .error .io
    | .opened =>
        if sys.lseek (cStr partitionFile) offset ≠ offset then .error .io
        else
          match sys.read (cStr partitionFile) offset numBytes with
          | none => .error .io
          | some bytes => .ok bytes
  else .error .noSuchPartition

def getPreloadedPartition (sys : System) (ops : CfigAvbOps) (partition : CString)
    (numBytes : UInt64) : AvbIO (Option Bytes × UInt64) :=
  if getPartitionFile partition.bytes ∈ ops.validPartitions then
    match ops.preloadedPartitions.lookup partition.bytes with
    | none => .ok (none, 0)
    | some buffer => do
        let partSize ← getSizeOfPartition sys ops partition
        if partSize < numBytes then .error .io
        else if numBytes < partSize then .ok (buffer, numBytes)
        else .ok (buffer, partSize)
  else .error .noSuchPartition

/-- `read` into a buffer that may be null: nothing can be put there. -/
def readInto (sys : System) (buffer : Bool) (file : Bytes) (size : UInt64) : Option Bytes :=
  if buffer || size = 0 then sys.read file 0 size else none

/-- `preload_partition(partition)`: whether the partition was preloaded now, and the
state after it. -/
def preloadPartition (sys : System) (partition : Bytes) (ops : CfigAvbOps) :
    Bool × CfigAvbOps :=
  if (ops.preloadedPartitions.lookup partition).isSome then (false, ops)
  else
    match getSizeOfPartition sys ops (cString partition) with
    | .error _ => (false, ops)
    | .ok fileSize =>
        let partitionFile := cStr (getPartitionFile partition)
        if sys.openFile partitionFile ≠ .opened then (false, ops)
        else
          let buffer := sys.malloc fileSize
          match readInto sys buffer partitionFile fileSize with
          | none => (false, ops)
          | some bytes =>
              if UInt64.ofNat bytes.length ≠ fileSize then (false, ops)
              else
                (true, { ops with
                  preloadedPartitions :=
                    (partition, if buffer then some bytes else none) :: ops.preloadedPartitions })

/-- A sequence of calls of `preload_partition`. -/
def preloadAll (sys : System) (partitions : List Bytes) (ops : CfigAvbOps) : CfigAvbOps :=
  partitions.foldl (fun ops partition => (preloadPartition sys partition ops).2) ops

/-- `avb_ops_`. -/
def avbOps (sys : System) (ops : CfigAvbOps) : AvbOps where
  getPreloadedPartition := some (getPreloadedPartition sys ops)
  readFromPartition := readFromPartition sys ops

end CfigAvbOps

/-! ## Buffers hold what the files hold -/

/-- What preloading and loading `imageSize` bytes ask of the system succeeds on the files of the
directory, with the content of the file: a seek to its start, reads of the whole file and of
`imageSize` bytes, and memory for as many. -/
structure System.Succeeds (sys : System) (content : Bytes → Bytes) (imageSize : UInt64) :
    Prop where
  /-- A file size is an `off_t`. -/
  fits : ∀ file ∈ sys.directory, (content file).length < 2 ^ 63
  stat : ∀ file ∈ sys.directory, sys.stat file = some (UInt64.ofNat (content file).length)
  opened : ∀ file ∈ sys.directory, sys.openFile file = .opened
  lseek : ∀ file ∈ sys.directory, sys.lseek file 0 = 0
  read_file : ∀ file ∈ sys.directory,
    sys.read file 0 (UInt64.ofNat (content file).length) = some (content file)
  read_image : ∀ file ∈ sys.directory,
    sys.read file 0 imageSize = some ((content file).take imageSize.toNat)
  malloc_file : ∀ file ∈ sys.directory,
    sys.malloc (UInt64.ofNat (content file).length) = true
  malloc_image : sys.malloc imageSize = true

namespace CfigAvbOps

/-- The partitions are those of the directory, and a buffer under the name of a
partition has the content of its file. -/
structure Mirrors (sys : System) (content : Bytes → Bytes) (ops : CfigAvbOps) : Prop where
  valid : ops.validPartitions = populatePartitions sys
  buffers : ∀ (partition : CString) (buffer : Option Bytes),
    ops.preloadedPartitions.lookup partition.bytes = some buffer →
      buffer = some (content (getPartitionFile partition.bytes))

theorem mirrors_new (sys : System) (content : Bytes → Bytes) :
    Mirrors sys content (CfigAvbOps.new sys) where
  valid := rfl
  buffers := by
    intro partition buffer h
    cases h

variable {sys : System} {content : Bytes → Bytes} {imageSize : UInt64} {ops : CfigAvbOps}

theorem mem_directory (h : ops.Mirrors sys content) {file : Bytes}
    (hfile : file ∈ ops.validPartitions) : file ∈ sys.directory := by
  rw [h.valid] at hfile
  exact (List.mem_filter.mp hfile).1

/-- The size of a file that `stat` finds. -/
theorem getSizeOfPartition_of_stat {partition : CString}
    (hvalid : getPartitionFile partition.bytes ∈ ops.validPartitions)
    (hfits : (content (getPartitionFile partition.bytes)).length < 2 ^ 63)
    (hstat : sys.stat (getPartitionFile partition.bytes) =
      some (UInt64.ofNat (content (getPartitionFile partition.bytes)).length)) :
    getSizeOfPartition sys ops partition =
      .ok (UInt64.ofNat (content (getPartitionFile partition.bytes)).length) := by
  have hne : ¬ -1 = UInt64.ofNat (content (getPartitionFile partition.bytes)).length := by
    intro heq
    have hnat := congrArg UInt64.toNat heq
    rw [UInt64.toNat_ofNat_of_lt' (by simp only [UInt64.size]; omega)] at hnat
    have hmax : (-1 : UInt64).toNat = 2 ^ 64 - 1 := by decide
    omega
  unfold getSizeOfPartition getFileSize
  rw [if_pos hvalid, cStr_getPartitionFile, hstat]
  exact if_neg hne

theorem getSizeOfPartition_eq (hsys : sys.Succeeds content imageSize)
    (h : ops.Mirrors sys content) {partition : CString}
    (hvalid : getPartitionFile partition.bytes ∈ ops.validPartitions) :
    getSizeOfPartition sys ops partition =
      .ok (UInt64.ofNat (content (getPartitionFile partition.bytes)).length) := by
  have hdir := mem_directory h hvalid
  exact getSizeOfPartition_of_stat hvalid (hsys.fits _ hdir) (hsys.stat _ hdir)

theorem valid_of_getSizeOfPartition {partition : CString} {fileSize : UInt64}
    (h : getSizeOfPartition sys ops partition = .ok fileSize) :
    getPartitionFile partition.bytes ∈ ops.validPartitions := by
  by_contra hnot
  rw [getSizeOfPartition, if_neg hnot] at h
  cases h

/-- What a call can do to the state: nothing, or one more buffer, filled from the
file. -/
theorem preloadPartition_cases (hsys : sys.Succeeds content imageSize)
    (h : ops.Mirrors sys content) (partition : Bytes) :
    (preloadPartition sys partition ops).2 = ops ∨
      ∃ bytes fileSize, getSizeOfPartition sys ops (cString partition) = .ok fileSize ∧
        sys.read (cStr (getPartitionFile partition)) 0 fileSize = some bytes ∧
        (preloadPartition sys partition ops).2 = { ops with
          preloadedPartitions := (partition, some bytes) :: ops.preloadedPartitions } := by
  unfold preloadPartition
  by_cases hloaded : (ops.preloadedPartitions.lookup partition).isSome
  · rw [if_pos hloaded]
    exact .inl rfl
  · rw [if_neg hloaded]
    cases hsize : getSizeOfPartition sys ops (cString partition) with
    | error e => exact .inl rfl
    | ok fileSize =>
        have hvalid := valid_of_getSizeOfPartition hsize
        have hmalloc : sys.malloc fileSize = true := by
          rw [getSizeOfPartition_eq hsys h hvalid] at hsize
          cases hsize
          exact hsys.malloc_file _ (mem_directory h hvalid)
        have hread : readInto sys (sys.malloc fileSize) (cStr (getPartitionFile partition))
            fileSize = sys.read (cStr (getPartitionFile partition)) 0 fileSize := by
          rw [readInto, hmalloc, Bool.true_or, if_pos rfl]
        simp only [hread]
        by_cases hopen : sys.openFile (cStr (getPartitionFile partition)) ≠ .opened
        · rw [if_pos hopen]
          exact .inl rfl
        · rw [if_neg hopen]
          cases hbytes : sys.read (cStr (getPartitionFile partition)) 0 fileSize with
          | none => exact .inl rfl
          | some bytes =>
              by_cases hlen : UInt64.ofNat bytes.length ≠ fileSize
              · simp only [if_pos hlen, true_or]
              · simp only [if_neg hlen, hmalloc, if_true]
                exact .inr ⟨bytes, fileSize, rfl, hbytes, rfl⟩

/-- A call leaves buffers that hold what the files hold. -/
theorem Mirrors.preloadPartition (hsys : sys.Succeeds content imageSize)
    (h : ops.Mirrors sys content) (partition : Bytes) :
    ((preloadPartition sys partition ops).2).Mirrors sys content := by
  rcases preloadPartition_cases hsys h partition with heq | ⟨bytes, fileSize, hsize, hread, heq⟩
  · rw [heq]
    exact h
  · rw [heq]
    refine ⟨h.valid, ?_⟩
    intro name buffer hlookup
    by_cases hname : name.bytes = partition
    · -- The name has no NUL, so the file that was read is the file of the partition.
      subst hname
      rw [cString_bytes] at hsize
      have hvalid := valid_of_getSizeOfPartition hsize
      have hdir := mem_directory h hvalid
      rw [getSizeOfPartition_eq hsys h hvalid] at hsize
      cases hsize
      rw [cStr_getPartitionFile, hsys.read_file _ hdir] at hread
      cases hread
      simp only [List.lookup_cons, beq_self_eq_true] at hlookup
      exact (Option.some.inj hlookup).symm
    · have hne : (name.bytes == partition) = false := beq_eq_false_iff_ne.mpr hname
      simp only [List.lookup_cons, hne] at hlookup
      exact h.buffers name buffer hlookup

theorem Mirrors.preloadAll (hsys : sys.Succeeds content imageSize) (partitions : List Bytes)
    (h : ops.Mirrors sys content) : (preloadAll sys partitions ops).Mirrors sys content := by
  induction partitions generalizing ops with
  | nil => exact h
  | cons partition partitions ih => exact ih (h.preloadPartition hsys partition)

/-! ## Loading -/

/-- The partition exists and has the requested bytes. -/
def Available (sys : System) (content : Bytes → Bytes) (partName : CString)
    (imageSize : UInt64) : Prop :=
  getPartitionFile partName.bytes ∈ populatePartitions sys ∧
    imageSize.toNat ≤ (content (getPartitionFile partName.bytes)).length

theorem readFromPartition_eq (hsys : sys.Succeeds content imageSize) (h : ops.Mirrors sys content)
    {partName : CString} (hvalid : getPartitionFile partName.bytes ∈ ops.validPartitions) :
    readFromPartition sys ops partName 0 imageSize =
      .ok ((content (getPartitionFile partName.bytes)).take imageSize.toNat) := by
  have hdir := mem_directory h hvalid
  have hoffset : absoluteOffset sys ops partName 0 = .ok 0 := if_neg (by decide)
  unfold readFromPartition
  simp only [if_pos hvalid, hoffset, ok_bind, cStr_getPartitionFile, hsys.opened _ hdir,
    hsys.lseek _ hdir, hsys.read_image _ hdir, ne_eq, not_true_eq_false, if_false]

/-- A preloaded partition: refused where it is too short, else its buffer with the
requested number of bytes. -/
theorem getPreloadedPartition_eq (hsys : sys.Succeeds content imageSize)
    (h : ops.Mirrors sys content) {partName : CString}
    (hvalid : getPartitionFile partName.bytes ∈ ops.validPartitions) {buffer : Option Bytes}
    (hlookup : ops.preloadedPartitions.lookup partName.bytes = some buffer) :
    getPreloadedPartition sys ops partName imageSize =
      if (content (getPartitionFile partName.bytes)).length < imageSize.toNat then .error .io
      else .ok (buffer, imageSize) := by
  have hfits := hsys.fits _ (mem_directory h hvalid)
  have hlength : (UInt64.ofNat (content (getPartitionFile partName.bytes)).length).toNat =
      (content (getPartitionFile partName.bytes)).length :=
    UInt64.toNat_ofNat_of_lt' (by simp only [UInt64.size]; omega)
  simp only [getPreloadedPartition, if_pos hvalid, hlookup, getSizeOfPartition_eq hsys h hvalid,
    ok_bind, UInt64.lt_iff_toNat_lt, hlength]
  by_cases hlt : (content (getPartitionFile partName.bytes)).length < imageSize.toNat
  · rw [if_pos hlt, if_pos hlt]
  · rw [if_neg hlt, if_neg hlt]
    by_cases hgt : imageSize.toNat < (content (getPartitionFile partName.bytes)).length
    · rw [if_pos hgt]
    · have heq : (content (getPartitionFile partName.bytes)).length = imageSize.toNat := by omega
      rw [if_neg hgt, heq, UInt64.ofNat_toNat]

/-- What a load returns, whether the partition is preloaded or not. -/
theorem loadFullPartition_mirrors (hsys : sys.Succeeds content imageSize)
    (h : ops.Mirrors sys content) (partName : CString) :
    (Available sys content partName imageSize →
      ∃ image, loadFullPartition sys.malloc (avbOps sys ops) partName imageSize =
          (.ok, some image) ∧ imageSize.toNat ≤ image.length ∧
        image.take imageSize.toNat =
          (content (getPartitionFile partName.bytes)).take imageSize.toNat) ∧
    (¬ Available sys content partName imageSize →
      (loadFullPartition sys.malloc (avbOps sys ops) partName imageSize).1 = .errorIo) := by
  by_cases hvalid : getPartitionFile partName.bytes ∈ ops.validPartitions
  · have hdir := mem_directory h hvalid
    have hfits := hsys.fits _ hdir
    have havailable : Available sys content partName imageSize ↔
        imageSize.toNat ≤ (content (getPartitionFile partName.bytes)).length := by
      rw [Available, ← h.valid]
      exact and_iff_right hvalid
    rw [havailable]
    cases hlookup : ops.preloadedPartitions.lookup partName.bytes with
    | none =>
        have hget : getPreloadedPartition sys ops partName imageSize = .ok (none, 0) := by
          simp only [getPreloadedPartition, if_pos hvalid, hlookup]
        have hread := readFromPartition_eq hsys h hvalid
        rw [loadFullPartition_read rfl hget hsys.malloc_image hread]
        constructor
        · intro hle
          have hlen : ((content (getPartitionFile partName.bytes)).take imageSize.toNat).length =
              imageSize.toNat := List.length_take_of_le hle
          refine ⟨_, if_neg (by rw [hlen, UInt64.ofNat_toNat]; exact fun hne => hne rfl),
            le_of_eq hlen.symm, ?_⟩
          rw [List.take_take, Nat.min_self]
        · intro hlt
          have hlen : (content (getPartitionFile partName.bytes)).take imageSize.toNat =
              content (getPartitionFile partName.bytes) := List.take_of_length_le (by omega)
          have hne : UInt64.ofNat (content (getPartitionFile partName.bytes)).length ≠
              imageSize := by
            intro heq
            rw [← heq, UInt64.toNat_ofNat_of_lt' (by simp only [UInt64.size]; omega)] at hlt
            omega
          rw [hlen, if_pos hne]
    | some buffer =>
        obtain rfl := h.buffers partName buffer hlookup
        have hget := getPreloadedPartition_eq hsys h hvalid hlookup
        constructor
        · intro hle
          rw [if_neg (by omega)] at hget
          exact ⟨_, loadFullPartition_preloaded rfl hget, hle, rfl⟩
        · intro hlt
          rw [if_pos (by omega)] at hget
          rw [loadFullPartition_error rfl (by decide) hget]
  · have havailable : ¬ Available sys content partName imageSize := by
      rw [Available, ← h.valid]
      exact fun h' => hvalid h'.1
    have hget : getPreloadedPartition sys ops partName imageSize =
        .error .noSuchPartition := if_neg hvalid
    constructor
    · intro h'
      exact absurd h' havailable
    · intro _
      rw [loadFullPartition_error rfl (by decide) hget]

/-- Preloading any partitions beforehand changes no load. -/
theorem sameImage_preloadAll (sys : System) (content : Bytes → Bytes) (imageSize : UInt64)
    (hsys : sys.Succeeds content imageSize) (partitions : List Bytes) (partName : CString) :
    SameImage imageSize
      (loadFullPartition sys.malloc
        (avbOps sys (preloadAll sys partitions (CfigAvbOps.new sys))) partName imageSize)
      (loadFullPartition sys.malloc (avbOps sys (CfigAvbOps.new sys)) partName imageSize) := by
  have hnew := mirrors_new sys content
  obtain ⟨hok, herr⟩ :=
    loadFullPartition_mirrors hsys (hnew.preloadAll hsys partitions) partName
  obtain ⟨hok', herr'⟩ := loadFullPartition_mirrors hsys hnew partName
  by_cases havailable : Available sys content partName imageSize
  · obtain ⟨image, hload, hlen, htake⟩ := hok havailable
    obtain ⟨image', hload', hlen', htake'⟩ := hok' havailable
    rw [hload, hload']
    exact ⟨rfl, fun _ => ⟨image, image', rfl, rfl, hlen, hlen', by rw [htake, htake']⟩⟩
  · apply SameImage.of_error
    · rw [herr havailable]
      decide
    · rw [herr havailable, herr' havailable]

/-- A directory with `boot.img`, preloaded twice and under a name with a NUL. -/
theorem sameImage_preloadAll_applies :
    let boot : Bytes := [0x62, 0x6f, 0x6f, 0x74]
    let content : Bytes → Bytes := fun _ => [1, 2, 3]
    let sys : System := {
      directory := [getPartitionFile boot]
      stat := fun file => some (UInt64.ofNat (content file).length)
      openFile := fun _ => .opened
      lseek := fun _ offset => if offset < 0 then -1 else offset
      read := fun file _ n => some ((content file).take n.toNat)
      malloc := fun _ => true }
    SameImage 2
      (loadFullPartition sys.malloc
        (avbOps sys (preloadAll sys [boot, boot, boot ++ [0, 1]] (CfigAvbOps.new sys)))
        ⟨boot, by decide⟩ 2)
      (loadFullPartition sys.malloc (avbOps sys (CfigAvbOps.new sys)) ⟨boot, by decide⟩ 2) := by
  intro boot content sys
  have hsys : sys.Succeeds content 2 :=
    ⟨fun _ _ => by decide, fun _ _ => rfl, fun _ _ => rfl, fun _ _ => rfl, fun _ _ => rfl,
      fun _ _ => rfl, fun _ _ => rfl, rfl⟩
  exact sameImage_preloadAll sys content 2 hsys _ _

end CfigAvbOps

end Avbx

end BootImageEditor
