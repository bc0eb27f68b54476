import BootImageEditor.Avbx.CfigAvbOps

/-!
# Reading at an offset

`avb_ops.h` says what `read_from_partition` does with an offset outside the partition:
`AVB_IO_RESULT_ERROR_RANGE_OUTSIDE_PARTITION`. The implementation on files leaves the offset
to `lseek`, which goes past the end of a file and refuses positions before its start with
`-1`, also where `-1` was asked for.
-/

namespace BootImageEditor

open Codec Fallible Libavb

namespace Avbx

/-- System calls on the files of the directory, where none fails for an outside reason. A
negative position is refused and leaves the file at its start; reads are complete. The limits of
one system are left out: Linux moves at most `0x7ffff000` bytes in one `read`, and refuses
positions beyond what the file system can hold. -/
structure System.Posix (sys : System) (content : Bytes → Bytes) : Prop where
  /-- A file size is an `off_t`. -/
  fits : ∀ file ∈ sys.directory, (content file).length < 2 ^ 63
  stat : ∀ file ∈ sys.directory, sys.stat file = some (UInt64.ofNat (content file).length)
  opened : ∀ file ∈ sys.directory, sys.openFile file = .opened
  lseek : ∀ file ∈ sys.directory, ∀ offset,
    sys.lseek file offset = if offset < 0 then -1 else offset
  read : ∀ file ∈ sys.directory, ∀ offset n,
    sys.read file offset n = some (((content file).drop offset.toInt.toNat).take n.toNat)

/-- The offset from the start of a file; a negative one counts from its end. -/
def effectiveOffset (file : Bytes) (offset : Int64) : ℤ :=
  if offset < 0 then file.length + offset.toInt else offset.toInt

/-- The offset is in the file, or at its end. -/
def InRange (file : Bytes) (offset : Int64) : Prop :=
  0 ≤ effectiveOffset file offset ∧ effectiveOffset file offset ≤ file.length

/-- What `avb_ops.h` says about the result of `read_from_partition`; the length of the buffer
is the number that is returned in `out_num_read`. -/
structure Honours (content : Bytes → Bytes) (ops : CfigAvbOps) (partition : CString)
    (offset : Int64) (numBytes : UInt64) (result : AvbIO Bytes) : Prop where
  unknown : getPartitionFile partition.bytes ∉ ops.validPartitions →
    result = .error .noSuchPartition
  outside : getPartitionFile partition.bytes ∈ ops.validPartitions →
    ¬ InRange (content (getPartitionFile partition.bytes)) offset →
      result = .error .rangeOutsidePartition
  inside : getPartitionFile partition.bytes ∈ ops.validPartitions →
    InRange (content (getPartitionFile partition.bytes)) offset →
      ∃ buffer, result = .ok buffer ∧
        buffer = ((content (getPartitionFile partition.bytes)).drop
          (effectiveOffset (content (getPartitionFile partition.bytes)) offset).toNat).take
            numBytes.toNat ∧
        (buffer.length : ℤ) = min (numBytes.toNat : ℤ)
          ((content (getPartitionFile partition.bytes)).length -
            effectiveOffset (content (getPartitionFile partition.bytes)) offset)

/-- The size as an unsigned word, less the amount of the offset, and back to a signed word. -/
theorem toInt_size_sub {n : ℕ} (hn : n < 2 ^ 63) {offset : Int64} (hneg : offset < 0) :
    (UInt64.ofNat n - (-offset).toUInt64).toInt64.toInt = n + offset.toInt := by
  have hsum : (UInt64.ofNat n - (-offset).toUInt64).toInt64 = Int64.ofNat n + offset := by
    rw [UInt64.toInt64_sub, UInt64.toInt64_ofNat', Int64.toInt64_toUInt64, Int64.sub_neg]
  have hlow := offset.le_toInt
  have hzero : (0 : Int64).toInt = 0 := rfl
  rw [Int64.lt_iff_toInt_lt, hzero] at hneg
  rw [hsum, Int64.toInt_add, Int64.toInt_ofNat_of_lt hn]
  exact Int.bmod_eq_of_le (by omega) (by omega)

namespace CfigAvbOps

section

variable {sys : System} {content : Bytes → Bytes} {ops : CfigAvbOps} {partition : CString}

theorem absoluteOffset_eq (hsys : sys.Posix content)
    (hdir : getPartitionFile partition.bytes ∈ sys.directory)
    (hvalid : getPartitionFile partition.bytes ∈ ops.validPartitions) (offset : Int64) :
    ∃ position, absoluteOffset sys ops partition offset = .ok position ∧
      position.toInt = effectiveOffset (content (getPartitionFile partition.bytes)) offset := by
  unfold absoluteOffset effectiveOffset
  by_cases hneg : offset < 0
  · have hsize := getSizeOfPartition_of_stat hvalid (hsys.fits _ hdir) (hsys.stat _ hdir)
    rw [if_pos hneg, if_pos hneg, hsize]
    exact ⟨_, rfl, toInt_size_sub (hsys.fits _ hdir) hneg⟩
  · rw [if_neg hneg, if_neg hneg]
    exact ⟨offset, rfl, rfl⟩

/-- A read of a known partition: from the effective offset on, if it is not negative. Else
`lseek` returns `-1`, which is an error only where it is not what was asked for. -/
theorem readFromPartition_known (hsys : sys.Posix content)
    (hdir : getPartitionFile partition.bytes ∈ sys.directory)
    (hvalid : getPartitionFile partition.bytes ∈ ops.validPartitions) (offset : Int64)
    (numBytes : UInt64) :
    readFromPartition sys ops partition offset numBytes =
      if effectiveOffset (content (getPartitionFile partition.bytes)) offset < -1 then .error .io
      else .ok (((content (getPartitionFile partition.bytes)).drop
        (effectiveOffset (content (getPartitionFile partition.bytes)) offset).toNat).take
          numBytes.toNat) := by
  obtain ⟨position, hposition, hint⟩ := absoluteOffset_eq hsys hdir hvalid offset
  have hone : (-1 : Int64).toInt = -1 := rfl
  have hzero : (0 : Int64).toInt = 0 := rfl
  unfold readFromPartition
  simp only [if_pos hvalid, hposition, ok_bind, cStr_getPartitionFile, hsys.opened _ hdir,
    hsys.lseek _ hdir, hsys.read _ hdir]
  by_cases hneg : position < 0
  · rw [if_pos hneg]
    rw [Int64.lt_iff_toInt_lt, hzero] at hneg
    by_cases hminus : position = -1
    · have hnot : ¬ position.toInt < -1 := by
        rw [hminus, hone]
        omega
      rw [← hint, if_neg hnot, if_neg (fun h => h hminus.symm)]
    · have hlt : position.toInt < -1 := by
        have hne : position.toInt ≠ -1 := fun h => hminus (Int64.toInt_inj.mp (h.trans hone.symm))
        omega
      rw [← hint, if_pos hlt, if_pos (fun h => hminus h.symm)]
  · rw [if_neg hneg]
    rw [Int64.lt_iff_toInt_lt, hzero] at hneg
    have hnot : ¬ position.toInt < -1 := by omega
    rw [← hint, if_neg hnot, if_neg (fun h => h rfl)]

theorem readFromPartition_ne_rangeOutside (hsys : sys.Posix content)
    (hdir : getPartitionFile partition.bytes ∈ sys.directory)
    (hvalid : getPartitionFile partition.bytes ∈ ops.validPartitions) (offset : Int64)
    (numBytes : UInt64) :
    readFromPartition sys ops partition offset numBytes ≠ .error .rangeOutsidePartition := by
  rw [readFromPartition_known hsys hdir hvalid offset numBytes]
  split
  · intro h
    cases h
  · intro h
    cases h

end

/-- A read keeps to `avb_ops.h` exactly where the partition is unknown or the effective offset
is in range: no other offset is reported as outside. -/
theorem readFromPartition_honours_iff (sys : System) (content : Bytes → Bytes)
    (ops : CfigAvbOps) (hsys : sys.Posix content)
    (hops : ∀ file ∈ ops.validPartitions, file ∈ sys.directory) (partition : CString)
    (offset : Int64) (numBytes : UInt64) :
    Honours content ops partition offset numBytes
        (readFromPartition sys ops partition offset numBytes) ↔
      (getPartitionFile partition.bytes ∈ ops.validPartitions →
        InRange (content (getPartitionFile partition.bytes)) offset) := by
  by_cases hvalid : getPartitionFile partition.bytes ∈ ops.validPartitions
  · have hdir := hops _ hvalid
    constructor
    · intro h _
      by_contra hrange
      exact readFromPartition_ne_rangeOutside hsys hdir hvalid offset numBytes
        (h.outside hvalid hrange)
    · intro h
      have hrange := h hvalid
      have hread := readFromPartition_known hsys hdir hvalid offset numBytes
      rw [if_neg (by have := hrange.1; omega)] at hread
      refine ⟨fun hnot => absurd hvalid hnot, fun _ hnot => absurd hrange hnot, fun _ _ => ?_⟩
      refine ⟨_, hread, rfl, ?_⟩
      have hlow := hrange.1
      have hhigh := hrange.2
      rw [List.length_take, List.length_drop]
      omega
  · have hread : readFromPartition sys ops partition offset numBytes =
        .error .noSuchPartition := if_neg hvalid
    refine iff_of_true ?_ (fun h => absurd h hvalid)
    exact ⟨fun _ => hread, fun h => absurd h hvalid, fun h => absurd h hvalid⟩

/-! ## A partition of three bytes -/

def boot : CString := ⟨[0x62, 0x6f, 0x6f, 0x74], by decide⟩

/-- A directory with `boot.img`. -/
def bootSystem : System where
  directory := [getPartitionFile boot.bytes]
  stat _ := some 3
  openFile _ := .opened
  lseek _ offset := if offset < 0 then -1 else offset
  read _ offset n := some ((([1, 2, 3] : Bytes).drop offset.toInt.toNat).take n.toNat)
  malloc _ := true

theorem bootSystem_posix : bootSystem.Posix fun _ => [1, 2, 3] where
  fits := by
    intro file _
    norm_num
  stat := by
    intro file _
    rfl
  opened := by
    intro file _
    rfl
  lseek := by
    intro file _ offset
    rfl
  read := by
    intro file _ offset n
    rfl

theorem mem_bootSystem :
    ∀ file ∈ (CfigAvbOps.new bootSystem).validPartitions, file ∈ bootSystem.directory := by
  intro file hfile
  exact (List.mem_filter.mp hfile).1

/-- Two bytes from the end. -/
theorem readFromPartition_honours_iff_end :
    Honours (fun _ => [1, 2, 3]) (CfigAvbOps.new bootSystem) boot (-2) 4
        (readFromPartition bootSystem (CfigAvbOps.new bootSystem) boot (-2) 4) ↔
      (getPartitionFile boot.bytes ∈ (CfigAvbOps.new bootSystem).validPartitions →
        InRange [1, 2, 3] (-2)) :=
  readFromPartition_honours_iff bootSystem _ _ bootSystem_posix mem_bootSystem boot (-2) 4

/-- Four bytes before the end there is nothing, and a read returns the first bytes of the
partition. -/
theorem readFromPartition_before_start :
    ¬ ∀ (sys : System) (content : Bytes → Bytes) (ops : CfigAvbOps), sys.Posix content →
      (∀ file ∈ ops.validPartitions, file ∈ sys.directory) →
      ∀ (partition : CString) (offset : Int64) (numBytes : UInt64),
        Honours content ops partition offset numBytes
          (readFromPartition sys ops partition offset numBytes) := by
  intro h
  have hhonours := h bootSystem _ _ bootSystem_posix mem_bootSystem boot (-4) 2
  have hread : readFromPartition bootSystem (CfigAvbOps.new bootSystem) boot (-4) 2 =
      .ok [1, 2] := by decide +kernel
  have hrange : ¬ InRange [1, 2, 3] (-4) := by
    unfold InRange
    decide +kernel
  have houtside := hhonours.outside (by decide +kernel) hrange
  rw [hread] at houtside
  cases houtside

end CfigAvbOps

end Avbx

end BootImageEditor
