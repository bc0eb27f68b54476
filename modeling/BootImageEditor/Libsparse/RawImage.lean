import BootImageEditor.Libsparse.SparseFile

/-!
# Raw images

What `sparse_file_write` leaves in a raw image: the byte of a block wherever there is one, and
what was in the file before anywhere else. Several images may be written over each other.
-/

namespace BootImageEditor

open Codec

namespace Libsparse

/-! ## Files by their bytes -/

namespace OutFd

theorem getD_write (f : OutFd) (data : Bytes) (i : ℕ) :
    (f.write data).content.getD i 0 =
      if f.pos ≤ i ∧ i < f.pos + data.length then data.getD (i - f.pos) 0
      else f.content.getD i 0 := by
  obtain ⟨content, pos⟩ := f
  have hlen : ((content ++ List.replicate (pos - content.length) (0 : UInt8)).take pos).length =
      pos := by
    rw [List.length_take, List.length_append, List.length_replicate]
    omega
  simp only [write, List.getD_eq_getElem?_getD]
  by_cases hlow : pos ≤ i
  swap
  · rw [if_neg (fun h => hlow h.1), List.append_assoc, List.getElem?_append_left (by omega),
      List.getElem?_take_of_lt (by omega)]
    by_cases hin : i < content.length
    · rw [List.getElem?_append_left hin]
    · rw [List.getElem?_append_right (by omega), List.getElem?_eq_none (l := content) (by omega),
        List.getElem?_replicate, if_pos (by omega)]
      rfl
  by_cases hhigh : i < pos + data.length
  · rw [if_pos ⟨hlow, hhigh⟩, List.append_assoc, List.getElem?_append_right (by omega), hlen,
      List.getElem?_append_left (by omega)]
  · rw [if_neg (fun h => hhigh h.2), List.getElem?_append_right (by
      rw [List.length_append]
      omega), List.length_append, hlen, List.getElem?_drop]
    congr 2
    omega

theorem pos_write (f : OutFd) (data : Bytes) : (f.write data).pos = f.pos + data.length := rfl

/-- At the end of a file, writing appends. -/
theorem write_append (content data : Bytes) :
    OutFd.write ⟨content, content.length⟩ data =
      ⟨content ++ data, (content ++ data).length⟩ := by
  simp only [write, Nat.sub_self, List.replicate_zero, List.append_nil, List.take_length,
    List.length_append]
  rw [List.drop_of_length_le (by omega), List.append_nil]

theorem write_nil (data : Bytes) : write ⟨[], 0⟩ data = ⟨data, data.length⟩ :=
  write_append [] data

theorem content_pad (f : OutFd) (len : ℕ) :
    (f.pad len).content = (List.range len).map (f.content.getD · 0) := by
  apply List.ext_getElem?
  intro i
  simp only [pad, List.getElem?_map, List.getD_eq_getElem?_getD]
  by_cases hlt : i < len
  · rw [List.getElem?_range hlt, Option.map_some]
    by_cases hin : i < f.content.length
    · rw [List.getElem?_append_left (by rw [List.length_take]; omega),
        List.getElem?_take_of_lt hlt, List.getElem?_eq_getElem hin]
      rfl
    · rw [List.getElem?_append_right (by rw [List.length_take]; omega), List.getElem?_replicate,
        List.getElem?_eq_none (l := f.content) (by omega),
        if_pos (by rw [List.length_take]; omega)]
      rfl
  · rw [List.getElem?_eq_none (by simp; omega), List.getElem?_eq_none (by simp; omega)]
    rfl

end OutFd

/-! ## The bytes of a block -/

/-- The bytes of a block are there to be read. -/
def BackedBlock.Available (files : Files) (bb : BackedBlock) : Prop :=
  match bb.backing with
  | .data data => bb.len ≤ data.length
  | .file filename offset =>
      ∃ content, files.file filename = some content ∧
        offset + bb.len ≤ (OutputFile.mapped content).length
  | .fd n offset => offset + bb.len ≤ (OutputFile.mapped (files.fd n)).length
  | .fill _ => True

/-- The bytes up to the length. -/
def BackedBlock.bytes (files : Files) (bb : BackedBlock) : Bytes :=
  (List.range bb.len).map (bb.backing.byteAt files)

@[simp] theorem BackedBlock.length_bytes (files : Files) (bb : BackedBlock) :
    (bb.bytes files).length = bb.len := by
  simp [BackedBlock.bytes]

/-- A prefix by its bytes. -/
theorem take_eq_map_getD {data : Bytes} {n : ℕ} (h : n ≤ data.length) :
    data.take n = (List.range n).map (data.getD · 0) := by
  apply List.ext_getElem?
  intro i
  by_cases hlt : i < n
  · rw [List.getElem?_take_of_lt hlt, List.getElem?_map, List.getElem?_range hlt,
      List.getElem?_eq_getElem (by omega)]
    simp [List.getElem?_eq_getElem (show i < data.length by omega)]
  · rw [List.getElem?_eq_none (by rw [List.length_take]; omega),
      List.getElem?_eq_none (by simp; omega)]

theorem le_length_mapped (content : Bytes) :
    content.length ≤ (OutputFile.mapped content).length := by
  rw [OutputFile.mapped, List.length_append]
  exact Nat.le_add_right _ _

theorem getD_mapped (content : Bytes) (i : ℕ) :
    (OutputFile.mapped content).getD i 0 = content.getD i 0 := by
  unfold OutputFile.mapped
  by_cases h : i < content.length
  · rw [List.getD_eq_getElem?_getD, List.getElem?_append_left h, List.getD_eq_getElem?_getD]
  · rw [List.getD_eq_getElem?_getD, List.getElem?_append_right (by omega),
      List.getElem?_replicate, List.getD_eq_getElem?_getD, List.getElem?_eq_none (by omega)]
    split <;> rfl

/-- The part of a file that is read from its pages. -/
theorem drop_slice_mapped (content : Bytes) (offset len : ℕ) :
    (slice (offset / 4096 * 4096) (len + (offset - offset / 4096 * 4096)) content).drop
        (offset - offset / 4096 * 4096) = slice offset len content := by
  have hle := Nat.div_mul_le_self offset 4096
  obtain ⟨aligned, haligned⟩ : ∃ x, offset / 4096 * 4096 = x := ⟨_, rfl⟩
  rw [haligned] at hle ⊢
  obtain ⟨diff, rfl⟩ := Nat.exists_eq_add_of_le hle
  rw [Nat.add_sub_cancel_left, slice, slice, List.drop_take, List.drop_drop,
    Nat.add_sub_cancel]

theorem writeFdChunk_eq (files : Files) {out : OutputFile} {len offset : ℕ} {n : ℤ}
    (hlen : 0 < len) (h : offset + len ≤ (OutputFile.mapped (files.fd n)).length) :
    out.writeFdChunk files len n offset = some (out.writeDataChunk len
      (slice offset len (OutputFile.mapped (files.fd n)))) := by
  unfold OutputFile.writeFdChunk
  simp only [drop_slice_mapped]
  rw [if_neg (by omega), if_neg (by rw [length_slice h]; omega)]

theorem slice_eq_map_getD {data : Bytes} {offset n : ℕ} (h : offset + n ≤ data.length) :
    slice offset n data = (List.range n).map fun i => data.getD (offset + i) 0 := by
  rw [slice, take_eq_map_getD (by rw [List.length_drop]; omega)]
  apply List.map_congr_left
  intro i _
  rw [List.getD_eq_getElem?_getD, List.getElem?_drop, List.getD_eq_getElem?_getD]

/-- A block that does not hold a word is written as data. -/
theorem writeBlock_data {files : Files} {bb : BackedBlock} (hpos : 0 < bb.len)
    (havail : bb.Available files) (hfill : bb.backing.isFill = false) (out : OutputFile) :
    ∃ data, data.take bb.len = bb.bytes files ∧ bb.len ≤ data.length ∧
      out.sparseFileWriteBlock files bb = some (out.writeDataChunk bb.len data) := by
  obtain ⟨block, len, backing⟩ := bb
  cases backing with
  | data data =>
      have hle : len ≤ data.length := havail
      refine ⟨data, take_eq_map_getD hle, hle, ?_⟩
      simp only [OutputFile.sparseFileWriteBlock]
      rw [if_neg (by omega)]
  | file filename offset =>
      obtain ⟨content, hfile, hle⟩ := havail
      have hlen : (slice offset len (OutputFile.mapped content)).length = len := length_slice hle
      refine ⟨slice offset len (OutputFile.mapped content), ?_, le_of_eq hlen.symm, ?_⟩
      · rw [List.take_of_length_le (le_of_eq hlen), slice_eq_map_getD hle, BackedBlock.bytes]
        apply List.map_congr_left
        intro i _
        simp only [Backing.byteAt, hfile, Option.getD_some, getD_mapped]
      · simp only [OutputFile.sparseFileWriteBlock, OutputFile.writeFileChunk, hfile]
        exact writeFdChunk_eq ⟨files.file, fun _ => content⟩ hpos hle
  | fd n offset =>
      have hle : offset + len ≤ (OutputFile.mapped (files.fd n)).length := havail
      have hlen : (slice offset len (OutputFile.mapped (files.fd n))).length = len :=
        length_slice hle
      refine ⟨slice offset len (OutputFile.mapped (files.fd n)), ?_, le_of_eq hlen.symm,
        writeFdChunk_eq files hpos hle⟩
      rw [List.take_of_length_le (le_of_eq hlen), slice_eq_map_getD hle, BackedBlock.bytes]
      simp only [getD_mapped]
      rfl
  | fill val => cases hfill

theorem writeBlock_fill (files : Files) {bb : BackedBlock} {val : UInt32}
    (h : bb.backing = .fill val) (out : OutputFile) :
    out.sparseFileWriteBlock files bb = some (out.writeFillChunk bb.len val) := by
  simp only [OutputFile.sparseFileWriteBlock, h]

/-- A merged block has its bytes where the two had theirs. -/
theorem available_of_mergeBb [Build] (files : Files) {blockSize : ℕ} {a b m : BackedBlock}
    (ha : a.Available files) (hb : b.Available files)
    (h : mergeBb blockSize a (some b) = .merged m) : m.Available files := by
  obtain ⟨hcont, rfl⟩ := eq_of_mergeBb h
  obtain ⟨block, len, backing⟩ := a
  obtain ⟨block', len', backing'⟩ := b
  have hmod : (len + len') % 2 ^ 32 ≤ len + len' := Nat.mod_le _ _
  cases backing <;> cases backing' <;>
    simp only [Backing.continues, decide_eq_true_eq, Bool.false_eq_true] at hcont
  · obtain ⟨rfl, rfl⟩ := hcont
    obtain ⟨content, hfile, hle⟩ := hb
    exact ⟨content, hfile, by simp only at hle ⊢; omega⟩
  · obtain ⟨rfl, rfl⟩ := hcont
    simp only [BackedBlock.Available] at hb ⊢
    omega
  · trivial

/-! ## Writing a raw image -/

/-- The sum does not wrap. -/
theorem divRoundUpUInt_eq {x y : ℕ} (hy : 0 < y) (h : x + y ≤ 2 ^ 32) :
    divRoundUpUInt x y = divRoundUp x y := by
  rw [divRoundUpUInt, Nat.mod_eq_of_lt (by omega), divRoundUp]

theorem BackedBlock.Fits.align_eq {blockSize : ℕ} (hsize : 0 < blockSize) {bb : BackedBlock}
    (h : bb.Fits blockSize) : align bb.len blockSize = bb.blocks blockSize * blockSize := by
  rw [align, divRoundUpUInt_eq hsize h.small, Nat.mul_comm]
  rfl

theorem BackedBlock.Fits.behind_eq {blockSize : ℕ} (hsize : 0 < blockSize) {bb : BackedBlock}
    (h : bb.Fits blockSize) : bb.behind blockSize = bb.block + bb.blocks blockSize := by
  rw [BackedBlock.behind, divRoundUpUInt_eq hsize h.small]
  exact Nat.mod_eq_of_lt h.bounded

/-- What is missing to whole blocks. -/
theorem BackedBlock.Fits.zeroLen_eq {blockSize : ℕ} (hsize : 0 < blockSize) {bb : BackedBlock}
    (h : bb.Fits blockSize) : (bb.blocks blockSize * blockSize + 2 ^ 32 - bb.len) % 2 ^ 32 =
      bb.blocks blockSize * blockSize - bb.len := by
  have hle : bb.len ≤ bb.blocks blockSize * blockSize := le_roundUp hsize bb.len
  have hlt : bb.blocks blockSize * blockSize < bb.len + blockSize := roundUp_lt hsize bb.len
  have hsmall := h.small
  omega

theorem divRoundUp_mul {blockSize : ℕ} (hsize : 0 < blockSize) (n : ℕ) :
    divRoundUp (n * blockSize) blockSize = n := by
  unfold divRoundUp
  rw [Nat.add_comm, Nat.add_mul_div_right _ _ hsize, Nat.div_eq_of_lt (by omega), Nat.zero_add]

/-- A word over and over. -/
theorem getD_flatten_replicate {word : Bytes} (hword : word.length = 4) {m j : ℕ}
    (hj : j < 4 * m) : (List.replicate m word).flatten.getD j 0 = word.getD (j % 4) 0 := by
  induction m generalizing j with
  | zero => omega
  | succ m ih =>
      rw [List.replicate_succ, List.flatten_cons, List.getD_eq_getElem?_getD]
      by_cases hlt : j < 4
      · rw [List.getElem?_append_left (by omega), Nat.mod_eq_of_lt hlt, List.getD_eq_getElem?_getD]
      · obtain ⟨k, rfl⟩ := Nat.exists_eq_add_of_le (not_lt.mp hlt)
        rw [List.getElem?_append_right (by omega), hword, Nat.add_sub_cancel_left,
          ← List.getD_eq_getElem?_getD, ih (by omega), Nat.add_mod_left]

/-- What a file has become when a block was written over the range from `lo` to `hi`. -/
structure Wrote (f f' : OutFd) (hi : ℕ) (byteAt : ℕ → UInt8) (len : ℕ) : Prop where
  pos_eq : f'.pos = hi
  getD_eq : ∀ i, f'.content.getD i 0 =
    if f.pos ≤ i ∧ i < f.pos + len then byteAt (i - f.pos) else f.content.getD i 0

/-- Whole blocks of a word. -/
theorem wrote_writeNormalFillChunk {blockSize n : ℕ} (hsize : 0 < blockSize)
    (hfour : blockSize % 4 = 0) (out : OutputFile) (hout : out.blockSize = blockSize)
    (val : UInt32) :
    ∃ f', out.writeNormalFillChunk (n * blockSize) val = { out with file := f' } ∧
      Wrote out.file f' (out.file.pos + n * blockSize)
        (fun i => (le 4 val.toNat).getD (i % 4) 0) (n * blockSize) := by
  subst hout
  obtain ⟨blockSize, hout⟩ : ∃ x, out.blockSize = x := ⟨_, rfl⟩
  rw [hout] at hsize hfour ⊢
  have hword : (le 4 val.toNat).length = 4 := ByteOrder.length_encode _ _ _
  have hblocks : divRoundUp (n * blockSize) blockSize = n := divRoundUp_mul hsize n
  obtain ⟨fillBuf, hbuf⟩ : ∃ x, (List.replicate (blockSize / 4) (le 4 val.toNat)).flatten ++
    List.replicate (blockSize % 4) (0 : UInt8) = x := ⟨_, rfl⟩
  have hbufLen : fillBuf.length = blockSize := by
    rw [← hbuf, List.length_append, List.length_flatten, List.map_replicate, List.sum_replicate_nat,
      List.length_replicate, hword]
    omega
  have hbufGet : ∀ j, j < blockSize → fillBuf.getD j 0 = (le 4 val.toNat).getD (j % 4) 0 := by
    intro j hj
    rw [← getD_flatten_replicate hword (m := blockSize / 4) (by omega), ← hbuf, hfour]
    simp
  unfold OutputFile.writeNormalFillChunk
  simp only [hout, hblocks, hbuf]
  -- after `k` blocks, the file has `k` blocks of the word
  have hrun : ∀ k, k ≤ n → ∃ f', (List.range k).foldl (fun file i =>
      file.write (fillBuf.take (min (n * blockSize - i * blockSize) blockSize))) out.file = f' ∧
      Wrote out.file f' (out.file.pos + k * blockSize)
        (fun i => (le 4 val.toNat).getD (i % 4) 0) (k * blockSize) := by
    intro k
    induction k with
    | zero =>
        intro _
        refine ⟨out.file, rfl, by omega, ?_⟩
        intro i
        rw [if_neg (by omega)]
    | succ k ih =>
        intro hk
        obtain ⟨f', heq, hpos, hget⟩ := ih (by omega)
        have hfull : min (n * blockSize - k * blockSize) blockSize = blockSize := by
          have hle := Nat.mul_le_mul_right blockSize hk
          rw [Nat.succ_mul] at hle
          omega
        have htake : fillBuf.take blockSize = fillBuf :=
          List.take_of_length_le (le_of_eq hbufLen)
        refine ⟨f'.write fillBuf, ?_, ?_, ?_⟩
        · rw [List.range_succ, List.foldl_append, heq, List.foldl_cons, List.foldl_nil, hfull,
            htake]
        · rw [OutFd.pos_write, hpos, hbufLen, Nat.succ_mul]
          omega
        · intro i
          rw [OutFd.getD_write, hpos, hbufLen, hget, Nat.succ_mul]
          by_cases hnew : out.file.pos + k * blockSize ≤ i ∧
              i < out.file.pos + k * blockSize + blockSize
          · rw [if_pos hnew, if_pos (by omega), hbufGet _ (by omega)]
            have hsum : i - out.file.pos = i - (out.file.pos + k * blockSize) + k * blockSize := by
              omega
            rw [hsum, Nat.add_mod, Nat.mul_mod, hfour]
            simp
          · rw [if_neg hnew]
            by_cases hold : out.file.pos ≤ i ∧ i < out.file.pos + k * blockSize
            · rw [if_pos hold, if_pos (by omega)]
            · rw [if_neg hold, if_neg (by omega)]
  obtain ⟨f', heq, hwrote⟩ := hrun n le_rfl
  exact ⟨f', by rw [heq, ← hout], hwrote⟩

/-- A block in a raw image. -/
theorem wrote_block {files : Files} {blockSize : ℕ} (hsize : 0 < blockSize)
    (hfour : blockSize % 4 = 0) {bb : BackedBlock} (hfits : bb.Fits blockSize)
    (havail : bb.Available files) (out : OutputFile) (hsparse : out.sparse = false)
    (hout : out.blockSize = blockSize) :
    ∃ f', out.sparseFileWriteBlock files bb = some { out with file := f' } ∧
      Wrote out.file f' (out.file.pos + bb.blocks blockSize * blockSize)
        (bb.backing.byteAt files) bb.len := by
  obtain ⟨file, sparse, size, len⟩ := out
  obtain rfl : sparse = false := hsparse
  obtain rfl : size = blockSize := hout
  have hle : bb.len ≤ bb.blocks size * size := le_roundUp hsize bb.len
  cases hfill : bb.backing.isFill with
  | true =>
      obtain ⟨val, hval⟩ := Backing.exists_of_isFill hfill
      have hwhole := hfits.whole hfill
      have hlen : bb.len = bb.blocks size * size :=
        (roundUp_eq_self hsize hwhole).symm
      obtain ⟨f', heq, hwrote⟩ := wrote_writeNormalFillChunk (n := bb.blocks size) hsize hfour
        ⟨file, false, size, len⟩ rfl val
      refine ⟨f', ?_, ?_⟩
      · rw [writeBlock_fill files hval, hlen]
        exact congrArg some heq
      · rw [hval, hlen]
        exact hwrote
  | false =>
      obtain ⟨data, htake, hdata, heq⟩ := writeBlock_data hfits.pos havail hfill
        (⟨file, false, size, len⟩ : OutputFile)
      rw [heq]
      simp only [OutputFile.writeDataChunk, Bool.false_eq_true, if_false,
        OutputFile.writeNormalDataChunk, hfits.align_eq hsize, htake, OutputFile.write]
      have hget : ∀ i, (file.write (bb.bytes files)).content.getD i 0 =
          if file.pos ≤ i ∧ i < file.pos + bb.len then
            bb.backing.byteAt files (i - file.pos) else file.content.getD i 0 := by
        intro i
        rw [OutFd.getD_write, BackedBlock.length_bytes]
        by_cases hin : file.pos ≤ i ∧ i < file.pos + bb.len
        · rw [if_pos hin, if_pos hin, BackedBlock.bytes, List.getD_eq_getElem?_getD,
            List.getElem?_map, List.getElem?_range (by omega)]
          rfl
        · rw [if_neg hin, if_neg hin]
      by_cases hgap : bb.len < bb.blocks size * size
      · rw [if_pos hgap]
        refine ⟨_, rfl, ?_, hget⟩
        simp only [OutFd.skip, OutFd.pos_write, BackedBlock.length_bytes]
        omega
      · rw [if_neg hgap]
        refine ⟨_, rfl, ?_, hget⟩
        rw [OutFd.pos_write, BackedBlock.length_bytes]
        omega

/-- The first block behind all of them. -/
def endBlock (blockSize : ℕ) : ℕ → List BackedBlock → ℕ
  | lastBlock, [] => lastBlock
  | _, bb :: rest => endBlock blockSize (bb.block + bb.blocks blockSize) rest

section Write

variable {files : Files} {blockSize : ℕ}

/-- The blocks of an image that is written: in their order, and from `lastBlock` on. -/
structure Writable (files : Files) (blockSize lastBlock : ℕ) (l : List BackedBlock) : Prop where
  fits : ∀ bb ∈ l, bb.Fits blockSize
  available : ∀ bb ∈ l, bb.Available files
  ordered : (extents files blockSize).Ordered l
  from_last : ∀ bb ∈ l, lastBlock ≤ bb.block

theorem Writable.tail (hsize : 0 < blockSize) {lastBlock : ℕ} {bb : BackedBlock}
    {rest : List BackedBlock} (h : Writable files blockSize lastBlock (bb :: rest)) :
    Writable files blockSize (bb.block + bb.blocks blockSize) rest where
  fits := (List.forall_mem_cons.mp h.fits).2
  available := (List.forall_mem_cons.mp h.available).2
  ordered := (List.pairwise_cons.mp h.ordered).2
  from_last x hx := blocks_le_of_hi_le_lo hsize ((List.pairwise_cons.mp h.ordered).1 x hx)

/-- The file is zero behind the bytes of the blocks. -/
def PadZero (blockSize : ℕ) (content : Bytes) (l : List BackedBlock) : Prop :=
  ∀ bb ∈ l, ∀ i, bb.block * blockSize + bb.len ≤ i →
    i < (bb.block + bb.blocks blockSize) * blockSize → content.getD i 0 = 0

/-- The blocks of a raw image, one after the other. -/
theorem foldlM_writeNext_raw (hsize : 0 < blockSize) (hfour : blockSize % 4 = 0)
    {l : List BackedBlock} {lastBlock : ℕ} (h : Writable files blockSize lastBlock l) (len : ℕ)
    {f : OutFd} (hpos : f.pos = lastBlock * blockSize) (hpad : PadZero blockSize f.content l) :
    ∃ f', l.foldlM (SparseFile.writeNext files blockSize) (⟨f, false, blockSize, len⟩, lastBlock) =
        some (⟨f', false, blockSize, len⟩, endBlock blockSize lastBlock l) ∧
      ∀ i, f'.content.getD i 0 =
        ((extents files blockSize).read l i).getD (f.content.getD i 0) := by
  induction l generalizing lastBlock f with
  | nil => exact ⟨f, rfl, fun i => rfl⟩
  | cons bb rest ih =>
      have hbb := h.fits bb List.mem_cons_self
      have hlast := h.from_last bb List.mem_cons_self
      obtain ⟨hhead, -⟩ := List.pairwise_cons.mp h.ordered
      -- the position is moved to the block
      obtain ⟨g, hg, hgPos, hgContent⟩ : ∃ g : OutFd,
          (if lastBlock < bb.block then
            (⟨f, false, blockSize, len⟩ : OutputFile).writeSkipChunk
              ((bb.block - lastBlock) * blockSize) else ⟨f, false, blockSize, len⟩) =
            ⟨g, false, blockSize, len⟩ ∧
          g.pos = bb.block * blockSize ∧ g.content = f.content := by
        by_cases hgap : lastBlock < bb.block
        · rw [if_pos hgap]
          refine ⟨f.skip ((bb.block - lastBlock) * blockSize), rfl, ?_, rfl⟩
          simp only [OutFd.skip]
          rw [hpos, ← Nat.add_mul, Nat.add_sub_cancel' hlast]
        · rw [if_neg hgap]
          refine ⟨f, rfl, ?_, rfl⟩
          rw [hpos, Nat.le_antisymm hlast (not_lt.mp hgap)]
      obtain ⟨f₁, hwrite, hpos₁, hget₁⟩ := wrote_block hsize hfour hbb
        (h.available bb List.mem_cons_self) ⟨g, false, blockSize, len⟩ rfl rfl
      simp only at hwrite hpos₁ hget₁
      rw [hgPos, ← Nat.add_mul] at hpos₁
      rw [hgPos, hgContent] at hget₁
      have hle : bb.len ≤ bb.blocks blockSize * blockSize := le_roundUp hsize bb.len
      have hhi : (bb.block + bb.blocks blockSize) * blockSize =
          bb.block * blockSize + bb.blocks blockSize * blockSize := Nat.add_mul _ _ _
      have hpad₁ : PadZero blockSize f₁.content rest := by
        intro x hx i hlow hhigh
        have hxlo := hhead x hx
        simp only [extents] at hxlo
        rw [hget₁, if_neg (by omega)]
        exact hpad x (List.mem_cons_of_mem _ hx) i hlow hhigh
      obtain ⟨f', hfold, hget⟩ := ih (h.tail hsize) hpos₁ hpad₁
      refine ⟨f', ?_, ?_⟩
      · rw [List.foldlM_cons]
        have hnext : SparseFile.writeNext files blockSize
            (⟨f, false, blockSize, len⟩, lastBlock) bb =
              some (⟨f₁, false, blockSize, len⟩, bb.block + bb.blocks blockSize) := by
          simp only [SparseFile.writeNext, hg, hwrite, hbb.behind_eq hsize]
          rfl
        rw [hnext]
        exact hfold
      · intro i
        rw [hget i, hget₁, Extents.read_cons]
        by_cases hin : bb.block * blockSize ≤ i ∧ i < (bb.block + bb.blocks blockSize) * blockSize
        · have hrest : (extents files blockSize).read rest i = none := by
            rw [Extents.read_eq_none_iff]
            intro x hx hr
            have hxlo := hhead x hx
            simp only [extents] at hxlo hr
            omega
          have hcell : (extents files blockSize).cell bb i =
              some (if i - bb.block * blockSize < bb.len then
                bb.backing.byteAt files (i - bb.block * blockSize) else 0) := if_pos hin
          rw [hrest, hcell, Option.getD_none, Option.some_or, Option.getD_some]
          by_cases hshort : i - bb.block * blockSize < bb.len
          · rw [if_pos ⟨hin.1, by omega⟩, if_pos hshort]
          · rw [if_neg (by omega), if_neg hshort]
            exact hpad bb List.mem_cons_self i (by omega) hin.2
        · have hcell : (extents files blockSize).cell bb i = none := if_neg hin
          rw [hcell, Option.none_or, if_neg (by omega)]

/-- A raw image over what is in the file. -/
theorem write_raw_spec [Build] {s : SparseFile} (hsize : 0 < s.blockSize)
    (hfour : s.blockSize % 4 = 0) (hword : s.blockSize < 2 ^ 31)
    (h : Writable files s.blockSize 0 s.backedBlockList.dataBlocks) {content : Bytes}
    (hpad : PadZero s.blockSize content s.backedBlockList.dataBlocks)
    (hend : endBlock s.blockSize 0 s.backedBlockList.dataBlocks * s.blockSize ≤ s.len) :
    ∃ f, s.write files ⟨content, 0⟩ false = some f ∧
      f.content = (List.range s.len).map fun i =>
        ((extents files s.blockSize).read s.backedBlockList.dataBlocks i).getD
          (content.getD i 0) := by
  obtain ⟨f, hfold, hget⟩ := foldlM_writeNext_raw hsize hfour h s.len
    (f := ⟨content, 0⟩) (Nat.zero_mul _).symm hpad
  have hall : ∃ f', s.writeAllBlocks files ⟨⟨content, 0⟩, false, s.blockSize, s.len⟩ =
      some ⟨f', false, s.blockSize, s.len⟩ ∧ f'.content = f.content := by
    unfold SparseFile.writeAllBlocks
    rw [hfold]
    simp only [Option.bind_eq_bind, Option.bind_some]
    rw [if_neg fun h => not_lt.mpr hend h.2]
    split
    · exact ⟨_, rfl, rfl⟩
    · exact ⟨_, rfl, rfl⟩
  obtain ⟨f', hblocks, hcontent⟩ := hall
  refine ⟨f'.pad s.len, ?_, ?_⟩
  · simp only [SparseFile.write, if_neg (not_le.mpr hword), Bool.false_eq_true, if_false, hblocks]
    rfl
  · rw [OutFd.content_pad, hcontent]
    simp only [hget]

end Write

end Libsparse

end BootImageEditor
