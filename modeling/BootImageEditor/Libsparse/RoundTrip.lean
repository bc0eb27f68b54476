import BootImageEditor.Libsparse.RawImage

/-!
# Sparse images

The sparse format, written and read back: the reader finds in the chunks the blocks that were
written, with the same bytes and the same gaps, and so the two tools are inverse to each other.
-/

namespace BootImageEditor

open Codec

namespace Libsparse

/-! ## The chunks of an image -/

/-- The chunk of a block. -/
def chunkOf (files : Files) (blockSize : ℕ) (bb : BackedBlock) : Bytes :=
  match bb.backing with
  | .fill val => chunkHeader chunkTypeFill (bb.blocks blockSize) (chunkHeaderLen + 4) ++
      le 4 val.toNat
  | _ => chunkHeader chunkTypeRaw (bb.blocks blockSize)
        (chunkHeaderLen + bb.blocks blockSize * blockSize) ++
      (bb.bytes files ++ List.replicate (bb.blocks blockSize * blockSize - bb.len) 0)

/-- The chunk in front of it, if there is something to skip. -/
def gapChunk (blocks : ℕ) : Bytes :=
  if 0 < blocks then chunkHeader chunkTypeDontCare blocks chunkHeaderLen else []

def encodeBlocks (files : Files) (blockSize : ℕ) : ℕ → List BackedBlock → Bytes
  | _, [] => []
  | lastBlock, bb :: rest => gapChunk (bb.block - lastBlock) ++ (chunkOf files blockSize bb ++
      encodeBlocks files blockSize (bb.block + bb.blocks blockSize) rest)

def gapCount (blocks : ℕ) : ℕ := if 0 < blocks then 1 else 0

def countFrom (blockSize : ℕ) : ℕ → List BackedBlock → ℕ
  | _, [] => 0
  | lastBlock, bb :: rest => gapCount (bb.block - lastBlock) + (1 +
      countFrom blockSize (bb.block + bb.blocks blockSize) rest)

section Encode

variable {files : Files} {blockSize : ℕ}

theorem chunkOf_fill {bb : BackedBlock} {val : UInt32} (h : bb.backing = .fill val) :
    chunkOf files blockSize bb =
      chunkHeader chunkTypeFill (bb.blocks blockSize) (chunkHeaderLen + 4) ++ le 4 val.toNat := by
  rw [chunkOf, h]

theorem chunkOf_data {bb : BackedBlock} (h : bb.backing.isFill = false) :
    chunkOf files blockSize bb = chunkHeader chunkTypeRaw (bb.blocks blockSize)
        (chunkHeaderLen + bb.blocks blockSize * blockSize) ++
      (bb.bytes files ++ List.replicate (bb.blocks blockSize * blockSize - bb.len) 0) := by
  unfold chunkOf
  split
  · next val hval =>
      rw [hval] at h
      cases h
  · rfl

/-- A block in the sparse format. -/
theorem writeBlock_sparse (hsize : 0 < blockSize) {bb : BackedBlock} (hfits : bb.Fits blockSize)
    (havail : bb.Available files) (content : Bytes) (len : ℕ) :
    OutputFile.sparseFileWriteBlock files
        ⟨⟨content, content.length⟩, true, blockSize, len⟩ bb =
      some ⟨⟨content ++ chunkOf files blockSize bb,
        (content ++ chunkOf files blockSize bb).length⟩, true, blockSize, len⟩ := by
  have hmul := hfits.align_eq hsize
  have hdiv : bb.blocks blockSize * blockSize / blockSize = bb.blocks blockSize :=
    Nat.mul_div_cancel _ hsize
  cases hfill : bb.backing.isFill with
  | true =>
      obtain ⟨val, hval⟩ := Backing.exists_of_isFill hfill
      rw [writeBlock_fill files hval]
      simp only [OutputFile.writeFillChunk, OutputFile.writeSparseFillChunk, if_true, hmul, hdiv,
        OutputFile.write, OutFd.write_append, chunkOf_fill hval, List.append_assoc]
  | false =>
      obtain ⟨data, htake, -, heq⟩ := writeBlock_data hfits.pos havail hfill
        ⟨⟨content, content.length⟩, true, blockSize, len⟩
      rw [heq, chunkOf_data hfill]
      simp only [OutputFile.writeDataChunk, OutputFile.writeSparseDataChunk, if_true, hmul, hdiv,
        hfits.zeroLen_eq hsize, OutputFile.write, OutFd.write_append, htake, List.append_assoc]
      by_cases hzero : bb.blocks blockSize * blockSize - bb.len = 0
      · rw [if_neg (not_not.mpr hzero), hzero]
        simp
      · rw [if_pos hzero]

theorem foldlM_writeNext_sparse (hsize : 0 < blockSize) {l : List BackedBlock} {lastBlock : ℕ}
    (h : Writable files blockSize lastBlock l) (content : Bytes) (len : ℕ) :
    l.foldlM (SparseFile.writeNext files blockSize)
        (⟨⟨content, content.length⟩, true, blockSize, len⟩, lastBlock) =
      some (⟨⟨content ++ encodeBlocks files blockSize lastBlock l,
        (content ++ encodeBlocks files blockSize lastBlock l).length⟩, true, blockSize, len⟩,
        endBlock blockSize lastBlock l) := by
  induction l generalizing lastBlock content with
  | nil => simp [encodeBlocks, endBlock]
  | cons bb rest ih =>
      have hbb := h.fits bb List.mem_cons_self
      have hchunk := fun c => writeBlock_sparse hsize hbb (h.available bb List.mem_cons_self) c len
      have hgap : (if lastBlock < bb.block then
          (⟨⟨content, content.length⟩, true, blockSize, len⟩ : OutputFile).writeSkipChunk
            ((bb.block - lastBlock) * blockSize)
          else ⟨⟨content, content.length⟩, true, blockSize, len⟩) =
          ⟨⟨content ++ gapChunk (bb.block - lastBlock),
            (content ++ gapChunk (bb.block - lastBlock)).length⟩, true, blockSize, len⟩ := by
        by_cases hlt : lastBlock < bb.block
        · have hpos : 0 < bb.block - lastBlock := by omega
          rw [if_pos hlt, gapChunk, if_pos hpos]
          simp only [OutputFile.writeSkipChunk, OutputFile.writeSparseSkipChunk, if_true]
          rw [if_neg (not_not.mpr (Nat.mul_mod_left _ _)), Nat.mul_div_cancel _ hsize,
            Option.getD_some, OutputFile.write, OutFd.write_append]
        · have hzero : ¬ 0 < bb.block - lastBlock := by omega
          rw [if_neg hlt, gapChunk, if_neg hzero, List.append_nil]
      rw [List.foldlM_cons]
      have hnext : SparseFile.writeNext files blockSize
          (⟨⟨content, content.length⟩, true, blockSize, len⟩, lastBlock) bb =
            some (⟨⟨content ++ gapChunk (bb.block - lastBlock) ++ chunkOf files blockSize bb,
              (content ++ gapChunk (bb.block - lastBlock) ++
                chunkOf files blockSize bb).length⟩, true, blockSize, len⟩,
              bb.block + bb.blocks blockSize) := by
        simp only [SparseFile.writeNext, hgap, hchunk, hbb.behind_eq hsize]
        rfl
      rw [hnext]
      simp only [Option.bind_eq_bind, Option.bind_some]
      rw [ih (h.tail hsize)]
      simp only [encodeBlocks, endBlock, List.append_assoc]

theorem foldl_countChunks (hsize : 0 < blockSize) {l : List BackedBlock}
    (hfits : ∀ bb ∈ l, bb.Fits blockSize) (lastBlock n : ℕ) :
    l.foldl (fun (st : ℕ × ℕ) bb =>
        (bb.behind blockSize, (if st.1 < bb.block then st.2 + 1 else st.2) + 1)) (lastBlock, n) =
      (endBlock blockSize lastBlock l, n + countFrom blockSize lastBlock l) := by
  induction l generalizing lastBlock n with
  | nil => rfl
  | cons bb rest ih =>
      obtain ⟨hbb, hrest⟩ := List.forall_mem_cons.mp hfits
      rw [List.foldl_cons, ih hrest, endBlock, countFrom, hbb.behind_eq hsize]
      refine Prod.ext rfl ?_
      show (if lastBlock < bb.block then n + 1 else n) + 1 + countFrom blockSize
        (bb.block + bb.blocks blockSize) rest = _
      unfold gapCount
      by_cases hlt : lastBlock < bb.block
      · have hpos : 0 < bb.block - lastBlock := by omega
        rw [if_pos hlt, if_pos hpos]
        omega
      · have hzero : ¬ 0 < bb.block - lastBlock := by omega
        rw [if_neg hlt, if_neg hzero]
        omega

end Encode

/-- An image that is written in the sparse format. -/
def encodeImage (files : Files) (blockSize total : ℕ) (l : List BackedBlock) : Bytes :=
  sparseHeader blockSize total
      (countFrom blockSize 0 l + gapCount (total - endBlock blockSize 0 l)) ++
    (encodeBlocks files blockSize 0 l ++ gapChunk (total - endBlock blockSize 0 l))

/-- A file in the sparse format, if its length is that of whole blocks, or if its blocks reach
behind its end and no assertion looks at that. -/
theorem write_sparse_spec [Build] {files : Files} {s : SparseFile} (hsize : 0 < s.blockSize)
    (hword : s.blockSize < 2 ^ 31) {total : ℕ} (htotal : divRoundUp s.len s.blockSize = total)
    (hwhole : s.len = total * s.blockSize ∨ Build.ndebug = true ∧
      endBlock s.blockSize 0 s.backedBlockList.dataBlocks = total)
    (h : Writable files s.blockSize 0 s.backedBlockList.dataBlocks)
    (hend : endBlock s.blockSize 0 s.backedBlockList.dataBlocks ≤ total) :
    s.write files ⟨[], 0⟩ true =
      some ⟨encodeImage files s.blockSize total s.backedBlockList.dataBlocks,
        (encodeImage files s.blockSize total s.backedBlockList.dataBlocks).length⟩ := by
  obtain ⟨blockSize, len, bbl⟩ := s
  obtain ⟨l, lastUsed, size⟩ := bbl
  simp only at hsize hword htotal hwhole h hend ⊢
  obtain ⟨last, hlast⟩ : ∃ x, endBlock blockSize 0 l = x := ⟨_, rfl⟩
  rw [hlast] at hwhole hend
  have hcount : SparseFile.countChunks ⟨blockSize, len, ⟨l, lastUsed, size⟩⟩ =
      countFrom blockSize 0 l + gapCount (total - last) := by
    simp only [SparseFile.countChunks, foldl_countChunks hsize h.fits, htotal, hlast, gapCount]
    by_cases hlt : last < total
    · rw [if_pos hlt, if_pos (by omega)]
      omega
    · rw [if_neg hlt, if_neg (by omega)]
      omega
  have hassert : ¬ (Build.ndebug = false ∧ len < last * blockSize) := by
    rintro ⟨hdebug, hlt⟩
    rcases hwhole with hlen | ⟨hndebug, -⟩
    · rw [hlen] at hlt
      exact not_lt.mpr (Nat.mul_le_mul_right _ hend) hlt
    · exact Bool.false_ne_true (hdebug.symm.trans hndebug)
  have hpadEq : len - last * blockSize = (total - last) * blockSize := by
    rcases hwhole with hlen | ⟨-, hcover⟩
    · rw [hlen, Nat.sub_mul]
    · have hround : len ≤ total * blockSize := htotal ▸ le_roundUp hsize len
      rw [hcover, Nat.sub_self, Nat.zero_mul]
      omega
  have hall : ∀ header : Bytes,
      SparseFile.writeAllBlocks files ⟨blockSize, len, ⟨l, lastUsed, size⟩⟩
        ⟨⟨header, header.length⟩, true, blockSize, len⟩ =
        some ⟨⟨header ++ (encodeBlocks files blockSize 0 l ++ gapChunk (total - last)),
          (header ++ (encodeBlocks files blockSize 0 l ++ gapChunk (total - last))).length⟩,
          true, blockSize, len⟩ := by
    intro header
    unfold SparseFile.writeAllBlocks
    rw [foldlM_writeNext_sparse hsize h header len]
    simp only [Option.bind_eq_bind, Option.bind_some, hlast]
    rw [if_neg hassert, hpadEq, gapChunk]
    by_cases hgap : 0 < total - last
    · rw [if_pos (Nat.mul_pos hgap hsize), if_pos hgap]
      simp only [OutputFile.writeSkipChunk, OutputFile.writeSparseSkipChunk, if_true]
      rw [if_neg (not_not.mpr (Nat.mul_mod_left _ _)), Nat.mul_div_cancel _ hsize,
        Option.getD_some, OutputFile.write, OutFd.write_append, List.append_assoc]
    · have hzero : ¬ 0 < (total - last) * blockSize := by
        have hz : total - last = 0 := by omega
        rw [hz, Nat.zero_mul]
        exact Nat.lt_irrefl 0
      rw [if_neg hzero, if_neg hgap, List.append_nil]
  simp only [SparseFile.write, if_neg (not_le.mpr hword), if_true, htotal, hcount,
    OutputFile.write, OutFd.write_nil, hall, encodeImage, hlast]
  rfl

/-- Blocks behind the end of the file make an assertion fail. -/
theorem write_sparse_none [Build] (hdebug : Build.ndebug = false) {files : Files} {s : SparseFile}
    (hsize : 0 < s.blockSize) (h : Writable files s.blockSize 0 s.backedBlockList.dataBlocks)
    (hlong : s.len < endBlock s.blockSize 0 s.backedBlockList.dataBlocks * s.blockSize) :
    s.write files ⟨[], 0⟩ true = none := by
  have hall : ∀ header : Bytes, s.writeAllBlocks files
      ⟨⟨header, header.length⟩, true, s.blockSize, s.len⟩ = none := by
    intro header
    unfold SparseFile.writeAllBlocks
    rw [foldlM_writeNext_sparse hsize h header s.len]
    exact if_pos ⟨hdebug, hlong⟩
  simp only [SparseFile.write, if_true, OutputFile.write, OutFd.write_nil, hall]
  exact ite_self _

/-! ## Reading the chunks -/

theorem readValue_of_drop {input value tail : Bytes} {offset n : ℕ}
    (h : input.drop offset = value ++ tail) (hn : value.length = n) (hpos : 0 < n) :
    readValue input offset n = some value ∧ input.drop (offset + n) = tail := by
  have hlen := congrArg List.length h
  rw [List.length_drop, List.length_append] at hlen
  unfold readValue
  rw [if_pos (by omega), slice, h, ← hn, List.take_left, ← List.drop_drop, h, List.drop_left]
  exact ⟨rfl, rfl⟩

@[simp] theorem length_le (n x : ℕ) : (le n x).length = n := ByteOrder.length_encode _ _ _

/-- A number among the fields of a header. -/
theorem field_flatten {fields : List Bytes} {i n x offset : ℕ} (h : fields[i]? = some (le n x))
    (hoffset : ((fields.take i).map List.length).sum = offset) (hx : x < 256 ^ n) :
    field offset n fields.flatten = x := by
  have hslice := slice_flatten h []
  rw [List.append_nil, length_le, hoffset] at hslice
  rw [field, hslice, le, ByteOrder.decode_encode_of_lt _ hx]

/-- The numbers of a chunk header. -/
theorem field_chunkHeader {chunkType chunkSz totalSz : ℕ} (htype : chunkType < 2 ^ 16)
    (hsz : chunkSz < 2 ^ 32) (htotal : totalSz < 2 ^ 32) :
    field 0 2 (chunkHeader chunkType chunkSz totalSz) = chunkType ∧
      field 4 4 (chunkHeader chunkType chunkSz totalSz) = chunkSz ∧
      field 8 4 (chunkHeader chunkType chunkSz totalSz) = totalSz ∧
      (chunkHeader chunkType chunkSz totalSz).length = chunkHeaderLen := by
  have hfields : chunkHeader chunkType chunkSz totalSz =
      [le 2 chunkType, le 2 0, le 4 chunkSz, le 4 totalSz].flatten := by
    simp [chunkHeader]
  rw [hfields]
  refine ⟨?_, ?_, ?_, by simp [chunkHeaderLen]⟩
  · exact @field_flatten _ 0 2 chunkType 0 rfl rfl (by omega)
  · exact @field_flatten _ 2 4 chunkSz 4 rfl (by simp) (by omega)
  · exact @field_flatten _ 3 4 totalSz 8 rfl (by simp) (by omega)

/-- The numbers of the header of a file. -/
theorem field_sparseHeader {blkSz totalBlks totalChunks : ℕ} (hsize : blkSz < 2 ^ 32)
    (hblks : totalBlks < 2 ^ 32) (hchunks : totalChunks < 2 ^ 32) :
    headerAccepted (sparseHeader blkSz totalBlks totalChunks) = true ∧
      field 8 2 (sparseHeader blkSz totalBlks totalChunks) = sparseHeaderLen ∧
      field 10 2 (sparseHeader blkSz totalBlks totalChunks) = chunkHeaderLen ∧
      field 12 4 (sparseHeader blkSz totalBlks totalChunks) = blkSz ∧
      field 16 4 (sparseHeader blkSz totalBlks totalChunks) = totalBlks ∧
      field 20 4 (sparseHeader blkSz totalBlks totalChunks) = totalChunks ∧
      (sparseHeader blkSz totalBlks totalChunks).length = sparseHeaderLen := by
  have hfields : sparseHeader blkSz totalBlks totalChunks =
      [le 4 sparseHeaderMagic, le 2 1, le 2 0, le 2 sparseHeaderLen, le 2 chunkHeaderLen,
        le 4 blkSz, le 4 totalBlks, le 4 totalChunks, le 4 0].flatten := by
    simp [sparseHeader]
  rw [hfields]
  have h8 := @field_flatten [le 4 sparseHeaderMagic, le 2 1, le 2 0, le 2 sparseHeaderLen,
    le 2 chunkHeaderLen, le 4 blkSz, le 4 totalBlks, le 4 totalChunks, le 4 0] 3 2 sparseHeaderLen
    8 rfl (by simp) (by decide)
  have h10 := @field_flatten [le 4 sparseHeaderMagic, le 2 1, le 2 0, le 2 sparseHeaderLen,
    le 2 chunkHeaderLen, le 4 blkSz, le 4 totalBlks, le 4 totalChunks, le 4 0] 4 2 chunkHeaderLen
    10 rfl (by simp) (by decide)
  refine ⟨?_, h8, h10, ?_, ?_, ?_, by simp [sparseHeaderLen]⟩
  · have h0 := @field_flatten [le 4 sparseHeaderMagic, le 2 1, le 2 0, le 2 sparseHeaderLen,
      le 2 chunkHeaderLen, le 4 blkSz, le 4 totalBlks, le 4 totalChunks, le 4 0] 0 4
      sparseHeaderMagic 0 rfl rfl (by decide)
    have h4 := @field_flatten [le 4 sparseHeaderMagic, le 2 1, le 2 0, le 2 sparseHeaderLen,
      le 2 chunkHeaderLen, le 4 blkSz, le 4 totalBlks, le 4 totalChunks, le 4 0] 1 2 1 4 rfl
      (by simp) (by decide)
    rw [headerAccepted, h0, h4, h8, h10]
    decide
  · exact @field_flatten _ 5 4 blkSz 12 rfl (by simp) (by omega)
  · exact @field_flatten _ 6 4 totalBlks 16 rfl (by simp) (by omega)
  · exact @field_flatten _ 7 4 totalChunks 20 rfl (by simp) (by omega)

/-- The block that the reader makes of a chunk at `offset`. -/
def pieceOf (fd : ℤ) (blockSize offset : ℕ) (bb : BackedBlock) : BackedBlock where
  block := bb.block
  len := bb.blocks blockSize * blockSize
  backing := match bb.backing with
    | .fill val => .fill val
    | _ => .fd fd (offset + chunkHeaderLen)

def piecesFrom (files : Files) (fd : ℤ) (blockSize : ℕ) :
    ℕ → ℕ → List BackedBlock → List BackedBlock
  | _, _, [] => []
  | offset, lastBlock, bb :: rest =>
      let offset := offset + (gapChunk (bb.block - lastBlock)).length
      pieceOf fd blockSize offset bb :: piecesFrom files fd blockSize
        (offset + (chunkOf files blockSize bb).length) (bb.block + bb.blocks blockSize) rest

/-- A file with another list of blocks. -/
def SparseFile.withBlocks (s : SparseFile) (bbl : BackedBlockList) : SparseFile :=
  { s with backedBlockList := bbl }

section Decode

variable {files : Files} {blockSize : ℕ} {fd : ℤ} {input : Bytes}

theorem readChunks_gap [Build] {n k offset curBlock : ℕ} {s : SparseFile} {tail : Bytes}
    (hn : 0 < n) (hsmall : n < 2 ^ 31) (h : input.drop offset = gapChunk n ++ tail) :
    readChunks fd input chunkHeaderLen (k + 1) s offset curBlock =
      readChunks fd input chunkHeaderLen k s (offset + (gapChunk n).length)
        ((curBlock + n) % 2 ^ 32) ∧
    input.drop (offset + (gapChunk n).length) = tail := by
  rw [gapChunk, if_pos hn] at h ⊢
  obtain ⟨htype, hsz, htotal, hlen⟩ :=
    @field_chunkHeader chunkTypeDontCare n chunkHeaderLen (by decide) (by omega) (by decide)
  obtain ⟨hread, hdrop⟩ := readValue_of_drop h hlen (by decide)
  rw [hlen]
  refine ⟨?_, hdrop⟩
  rw [readChunks, hread]
  simp only [Option.bind_eq_bind, Option.bind_some, processChunk, htype, hsz, htotal]
  rw [if_neg (by decide), if_neg (by decide), if_pos trivial, if_neg (by decide),
    if_neg (by omega)]
  rfl

theorem pieceOf_fill {bb : BackedBlock} {val : UInt32} (h : bb.backing = .fill val)
    (offset : ℕ) : pieceOf fd blockSize offset bb =
      ⟨bb.block, bb.blocks blockSize * blockSize, .fill val⟩ := by
  rw [pieceOf, h]

theorem pieceOf_data {bb : BackedBlock} (h : bb.backing.isFill = false) (offset : ℕ) :
    pieceOf fd blockSize offset bb =
      ⟨bb.block, bb.blocks blockSize * blockSize, .fd fd (offset + chunkHeaderLen)⟩ := by
  unfold pieceOf
  split
  · next val hval =>
      rw [hval] at h
      cases h
  · rfl

/-- A chunk becomes a block of the list. -/
theorem readChunks_chunk [Build] (hsize : 0 < blockSize) {k offset : ℕ} {s : SparseFile}
    {tail : Bytes} {bb : BackedBlock} (hblockSize : s.blockSize = blockSize) (hpos : 0 < bb.len)
    (hsmall : bb.blocks blockSize < 2 ^ 31)
    (hbytes : chunkHeaderLen + bb.blocks blockSize * blockSize < 2 ^ 32)
    (h : input.drop offset = chunkOf files blockSize bb ++ tail) :
    readChunks fd input chunkHeaderLen (k + 1) s offset bb.block =
      (queueBb s.backedBlockList (pieceOf fd blockSize offset bb)).bind (fun bbl =>
        readChunks fd input chunkHeaderLen k (s.withBlocks bbl)
          (offset + (chunkOf files blockSize bb).length)
          ((bb.block + bb.blocks blockSize) % 2 ^ 32)) ∧
    input.drop (offset + (chunkOf files blockSize bb).length) = tail := by
  subst hblockSize
  have hround : bb.len ≤ bb.blocks s.blockSize * s.blockSize := le_roundUp hsize bb.len
  obtain ⟨n, hn⟩ : ∃ x, bb.blocks s.blockSize = x := ⟨_, rfl⟩
  rw [hn] at hsmall hbytes hround
  have h12 : chunkHeaderLen = 12 := rfl
  rw [h12] at hbytes
  constructor
  swap
  · rw [← List.drop_drop, h, List.drop_left]
  cases hfill : bb.backing.isFill with
  | true =>
      obtain ⟨val, hval⟩ := Backing.exists_of_isFill hfill
      have hchunk := @chunkOf_fill files s.blockSize bb val hval
      rw [hn] at hchunk
      obtain ⟨htype, hsz, htotal, hlen⟩ :=
        @field_chunkHeader chunkTypeFill n (chunkHeaderLen + 4) (by decide) (by omega) (by decide)
      have hword : (le 4 val.toNat).length = 4 := ByteOrder.length_encode _ _ _
      rw [hchunk, List.append_assoc] at h
      obtain ⟨hread, hdrop⟩ := readValue_of_drop h hlen (by decide)
      obtain ⟨hread', -⟩ := readValue_of_drop hdrop hword (by decide)
      have hvalue : UInt32.ofNat (ByteOrder.littleEndian.decode (le 4 val.toNat)) = val := by
        have hlt := val.toNat_lt
        rw [le, ByteOrder.decode_encode_of_lt _ (by omega), UInt32.ofNat_toNat]
      have hpiece : pieceOf fd s.blockSize offset bb = ⟨bb.block, n * s.blockSize, .fill val⟩ := by
        rw [pieceOf_fill hval, hn]
      have hmod : n * s.blockSize % 2 ^ 32 = n * s.blockSize := Nat.mod_eq_of_lt (by omega)
      have hoff : offset + (chunkHeader chunkTypeFill n (chunkHeaderLen + 4) ++
          le 4 val.toNat).length = offset + chunkHeaderLen + 4 := by
        rw [List.length_append, hlen, hword]
        omega
      rw [readChunks, hread, hpiece, hchunk, hoff, hn]
      simp only [Option.bind_eq_bind, Option.bind_some, processChunk, htype, hsz, htotal]
      rw [if_neg (by decide), if_pos trivial]
      have hdata : (chunkHeaderLen + 4 + 2 ^ 32 - chunkHeaderLen) % 2 ^ 32 = 4 := by decide
      rw [hdata]
      simp only [processFillChunk, if_neg (show ¬ (4 ≠ 4) by decide), hread',
        Option.bind_eq_bind, Option.bind_some, hvalue, SparseFile.addFill, hmod]
      cases queueBb s.backedBlockList ⟨bb.block, n * s.blockSize, .fill val⟩ with
      | none => rfl
      | some bbl =>
          simp only [Option.bind_some]
          rw [if_neg (by omega)]
          rfl
  | false =>
      have hchunk := @chunkOf_data files s.blockSize bb hfill
      rw [hn] at hchunk
      obtain ⟨htype, hsz, htotal, hlen⟩ :=
        @field_chunkHeader chunkTypeRaw n (chunkHeaderLen + n * s.blockSize) (by decide)
          (by omega) (by rw [h12]; exact hbytes)
      have hbody : (bb.bytes files ++
          List.replicate (n * s.blockSize - bb.len) (0 : UInt8)).length = n * s.blockSize := by
        rw [List.length_append, BackedBlock.length_bytes, List.length_replicate]
        omega
      rw [hchunk, List.append_assoc] at h
      obtain ⟨hread, -⟩ := readValue_of_drop h hlen (by decide)
      have hpiece : pieceOf fd s.blockSize offset bb =
          ⟨bb.block, n * s.blockSize, .fd fd (offset + chunkHeaderLen)⟩ := by
        rw [pieceOf_data hfill, hn]
      have hmod : n * s.blockSize % 2 ^ 32 = n * s.blockSize := Nat.mod_eq_of_lt (by omega)
      have hoff : offset + (chunkHeader chunkTypeRaw n (chunkHeaderLen + n * s.blockSize) ++
          (bb.bytes files ++ List.replicate (n * s.blockSize - bb.len) 0)).length =
            offset + chunkHeaderLen + n * s.blockSize := by
        rw [List.length_append, hlen, hbody]
        omega
      rw [readChunks, hread, hpiece, hchunk, hoff, hn]
      simp only [Option.bind_eq_bind, Option.bind_some, processChunk, htype, hsz, htotal]
      rw [if_pos trivial]
      have hdata : (chunkHeaderLen + n * s.blockSize + 2 ^ 32 - chunkHeaderLen) % 2 ^ 32 =
          n * s.blockSize := by
        rw [h12]
        omega
      rw [hdata]
      simp only [processRawChunk, hmod]
      rw [if_neg (by
        rw [not_or]
        exact ⟨by omega, not_not.mpr (Nat.mul_mod_left _ _)⟩),
        if_neg (not_not.mpr (Nat.mul_div_cancel _ hsize))]
      simp only [SparseFile.addFd, hmod, Option.bind_eq_bind]
      cases queueBb s.backedBlockList
          ⟨bb.block, n * s.blockSize, .fd fd (offset + chunkHeaderLen)⟩ with
      | none => rfl
      | some bbl =>
          simp only [Option.bind_some]
          rw [if_neg (by omega)]
          rfl

/-- The blocks lie in front of the end of the last one. -/
theorem Writable.le_endBlock (hsize : 0 < blockSize) {lastBlock : ℕ} {l : List BackedBlock}
    (h : Writable files blockSize lastBlock l) :
    lastBlock ≤ endBlock blockSize lastBlock l ∧
      ∀ bb ∈ l, bb.block + bb.blocks blockSize ≤ endBlock blockSize lastBlock l := by
  induction l generalizing lastBlock with
  | nil => exact ⟨le_rfl, fun _ hbb => absurd hbb List.not_mem_nil⟩
  | cons bb rest ih =>
      obtain ⟨hhere, hrest⟩ := ih (h.tail hsize)
      have hlast := h.from_last bb List.mem_cons_self
      refine ⟨?_, List.forall_mem_cons.mpr ⟨hhere, hrest⟩⟩
      rw [endBlock]
      omega

/-- The chunks of an image become blocks, in their order. -/
theorem readChunks_encode [Build] (hsize : 0 < blockSize) (hfour : blockSize % 4 = 0)
    {l : List BackedBlock} {lastBlock : ℕ} (h : Writable files blockSize lastBlock l)
    (hsmall : chunkHeaderLen + endBlock blockSize lastBlock l * blockSize < 2 ^ 32) {k offset : ℕ}
    {s : SparseFile} {tail : Bytes} (hblockSize : s.blockSize = blockSize)
    (hinput : input.drop offset = encodeBlocks files blockSize lastBlock l ++ tail) :
    readChunks fd input chunkHeaderLen (countFrom blockSize lastBlock l + k) s offset lastBlock =
      ((piecesFrom files fd blockSize offset lastBlock l).foldlM queueBb s.backedBlockList).bind
        (fun bbl => readChunks fd input chunkHeaderLen k (s.withBlocks bbl)
          (offset + (encodeBlocks files blockSize lastBlock l).length)
          (endBlock blockSize lastBlock l)) ∧
    input.drop (offset + (encodeBlocks files blockSize lastBlock l).length) = tail := by
  induction l generalizing lastBlock offset s with
  | nil =>
      refine ⟨?_, hinput⟩
      rw [countFrom, Nat.zero_add]
      rfl
  | cons bb rest ih =>
      obtain ⟨hlast, hall⟩ := h.le_endBlock hsize
      have hbbEnd := hall bb List.mem_cons_self
      have hbbLast := h.from_last bb List.mem_cons_self
      -- the blocks are counted by an `int`
      have hend : endBlock blockSize lastBlock (bb :: rest) < 2 ^ 30 := by
        have hfourth : endBlock blockSize lastBlock (bb :: rest) * 4 ≤
            endBlock blockSize lastBlock (bb :: rest) * blockSize :=
          Nat.mul_le_mul_left _ (by omega)
        omega
      have hbytes : chunkHeaderLen + bb.blocks blockSize * blockSize < 2 ^ 32 := by
        have hle : bb.blocks blockSize * blockSize ≤
            endBlock blockSize lastBlock (bb :: rest) * blockSize :=
          Nat.mul_le_mul_right _ (by omega)
        omega
      rw [encodeBlocks, List.append_assoc, List.append_assoc] at hinput
      obtain ⟨n, hn⟩ : ∃ x, countFrom blockSize (bb.block + bb.blocks blockSize) rest + k = x :=
        ⟨_, rfl⟩
      have hgap : readChunks fd input chunkHeaderLen (gapCount (bb.block - lastBlock) + (n + 1)) s
            offset lastBlock =
          readChunks fd input chunkHeaderLen (n + 1) s
            (offset + (gapChunk (bb.block - lastBlock)).length) bb.block ∧
          input.drop (offset + (gapChunk (bb.block - lastBlock)).length) =
            chunkOf files blockSize bb ++
              (encodeBlocks files blockSize (bb.block + bb.blocks blockSize) rest ++ tail) := by
        by_cases hlt : 0 < bb.block - lastBlock
        · obtain ⟨hread, hdrop⟩ := readChunks_gap hlt (by omega) hinput
          have hnext : (lastBlock + (bb.block - lastBlock)) % 2 ^ 32 = bb.block := by omega
          rw [hnext] at hread
          refine ⟨?_, hdrop⟩
          rw [gapCount, if_pos hlt, Nat.add_comm 1, hread]
        · have hsame : lastBlock = bb.block := by omega
          rw [gapChunk, if_neg hlt] at hinput ⊢
          rw [gapCount, if_neg hlt, Nat.zero_add, hsame]
          exact ⟨rfl, hinput⟩
      obtain ⟨hread, hdrop⟩ := hgap
      obtain ⟨offset', hoffset⟩ : ∃ x, offset + (gapChunk (bb.block - lastBlock)).length = x :=
        ⟨_, rfl⟩
      rw [hoffset] at hread hdrop
      obtain ⟨hchunk, hdrop⟩ := @readChunks_chunk files blockSize fd input _ hsize n offset' s _ bb
        hblockSize (h.fits bb List.mem_cons_self).pos (by omega) hbytes hdrop
      have hmod : (bb.block + bb.blocks blockSize) % 2 ^ 32 = bb.block + bb.blocks blockSize :=
        Nat.mod_eq_of_lt (by omega)
      have hcount : countFrom blockSize lastBlock (bb :: rest) + k =
          gapCount (bb.block - lastBlock) + (n + 1) := by
        rw [countFrom, ← hn]
        omega
      have hpieces : piecesFrom files fd blockSize offset lastBlock (bb :: rest) =
          pieceOf fd blockSize offset' bb :: piecesFrom files fd blockSize
            (offset' + (chunkOf files blockSize bb).length) (bb.block + bb.blocks blockSize)
              rest := by
        rw [← hoffset]
        rfl
      have hlength : offset + (encodeBlocks files blockSize lastBlock (bb :: rest)).length =
          offset' + (chunkOf files blockSize bb).length +
            (encodeBlocks files blockSize (bb.block + bb.blocks blockSize) rest).length := by
        rw [encodeBlocks, List.length_append, List.length_append, ← hoffset]
        omega
      have hrest := fun s' => @ih (bb.block + bb.blocks blockSize) (h.tail hsize) hsmall
        (offset' + (chunkOf files blockSize bb).length) s'
      rw [hcount, hread, hchunk, hmod, hpieces, hlength, ← hn, List.foldlM_cons]
      refine ⟨?_, (hrest s hblockSize hdrop).2⟩
      cases queueBb s.backedBlockList (pieceOf fd blockSize offset' bb) with
      | none => rfl
      | some bbl => exact (hrest (s.withBlocks bbl) hblockSize hdrop).1

/-- A block that the reader made, and the block it was written from. -/
structure Copied (files files' : Files) (blockSize : ℕ) (bb piece : BackedBlock) : Prop where
  block_eq : piece.block = bb.block
  blocks_eq : piece.blocks blockSize = bb.blocks blockSize
  fits : piece.Fits blockSize
  available : piece.Available files'
  weight_le : piece.weight ≤ bb.blocks blockSize * blockSize
  cell_eq : ∀ i, piece.cell files' blockSize i = bb.cell files blockSize i

theorem copied_pieceOf {files' : Files} (hfd : files'.fd fd = input) (hsize : 0 < blockSize)
    {offset : ℕ} {tail : Bytes} {bb : BackedBlock} (hfits : bb.Fits blockSize)
    (hbytes : bb.blocks blockSize * blockSize + blockSize ≤ 2 ^ 32)
    (h : input.drop offset = chunkOf files blockSize bb ++ tail) :
    Copied files files' blockSize bb (pieceOf fd blockSize offset bb) := by
  have hround : bb.len ≤ bb.blocks blockSize * blockSize := le_roundUp hsize bb.len
  have hpos := hfits.blocks_pos hsize
  have hbounded := hfits.bounded
  have hlenPos : 0 < bb.blocks blockSize * blockSize := Nat.mul_pos hpos hsize
  have hblocks : ∀ block backing, (⟨block, bb.blocks blockSize * blockSize, backing⟩ :
      BackedBlock).blocks blockSize = bb.blocks blockSize :=
    fun _ _ => divRoundUp_mul hsize _
  have hwhole : bb.blocks blockSize * blockSize % blockSize = 0 := Nat.mul_mod_left _ _
  cases hfill : bb.backing.isFill with
  | true =>
      obtain ⟨val, hval⟩ := Backing.exists_of_isFill hfill
      have hlen : bb.blocks blockSize * blockSize = bb.len :=
        roundUp_eq_self hsize (hfits.whole hfill)
      rw [pieceOf_fill hval]
      refine ⟨rfl, hblocks _ _, ⟨hlenPos, fun _ => hwhole, hbytes, ?_⟩, trivial, le_rfl, ?_⟩
      · rw [hblocks]
        exact hbounded
      · intro i
        unfold BackedBlock.cell
        rw [hblocks, hval, hlen]
        rfl
  | false =>
      rw [pieceOf_data hfill]
      rw [chunkOf_data hfill] at h
      obtain ⟨n, hn⟩ : ∃ x, bb.blocks blockSize = x := ⟨_, rfl⟩
      rw [hn] at h hround hlenPos hbytes hwhole hbounded hblocks ⊢
      have hbody : (bb.bytes files ++
          List.replicate (n * blockSize - bb.len) (0 : UInt8)).length = n * blockSize := by
        rw [List.length_append, BackedBlock.length_bytes, List.length_replicate]
        omega
      have hheader : (chunkHeader chunkTypeRaw n (chunkHeaderLen + n * blockSize)).length =
          chunkHeaderLen := by
        simp [chunkHeader, chunkHeaderLen]
      rw [List.append_assoc] at h
      obtain ⟨-, hdrop⟩ := readValue_of_drop h hheader (by decide)
      refine ⟨rfl, (hblocks _ _).trans hn.symm, ⟨hlenPos, fun _ => hwhole, hbytes, ?_⟩, ?_,
        le_of_eq (by rw [hn]; rfl), ?_⟩
      · rw [hblocks]
        exact hbounded
      · have hlength := congrArg List.length hdrop
        rw [List.length_drop, List.length_append, hbody] at hlength
        have hle : offset + chunkHeaderLen + n * blockSize ≤ (files'.fd fd).length := by
          rw [hfd]
          omega
        exact hle.trans (le_length_mapped _)
      · intro i
        unfold BackedBlock.cell rangeCell
        rw [hblocks, hn]
        by_cases hin : bb.block * blockSize ≤ i ∧ i < (bb.block + n) * blockSize
        · have hmul := Nat.add_mul bb.block n blockSize
          have hlt : i - bb.block * blockSize < n * blockSize := by omega
          simp only [if_pos hin, if_pos hlt, Backing.byteAt, hfd]
          obtain ⟨j, hj⟩ : ∃ x, i - bb.block * blockSize = x := ⟨_, rfl⟩
          rw [hj] at hlt ⊢
          rw [List.getD_eq_getElem?_getD, ← List.getElem?_drop, hdrop,
            List.getElem?_append_left (by omega)]
          by_cases hshort : j < bb.len
          · rw [if_pos hshort, List.getElem?_append_left (by simpa using hshort),
              BackedBlock.bytes, List.getElem?_map, List.getElem?_range hshort]
            rfl
          · rw [if_neg hshort, List.getElem?_append_right (by simpa using hshort),
              List.getElem?_replicate, if_pos (by rw [BackedBlock.length_bytes]; omega)]
            rfl
        · rw [if_neg hin, if_neg hin]

/-- The blocks of the reader are copies of those that were written. -/
theorem forall₂_piecesFrom {files' : Files} (hfd : files'.fd fd = input) (hsize : 0 < blockSize)
    {l : List BackedBlock} {lastBlock offset : ℕ} {tail : Bytes}
    (h : Writable files blockSize lastBlock l)
    (hsmall : endBlock blockSize lastBlock l * blockSize + blockSize ≤ 2 ^ 32)
    (hinput : input.drop offset = encodeBlocks files blockSize lastBlock l ++ tail) :
    List.Forall₂ (Copied files files' blockSize) l
      (piecesFrom files fd blockSize offset lastBlock l) := by
  induction l generalizing lastBlock offset with
  | nil => exact List.Forall₂.nil
  | cons bb rest ih =>
      have hbbEnd := (h.le_endBlock hsize).2 bb List.mem_cons_self
      have hle : bb.blocks blockSize * blockSize ≤
          endBlock blockSize lastBlock (bb :: rest) * blockSize :=
        Nat.mul_le_mul_right _ (by omega)
      rw [encodeBlocks, List.append_assoc, List.append_assoc] at hinput
      have hgap : input.drop (offset + (gapChunk (bb.block - lastBlock)).length) =
          chunkOf files blockSize bb ++
            (encodeBlocks files blockSize (bb.block + bb.blocks blockSize) rest ++ tail) := by
        rw [← List.drop_drop, hinput, List.drop_left]
      have hrest : input.drop (offset + (gapChunk (bb.block - lastBlock)).length +
          (chunkOf files blockSize bb).length) =
            encodeBlocks files blockSize (bb.block + bb.blocks blockSize) rest ++ tail := by
        rw [← List.drop_drop, hgap, List.drop_left]
      exact List.Forall₂.cons
        (copied_pieceOf hfd hsize (h.fits bb List.mem_cons_self) (by omega) hgap)
        (ih (h.tail hsize) hsmall hrest)

section Copies

variable {files' : Files} {l pieces : List BackedBlock}

theorem Copied.forall_mem (h : List.Forall₂ (Copied files files' blockSize) l pieces) :
    ∀ piece ∈ pieces, piece.Fits blockSize ∧ piece.Available files' ∧
      ∃ bb ∈ l, Copied files files' blockSize bb piece := by
  induction h with
  | nil => exact fun _ hp => absurd hp List.not_mem_nil
  | cons hbb _ ih =>
      refine List.forall_mem_cons.mpr ⟨⟨hbb.fits, hbb.available, _, List.mem_cons_self, hbb⟩, ?_⟩
      intro piece hp
      obtain ⟨hfits, havail, bb, hmem, hcopied⟩ := ih piece hp
      exact ⟨hfits, havail, bb, List.mem_cons_of_mem _ hmem, hcopied⟩

theorem Copied.read_eq (h : List.Forall₂ (Copied files files' blockSize) l pieces) (i : ℕ) :
    (extents files' blockSize).read pieces i = (extents files blockSize).read l i := by
  induction h with
  | nil => rfl
  | cons hbb _ ih =>
      rw [Extents.read_cons, Extents.read_cons, ih]
      exact congrArg (Option.or · _) (hbb.cell_eq i)

theorem Copied.ordered (h : List.Forall₂ (Copied files files' blockSize) l pieces)
    (hord : (extents files blockSize).Ordered l) : (extents files' blockSize).Ordered pieces := by
  induction h with
  | nil => exact List.Pairwise.nil
  | cons hbb htail ih =>
      obtain ⟨hhead, hrest⟩ := List.pairwise_cons.mp hord
      refine List.pairwise_cons.mpr ⟨?_, ih hrest⟩
      intro piece hp
      obtain ⟨-, -, x, hx, hcopied⟩ := Copied.forall_mem htail piece hp
      have hle := hhead x hx
      simp only [extents] at hle ⊢
      rw [hbb.block_eq, hbb.blocks_eq, hcopied.block_eq]
      exact hle

theorem Copied.weight_le_endBlock (h : List.Forall₂ (Copied files files' blockSize) l pieces)
    {lastBlock : ℕ} (hsize : 0 < blockSize) (hl : Writable files blockSize lastBlock l) :
    lastBlock * blockSize + (pieces.map BackedBlock.weight).sum ≤
      endBlock blockSize lastBlock l * blockSize := by
  induction h generalizing lastBlock with
  | nil => exact le_rfl
  | @cons bb piece rest pieces hbb _ ih =>
      have hrest := ih (hl.tail hsize)
      have hlast := Nat.mul_le_mul_right blockSize (hl.from_last bb List.mem_cons_self)
      have hweight := hbb.weight_le
      have hmul := Nat.add_mul bb.block (bb.blocks blockSize) blockSize
      rw [List.map_cons, List.sum_cons, endBlock]
      omega

end Copies

/-- A file has no more chunks than blocks. -/
theorem countFrom_le (hsize : 0 < blockSize) {l : List BackedBlock} {lastBlock : ℕ}
    (h : Writable files blockSize lastBlock l) :
    lastBlock + countFrom blockSize lastBlock l ≤ endBlock blockSize lastBlock l := by
  induction l generalizing lastBlock with
  | nil => exact le_rfl
  | cons bb rest ih =>
      have hrest := ih (h.tail hsize)
      have hlast := h.from_last bb List.mem_cons_self
      have hpos := (h.fits bb List.mem_cons_self).blocks_pos hsize
      have hgap : gapCount (bb.block - lastBlock) ≤ bb.block - lastBlock := by
        unfold gapCount
        split <;> omega
      rw [countFrom, endBlock]
      omega

/-- The end of an image from the bytes it has. -/
theorem endBlock_le_of_read (files : Files) (hsize : 0 < blockSize) {l : List BackedBlock}
    {lastBlock n : ℕ}
    (hfits : ∀ bb ∈ l, bb.Fits blockSize) (hlast : lastBlock ≤ n)
    (h : ∀ i, n * blockSize ≤ i → (extents files blockSize).read l i = none) :
    endBlock blockSize lastBlock l ≤ n := by
  induction l generalizing lastBlock with
  | nil => exact hlast
  | cons bb rest ih =>
      obtain ⟨hbb, hrest⟩ := List.forall_mem_cons.mp hfits
      have hread : ∀ i, n * blockSize ≤ i → (extents files blockSize).cell bb i = none ∧
          (extents files blockSize).read rest i = none := by
        intro i hi
        have hnone := h i hi
        rw [Extents.read_cons] at hnone
        exact Option.or_eq_none_iff.mp hnone
      refine ih hrest ?_ fun i hi => (hread i hi).2
      -- the last byte of the block is one of the image
      have hne := hbb.nonempty files hsize
      have hcell := (hread ((extents files blockSize).hi bb - 1)).mt (by
        rw [not_and_or]
        left
        rw [Extents.cell_eq_none_iff, not_not]
        omega)
      have hlt : (extents files blockSize).hi bb ≤ n * blockSize := by omega
      exact Nat.le_of_mul_le_mul_right hlt hsize

/-- The reader reads what was written. -/
theorem sparseFileImport_encodeImage [Build] {files' : Files} {l : List BackedBlock}
    {total : ℕ} (hsize : 0 < blockSize) (hfour : blockSize % 4 = 0)
    (h : Writable files blockSize 0 l) (hend : endBlock blockSize 0 l ≤ total)
    (hsmall : chunkHeaderLen + total * blockSize + blockSize ≤ 2 ^ 32)
    (hinput : files'.fd fd = encodeImage files blockSize total l) :
    ∃ bbl, sparseFileImport files' fd = some ⟨blockSize, total * blockSize, bbl⟩ ∧
      Writable files' blockSize 0 bbl.dataBlocks ∧
      endBlock blockSize 0 bbl.dataBlocks ≤ total ∧
      ∀ i, (extents files' blockSize).read bbl.dataBlocks i =
        (extents files blockSize).read l i := by
  have h12 : chunkHeaderLen = 12 := rfl
  have hlen : endBlock blockSize 0 l * blockSize ≤ total * blockSize :=
    Nat.mul_le_mul_right _ hend
  have htotal : total < 2 ^ 30 := by
    have hfourth : total * 4 ≤ total * blockSize := Nat.mul_le_mul_left _ (by omega)
    omega
  have hcount := countFrom_le hsize h
  obtain ⟨gap, hgap⟩ : ∃ x, total - endBlock blockSize 0 l = x := ⟨_, rfl⟩
  have hgapCount : gapCount gap ≤ gap := by
    unfold gapCount
    split <;> omega
  unfold encodeImage at hinput
  rw [hgap] at hinput
  obtain ⟨hacc, h8, h10, h12, h16, h20, hheaderLen⟩ := @field_sparseHeader blockSize total
    (countFrom blockSize 0 l + gapCount gap) (by omega) (by omega) (by omega)
  obtain ⟨header, hheader⟩ : ∃ x,
    sparseHeader blockSize total (countFrom blockSize 0 l + gapCount gap) = x := ⟨_, rfl⟩
  rw [hheader] at hinput hacc h8 h10 h12 h16 h20 hheaderLen
  obtain ⟨input, hname⟩ : ∃ x, files'.fd fd = x := ⟨_, rfl⟩
  rw [hname] at hinput
  obtain ⟨hread, hdrop⟩ := @readValue_of_drop input header _ 0 _ hinput hheaderLen (by decide)
  rw [Nat.zero_add] at hdrop
  -- the chunks
  obtain ⟨hchunks, htail⟩ := @readChunks_encode files blockSize fd input _ hsize hfour l 0 h
    (by omega) (gapCount gap) sparseHeaderLen (sparseFileNew blockSize (total * blockSize)) _ rfl
    hdrop
  have hcopies := forall₂_piecesFrom hname hsize h (by omega) hdrop
  have hmem := Copied.forall_mem hcopies
  have hweight := Copied.weight_le_endBlock hcopies hsize h
  have hordered := Copied.ordered hcopies h.ordered
  obtain ⟨pieces, hpieces⟩ : ∃ x, piecesFrom files fd blockSize sparseHeaderLen 0 l = x :=
    ⟨_, rfl⟩
  rw [hpieces] at hchunks hcopies hmem hweight hordered
  obtain ⟨bbl, hfold, hvalid, hsame, hreadEq⟩ := foldlM_queueBb_spec
    (valid_new files' blockSize) hsize hfour (fun p hp => (hmem p hp).1)
    (hordered.imp fun hle => Or.inl hle) (fun _ _ _ => Or.inr rfl) (by
      simp only [backedBlockListNew, List.map_nil, List.sum_nil]
      omega)
  have hsame' : bbl.blockSize = blockSize := hsame
  have havail := foldlM_queueBb_forall (available_of_mergeBb files') hfold
    (fun p hp => (hmem p hp).2.1) (by simp [backedBlockListNew])
  have hreadAll : ∀ i, (extents files' blockSize).read bbl.dataBlocks i =
      (extents files blockSize).read l i := by
    intro i
    rw [← Copied.read_eq hcopies i]
    exact (hreadEq i).trans (Option.none_or)
  have hord := hvalid.ordered
  have hfits := hvalid.fits
  rw [hsame'] at hord hfits
  refine ⟨bbl, ?_, ⟨hfits, havail, hord, fun _ _ => Nat.zero_le _⟩, ?_, hreadAll⟩
  · have hskip : ∃ offset', readChunks fd input chunkHeaderLen (gapCount gap)
        ((sparseFileNew blockSize (total * blockSize)).withBlocks bbl)
        (sparseHeaderLen + (encodeBlocks files blockSize 0 l).length)
        (endBlock blockSize 0 l) = some (⟨blockSize, total * blockSize, bbl⟩, offset', total) := by
      by_cases hpos : 0 < gap
      · obtain ⟨hskip, -⟩ := readChunks_gap hpos (by omega)
          (by rw [List.append_nil]; exact htail)
        have hnext : (endBlock blockSize 0 l + gap) % 2 ^ 32 = total := by omega
        rw [hnext] at hskip
        rw [gapCount, if_pos hpos]
        exact ⟨_, hskip⟩
      · have hzero : endBlock blockSize 0 l = total := by omega
        rw [gapCount, if_neg hpos, hzero]
        exact ⟨_, rfl⟩
    obtain ⟨offset', hskip⟩ := hskip
    have hlist : (sparseFileNew blockSize (total * blockSize)).backedBlockList =
        backedBlockListNew blockSize := rfl
    rw [hlist, hfold, Option.bind_some, hskip] at hchunks
    simp only [sparseFileImport, readSparse, hname, hread, Option.bind_eq_bind, Option.bind_some,
      hacc, Bool.not_true, Bool.false_eq_true, if_false, h8, h10, h12, h16, h20, hchunks]
    rw [if_neg (not_not.mpr rfl)]
  · refine endBlock_le_of_read files' hsize hfits (Nat.zero_le _) ?_
    intro i hi
    rw [hreadAll, Extents.read_eq_none_iff]
    intro bb hbb hin
    have hbbEnd := Nat.mul_le_mul_right blockSize ((h.le_endBlock hsize).2 bb hbb)
    simp only [extents] at hin
    omega

end Decode

/-- What `sparse_file_write` writes in the sparse format, `sparse_file_import` reads: a file of
the same size, with the same bytes at the same positions and the same gaps. -/
theorem sparseFileImport_write [Build] (files files' : Files) (fd : ℤ) (s : SparseFile)
    (total : ℕ) (hsize : 0 < s.blockSize) (hfour : s.blockSize % 4 = 0)
    (hword : s.blockSize < 2 ^ 31) (hlen : s.len = total * s.blockSize)
    (hsmall : chunkHeaderLen + s.len + s.blockSize ≤ 2 ^ 32)
    (h : Writable files s.blockSize 0 s.backedBlockList.dataBlocks)
    (hend : endBlock s.blockSize 0 s.backedBlockList.dataBlocks ≤ total) :
    ∃ out, s.write files ⟨[], 0⟩ true = some out ∧ (files'.fd fd = out.content →
      ∃ s', sparseFileImport files' fd = some s' ∧ s'.blockSize = s.blockSize ∧ s'.len = s.len ∧
        Writable files' s.blockSize 0 s'.backedBlockList.dataBlocks ∧
        ∀ i, (extents files' s.blockSize).read s'.backedBlockList.dataBlocks i =
          (extents files s.blockSize).read s.backedBlockList.dataBlocks i) := by
  refine ⟨_, write_sparse_spec hsize hword (hlen ▸ divRoundUp_mul hsize total) (.inl hlen) h hend,
    ?_⟩
  intro hinput
  rw [hlen] at hsmall
  obtain ⟨bbl, himport, hwritable, -, hread⟩ :=
    sparseFileImport_encodeImage hsize hfour h hend hsmall hinput
  exact ⟨_, himport, rfl, hlen.symm, hwritable, hread⟩

/-- Two words with a gap between them. -/
theorem sparseFileImport_write_words : let _ : Build := ⟨false⟩
    ∃ s', sparseFileImport ⟨fun _ => none, fun _ => encodeImage ⟨fun _ => none, fun _ => []⟩ 16 9
        [⟨1, 32, .fill 9⟩, ⟨5, 48, .fill 7⟩]⟩ 0 = some s' ∧ s'.len = 144 := by
  intro build
  have hwritable : Writable ⟨fun _ => none, fun _ => []⟩ 16 0
      [⟨1, 32, .fill 9⟩, ⟨5, 48, .fill 7⟩] := by
    refine ⟨?_, ?_, ?_, fun _ _ => Nat.zero_le _⟩
    · intro bb hbb
      simp only [List.mem_cons, List.not_mem_nil, or_false] at hbb
      rcases hbb with rfl | rfl <;> exact ⟨by decide, by decide, by decide, by decide⟩
    · intro bb hbb
      simp only [List.mem_cons, List.not_mem_nil, or_false] at hbb
      rcases hbb with rfl | rfl <;> trivial
    · exact List.pairwise_pair.mpr (by decide)
  obtain ⟨out, hwrite, hread⟩ := sparseFileImport_write ⟨fun _ => none, fun _ => []⟩
    ⟨fun _ => none, fun _ => encodeImage ⟨fun _ => none, fun _ => []⟩ 16 9
      [⟨1, 32, .fill 9⟩, ⟨5, 48, .fill 7⟩]⟩ 0
    ⟨16, 144, ⟨[⟨1, 32, .fill 9⟩, ⟨5, 48, .fill 7⟩], none, 16⟩⟩ 9 (by decide) (by decide)
    (by decide) (by decide) (by decide) hwritable (by decide)
  rw [@write_sparse_spec _ _ ⟨16, 144, ⟨[⟨1, 32, .fill 9⟩, ⟨5, 48, .fill 7⟩], none, 16⟩⟩
    (by decide) (by decide) 9 (by decide) (.inl rfl) hwritable (by decide)] at hwrite
  obtain rfl := Option.some.inj hwrite
  obtain ⟨s', himport, -, hlen, -⟩ := hread rfl
  exact ⟨s', himport, hlen⟩

end Libsparse

end BootImageEditor
