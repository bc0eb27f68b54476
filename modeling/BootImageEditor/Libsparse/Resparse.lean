import BootImageEditor.Libsparse.Img2simg

/-!
# Sparse images in parts

`sparse_file_resparse` deals the blocks of a file out to files that are not longer than a given
length when they are written, and cuts blocks in two where they do not fit. `simg2simg` counts
the files in a first run and writes them in a second one, over the blocks that the first run
has cut. The parts joined by `simg2img` are what the whole image is.
-/

namespace BootImageEditor

open Codec

namespace Libsparse

/-- The header, a chunk at the end and a checksum chunk. -/
def overhead : ℕ := sparseHeaderLen + 2 * chunkHeaderLen + 4

/-- What `out_counter_write` counts for a block. It does not look at the bytes, so a block whose
bytes are not there is found only where it is written. -/
def countBlock (files : Files) (s : SparseFile) (bb : BackedBlock) : Option ℕ :=
  let zeroLen := (align bb.len s.blockSize + 2 ^ 32 - bb.len) % 2 ^ 32
  let dataLen := chunkHeaderLen + bb.len + zeroLen
  match bb.backing with
  | .data _ => some dataLen
  | .file filename offset =>
      if files.file filename = none ∨ bb.len + (offset - offset / 4096 * 4096) = 0 then none
      else some dataLen
  | .fd _ offset =>
      if bb.len + (offset - offset / 4096 * 4096) = 0 then none else some dataLen
  | .fill _ => some (chunkHeaderLen + 4)

/-- The loop of `move_chunks_up_to_len`: the blocks that are moved, those that stay, and
whether the loop has stopped at one. -/
def takeUpTo (files : Files) (s : SparseFile) (len : ℕ) :
    Bool → ℕ → ℕ → List BackedBlock → Option (List BackedBlock × List BackedBlock × Bool)
  | _, _, _, [] => some ([], [], false)
  | first, lastBlock, fileLen, bb :: rest => do
      let count ← countBlock files s bb
      let count := if lastBlock < bb.block then count + chunkHeaderLen else count
      if len < fileLen + count then
        let fileLen := fileLen + chunkHeaderLen
        if first ∨ len / 8 + fileLen < len then
          let (bb, cut) := backedBlockSplit s.blockSize bb ((len + 2 ^ 32 - fileLen) % 2 ^ 32)
          some ([bb], cut.toList ++ rest, true)
        else some ([], bb :: rest, true)
      else
        let (moved, rest, more) ← takeUpTo files s len false
          (bb.behind s.blockSize) (fileLen + count) rest
        some (bb :: moved, rest, more)

/-- `move_chunks_up_to_len(from, to, len)`: both files, and whether there are more blocks. A
block that cannot be written leaves everything where it is. -/
def moveChunksUpToLen (files : Files) (source dest : SparseFile) (len : ℕ) :
    SparseFile × SparseFile × Bool :=
  let len := (len + 2 ^ 32 - overhead) % 2 ^ 32
  -- the output that counts is not allocated for a negative `int`
  if 2 ^ 31 ≤ dest.blockSize then (source, dest, false)
  else
    match takeUpTo files dest len true 0 0 source.backedBlockList.dataBlocks with
    | none => (source, dest, false)
    | some (moved, rest, more) =>
        (source.withBlocks { source.backedBlockList with
          dataBlocks := rest
          lastUsed := if moved = [] then source.backedBlockList.lastUsed else none },
          dest.withBlocks (backedBlockListMove dest.backedBlockList moved), more)

/-- The loop of `sparse_file_resparse`, with the number of the file: what is left, the file
`tmp`, the files for the caller, and how many there would be. -/
def resparseFrom (files : Files) (maxLen outCount : ℕ) :
    ℕ → ℕ → SparseFile → SparseFile → Option (SparseFile × SparseFile × List SparseFile × ℕ)
  | 0, _, _, _ => none
  | fuel + 1, c, inS, tmp =>
      let (inS, s, more) := moveChunksUpToLen files inS (sparseFileNew inS.blockSize inS.len) maxLen
      let tmp := if c < outCount then tmp
        else tmp.withBlocks
          (backedBlockListMove tmp.backedBlockList s.backedBlockList.dataBlocks)
      let outS := if c < outCount then [s] else []
      if more then do
        let (inS, tmp, rest, count) ← resparseFrom files maxLen outCount fuel (c + 1) inS tmp
        some (inS, tmp, outS ++ rest, count)
      else some (inS, tmp, outS, c + 1)

/-- `sparse_file_resparse`: the file it is called for, the files for the caller, and the number
of files. -/
def resparse (files : Files) (fuel : ℕ) (inS : SparseFile) (maxLen outCount : ℕ) :
    Option (SparseFile × List SparseFile × ℕ) := do
  let (inS, tmp, outS, count) ← resparseFrom files maxLen outCount fuel 0 inS
    (sparseFileNew inS.blockSize inS.len)
  some (inS.withBlocks
    (backedBlockListMove inS.backedBlockList tmp.backedBlockList.dataBlocks), outS, count)

/-- `simg2simg`, with the bytes of the files it writes. -/
def simg2simg [Build] (files : Files) (fuel : ℕ) (fd : ℤ) (maxSize : ℤ) : Option (List Bytes) := do
  let maxLen := (maxSize % 2 ^ 32).toNat
  let s ← sparseFileImport files fd
  let (s, _, count) ← resparse files fuel s maxLen 0
  let (_, outS, written) ← resparse files fuel s maxLen count
  -- the files of the second run are written from a table that was made for the first
  if count < written then none
  else outS.mapM fun s => (s.write files ⟨[], 0⟩ true).map OutFd.content

/-! ## Blocks that are cut in two -/

section Cutting

variable {files : Files} {blockSize : ℕ}

theorem writable_cons_iff (hsize : 0 < blockSize) {lastBlock : ℕ} {bb : BackedBlock}
    {rest : List BackedBlock} :
    Writable files blockSize lastBlock (bb :: rest) ↔
      bb.Fits blockSize ∧ bb.Available files ∧ lastBlock ≤ bb.block ∧
        Writable files blockSize (bb.block + bb.blocks blockSize) rest := by
  constructor
  · intro h
    exact ⟨h.fits bb List.mem_cons_self, h.available bb List.mem_cons_self,
      h.from_last bb List.mem_cons_self, h.tail hsize⟩
  · rintro ⟨hfits, havail, hlast, hrest⟩
    refine ⟨List.forall_mem_cons.mpr ⟨hfits, hrest.fits⟩,
      List.forall_mem_cons.mpr ⟨havail, hrest.available⟩,
      List.pairwise_cons.mpr ⟨?_, hrest.ordered⟩, List.forall_mem_cons.mpr ⟨hlast, ?_⟩⟩
    · exact fun x hx => Nat.mul_le_mul_right _ (hrest.from_last x hx)
    · intro x hx
      have hle := hrest.from_last x hx
      omega

theorem Writable.mono {lastBlock lastBlock' : ℕ} {l : List BackedBlock}
    (h : Writable files blockSize lastBlock l) (hle : lastBlock' ≤ lastBlock) :
    Writable files blockSize lastBlock' l :=
  ⟨h.fits, h.available, h.ordered, fun bb hbb => hle.trans (h.from_last bb hbb)⟩

theorem writable_append_iff (hsize : 0 < blockSize) {lastBlock : ℕ} {l rest : List BackedBlock} :
    Writable files blockSize lastBlock (l ++ rest) ↔
      Writable files blockSize lastBlock l ∧
        Writable files blockSize (endBlock blockSize lastBlock l) rest := by
  induction l generalizing lastBlock with
  | nil =>
      refine (and_iff_right ?_).symm
      exact ⟨by simp, by simp, List.Pairwise.nil, by simp⟩
  | cons bb l ih =>
      rw [List.cons_append, writable_cons_iff hsize, writable_cons_iff hsize, ih, endBlock]
      simp only [and_assoc]

/-- The blocks of the image that are taken. -/
def blockCount (blockSize : ℕ) (l : List BackedBlock) : ℕ :=
  (l.map (BackedBlock.blocks blockSize)).sum

/-- The same image, with blocks cut in two. -/
structure Recut (files : Files) (blockSize : ℕ) (l l' : List BackedBlock) : Prop where
  writable : ∀ {lastBlock}, Writable files blockSize lastBlock l →
    Writable files blockSize lastBlock l'
  endBlock_eq : ∀ lastBlock, endBlock blockSize lastBlock l' = endBlock blockSize lastBlock l
  read_eq : ∀ i, (extents files blockSize).read l' i = (extents files blockSize).read l i
  blockCount_eq : blockCount blockSize l' = blockCount blockSize l

theorem Recut.refl (l : List BackedBlock) : Recut files blockSize l l :=
  ⟨id, fun _ => rfl, fun _ => rfl, rfl⟩

theorem Recut.trans {l l' l'' : List BackedBlock} (h : Recut files blockSize l l')
    (h' : Recut files blockSize l' l'') : Recut files blockSize l l'' where
  writable hl := h'.writable (h.writable hl)
  endBlock_eq n := (h'.endBlock_eq n).trans (h.endBlock_eq n)
  read_eq i := (h'.read_eq i).trans (h.read_eq i)
  blockCount_eq := h'.blockCount_eq.trans h.blockCount_eq

theorem Recut.cons (hsize : 0 < blockSize) {l l' : List BackedBlock}
    (h : Recut files blockSize l l') (bb : BackedBlock) :
    Recut files blockSize (bb :: l) (bb :: l') where
  writable hl := by
    obtain ⟨hfits, havail, hlast, hrest⟩ := (writable_cons_iff hsize).mp hl
    exact (writable_cons_iff hsize).mpr ⟨hfits, havail, hlast, h.writable hrest⟩
  endBlock_eq _ := h.endBlock_eq _
  read_eq i := by rw [Extents.read_cons, Extents.read_cons, h.read_eq]
  blockCount_eq := congrArg (bb.blocks blockSize + ·) h.blockCount_eq

theorem Recut.append (hsize : 0 < blockSize) {l l' : List BackedBlock}
    (h : Recut files blockSize l l') (pre : List BackedBlock) :
    Recut files blockSize (pre ++ l) (pre ++ l') := by
  induction pre with
  | nil => exact h
  | cons bb pre ih => exact ih.cons hsize bb

/-- The bytes behind a cut. -/
theorem Backing.byteAt_behind (files : Files) {len : ℕ} (hlen : len % 4 = 0) (b : Backing)
    (i : ℕ) : b.byteAt files (len + i) = (b.behind len).byteAt files i := by
  cases b with
  | data bytes =>
      simp only [byteAt, behind, List.getD_eq_getElem?_getD, List.getElem?_drop]
  | file filename offset => simp only [byteAt, behind, Nat.add_assoc]
  | fd n offset => simp only [byteAt, behind, Nat.add_assoc]
  | fill val =>
      rw [behind, byteAt, byteAt, Nat.add_mod, hlen, Nat.zero_add, Nat.mod_mod]

theorem Backing.isFill_behind (b : Backing) (len : ℕ) : (b.behind len).isFill = b.isFill := by
  cases b <;> rfl

/-- Whole blocks that are cut off the front of a block. -/
theorem recut_split (hsize : 0 < blockSize) (hfour : blockSize % 4 = 0) {bb : BackedBlock} {q : ℕ}
    (hq : 0 < q) (hlong : q * blockSize < bb.len) (hfits : bb.Fits blockSize)
    (rest : List BackedBlock) :
    Recut files blockSize (bb :: rest) (⟨bb.block, q * blockSize, bb.backing⟩ ::
      ⟨bb.block + q, bb.len - q * blockSize, bb.backing.behind (q * blockSize)⟩ :: rest) := by
  obtain ⟨block, len, backing⟩ := bb
  simp only at hlong
  obtain ⟨hpos, hwhole, hsmall, hbounded⟩ := hfits
  simp only at hpos hwhole hsmall hbounded
  obtain ⟨rest', rfl⟩ := Nat.exists_eq_add_of_lt hlong
  have hfirst : ∀ block backing, (⟨block, q * blockSize, backing⟩ :
      BackedBlock).blocks blockSize = q := fun _ _ => divRoundUp_mul hsize q
  have hlen : q * blockSize + rest' + 1 - q * blockSize = rest' + 1 := by omega
  have hmod : q * blockSize % 4 = 0 := by
    rw [Nat.mul_mod, hfour]
    simp
  have hsum : (⟨block, q * blockSize + rest' + 1, backing⟩ : BackedBlock).blocks blockSize =
      q + (⟨block + q, rest' + 1, backing.behind (q * blockSize)⟩ :
        BackedBlock).blocks blockSize := by
    have hadd : q * blockSize + rest' + 1 + (blockSize - 1) =
        rest' + 1 + (blockSize - 1) + blockSize * q := by
      rw [Nat.mul_comm]
      omega
    unfold BackedBlock.blocks
    simp only
    rw [hadd, Nat.add_mul_div_left _ _ hsize, Nat.add_comm]
  rw [hlen]
  rw [hsum] at hbounded
  have hprod : 0 < q * blockSize := Nat.mul_pos hq hsize
  refine ⟨?_, ?_, ?_, ?_⟩
  · intro lastBlock h
    obtain ⟨-, havail, hlast, hrest⟩ := (writable_cons_iff hsize).mp h
    have hfitsFirst : (⟨block, q * blockSize, backing⟩ : BackedBlock).Fits blockSize :=
      ⟨hprod, fun _ => Nat.mul_mod_left _ _, by simp only; omega, by rw [hfirst]; simp only; omega⟩
    have hfitsSecond : (⟨block + q, rest' + 1, backing.behind (q * blockSize)⟩ :
        BackedBlock).Fits blockSize := by
      refine ⟨Nat.succ_pos _, ?_, by simp only; omega, by simp only at hbounded ⊢; omega⟩
      intro hfill
      rw [Backing.isFill_behind] at hfill
      have hzero := hwhole hfill
      rwa [Nat.add_assoc, Nat.mul_comm, Nat.mul_add_mod] at hzero
    rw [hsum] at hrest
    refine (writable_cons_iff hsize).mpr ⟨hfitsFirst, ?_, hlast, (writable_cons_iff hsize).mpr
      ⟨hfitsSecond, ?_, by rw [hfirst], by rw [Nat.add_assoc]; exact hrest⟩⟩
    · cases backing with
      | data bytes =>
          simp only [BackedBlock.Available] at havail ⊢
          omega
      | file filename offset =>
          obtain ⟨content, hfile, hle⟩ := havail
          exact ⟨content, hfile, by simp only at hle ⊢; omega⟩
      | fd n offset =>
          simp only [BackedBlock.Available] at havail ⊢
          omega
      | fill val => trivial
    · cases backing with
      | data bytes =>
          simp only [BackedBlock.Available, Backing.behind, List.length_drop] at havail ⊢
          omega
      | file filename offset =>
          obtain ⟨content, hfile, hle⟩ := havail
          exact ⟨content, hfile, by simp only at hle ⊢; omega⟩
      | fd n offset =>
          simp only [BackedBlock.Available, Backing.behind] at havail ⊢
          omega
      | fill val => trivial
  · intro lastBlock
    simp only [endBlock]
    rw [hsum, Nat.add_assoc]
  · intro i
    have hmid : (block + q) * blockSize = block * blockSize + q * blockSize := Nat.add_mul _ _ _
    have hcell := @rangeCell_append (block * blockSize) ((block + q) * blockSize)
      ((block + q + (⟨block + q, rest' + 1, backing.behind (q * blockSize)⟩ :
        BackedBlock).blocks blockSize) * blockSize) (q * blockSize) (rest' + 1)
      (backing.byteAt files) ((backing.behind (q * blockSize)).byteAt files) hmid
      (Nat.mul_le_mul_right _ (Nat.le_add_right _ _)) (backing.byteAt_behind files hmod) i
    rw [Extents.read_cons, Extents.read_cons, Extents.read_cons, ← Option.or_assoc]
    refine congrArg (Option.or · _) ?_
    simp only [extents, BackedBlock.cell, hfirst, hsum]
    rw [← hcell, Nat.add_assoc block q]
    rfl
  · simp only [blockCount, List.map_cons, List.sum_cons, hfirst]
    rw [hsum, Nat.add_assoc]

/-- What `backed_block_split` does where there is room for a block. -/
theorem backedBlockSplit_cases (files : Files) (hsize : 0 < blockSize) (hfour : blockSize % 4 = 0)
    {bb : BackedBlock} (hfits : bb.Fits blockSize) {maxLen : ℕ} (hroom : blockSize ≤ maxLen) :
    (backedBlockSplit blockSize bb maxLen = (bb, none) ∧
      bb.len ≤ maxLen / blockSize * blockSize) ∨
    ∃ a b, backedBlockSplit blockSize bb maxLen = (a, some b) ∧
      a.block = bb.block ∧ a.len = maxLen / blockSize * blockSize ∧ a.backing = bb.backing ∧
      b.block = bb.block + maxLen / blockSize ∧ b.backing.isFill = bb.backing.isFill ∧
      ∀ rest, Recut files blockSize (bb :: rest) (a :: b :: rest) := by
  have hq : 0 < maxLen / blockSize := Nat.div_pos hroom hsize
  obtain ⟨q, hqName⟩ : ∃ x, maxLen / blockSize = x := ⟨_, rfl⟩
  unfold backedBlockSplit
  rw [hqName] at hq ⊢
  by_cases hle : bb.len ≤ q * blockSize
  · exact Or.inl ⟨if_pos hle, hle⟩
  · right
    have hlong := not_le.mp hle
    have hblocks : q ≤ bb.blocks blockSize := by
      have hround : bb.len ≤ bb.blocks blockSize * blockSize := le_roundUp hsize bb.len
      exact Nat.le_of_mul_le_mul_right (by omega) hsize
    have hbounded := hfits.bounded
    have hdiv : q * blockSize / blockSize = q := Nat.mul_div_cancel _ hsize
    have hmod : (bb.block + q) % 2 ^ 32 = bb.block + q := Nat.mod_eq_of_lt (by omega)
    simp only [if_neg hle, hdiv, hmod]
    exact ⟨_, _, rfl, rfl, rfl, rfl, rfl, Backing.isFill_behind _ _,
      recut_split hsize hfour hq hlong hfits⟩

end Cutting

/-! ## A part of an image -/

section Taking

variable {files : Files} {s : SparseFile} {len : ℕ}

theorem length_gapChunk_eq (n : ℕ) :
    (gapChunk n).length = if 0 < n then chunkHeaderLen else 0 := by
  unfold gapChunk
  split
  · simp [chunkHeader, chunkHeaderLen]
  · rfl

theorem length_gapChunk_le (n : ℕ) : (gapChunk n).length ≤ 12 := by
  rw [length_gapChunk_eq]
  split
  · exact le_rfl
  · exact Nat.zero_le _

theorem length_chunkOf_fill {blockSize : ℕ} {bb : BackedBlock} (h : bb.backing.isFill = true) :
    (chunkOf files blockSize bb).length = 16 := by
  obtain ⟨val, hval⟩ := Backing.exists_of_isFill h
  rw [chunkOf_fill hval]
  simp [chunkHeader]

theorem length_chunkOf_data {blockSize : ℕ} (hsize : 0 < blockSize) {bb : BackedBlock}
    (h : bb.backing.isFill = false) :
    (chunkOf files blockSize bb).length = 12 + bb.blocks blockSize * blockSize := by
  have hround : bb.len ≤ bb.blocks blockSize * blockSize := le_roundUp hsize bb.len
  rw [chunkOf_data h]
  simp only [chunkHeader, List.length_append, length_le, BackedBlock.length_bytes,
    List.length_replicate]
  omega

theorem countBlock_eq (hsize : 0 < s.blockSize) {bb : BackedBlock} (hfits : bb.Fits s.blockSize)
    (havail : bb.Available files) :
    countBlock files s bb = some (chunkOf files s.blockSize bb).length := by
  have hpos := hfits.pos
  have hround : bb.len ≤ bb.blocks s.blockSize * s.blockSize := le_roundUp hsize bb.len
  have hzero : (align bb.len s.blockSize + 2 ^ 32 - bb.len) % 2 ^ 32 =
      bb.blocks s.blockSize * s.blockSize - bb.len := by
    rw [hfits.align_eq hsize, hfits.zeroLen_eq hsize]
  have hdataLen : chunkHeaderLen + bb.len + (bb.blocks s.blockSize * s.blockSize - bb.len) =
      12 + bb.blocks s.blockSize * s.blockSize := by
    rw [show chunkHeaderLen = 12 from rfl]
    omega
  simp only [countBlock, hzero, hdataLen]
  cases hbacking : bb.backing with
  | data data => rw [length_chunkOf_data hsize (by rw [hbacking]; rfl)]
  | file filename offset =>
      unfold BackedBlock.Available at havail
      rw [hbacking] at havail
      obtain ⟨content, hfile, -⟩ := havail
      simp only [hfile]
      rw [if_neg (by simp; omega), length_chunkOf_data hsize (by rw [hbacking]; rfl)]
  | fd n offset =>
      simp only
      rw [if_neg (by omega), length_chunkOf_data hsize (by rw [hbacking]; rfl)]
  | fill val =>
      rw [length_chunkOf_fill (by rw [hbacking]; rfl)]
      rfl

/-- The bytes for a block, with a chunk for what is skipped. -/
def need (files : Files) (blockSize lastBlock : ℕ) (bb : BackedBlock) : ℕ :=
  (gapChunk (bb.block - lastBlock)).length + (chunkOf files blockSize bb).length

theorem takeUpTo_cons (hsize : 0 < s.blockSize) {bb : BackedBlock} (hfits : bb.Fits s.blockSize)
    (havail : bb.Available files) (hword : len < 2 ^ 32) {first : Bool} {lastBlock fileLen : ℕ}
    (hfirst : first = true → fileLen + chunkHeaderLen ≤ len) (rest : List BackedBlock) :
    takeUpTo files s len first lastBlock fileLen (bb :: rest) =
      if len < fileLen + need files s.blockSize lastBlock bb then
        if first = true ∨ len / 8 + (fileLen + chunkHeaderLen) < len then
          some ([(backedBlockSplit s.blockSize bb (len - (fileLen + chunkHeaderLen))).1],
            (backedBlockSplit s.blockSize bb (len - (fileLen + chunkHeaderLen))).2.toList ++ rest,
            true)
        else some ([], bb :: rest, true)
      else (takeUpTo files s len false (bb.block + bb.blocks s.blockSize)
        (fileLen + need files s.blockSize lastBlock bb) rest).map
          fun r => (bb :: r.1, r.2) := by
  have hneed : (if lastBlock < bb.block then
      (chunkOf files s.blockSize bb).length + chunkHeaderLen
      else (chunkOf files s.blockSize bb).length) = need files s.blockSize lastBlock bb := by
    rw [need, length_gapChunk_eq]
    by_cases hlt : lastBlock < bb.block
    · rw [if_pos hlt, if_pos (by omega), Nat.add_comm]
    · rw [if_neg hlt, if_neg (by omega), Nat.zero_add]
  simp only [takeUpTo, countBlock_eq hsize hfits havail, hfits.behind_eq hsize,
    Option.bind_eq_bind, Option.bind_some, hneed]
  split
  · split
    · next hcut =>
        have hle : fileLen + chunkHeaderLen ≤ len := by
          rcases hcut with hf | hlt
          · exact hfirst hf
          · omega
        have hmod : (len + 2 ^ 32 - (fileLen + chunkHeaderLen)) % 2 ^ 32 =
            len - (fileLen + chunkHeaderLen) := by omega
        rw [hmod]
    · rfl
  · show (takeUpTo files s len false (bb.block + bb.blocks s.blockSize)
      (fileLen + need files s.blockSize lastBlock bb) rest).bind _ = _
    cases takeUpTo files s len false (bb.block + bb.blocks s.blockSize)
      (fileLen + need files s.blockSize lastBlock bb) rest <;> rfl

/-- The part that is taken, and what is left. -/
structure Taken (files : Files) (blockSize len : ℕ) (first : Bool) (lastBlock fileLen : ℕ)
    (l moved rest : List BackedBlock) (more : Bool) : Prop where
  recut : Recut files blockSize l (moved ++ rest)
  short : fileLen + (encodeBlocks files blockSize lastBlock moved).length ≤ len + chunkHeaderLen
  all_moved : more = false → moved = l ∧ rest = []
  progress : first = true → more = true → moved ≠ []

/-- Where a block is cut there is room for one. -/
theorem room_of_cut (hroom : 8 * s.blockSize ≤ len) (hlarge : 32 ≤ len) {first : Bool}
    {fileLen : ℕ} (hfirst : first = true → fileLen = 0)
    (hcut : first = true ∨ len / 8 + (fileLen + chunkHeaderLen) < len) :
    s.blockSize ≤ len - (fileLen + chunkHeaderLen) ∧
      fileLen + chunkHeaderLen + (len - (fileLen + chunkHeaderLen)) = len := by
  have h12 : chunkHeaderLen = 12 := rfl
  rcases hcut with hf | hlt
  · have hzero := hfirst hf
    omega
  · omega

/-- A block of this length fits with the chunk for what is skipped. -/
theorem length_encodeBlocks_singleton_le (hsize : 0 < s.blockSize) {a : BackedBlock} {n : ℕ}
    (hle : a.len ≤ n * s.blockSize) (hlarge : 4 ≤ n * s.blockSize) (lastBlock : ℕ) :
    (encodeBlocks files s.blockSize lastBlock [a]).length ≤ 24 + n * s.blockSize := by
  have hgap := length_gapChunk_le (a.block - lastBlock)
  have hchunk : (chunkOf files s.blockSize a).length ≤ 12 + n * s.blockSize := by
    cases hfill : a.backing.isFill with
    | true =>
        rw [length_chunkOf_fill hfill]
        omega
    | false =>
        have hround : a.blocks s.blockSize * s.blockSize ≤ n * s.blockSize :=
          roundUp_le hsize hle (Nat.mul_mod_left _ _)
        rw [length_chunkOf_data hsize hfill]
        omega
  simp only [encodeBlocks, List.append_nil, List.length_append]
  omega

theorem takeUpTo_spec (hsize : 0 < s.blockSize) (hfour : s.blockSize % 4 = 0)
    (hword : len < 2 ^ 32) (hroom : 8 * s.blockSize ≤ len) {l : List BackedBlock}
    {first : Bool} {lastBlock fileLen : ℕ} (h : Writable files s.blockSize lastBlock l)
    (hfirst : first = true → fileLen = 0) (hfile : fileLen ≤ len) :
    ∃ moved rest more, takeUpTo files s len first lastBlock fileLen l = some (moved, rest, more) ∧
      Taken files s.blockSize len first lastBlock fileLen l moved rest more := by
  have h12 : chunkHeaderLen = 12 := rfl
  have hlarge : 32 ≤ len := by omega
  induction l generalizing first lastBlock fileLen with
  | nil =>
      refine ⟨[], [], false, rfl, Recut.refl _, ?_, fun _ => ⟨rfl, rfl⟩, ?_⟩
      · simp only [encodeBlocks, List.length_nil]
        omega
      · exact fun _ hf => absurd hf Bool.false_ne_true
  | cons bb tail ih =>
      obtain ⟨hfits, havail, hlast, htail⟩ := (writable_cons_iff hsize).mp h
      rw [takeUpTo_cons hsize hfits havail hword (fun hf => by rw [hfirst hf]; omega) tail]
      by_cases hlong : len < fileLen + need files s.blockSize lastBlock bb
      swap
      · rw [if_neg hlong]
        obtain ⟨moved, rest, more, heq, htaken⟩ := ih htail (fun hf => absurd hf Bool.false_ne_true)
          (not_lt.mp hlong)
        rw [heq]
        refine ⟨bb :: moved, rest, more, rfl, htaken.recut.cons hsize bb, ?_, ?_, ?_⟩
        · have hshort := htaken.short
          rw [need] at hshort
          rw [encodeBlocks, List.length_append, List.length_append]
          omega
        · intro hmore
          obtain ⟨rfl, hrest⟩ := htaken.all_moved hmore
          exact ⟨rfl, hrest⟩
        · exact fun _ _ => List.cons_ne_nil _ _
      rw [if_pos hlong]
      by_cases hcut : first = true ∨ len / 8 + (fileLen + chunkHeaderLen) < len
      swap
      · -- the block waits for the next file
        rw [if_neg hcut]
        refine ⟨[], bb :: tail, true, rfl, Recut.refl _, ?_, fun hf => absurd hf.symm (by decide),
          fun hf => absurd (Or.inl hf) hcut⟩
        simp only [encodeBlocks, List.length_nil]
        omega
      rw [if_pos hcut]
      obtain ⟨hsplitRoom, hsum⟩ := room_of_cut hroom hlarge hfirst hcut
      obtain ⟨room, hroomName⟩ : ∃ x, len - (fileLen + chunkHeaderLen) = x := ⟨_, rfl⟩
      rw [hroomName] at hsplitRoom hsum ⊢
      have halign : room / s.blockSize * s.blockSize ≤ room := Nat.div_mul_le_self _ _
      have hone : s.blockSize ≤ room / s.blockSize * s.blockSize :=
        Nat.le_mul_of_pos_left _ (Nat.div_pos hsplitRoom hsize)
      have hshort : ∀ a : BackedBlock, a.len ≤ room / s.blockSize * s.blockSize →
          fileLen + (encodeBlocks files s.blockSize lastBlock [a]).length ≤
            len + chunkHeaderLen := by
        intro a hle
        have hlength := @length_encodeBlocks_singleton_le files s hsize a _ hle (by omega) lastBlock
        omega
      rcases backedBlockSplit_cases files hsize hfour hfits hsplitRoom with
        ⟨hsplit, hle⟩ | ⟨a, b, hsplit, hblock, hlen, -, -, -, hrecut⟩
      · rw [hsplit]
        refine ⟨[bb], tail, true, rfl, Recut.refl _, hshort bb hle,
          fun hf => absurd hf.symm (by decide), fun _ _ => List.cons_ne_nil _ _⟩
      · rw [hsplit]
        exact ⟨[a], b :: tail, true, rfl, hrecut tail, hshort a (le_of_eq hlen),
          fun hf => absurd hf.symm (by decide), fun _ _ => List.cons_ne_nil _ _⟩

/-- The loop from its start. -/
theorem takeUpTo_start (hsize : 0 < s.blockSize) (hfour : s.blockSize % 4 = 0)
    (hword : len < 2 ^ 32) (hroom : 8 * s.blockSize ≤ len) {l : List BackedBlock}
    (h : Writable files s.blockSize 0 l) :
    ∃ moved rest more, takeUpTo files s len true 0 0 l = some (moved, rest, more) ∧
      Taken files s.blockSize len true 0 0 l moved rest more :=
  takeUpTo_spec hsize hfour hword hroom h (fun _ => rfl) (Nat.zero_le _)

/-- The first block of what was left is found again, whole or as much of it as fits into an
empty file. -/
def StartsLike (files : Files) (blockSize len : ℕ) (rest rest' : List BackedBlock) : Prop :=
  ∀ bb tail, rest = bb :: tail → ∃ bb' tail', rest' = bb' :: tail' ∧
    bb'.block = bb.block ∧ bb'.backing.isFill = bb.backing.isFill ∧
    bb'.Fits blockSize ∧ bb'.Available files ∧
    ((chunkOf files blockSize bb').length = (chunkOf files blockSize bb).length ∨
      len < (chunkOf files blockSize bb').length + len / 8)

/-- The front of a block that was cut is taken as it is, and nothing behind it. -/
theorem takeUpTo_front_again (hsize : 0 < s.blockSize) (hfour : s.blockSize % 4 = 0)
    (hword : len < 2 ^ 32) (hroom : 8 * s.blockSize ≤ len) (hlarge : 128 ≤ len) {first : Bool}
    {lastBlock fileLen room : ℕ} {bb a b : BackedBlock} {rest' : List BackedBlock}
    (h : Writable files s.blockSize lastBlock [bb]) (hfirst : first = true → fileLen = 0)
    (hcut : first = true ∨ len / 8 + (fileLen + chunkHeaderLen) < len)
    (hlong : len < fileLen + need files s.blockSize lastBlock bb)
    (hroomName : len - (fileLen + chunkHeaderLen) = room)
    (hsplit : backedBlockSplit s.blockSize bb room = (a, some b))
    (hlike : ∃ b' tail', rest' = b' :: tail' ∧ b'.block = b.block ∧
      b'.backing.isFill = b.backing.isFill ∧ b'.Fits s.blockSize ∧ b'.Available files) :
    takeUpTo files s len first lastBlock fileLen (a :: rest') = some ([a], rest', true) := by
  have h12 : chunkHeaderLen = 12 := rfl
  have hstart : first = true → fileLen + chunkHeaderLen ≤ len := by
    intro hf
    rw [hfirst hf]
    omega
  obtain ⟨hfits, -, hlast, -⟩ := (writable_cons_iff hsize).mp h
  obtain ⟨hsplitRoom, hsum⟩ := room_of_cut hroom (by omega) hfirst hcut
  rw [hroomName] at hsplitRoom hsum
  rcases backedBlockSplit_cases files hsize hfour hfits hsplitRoom with
    ⟨hwhole, -⟩ | ⟨a', b₀, hparts, hblock, hlen, hbacking, hblockB, hfillB, hrecut⟩
  · rw [hsplit] at hwhole
    cases hwhole
  obtain ⟨rfl, hb⟩ := Prod.mk.inj (hsplit.symm.trans hparts)
  obtain rfl := Option.some.inj hb
  obtain ⟨hfitsA, havailA, -, -⟩ := (writable_cons_iff hsize).mp ((hrecut []).writable h)
  rw [takeUpTo_cons hsize hfitsA havailA hword hstart]
  by_cases hlongA : len < fileLen + need files s.blockSize lastBlock a
  · -- the chunk for what is skipped is too much, and the block is at its length
    have hagain : backedBlockSplit s.blockSize a room = (a, none) := by
      rw [backedBlockSplit]
      exact if_pos (le_of_eq hlen)
    rw [if_pos hlongA, if_pos hcut, hroomName, hagain]
    rfl
  rw [if_neg hlongA]
  -- behind it there is no room for a block
  have hdata : bb.backing.isFill = false := by
    cases hfill : bb.backing.isFill with
    | false => rfl
    | true =>
        have hgap := length_gapChunk_le (bb.block - lastBlock)
        rw [need, length_chunkOf_fill hfill] at hlong
        rcases hcut with hf | hlt
        · have hzero := hfirst hf
          omega
        · omega
  obtain ⟨b', tail', rfl, hblock', hfill', hfits', havail'⟩ := hlike
  have hblocksA : a.blocks s.blockSize = room / s.blockSize := by
    have hmul := divRoundUp_mul hsize (room / s.blockSize)
    rw [← hlen] at hmul
    exact hmul
  have hneedA : 12 + room / s.blockSize * s.blockSize ≤ need files s.blockSize lastBlock a := by
    rw [need, length_chunkOf_data hsize (by rw [hbacking]; exact hdata), hblocksA]
    omega
  have hneedB : need files s.blockSize (a.block + a.blocks s.blockSize) b' =
      (chunkOf files s.blockSize b').length := by
    rw [need, hblock', hblockB, hblocksA, hblock, Nat.sub_self, length_gapChunk_eq,
      if_neg (Nat.lt_irrefl 0), Nat.zero_add]
  have hchunkB : 12 + s.blockSize ≤ (chunkOf files s.blockSize b').length := by
    have hone := Nat.le_mul_of_pos_left s.blockSize (hfits'.blocks_pos hsize)
    rw [length_chunkOf_data hsize (hfill'.trans (hfillB.trans hdata))]
    omega
  have halign : room < room / s.blockSize * s.blockSize + s.blockSize := by
    have hdiv := Nat.div_add_mod room s.blockSize
    have hmod := Nat.mod_lt room hsize
    rw [Nat.mul_comm] at hdiv
    omega
  rw [takeUpTo_cons hsize hfits' havail' hword fun hf => absurd hf Bool.false_ne_true, hneedB,
    if_pos (by omega), if_neg (by
      rw [not_or]
      exact ⟨Bool.false_ne_true, by omega⟩)]
  rfl

/-- A part that was cut is taken as it is the next time. -/
theorem takeUpTo_again (hsize : 0 < s.blockSize) (hfour : s.blockSize % 4 = 0)
    (hword : len < 2 ^ 32) (hroom : 8 * s.blockSize ≤ len) (hlarge : 128 ≤ len)
    {l moved rest rest' : List BackedBlock} {first : Bool} {lastBlock fileLen : ℕ}
    (h : Writable files s.blockSize lastBlock l) (hfirst : first = true → fileLen = 0)
    (hfile : fileLen ≤ len)
    (htake : takeUpTo files s len first lastBlock fileLen l = some (moved, rest, true))
    (hlike : StartsLike files s.blockSize len rest rest') :
    takeUpTo files s len first lastBlock fileLen (moved ++ rest') =
      some (moved, rest', true) := by
  have h12 : chunkHeaderLen = 12 := rfl
  have hstart : ∀ fileLen, (first = true → fileLen = 0) → first = true →
      fileLen + chunkHeaderLen ≤ len := by
    intro fileLen hzero hf
    rw [hzero hf]
    omega
  induction l generalizing first lastBlock fileLen moved with
  | nil => cases htake
  | cons bb tail ih =>
      obtain ⟨hfits, havail, hlast, htail⟩ := (writable_cons_iff hsize).mp h
      rw [takeUpTo_cons hsize hfits havail hword (hstart fileLen hfirst)] at htake
      by_cases hlong : len < fileLen + need files s.blockSize lastBlock bb
      swap
      · -- a block that fits does so again
        rw [if_neg hlong] at htake
        obtain ⟨⟨moved', rest'', more⟩, hrec, heq⟩ := Option.map_eq_some_iff.mp htake
        obtain ⟨rfl, hpair⟩ := Prod.mk.inj heq
        obtain ⟨rfl, rfl⟩ := Prod.mk.inj hpair
        rw [List.cons_append, takeUpTo_cons hsize hfits havail hword (hstart fileLen hfirst),
          if_neg hlong, ih htail (fun hf => absurd hf Bool.false_ne_true) (not_lt.mp hlong) hrec
            fun _ _ hf => absurd hf Bool.false_ne_true]
        rfl
      rw [if_pos hlong] at htake
      by_cases hcut : first = true ∨ len / 8 + (fileLen + chunkHeaderLen) < len
      swap
      · -- a block that waited for the next file does so again
        rw [if_neg hcut] at htake
        obtain ⟨rfl, hpair⟩ := Prod.mk.inj (Option.some.inj htake)
        obtain ⟨rfl, -⟩ := Prod.mk.inj hpair
        obtain ⟨bb', tail', rfl, hblock, -, hfits', havail', hchunk⟩ := hlike bb tail rfl
        have hlong' : len < fileLen + need files s.blockSize lastBlock bb' := by
          have hnot := not_or.mp hcut
          unfold need at hlong ⊢
          rw [hblock]
          rcases hchunk with heq | hlt
          · rw [heq]
            exact hlong
          · omega
        rw [List.nil_append, takeUpTo_cons hsize hfits' havail' hword (hstart fileLen hfirst),
          if_pos hlong', if_neg hcut]
      rw [if_pos hcut] at htake
      obtain ⟨room, hroomName⟩ : ∃ x, len - (fileLen + chunkHeaderLen) = x := ⟨_, rfl⟩
      rw [hroomName] at htake
      rcases hsplit : backedBlockSplit s.blockSize bb room with ⟨a, _ | b⟩
      · -- the whole block was taken without fitting
        have hwhole : a = bb := by
          unfold backedBlockSplit at hsplit
          simp only at hsplit
          split at hsplit
          · exact (Prod.mk.inj hsplit).1.symm
          · cases (Prod.mk.inj hsplit).2
        rw [hsplit, hwhole] at htake
        obtain ⟨rfl, hpair⟩ := Prod.mk.inj (Option.some.inj htake)
        rw [List.singleton_append, takeUpTo_cons hsize hfits havail hword (hstart fileLen hfirst),
          if_pos hlong, if_pos hcut, hroomName, hsplit, hwhole]
        rfl
      rw [hsplit] at htake
      obtain ⟨rfl, hpair⟩ := Prod.mk.inj (Option.some.inj htake)
      obtain ⟨rfl, -⟩ := Prod.mk.inj hpair
      obtain ⟨b', tail', heq, hblock', hfill', hfits', havail', -⟩ := hlike b tail rfl
      exact takeUpTo_front_again hsize hfour hword hroom hlarge
        ((writable_cons_iff hsize).mpr ⟨hfits, havail, hlast, by simp, by simp,
          List.Pairwise.nil, by simp⟩) hfirst hcut hlong hroomName hsplit
        ⟨b', tail', heq, hblock', hfill', hfits', havail'⟩

end Taking

/-! ## All parts of an image -/

section Parts

variable {files : Files} {s : SparseFile} {len : ℕ}

/-- The parts that blocks are dealt out to. -/
inductive Parts (files : Files) (s : SparseFile) (len : ℕ) :
    List BackedBlock → List (List BackedBlock) → Prop where
  | last {l moved : List BackedBlock}
      (h : takeUpTo files s len true 0 0 l = some (moved, [], false)) :
      Parts files s len l [moved]
  | more {l moved rest : List BackedBlock} {parts : List (List BackedBlock)}
      (h : takeUpTo files s len true 0 0 l = some (moved, rest, true))
      (hrest : Parts files s len rest parts) : Parts files s len l (moved :: parts)

/-- There are parts of every image, and each of them is short enough. -/
theorem exists_parts (hsize : 0 < s.blockSize) (hfour : s.blockSize % 4 = 0) (hword : len < 2 ^ 32)
    (hroom : 8 * s.blockSize ≤ len) {l : List BackedBlock} (h : Writable files s.blockSize 0 l) :
    ∃ parts, Parts files s len l parts ∧ Recut files s.blockSize l parts.flatten ∧
      parts.length ≤ blockCount s.blockSize l + 1 ∧
      ∀ part ∈ parts, (encodeBlocks files s.blockSize 0 part).length ≤ len + chunkHeaderLen := by
  -- every part but the last one takes a block of the image
  induction hn : blockCount s.blockSize l using Nat.strong_induction_on generalizing l with
  | _ n ih =>
      obtain ⟨moved, rest, more, heq, htaken⟩ := takeUpTo_start hsize hfour hword hroom h
      have hshort := htaken.short
      rw [Nat.zero_add] at hshort
      cases more with
      | false =>
          obtain ⟨rfl, rfl⟩ := htaken.all_moved rfl
          refine ⟨[moved], Parts.last heq, ?_, Nat.succ_le_succ (Nat.zero_le _),
            List.forall_mem_singleton.mpr hshort⟩
          rw [List.flatten_cons, List.flatten_nil]
          exact htaken.recut
      | true =>
          have hall := htaken.recut.writable h
          have hrest := ((writable_append_iff hsize).mp hall).2.mono (Nat.zero_le _)
          have hcount := htaken.recut.blockCount_eq
          rw [blockCount, List.map_append, List.sum_append, ← blockCount, ← blockCount] at hcount
          have hpos : 0 < blockCount s.blockSize moved := by
            cases moved with
            | nil => exact absurd rfl (htaken.progress rfl rfl)
            | cons bb moved =>
                exact Nat.add_pos_left ((hall.fits bb List.mem_cons_self).blocks_pos hsize) _
          obtain ⟨parts, hparts, hrecut, hlength, hall'⟩ :=
            ih (blockCount s.blockSize rest) (by omega) hrest rfl
          refine ⟨moved :: parts, Parts.more heq hparts, ?_, ?_,
            List.forall_mem_cons.mpr ⟨hshort, hall'⟩⟩
          · rw [List.flatten_cons]
            exact htaken.recut.trans (hrecut.append hsize moved)
          · rw [List.length_cons]
            omega

/-- The parts of what is left start where it does. -/
theorem Parts.startsLike (hsize : 0 < s.blockSize) (hfour : s.blockSize % 4 = 0)
    (hword : len < 2 ^ 32) (hroom : 8 * s.blockSize ≤ len) (hlarge : 128 ≤ len)
    {l : List BackedBlock} {parts : List (List BackedBlock)} (hparts : Parts files s len l parts)
    (h : Writable files s.blockSize 0 l) :
    StartsLike files s.blockSize len l parts.flatten := by
  have h12 : chunkHeaderLen = 12 := rfl
  rintro bb tail rfl
  obtain ⟨hfits, havail, -, htail⟩ := (writable_cons_iff hsize).mp h
  -- the first part has the first block
  obtain ⟨moved, rest, more, parts', heq, rfl⟩ : ∃ moved rest more parts',
      takeUpTo files s len true 0 0 (bb :: tail) = some (moved, rest, more) ∧
        parts = moved :: parts' := by
    cases hparts with
    | last heq => exact ⟨_, _, _, _, heq, rfl⟩
    | more heq _ => exact ⟨_, _, _, _, heq, rfl⟩
  rw [takeUpTo_cons hsize hfits havail hword (fun _ => by omega)] at heq
  by_cases hlong : len < 0 + need files s.blockSize 0 bb
  swap
  · rw [if_neg hlong] at heq
    obtain ⟨⟨moved', rest', more'⟩, -, hpair⟩ := Option.map_eq_some_iff.mp heq
    obtain ⟨rfl, -⟩ := Prod.mk.inj hpair
    exact ⟨bb, _, rfl, rfl, rfl, hfits, havail, Or.inl rfl⟩
  rw [if_pos hlong, if_pos (Or.inl rfl), Nat.zero_add, h12] at heq
  have hsplitRoom : s.blockSize ≤ len - 12 := by omega
  rcases backedBlockSplit_cases files hsize hfour hfits hsplitRoom with
    ⟨hsplit, -⟩ | ⟨a, b, hsplit, hblock, hlen, hbacking, -, -, hrecut⟩
  · rw [hsplit] at heq
    obtain ⟨rfl, -⟩ := Prod.mk.inj (Option.some.inj heq)
    exact ⟨bb, _, rfl, rfl, rfl, hfits, havail, Or.inl rfl⟩
  rw [hsplit] at heq
  obtain ⟨rfl, -⟩ := Prod.mk.inj (Option.some.inj heq)
  obtain ⟨hfitsA, havailA, -, -⟩ := (writable_cons_iff hsize).mp
    ((hrecut tail).writable h)
  refine ⟨a, _, rfl, hblock, by rw [hbacking], hfitsA, havailA, Or.inr ?_⟩
  have hdata : a.backing.isFill = false := by
    rw [hbacking]
    cases hfill : bb.backing.isFill with
    | false => rfl
    | true =>
        have hgap : (gapChunk (bb.block - 0)).length ≤ 12 := by
          rw [length_gapChunk_eq]
          split <;> omega
        rw [need, length_chunkOf_fill hfill] at hlong
        omega
  have hround : a.len ≤ a.blocks s.blockSize * s.blockSize := le_roundUp hsize a.len
  have hdiv := Nat.div_add_mod (len - 12) s.blockSize
  have hmod := Nat.mod_lt (len - 12) hsize
  rw [Nat.mul_comm, ← hlen] at hdiv
  rw [length_chunkOf_data hsize hdata]
  omega

/-- The parts of an image that was dealt out are the same again. -/
theorem Parts.again (hsize : 0 < s.blockSize) (hfour : s.blockSize % 4 = 0) (hword : len < 2 ^ 32)
    (hroom : 8 * s.blockSize ≤ len) (hlarge : 128 ≤ len) {l : List BackedBlock}
    {parts : List (List BackedBlock)} (hparts : Parts files s len l parts)
    (h : Writable files s.blockSize 0 l) : Parts files s len parts.flatten parts := by
  induction hparts with
  | @last l moved heq =>
      obtain ⟨moved', rest', more', heq', htaken⟩ := takeUpTo_start hsize hfour hword hroom h
      rw [heq] at heq'
      obtain ⟨rfl, hpair⟩ := Prod.mk.inj (Option.some.inj heq')
      obtain ⟨rfl, rfl⟩ := Prod.mk.inj hpair
      obtain ⟨rfl, -⟩ := htaken.all_moved rfl
      rw [List.flatten_cons, List.flatten_nil, List.append_nil]
      exact Parts.last heq
  | @more l moved rest parts heq hrest ih =>
      obtain ⟨moved', rest', more', heq', htaken⟩ := takeUpTo_start hsize hfour hword hroom h
      rw [heq] at heq'
      obtain ⟨rfl, hpair⟩ := Prod.mk.inj (Option.some.inj heq')
      obtain ⟨rfl, rfl⟩ := Prod.mk.inj hpair
      have hwritable := ((writable_append_iff hsize).mp (htaken.recut.writable h)).2.mono
        (Nat.zero_le _)
      rw [List.flatten_cons]
      exact Parts.more (takeUpTo_again hsize hfour hword hroom hlarge h (fun _ => rfl)
        (Nat.zero_le _) heq (hrest.startsLike hsize hfour hword hroom hlarge hwritable))
        (ih hwritable)

/-- The file of a part. -/
def fileOf (blockSize len : ℕ) (part : List BackedBlock) : SparseFile :=
  (sparseFileNew blockSize len).withBlocks
    (backedBlockListMove (backedBlockListNew blockSize) part)

theorem dataBlocks_move_nil {bbl : BackedBlockList} (h : bbl.dataBlocks = [])
    (part : List BackedBlock) : (backedBlockListMove bbl part).dataBlocks = part := by
  cases part with
  | nil => exact h
  | cons bb part => simp only [backedBlockListMove, h, insertBlocks]

/-- The run of `sparse_file_resparse`: the parts up to a number go to the caller, and those
behind it to `tmp`. -/
theorem resparseFrom_eq {maxLen outCount blockSize total : ℕ} (hword : blockSize < 2 ^ 31)
    (hlen : (maxLen + 2 ^ 32 - overhead) % 2 ^ 32 = len) {l : List BackedBlock}
    {parts : List (List BackedBlock)} (h : Parts files (sparseFileNew blockSize total) len l parts)
    {fuel c : ℕ} (hfuel : parts.length ≤ fuel) {inS tmp : SparseFile}
    (hsize : inS.blockSize = blockSize) (htotal : inS.len = total)
    (hl : inS.backedBlockList.dataBlocks = l) :
    ∃ inS', resparseFrom files maxLen outCount fuel c inS tmp =
        some (inS', tmp.withBlocks ((parts.drop (outCount - c)).foldl backedBlockListMove
          tmp.backedBlockList), (parts.take (outCount - c)).map (fileOf blockSize total),
          c + parts.length) ∧
      inS'.blockSize = blockSize ∧ inS'.len = total ∧ inS'.backedBlockList.dataBlocks = [] := by
  have hint : ¬ 2 ^ 31 ≤ (sparseFileNew blockSize total).blockSize := not_le.mpr hword
  induction h generalizing fuel c inS tmp with
  | @last l moved heq =>
      obtain ⟨fuel, rfl⟩ := Nat.exists_eq_add_of_le' hfuel
      rw [List.length_singleton, resparseFrom]
      simp only [moveChunksUpToLen, hsize, htotal, hl, hlen, if_neg hint, heq, Bool.false_eq_true,
        if_false]
      by_cases hc : c < outCount
      · obtain ⟨n, hn⟩ : ∃ n, outCount - c = n + 1 := ⟨outCount - c - 1, by omega⟩
        rw [hn, List.drop_succ_cons, List.drop_nil, List.take_succ_cons, List.take_nil]
        simp only [if_pos hc]
        refine ⟨_, rfl, ?_, ?_, ?_⟩
        exacts [hsize, htotal, rfl]
      · have hzero : outCount - c = 0 := by omega
        have hmoved := dataBlocks_move_nil (show (backedBlockListNew blockSize).dataBlocks = []
          from rfl) moved
        rw [hzero]
        simp only [if_neg hc, SparseFile.withBlocks, sparseFileNew, hmoved]
        refine ⟨_, rfl, ?_, ?_, ?_⟩
        exacts [hsize, htotal, rfl]
  | @more l moved rest parts heq hrest ih =>
      obtain ⟨fuel, rfl⟩ : ∃ n, fuel = n + 1 := ⟨fuel - 1, by rw [List.length_cons] at hfuel; omega⟩
      have hfuel' : parts.length ≤ fuel := Nat.le_of_succ_le_succ hfuel
      have hcount : c + (moved :: parts).length = c + 1 + parts.length := by
        rw [List.length_cons]
        omega
      rw [hcount, resparseFrom]
      simp only [moveChunksUpToLen, hsize, htotal, hl, hlen, if_neg hint, heq, if_true]
      by_cases hc : c < outCount
      · obtain ⟨n, hn⟩ : ∃ n, outCount - c = n + 1 := ⟨outCount - c - 1, by omega⟩
        have hnext : outCount - (c + 1) = n := by omega
        simp only [if_pos hc]
        obtain ⟨inS', hrun, hdone⟩ := @ih fuel (c + 1) hfuel' (inS.withBlocks
          { inS.backedBlockList with
            dataBlocks := rest
            lastUsed := if moved = [] then inS.backedBlockList.lastUsed else none }) tmp hsize
          htotal rfl
        rw [hrun, hn, hnext]
        exact ⟨inS', rfl, hdone⟩
      · have hzero : outCount - c = 0 := by omega
        have hnext : outCount - (c + 1) = 0 := by omega
        have hmoved := dataBlocks_move_nil (show (backedBlockListNew blockSize).dataBlocks = []
          from rfl) moved
        simp only [if_neg hc]
        obtain ⟨inS', hrun, hdone⟩ := @ih fuel (c + 1) hfuel' (inS.withBlocks
          { inS.backedBlockList with
            dataBlocks := rest
            lastUsed := if moved = [] then inS.backedBlockList.lastUsed else none })
          (tmp.withBlocks (backedBlockListMove tmp.backedBlockList moved)) hsize htotal rfl
        have hmoved' : ((sparseFileNew blockSize total).withBlocks (backedBlockListMove
            (sparseFileNew blockSize total).backedBlockList moved)).backedBlockList.dataBlocks =
              moved := hmoved
        rw [hmoved', hrun, hzero, hnext]
        exact ⟨inS', rfl, hdone⟩

theorem insertBlocks_eq_append {start : BackedBlock} {moved l : List BackedBlock}
    (h : ∀ x ∈ l, x.block ≤ start.block) : insertBlocks start moved l = l ++ moved := by
  induction l with
  | nil => rfl
  | cons bb rest ih =>
      obtain ⟨-, hrest⟩ := List.forall_mem_cons.mp h
      cases rest with
      | nil => rfl
      | cons next rest =>
          have hnext := hrest next List.mem_cons_self
          rw [insertBlocks, if_neg (by omega), ih hrest]
          rfl

/-- Parts that are moved one behind the other. -/
theorem dataBlocks_foldl_move {parts : List (List BackedBlock)} {bbl : BackedBlockList}
    (h : (bbl.dataBlocks ++ parts.flatten).Pairwise fun a b => a.block ≤ b.block) :
    (parts.foldl backedBlockListMove bbl).dataBlocks = bbl.dataBlocks ++ parts.flatten := by
  induction parts generalizing bbl with
  | nil => exact (List.append_nil _).symm
  | cons part parts ih =>
      have hmove : (backedBlockListMove bbl part).dataBlocks = bbl.dataBlocks ++ part := by
        cases part with
        | nil => exact (List.append_nil _).symm
        | cons start part =>
            refine insertBlocks_eq_append fun x hx => ?_
            exact (List.pairwise_append.mp h).2.2 x hx start (by simp)
      rw [List.flatten_cons, ← List.append_assoc, ← hmove] at h ⊢
      exact ih h

theorem blocks_sorted (hsize : 0 < s.blockSize) {l : List BackedBlock}
    (h : (extents files s.blockSize).Ordered l) : l.Pairwise fun a b => a.block ≤ b.block :=
  h.imp fun hab => Nat.le_of_add_right_le (blocks_le_of_hi_le_lo hsize hab)

/-- A run that only counts leaves the parts in the file, one behind the other. -/
theorem resparse_count {maxLen blockSize total : ℕ} (hsize : 0 < blockSize)
    (hword : blockSize < 2 ^ 31) (hlen : (maxLen + 2 ^ 32 - overhead) % 2 ^ 32 = len)
    {inS : SparseFile} {parts : List (List BackedBlock)} (hblockSize : inS.blockSize = blockSize)
    (htotal : inS.len = total)
    (h : Parts files (sparseFileNew blockSize total) len inS.backedBlockList.dataBlocks parts)
    (hord : (extents files blockSize).Ordered parts.flatten) {fuel : ℕ}
    (hfuel : parts.length ≤ fuel) :
    ∃ inS', resparse files fuel inS maxLen 0 = some (inS', [], parts.length) ∧
      inS'.blockSize = blockSize ∧ inS'.len = total ∧
      inS'.backedBlockList.dataBlocks = parts.flatten := by
  obtain ⟨inS', hrun, hdone⟩ := @resparseFrom_eq files len maxLen 0 blockSize total hword hlen _
    _ h fuel 0 hfuel inS (sparseFileNew inS.blockSize inS.len) hblockSize htotal rfl
  rw [Nat.sub_self, List.drop_zero, List.take_zero, Nat.zero_add] at hrun
  have hflat := @dataBlocks_foldl_move parts (sparseFileNew inS.blockSize inS.len).backedBlockList
    (@blocks_sorted files (sparseFileNew blockSize total) hsize _ hord)
  rw [resparse, hrun]
  refine ⟨_, rfl, ?_, ?_, ?_⟩
  · exact hdone.1
  · exact hdone.2.1
  · exact (dataBlocks_move_nil hdone.2.2 _).trans hflat

/-- A run for the caller hands out the files of the parts. -/
theorem resparse_parts {maxLen blockSize total : ℕ} (hword : blockSize < 2 ^ 31)
    (hlen : (maxLen + 2 ^ 32 - overhead) % 2 ^ 32 = len) {inS : SparseFile}
    {parts : List (List BackedBlock)} (hblockSize : inS.blockSize = blockSize)
    (htotal : inS.len = total)
    (h : Parts files (sparseFileNew blockSize total) len inS.backedBlockList.dataBlocks parts)
    {fuel : ℕ} (hfuel : parts.length ≤ fuel) :
    ∃ inS', resparse files fuel inS maxLen parts.length =
      some (inS', parts.map (fileOf blockSize total), parts.length) := by
  obtain ⟨inS', hrun, -⟩ := @resparseFrom_eq files len maxLen parts.length blockSize total hword
    hlen _ _ h fuel 0 hfuel inS (sparseFileNew inS.blockSize inS.len) hblockSize htotal rfl
  rw [Nat.sub_zero, List.take_length, Nat.zero_add] at hrun
  rw [resparse, hrun]
  exact ⟨_, rfl⟩

theorem blockCount_le (hsize : 0 < s.blockSize) {l : List BackedBlock} {lastBlock : ℕ}
    (h : Writable files s.blockSize lastBlock l) :
    lastBlock + blockCount s.blockSize l ≤ endBlock s.blockSize lastBlock l := by
  induction l generalizing lastBlock with
  | nil => exact le_rfl
  | cons bb l ih =>
      have hrest := ih (h.tail hsize)
      have hlast := h.from_last bb List.mem_cons_self
      rw [blockCount] at hrest
      rw [blockCount, List.map_cons, List.sum_cons, endBlock]
      omega

/-- A part of an image is an image. -/
theorem Writable.part (hsize : 0 < s.blockSize) {total : ℕ} {parts : List (List BackedBlock)}
    (h : Writable files s.blockSize 0 parts.flatten)
    (hend : endBlock s.blockSize 0 parts.flatten ≤ total) {part : List BackedBlock}
    (hpart : part ∈ parts) :
    Writable files s.blockSize 0 part ∧ endBlock s.blockSize 0 part ≤ total := by
  have hsub := List.sublist_flatten_of_mem hpart
  have hfits := fun bb hbb => h.fits bb (hsub.subset hbb)
  refine ⟨⟨hfits, fun bb hbb => h.available bb (hsub.subset hbb), h.ordered.sublist hsub,
    fun _ _ => Nat.zero_le _⟩, endBlock_le_of_read files hsize hfits (Nat.zero_le _) ?_⟩
  intro i hi
  rw [Extents.read_eq_none_iff]
  intro bb hbb hin
  have hle := Nat.mul_le_mul_right s.blockSize
    (((h.le_endBlock hsize).2 bb (hsub.subset hbb)).trans hend)
  simp only [extents] at hin
  omega

end Parts

/-! ## Splitting and joining -/

theorem mapM_map_some {α β γ : Type*} {f : β → Option γ} {g : α → γ} {h : α → β} {l : List α}
    (heq : ∀ a ∈ l, f (h a) = some (g a)) : (l.map h).mapM f = some (l.map g) := by
  induction l with
  | nil => rfl
  | cons a l ih =>
      obtain ⟨ha, hl⟩ := List.forall_mem_cons.mp heq
      rw [List.map_cons, List.mapM_cons, ha, ih hl]
      rfl

section Tools

variable {files : Files} {blockSize total : ℕ}

/-- The images of `simg2simg` are those of the parts of the image. -/
theorem simg2simg_eq [Build] (hsize : 16 ≤ blockSize) (hfour : blockSize % 4 = 0)
    {maxSize : ℤ} {len : ℕ} (hlen : (maxSize % 2 ^ 32).toNat = len + overhead)
    (hroom : 8 * blockSize ≤ len) {fuel : ℕ} (hfuel : total < fuel) {fd : ℤ} {bbl : BackedBlockList}
    (himport : sparseFileImport files fd = some ⟨blockSize, total * blockSize, bbl⟩)
    (h : Writable files blockSize 0 bbl.dataBlocks)
    (hend : endBlock blockSize 0 bbl.dataBlocks ≤ total) :
    ∃ parts : List (List BackedBlock), parts ≠ [] ∧
      simg2simg files fuel fd maxSize = some (parts.map (encodeImage files blockSize total)) ∧
      Recut files blockSize bbl.dataBlocks parts.flatten ∧
      ∀ part ∈ parts, (encodeBlocks files blockSize 0 part).length ≤ len + chunkHeaderLen := by
  have hpos : 0 < blockSize := by omega
  have h56 : overhead = 56 := rfl
  have hword : len < 2 ^ 32 := by omega
  have hint : blockSize < 2 ^ 31 := by omega
  have hmod : ((maxSize % 2 ^ 32).toNat + 2 ^ 32 - overhead) % 2 ^ 32 = len := by omega
  obtain ⟨s, hs⟩ : ∃ x, sparseFileNew blockSize (total * blockSize) = x := ⟨_, rfl⟩
  have hsSize : s.blockSize = blockSize := by rw [← hs]; rfl
  obtain ⟨parts, hparts, hrecut, hlength, hshort⟩ := @exists_parts files s len (hsSize ▸ hpos)
    (hsSize ▸ hfour) hword (hsSize ▸ hroom) bbl.dataBlocks (hsSize ▸ h)
  have hagain := hparts.again (hsSize ▸ hpos) (hsSize ▸ hfour) hword (hsSize ▸ hroom) (by omega)
    (hsSize ▸ h)
  have hcount := @blockCount_le files s (hsSize ▸ hpos) bbl.dataBlocks 0 (hsSize ▸ h)
  rw [hsSize] at hrecut hlength hcount hshort
  rw [← hs] at hparts hagain
  have hall := hrecut.writable h
  -- the first run leaves the parts, and the second one finds them again
  obtain ⟨inS, hfirst, hinSize, hinLen, hinBlocks⟩ := @resparse_count files len _ blockSize
    (total * blockSize) hpos hint hmod ⟨blockSize, total * blockSize, bbl⟩ parts rfl rfl hparts
    hall.ordered fuel (by omega)
  rw [← hinBlocks] at hagain
  obtain ⟨inS', hsecond⟩ := resparse_parts hint hmod hinSize hinLen hagain (by omega : _ ≤ fuel)
  have hendAll : endBlock blockSize 0 parts.flatten ≤ total := by
    rw [hrecut.endBlock_eq]
    exact hend
  refine ⟨parts, ?_, ?_, hrecut, hshort⟩
  · cases hparts <;> exact List.cons_ne_nil _ _
  simp only [simg2simg, himport, Option.bind_eq_bind, Option.bind_some, hfirst, hsecond]
  rw [if_neg (Nat.lt_irrefl _)]
  refine mapM_map_some ?_
  intro part hpart
  obtain ⟨hwritable, hle⟩ := @Writable.part files s (hsSize ▸ hpos) total parts (hsSize ▸ hall)
    (hsSize ▸ hendAll) part hpart
  rw [hsSize] at hwritable hle
  have hblocks : (fileOf blockSize (total * blockSize) part).backedBlockList.dataBlocks = part :=
    dataBlocks_move_nil rfl part
  rw [@write_sparse_spec _ files (fileOf blockSize (total * blockSize) part) hpos hint total
    (divRoundUp_mul hpos total) (.inl rfl) (by rw [hblocks]; exact hwritable)
    (by rw [hblocks]; exact hle), hblocks]
  rfl

end Tools

/-- An image is split into images that are not longer than the given size, and `simg2img` makes
of them what it makes of the whole image. -/
theorem simg2img_simg2simg [Build] (files : Files) (fd : ℤ) (blockSize total fuel : ℕ)
    (maxSize : ℤ) (read : ℕ → Option UInt8) (hsize : 16 ≤ blockSize) (hfour : blockSize % 4 = 0)
    (hsmall : chunkHeaderLen + total * blockSize + blockSize ≤ 2 ^ 32)
    (hroom : overhead + 8 * blockSize ≤ (maxSize % 2 ^ 32).toNat) (hfuel : total < fuel)
    (h : Imports files blockSize total read fd) :
    ∃ images, simg2simg files fuel fd maxSize = some images ∧
      (∀ image ∈ images, image.length ≤ (maxSize % 2 ^ 32).toNat) ∧
      ∀ files' fds, fds.map files'.fd = images →
        simg2img files' fds = simg2img files [fd] := by
  have hpos : 0 < blockSize := by omega
  have h56 : overhead = 56 := rfl
  have h12 : chunkHeaderLen = 12 := rfl
  obtain ⟨len, hlen⟩ := Nat.exists_eq_add_of_le' (show overhead ≤ (maxSize % 2 ^ 32).toNat by omega)
  have hword : blockSize < 2 ^ 31 := by omega
  have hwhole := simg2img_spec hpos hfour hword (List.Forall₂.cons h List.Forall₂.nil)
    (List.pairwise_singleton _ _) (List.cons_ne_nil _ _)
  obtain ⟨bbl, himport, hwritable, hend, hread⟩ := h
  obtain ⟨parts, hne, heq, hrecut, hshort⟩ := simg2simg_eq hsize hfour hlen (by omega) hfuel himport
    hwritable hend
  have hall := hrecut.writable hwritable
  have hendAll : endBlock blockSize 0 parts.flatten ≤ total := by
    rw [hrecut.endBlock_eq]
    exact hend
  refine ⟨_, heq, ?_, ?_⟩
  · intro image himage
    obtain ⟨part, hpart, rfl⟩ := List.mem_map.mp himage
    have hle := hshort part hpart
    have hgap : (gapChunk (total - endBlock blockSize 0 part)).length ≤ 12 := by
      rw [length_gapChunk_eq]
      split <;> omega
    simp only [encodeImage, sparseHeader, List.length_append, length_le]
    omega
  · intro files' fds hfds
    have hnames : List.Forall₂ (fun part fd' => encodeImage files blockSize total part =
        files'.fd fd') parts fds := by
      rw [← List.forall₂_map_left_iff (R := fun image fd' => image = files'.fd fd'),
        ← List.forall₂_map_right_iff, List.forall₂_eq_eq_eq]
      exact hfds.symm
    have himports : List.Forall₂ (Imports files' blockSize total)
        (parts.map (extents files blockSize).read) fds := by
      rw [List.forall₂_map_left_iff]
      have hboth := (List.forall₂_and_left (p := (· ∈ parts)) parts fds).mpr
        ⟨fun _ hpart => hpart, hnames⟩
      refine hboth.imp ?_
      rintro part fd' ⟨hpart, hname⟩
      obtain ⟨hpartWritable, hpartEnd⟩ := @Writable.part files ⟨blockSize, 0, bbl⟩ hpos total parts
        hall hendAll part hpart
      exact sparseFileImport_encodeImage hpos hfour hpartWritable hpartEnd hsmall hname.symm
    have hapart : (parts.map (extents files blockSize).read).Pairwise
        fun f g => ∀ i, f i = none ∨ g i = none := by
      rw [List.pairwise_map]
      exact (List.pairwise_flatten.mp hall.ordered).2.imp fun hle => Extents.read_or_of_le hle
    rw [simg2img_spec hpos hfour hword himports hapart (by simpa using hne), hwhole]
    simp only [← Extents.read_flatten, hrecut.read_eq, hread, List.findSome?_cons,
      List.findSome?_nil]
    refine congrArg some (List.map_congr_left fun i _ => ?_)
    cases read i <;> rfl

/-- A word and bytes with a gap between them, in files of 200 bytes. -/
theorem simg2img_simg2simg_gap : let _ : Build := ⟨false⟩
    ∃ images, simg2simg ⟨fun _ => none, fun _ => encodeImage ⟨fun _ => none, fun _ => []⟩ 16 40
        [⟨1, 160, .fill 9⟩, ⟨20, 100, .data (List.replicate 100 1)⟩]⟩ 41 0 200 = some images ∧
      ∀ image ∈ images, image.length ≤ 200 := by
  intro build
  have hwritable : Writable ⟨fun _ => none, fun _ => []⟩ 16 0
      [⟨1, 160, .fill 9⟩, ⟨20, 100, .data (List.replicate 100 1)⟩] := by
    rw [writable_cons_iff (by decide), writable_cons_iff (by decide)]
    exact ⟨⟨by decide, by decide, by decide, by decide⟩, trivial, by decide,
      ⟨by decide, by decide, by decide, by decide⟩, by simp [BackedBlock.Available], by decide,
      by simp, by simp, List.Pairwise.nil, by simp⟩
  obtain ⟨images, heq, hshort, -⟩ := simg2img_simg2simg ⟨fun _ => none, fun _ => encodeImage
    ⟨fun _ => none, fun _ => []⟩ 16 40 [⟨1, 160, .fill 9⟩, ⟨20, 100, .data (List.replicate 100 1)⟩]⟩
    0 16 40 41 200 _ (by decide) (by decide) (by decide) (by decide) (by decide)
    (sparseFileImport_encodeImage (by decide) (by decide) hwritable (by decide) (by decide) rfl)
  exact ⟨images, heq, hshort⟩

end Libsparse

end BootImageEditor
