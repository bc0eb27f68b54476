import BootImageEditor.Libsparse.RoundTrip

/-!
# Raw images and back

The tool `img2simg` looks for blocks of one word in a raw image, and `simg2img` writes sparse
images over each other. What the second makes of the image of the first is the raw image again.
-/

namespace BootImageEditor

open Codec

namespace Libsparse

/-! ## The blocks of a raw image -/

/-- The words of a block. -/
def wordsOf (blockSize : ℕ) (buf : Bytes) : List ℕ :=
  (List.range (blockSize / 4)).map fun i => field (4 * i) 4 buf

/-- The block that is made of a block of the raw image. -/
def blockAt (fd : ℤ) (input : Bytes) (blockSize len block : ℕ) : BackedBlock :=
  let toRead := min (len - block * blockSize) blockSize
  let words := wordsOf blockSize (slice (block * blockSize) toRead input)
  ⟨block, toRead,
    if toRead = blockSize ∧ ∀ w ∈ words, w = words.headD 0 then .fill (UInt32.ofNat (words.headD 0))
    else .fd fd (block * blockSize)⟩

theorem foldlM_queue_of_step [Build] {g : SparseFile → ℕ → Option SparseFile}
    {piece : ℕ → BackedBlock} {l : List ℕ} {s : SparseFile}
    (hstep : ∀ s', s'.blockSize = s.blockSize → s'.len = s.len → ∀ i ∈ l,
      g s' i = (queueBb s'.backedBlockList (piece i)).map s'.withBlocks) :
    l.foldlM g s = ((l.map piece).foldlM queueBb s.backedBlockList).map s.withBlocks := by
  induction l generalizing s with
  | nil => rfl
  | cons i l ih =>
      rw [List.foldlM_cons, hstep s rfl rfl i List.mem_cons_self, List.map_cons, List.foldlM_cons]
      cases queueBb s.backedBlockList (piece i) with
      | none => rfl
      | some bbl =>
          exact ih fun s' hsize hlen j hj => hstep s' hsize hlen j (List.mem_cons_of_mem _ hj)

theorem mul_lt_of_lt_divRoundUp {blockSize n i : ℕ} (hsize : 0 < blockSize)
    (h : i < divRoundUp n blockSize) : i * blockSize < n := by
  have hle := (Nat.le_div_iff_mul_le hsize).mp h
  rw [Nat.succ_mul] at hle
  omega

/-- A raw image is queued block by block. -/
theorem readNormal_eq [Build] {fd : ℤ} {input : Bytes} {s : SparseFile} (hsize : 0 < s.blockSize)
    (hword : s.blockSize < 2 ^ 32) (hlen : s.len = input.length) :
    readNormal fd input s =
      (((List.range (divRoundUp s.len s.blockSize)).map
        (blockAt fd input s.blockSize s.len)).foldlM queueBb s.backedBlockList).map
          s.withBlocks := by
  refine foldlM_queue_of_step ?_
  intro s' hsize' hlen' i hi
  have hblock := mul_lt_of_lt_divRoundUp hsize (List.mem_range.mp hi)
  obtain ⟨toRead, htoRead⟩ : ∃ x, min (s.len - i * s.blockSize) s.blockSize = x := ⟨_, rfl⟩
  have hread : readValue input (i * s.blockSize) toRead =
      some (slice (i * s.blockSize) toRead input) := if_pos (by omega)
  have hmod : toRead % 2 ^ 32 = toRead := Nat.mod_eq_of_lt (by omega)
  simp only [blockAt, hsize', hlen', htoRead, hread, Option.bind_eq_bind, Option.bind_some]
  rw [← wordsOf]
  split
  · simp only [SparseFile.addFill, hmod]
    cases queueBb s'.backedBlockList _ <;> rfl
  · simp only [SparseFile.addFd, hmod]
    cases queueBb s'.backedBlockList _ <;> rfl

/-- A block of one word. -/
theorem getD_of_words {buf : Bytes} {blockSize w : ℕ} (hbuf : buf.length = blockSize)
    (hfour : blockSize % 4 = 0) (h : ∀ x ∈ wordsOf blockSize buf, x = w) {j : ℕ}
    (hj : j < blockSize) : (le 4 (UInt32.ofNat w).toNat).getD (j % 4) 0 = buf.getD j 0 := by
  have hle : 4 * (j / 4) + 4 ≤ buf.length := by omega
  have hmem : field (4 * (j / 4)) 4 buf ∈ wordsOf blockSize buf :=
    List.mem_map_of_mem (List.mem_range.mpr (by omega))
  have hlen : (slice (4 * (j / 4)) 4 buf).length = 4 := length_slice hle
  have hlt : field (4 * (j / 4)) 4 buf < 2 ^ 32 := by
    have hdecode := ByteOrder.decode_lt .littleEndian (slice (4 * (j / 4)) 4 buf)
    rw [hlen] at hdecode
    exact hdecode
  have hencode : le 4 (field (4 * (j / 4)) 4 buf) = slice (4 * (j / 4)) 4 buf := by
    have hback := leBytes_ofLeBytes (slice (4 * (j / 4)) 4 buf)
    rw [hlen] at hback
    exact hback
  have hindex : 4 * (j / 4) + j % 4 = j := Nat.div_add_mod j 4
  rw [← h _ hmem, UInt32.toNat_ofNat_of_lt' hlt, hencode, slice_eq_map_getD hle,
    List.getD_eq_getElem?_getD, List.getElem?_map, List.getElem?_range (Nat.mod_lt _ (by decide)),
    Option.map_some, Option.getD_some, hindex]

section Blocks

variable {files : Files} {fd : ℤ} {input : Bytes} {blockSize : ℕ}

/-- A block of the image, as it is queued. -/
structure ReadAt (files : Files) (input : Bytes) (blockSize i : ℕ) (bb : BackedBlock) : Prop where
  block_eq : bb.block = i
  blocks_eq : bb.blocks blockSize = 1
  fits : bb.Fits blockSize
  available : bb.Available files
  cell_eq : ∀ j, bb.cell files blockSize j =
    if i * blockSize ≤ j ∧ j < (i + 1) * blockSize then some (input.getD j 0) else none

theorem ReadAt.weight_le {i : ℕ} {bb : BackedBlock} (h : ReadAt files input blockSize i bb)
    (hsize : 0 < blockSize) : bb.weight ≤ blockSize := by
  have hlen : bb.len ≤ bb.blocks blockSize * blockSize := le_roundUp hsize bb.len
  rw [h.blocks_eq, Nat.one_mul] at hlen
  unfold BackedBlock.weight
  split <;> omega

theorem readAt_blockAt (hfd : files.fd fd = input) (hsize : 0 < blockSize)
    (hfour : blockSize % 4 = 0) (hword : blockSize + blockSize ≤ 2 ^ 32) {i : ℕ}
    (hi : i * blockSize < input.length) (hsmall : i + 1 < 2 ^ 32) :
    ReadAt files input blockSize i (blockAt fd input blockSize input.length i) := by
  obtain ⟨toRead, htoRead⟩ : ∃ x, min (input.length - i * blockSize) blockSize = x := ⟨_, rfl⟩
  have hblocks : ∀ backing, (⟨i, toRead, backing⟩ : BackedBlock).blocks blockSize = 1 := by
    intro backing
    show (toRead + (blockSize - 1)) / blockSize = 1
    exact Nat.div_eq_of_lt_le (by omega) (by omega)
  have hnext : (i + 1) * blockSize = i * blockSize + blockSize := Nat.succ_mul _ _
  have hlen : (slice (i * blockSize) toRead input).length = toRead := length_slice (by omega)
  simp only [blockAt, htoRead]
  split
  · next hfill =>
      obtain ⟨hfull, hwords⟩ := hfill
      refine ⟨rfl, hblocks _, ⟨by simp only; omega, fun _ => by simp only [hfull, Nat.mod_self],
        by simp only; omega, by rw [hblocks]; exact hsmall⟩, trivial, ?_⟩
      intro j
      unfold BackedBlock.cell rangeCell
      rw [hblocks]
      by_cases hin : i * blockSize ≤ j ∧ j < (i + 1) * blockSize
      · have hshort : j - i * blockSize < toRead := by omega
        rw [if_pos hin, if_pos hin]
        simp only [if_pos hshort, Backing.byteAt]
        have hbyte := getD_of_words (hlen.trans hfull) hfour hwords
          (show j - i * blockSize < blockSize by omega)
        have hindex : i * blockSize + (j - i * blockSize) = j := by omega
        rw [le] at hbyte
        rw [hbyte, slice_eq_map_getD (by omega), List.getD_eq_getElem?_getD, List.getElem?_map,
          List.getElem?_range hshort, Option.map_some, Option.getD_some, hindex]
      · rw [if_neg hin, if_neg hin]
  · refine ⟨rfl, hblocks _, ⟨by simp only; omega, fun hf => (Bool.false_ne_true hf).elim,
      by simp only; omega, by rw [hblocks]; exact hsmall⟩, ?_, ?_⟩
    · have hle : i * blockSize + toRead ≤ (files.fd fd).length := by
        rw [hfd]
        omega
      exact hle.trans (le_length_mapped _)
    · intro j
      unfold BackedBlock.cell rangeCell
      rw [hblocks]
      by_cases hin : i * blockSize ≤ j ∧ j < (i + 1) * blockSize
      · rw [if_pos hin, if_pos hin]
        simp only [Backing.byteAt, hfd]
        have hindex : i * blockSize + (j - i * blockSize) = j := by omega
        rw [hindex]
        by_cases hshort : j - i * blockSize < toRead
        · rw [if_pos hshort]
        · rw [if_neg hshort, List.getD_eq_getElem?_getD, List.getElem?_eq_none (by omega)]
          rfl
      · rw [if_neg hin, if_neg hin]

section Pieces

variable {n : ℕ} {piece : ℕ → BackedBlock}

theorem ordered_pieces (hat : ∀ i < n, ReadAt files input blockSize i (piece i)) :
    (extents files blockSize).Ordered ((List.range n).map piece) := by
  refine List.pairwise_map.mpr (List.pairwise_lt_range.imp_of_mem ?_)
  intro i j hi hj hij
  have hhi := hat i (List.mem_range.mp hi)
  have hhj := hat j (List.mem_range.mp hj)
  simp only [extents]
  rw [hhi.block_eq, hhi.blocks_eq, hhj.block_eq]
  exact Nat.mul_le_mul_right _ hij

/-- What the first blocks hold. -/
theorem read_pieces (hat : ∀ i < n, ReadAt files input blockSize i (piece i)) {k : ℕ} (hk : k ≤ n)
    (j : ℕ) : (extents files blockSize).read ((List.range k).map piece) j =
      if j < k * blockSize then some (input.getD j 0) else none := by
  induction k with
  | zero =>
      rw [Nat.zero_mul, if_neg (Nat.not_lt_zero _)]
      rfl
  | succ k ih =>
      have hcell : (extents files blockSize).cell (piece k) j = _ := (hat k (by omega)).cell_eq j
      rw [List.range_succ, List.map_append, Extents.read_append, ih (by omega), List.map_cons,
        List.map_nil, Extents.read_cons, Extents.read_nil, Option.or_none, hcell, Nat.succ_mul]
      by_cases hold : j < k * blockSize
      · have hbehind : ¬ (k * blockSize ≤ j ∧ j < k * blockSize + blockSize) := by omega
        have hnew : j < k * blockSize + blockSize := by omega
        rw [if_pos hold, if_neg hbehind, if_pos hnew]
        rfl
      · rw [if_neg hold, Option.none_or]
        by_cases hnew : j < k * blockSize + blockSize
        · rw [if_pos ⟨by omega, hnew⟩, if_pos hnew]
        · rw [if_neg (fun h => hnew h.2), if_neg hnew]

theorem weight_pieces (hsize : 0 < blockSize)
    (hat : ∀ i < n, ReadAt files input blockSize i (piece i)) {k : ℕ} (hk : k ≤ n) :
    (((List.range k).map piece).map BackedBlock.weight).sum ≤ k * blockSize := by
  induction k with
  | zero => exact Nat.zero_le _
  | succ k ih =>
      have hlen := (hat k (by omega)).weight_le hsize
      have hrest := ih (by omega)
      rw [List.range_succ, List.map_append, List.map_append, List.sum_append, Nat.succ_mul]
      simp only [List.map_cons, List.map_nil, List.sum_cons, List.sum_nil]
      omega

end Pieces

/-- Blocks that hold the first `n` blocks of an image end there. -/
theorem endBlock_eq_of_read (hsize : 0 < blockSize) {l : List BackedBlock} {n : ℕ}
    (h : Writable files blockSize 0 l)
    (hread : ∀ j, (extents files blockSize).read l j =
      if j < n * blockSize then some (input.getD j 0) else none) :
    endBlock blockSize 0 l = n := by
  refine le_antisymm (endBlock_le_of_read files hsize h.fits (Nat.zero_le _) ?_) ?_
  · intro j hj
    rw [hread, if_neg (by omega)]
  · -- the last byte is one of a block
    rcases Nat.eq_zero_or_pos n with rfl | hpos
    · exact Nat.zero_le _
    have hlast : 0 < n * blockSize := Nat.mul_pos hpos hsize
    have hsome : (extents files blockSize).read l (n * blockSize - 1) ≠ none := by
      rw [hread, if_pos (by omega)]
      exact Option.some_ne_none _
    rw [Ne, Extents.read_eq_none_iff] at hsome
    simp only [not_forall, not_not] at hsome
    obtain ⟨bb, hbb, hin⟩ := hsome
    have hend := Nat.mul_le_mul_right blockSize ((h.le_endBlock hsize).2 bb hbb)
    simp only [extents] at hin
    exact Nat.le_of_mul_le_mul_right (by omega) hsize

/-- All blocks of a raw image. -/
theorem readNormal_spec [Build] (hfd : files.fd fd = input) (hsize : 0 < blockSize)
    (hfour : blockSize % 4 = 0) (hword : blockSize < 2 ^ 32)
    (hsmall : divRoundUp input.length blockSize * blockSize + blockSize ≤ 2 ^ 32) :
    ∃ bbl, readNormal fd input (sparseFileNew blockSize input.length) =
        some ⟨blockSize, input.length, bbl⟩ ∧
      Writable files blockSize 0 bbl.dataBlocks ∧
      endBlock blockSize 0 bbl.dataBlocks = divRoundUp input.length blockSize ∧
      ∀ j, (extents files blockSize).read bbl.dataBlocks j =
        if j < divRoundUp input.length blockSize * blockSize then some (input.getD j 0)
        else none := by
  obtain ⟨n, hn⟩ : ∃ x, divRoundUp input.length blockSize = x := ⟨_, rfl⟩
  rw [hn] at hsmall ⊢
  have hcount : n < 2 ^ 30 := by
    have hfourth : n * 4 ≤ n * blockSize := Nat.mul_le_mul_left _ (by omega)
    omega
  have hat : ∀ i < n, ReadAt files input blockSize i
      (blockAt fd input blockSize input.length i) := by
    intro i hi
    have hone : blockSize ≤ n * blockSize := Nat.le_mul_of_pos_left _ (by omega)
    exact readAt_blockAt hfd hsize hfour (by omega)
      (mul_lt_of_lt_divRoundUp hsize (hn ▸ hi)) (by omega)
  obtain ⟨piece, hpiece⟩ : ∃ x, blockAt fd input blockSize input.length = x := ⟨_, rfl⟩
  rw [hpiece] at hat
  have hall : ∀ p ∈ (List.range n).map piece, ∃ i, ReadAt files input blockSize i p := by
    intro p hp
    obtain ⟨i, hi, rfl⟩ := List.mem_map.mp hp
    exact ⟨i, hat i (List.mem_range.mp hi)⟩
  obtain ⟨bbl, hfold, hvalid, hsame, hreadEq⟩ := foldlM_queueBb_spec
    (valid_new files blockSize) hsize hfour
    (fun p hp => by obtain ⟨i, hi⟩ := hall p hp; exact hi.fits)
    ((ordered_pieces hat).imp fun hle => Or.inl hle) (fun _ _ _ => Or.inr rfl) (by
      have hle := weight_pieces hsize hat le_rfl
      simp only [backedBlockListNew, List.map_nil, List.sum_nil]
      omega)
  have havail := foldlM_queueBb_forall (available_of_mergeBb files) hfold
    (fun p hp => by obtain ⟨i, hi⟩ := hall p hp; exact hi.available)
    (by simp [backedBlockListNew])
  have hsame' : bbl.blockSize = blockSize := hsame
  have hord := hvalid.ordered
  have hfits := hvalid.fits
  rw [hsame'] at hord hfits
  have hreadAll : ∀ j, (extents files blockSize).read bbl.dataBlocks j =
      if j < n * blockSize then some (input.getD j 0) else none := by
    intro j
    rw [← read_pieces hat le_rfl j]
    exact (hreadEq j).trans (Option.none_or)
  have hwritable : Writable files blockSize 0 bbl.dataBlocks :=
    ⟨hfits, havail, hord, fun _ _ => Nat.zero_le _⟩
  refine ⟨bbl, ?_, hwritable, endBlock_eq_of_read hsize hwritable hreadAll, hreadAll⟩
  have heq := @readNormal_eq _ fd input (sparseFileNew blockSize input.length) hsize hword rfl
  simp only [sparseFileNew, hn, hpiece, hfold] at heq
  exact heq

/-! ## From raw to sparse -/

/-- The block list of a raw image, in its own file. -/
theorem img2simg_eq [Build] (hfd : files.fd fd = input) (hsize : 1024 ≤ blockSize)
    (hfour : blockSize % 4 = 0) (hword : blockSize < 2 ^ 31)
    (hsmall : divRoundUp input.length blockSize * blockSize + blockSize ≤ 2 ^ 32) :
    ∃ l, img2simg files fd blockSize =
        (if Build.ndebug = true ∨ input.length % blockSize = 0 then
          some (encodeImage files blockSize (divRoundUp input.length blockSize) l) else none) ∧
      Writable files blockSize 0 l ∧
      endBlock blockSize 0 l = divRoundUp input.length blockSize ∧
      ∀ j, (extents files blockSize).read l j =
        if j < divRoundUp input.length blockSize * blockSize then some (input.getD j 0)
        else none := by
  have hpos : 0 < blockSize := by omega
  obtain ⟨bbl, hread, hwritable, hend, hall⟩ := readNormal_spec hfd hpos hfour (by omega) hsmall
  refine ⟨bbl.dataBlocks, ?_, hwritable, hend, hall⟩
  unfold img2simg
  rw [if_neg (by omega)]
  simp only [hfd, hread, Option.bind_eq_bind, Option.bind_some]
  by_cases hwritten : Build.ndebug = true ∨ input.length % blockSize = 0
  · have hwhole : input.length = divRoundUp input.length blockSize * blockSize ∨
        Build.ndebug = true ∧
          endBlock blockSize 0 bbl.dataBlocks = divRoundUp input.length blockSize := by
      rcases hwritten with hndebug | hmod
      · exact .inr ⟨hndebug, hend⟩
      · exact .inl (roundUp_eq_self hpos hmod).symm
    rw [if_pos hwritten, @write_sparse_spec _ files ⟨blockSize, input.length, bbl⟩ hpos hword _ rfl
      hwhole hwritable (le_of_eq hend)]
    rfl
  · obtain ⟨hndebug, hmod⟩ := not_or.mp hwritten
    have hlong : input.length < endBlock blockSize 0 bbl.dataBlocks * blockSize := by
      have hle : input.length ≤ divRoundUp input.length blockSize * blockSize :=
        le_roundUp hpos input.length
      have hne : input.length ≠ divRoundUp input.length blockSize * blockSize := by
        intro heq
        rw [heq, Nat.mul_mod_left] at hmod
        exact hmod rfl
      rw [hend]
      omega
    rw [if_neg hwritten, @write_sparse_none _ (eq_false_of_ne_true hndebug) files
      ⟨blockSize, input.length, bbl⟩ hpos hwritable hlong]
    rfl

/-- A block size that is no `int`. -/
theorem img2simg_none [Build] (hword : blockSize < 2 ^ 32) (hlarge : 2 ^ 31 ≤ blockSize) :
    img2simg files fd blockSize = none := by
  have hread := @readNormal_eq _ fd (files.fd fd) (sparseFileNew blockSize (files.fd fd).length)
    (by simp only [sparseFileNew]; omega) hword rfl
  have hwrite : ∀ bbl, ((sparseFileNew blockSize (files.fd fd).length).withBlocks bbl).write files
      ⟨[], 0⟩ true = none := fun bbl => if_pos hlarge
  unfold img2simg
  split
  · rfl
  · simp only [Option.bind_eq_bind]
    rw [hread]
    cases List.foldlM queueBb _ _ with
    | none => rfl
    | some bbl => rw [Option.map_some, Option.bind_some, hwrite, Option.bind_none]

end Blocks

/-! ## Writing images over each other -/

/-- The reader makes of a sparse image of `total` blocks the bytes of `read`. -/
def Imports [Build] (files : Files) (blockSize total : ℕ) (read : ℕ → Option UInt8)
    (fd : ℤ) : Prop :=
  ∃ bbl, sparseFileImport files fd = some ⟨blockSize, total * blockSize, bbl⟩ ∧
    Writable files blockSize 0 bbl.dataBlocks ∧
    endBlock blockSize 0 bbl.dataBlocks ≤ total ∧
    ∀ i, (extents files blockSize).read bbl.dataBlocks i = read i

section Join

variable [Build] {files : Files} {blockSize total : ℕ}

/-- An image over what is in the file. -/
theorem Imports.write (hsize : 0 < blockSize) (hfour : blockSize % 4 = 0)
    (hword : blockSize < 2 ^ 31) {read : ℕ → Option UInt8} {fd : ℤ}
    (h : Imports files blockSize total read fd) {content : Bytes}
    (hpad : ∀ i, read i ≠ none → content.getD i 0 = 0) :
    ∃ s f, sparseFileImport files fd = some s ∧ s.write files ⟨content, 0⟩ false = some f ∧
      f.content = (List.range (total * blockSize)).map fun i =>
        (read i).getD (content.getD i 0) := by
  obtain ⟨bbl, himport, hwritable, hend, hread⟩ := h
  have hzero : PadZero blockSize content bbl.dataBlocks := by
    intro bb hbb i hlow hhigh
    refine hpad i ?_
    rw [← hread, Ne, Extents.read_eq_none_iff]
    intro hnone
    exact hnone bb hbb ⟨by simp only [extents]; omega, hhigh⟩
  obtain ⟨f, hwrite, hcontent⟩ := @write_raw_spec files _ ⟨blockSize, total * blockSize, bbl⟩
    hsize hfour hword hwritable content hzero (Nat.mul_le_mul_right _ hend)
  simp only [hread] at hcontent
  exact ⟨_, f, himport, hwrite, hcontent⟩

/-- Images that do not overlap, over what is in the file. -/
theorem foldlM_simg2img (hsize : 0 < blockSize) (hfour : blockSize % 4 = 0)
    (hword : blockSize < 2 ^ 31) {reads : List (ℕ → Option UInt8)} {fds : List ℤ}
    (h : List.Forall₂ (Imports files blockSize total) reads fds)
    (hapart : reads.Pairwise fun f g => ∀ i, f i = none ∨ g i = none) (hne : reads ≠ [])
    (out : OutFd) (hpad : ∀ read ∈ reads, ∀ i, read i ≠ none → out.content.getD i 0 = 0) :
    ∃ out', fds.foldlM (fun (out : OutFd) fd => do
        let s ← sparseFileImport files fd
        s.write files { out with pos := 0 } false) out = some out' ∧
      out'.content = (List.range (total * blockSize)).map fun i =>
        (reads.findSome? (· i)).getD (out.content.getD i 0) := by
  induction h generalizing out with
  | nil => exact absurd rfl hne
  | @cons read fd reads fds hread hrest ih =>
      obtain ⟨hhead, htail⟩ := List.pairwise_cons.mp hapart
      obtain ⟨hpadHead, hpadTail⟩ := List.forall_mem_cons.mp hpad
      obtain ⟨s, f, himport, hwrite, hcontent⟩ := hread.write hsize hfour hword hpadHead
      have hstep : (do
          let s ← sparseFileImport files fd
          s.write files { out with pos := 0 } false) = some f := by
        rw [himport]
        exact hwrite
      rw [List.foldlM_cons, hstep]
      cases hrest with
      | nil =>
          refine ⟨f, rfl, ?_⟩
          rw [hcontent]
          simp only [List.findSome?_cons, List.findSome?_nil]
          apply List.map_congr_left
          intro i _
          cases read i <;> rfl
      | @cons read' fd' reads fds hread' hrest =>
          have hbyte : ∀ i, i < total * blockSize → f.content.getD i 0 =
              (read i).getD (out.content.getD i 0) := by
            intro i hi
            rw [hcontent, List.getD_eq_getElem?_getD, List.getElem?_map, List.getElem?_range hi]
            rfl
          have hpad' : ∀ g ∈ read' :: reads, ∀ i, g i ≠ none → f.content.getD i 0 = 0 := by
            intro g hg i hi
            by_cases hlt : i < total * blockSize
            · rw [hbyte i hlt, (hhead g hg i).resolve_right hi, Option.getD_none]
              exact hpadTail g hg i hi
            · rw [hcontent, List.getD_eq_getElem?_getD, List.getElem?_eq_none (by simpa using hlt)]
              rfl
          obtain ⟨out', hfold, hout⟩ := ih htail (List.cons_ne_nil _ _) f hpad'
          refine ⟨out', hfold, ?_⟩
          rw [hout]
          apply List.map_congr_left
          intro i hi
          have hcons : (read :: read' :: reads).findSome? (· i) =
              (read i).or ((read' :: reads).findSome? (· i)) := by
            rw [List.findSome?_cons]
            cases read i <;> rfl
          rw [hbyte i (List.mem_range.mp hi), hcons]
          cases hr : read i with
          | none => rfl
          | some v =>
              have hnone : (read' :: reads).findSome? (· i) = none := by
                rw [List.findSome?_eq_none_iff]
                intro g hg
                exact (hhead g hg i).resolve_left (by rw [hr]; exact Option.some_ne_none _)
              rw [hnone]
              rfl

theorem simg2img_spec (hsize : 0 < blockSize) (hfour : blockSize % 4 = 0)
    (hword : blockSize < 2 ^ 31) {reads : List (ℕ → Option UInt8)} {fds : List ℤ}
    (h : List.Forall₂ (Imports files blockSize total) reads fds)
    (hapart : reads.Pairwise fun f g => ∀ i, f i = none ∨ g i = none) (hne : reads ≠ []) :
    simg2img files fds =
      some ((List.range (total * blockSize)).map fun i => (reads.findSome? (· i)).getD 0) := by
  obtain ⟨out, hfold, hcontent⟩ := foldlM_simg2img hsize hfour hword h hapart hne ⟨[], 0⟩
    (fun _ _ _ _ => rfl)
  unfold simg2img
  rw [hfold, Option.bind_eq_bind, Option.bind_some, hcontent]
  rfl

end Join

/-- It does not matter in which order images that do not overlap are written. -/
theorem simg2img_perm [Build] (files : Files) (blockSize total : ℕ) (hsize : 0 < blockSize)
    (hfour : blockSize % 4 = 0) (hword : blockSize < 2 ^ 31)
    (images images' : List ((ℕ → Option UInt8) × ℤ))
    (himports : ∀ image ∈ images, Imports files blockSize total image.1 image.2)
    (hapart : images.Pairwise fun a b => ∀ i, a.1 i = none ∨ b.1 i = none)
    (hperm : images.Perm images') :
    simg2img files (images.map Prod.snd) = simg2img files (images'.map Prod.snd) := by
  rcases images.eq_nil_or_concat' with rfl | ⟨init, last, hcons⟩
  · rw [List.nil_perm.mp hperm]
  have hne : images ≠ [] := by
    rw [hcons]
    simp
  have hspec : ∀ l : List ((ℕ → Option UInt8) × ℤ), l.Perm images →
      simg2img files (l.map Prod.snd) = some ((List.range (total * blockSize)).map fun i =>
        ((l.map Prod.fst).findSome? (· i)).getD 0) := by
    intro l hl
    refine simg2img_spec hsize hfour hword ?_ (List.pairwise_map.mpr ?_) ?_
    · rw [List.forall₂_map_left_iff, List.forall₂_map_right_iff, List.forall₂_same]
      exact fun image himage => himports image (hl.subset himage)
    · exact hl.symm.pairwise hapart fun h i => (h i).symm
    · intro hnil
      rw [List.map_eq_nil_iff.mp hnil] at hl
      exact hne (List.nil_perm.mp hl)
  rw [hspec images (List.Perm.refl _), hspec images' hperm.symm]
  refine congrArg some (List.map_congr_left fun i _ => congrArg (Option.getD · 0) ?_)
  clear hspec himports hne hcons
  induction hperm with
  | nil => rfl
  | cons a _ ih =>
      rw [List.map_cons, List.map_cons, List.findSome?_cons, List.findSome?_cons,
        ih (List.pairwise_cons.mp hapart).2]
  | swap a b l =>
      obtain ⟨hhead, -⟩ := List.pairwise_cons.mp hapart
      have hor := hhead a List.mem_cons_self i
      simp only [List.map_cons, List.findSome?_cons]
      rcases hor with hnone | hnone
      · rw [hnone]
      · rw [hnone]
  | trans h₁ _ ih₁ ih₂ =>
      exact (ih₁ hapart).trans (ih₂ (h₁.pairwise hapart fun h i => (h i).symm))

/-- Two images of a word each, in both orders. -/
theorem simg2img_perm_swap : let _ : Build := ⟨false⟩
    simg2img ⟨fun _ => none, fun n => if n = 0
        then encodeImage ⟨fun _ => none, fun _ => []⟩ 16 9 [⟨1, 32, .fill 9⟩]
        else encodeImage ⟨fun _ => none, fun _ => []⟩ 16 9 [⟨5, 48, .fill 7⟩]⟩ [0, 1] =
      simg2img ⟨fun _ => none, fun n => if n = 0
        then encodeImage ⟨fun _ => none, fun _ => []⟩ 16 9 [⟨1, 32, .fill 9⟩]
        else encodeImage ⟨fun _ => none, fun _ => []⟩ 16 9 [⟨5, 48, .fill 7⟩]⟩ [1, 0] := by
  intro build
  have hwritable : ∀ bb : BackedBlock, bb.Fits 16 → bb.backing.isFill = true →
      Writable ⟨fun _ => none, fun _ => []⟩ 16 0 [bb] := by
    intro bb hfits hfill
    obtain ⟨val, hval⟩ := Backing.exists_of_isFill hfill
    refine ⟨List.forall_mem_singleton.mpr hfits, List.forall_mem_singleton.mpr ?_,
      List.pairwise_singleton _ _, fun _ _ => Nat.zero_le _⟩
    rw [BackedBlock.Available, hval]
    trivial
  refine simg2img_perm _ 16 9 (by decide) (by decide) (by decide)
    [((extents ⟨fun _ => none, fun _ => []⟩ 16).read [⟨1, 32, .fill 9⟩], 0),
      ((extents ⟨fun _ => none, fun _ => []⟩ 16).read [⟨5, 48, .fill 7⟩], 1)] _ ?_ ?_
    (List.Perm.swap _ _ [])
  · refine List.forall_mem_cons.mpr ⟨?_, List.forall_mem_singleton.mpr ?_⟩
    · exact sparseFileImport_encodeImage (by decide) (by decide)
        (hwritable ⟨1, 32, .fill 9⟩ ⟨by decide, by decide, by decide, by decide⟩ rfl) (by decide)
        (by decide) rfl
    · exact sparseFileImport_encodeImage (by decide) (by decide)
        (hwritable ⟨5, 48, .fill 7⟩ ⟨by decide, by decide, by decide, by decide⟩ rfl) (by decide)
        (by decide) rfl
  · refine List.pairwise_pair.mpr (Extents.read_or_of_le ?_)
    simp only [List.mem_singleton]
    rintro a rfl b rfl
    decide

/-! ## The tools together -/

/-- What `simg2img` makes of the image of `img2simg` is the raw image, with zeros up to the end of
its last block. -/
theorem simg2img_img2simg [Build] (files files' : Files) (fd fd' : ℤ) (blockSize : ℕ)
    (hsmall : chunkHeaderLen + roundUp blockSize (files.fd fd).length + blockSize ≤ 2 ^ 32)
    (h : img2simg files fd blockSize = some (files'.fd fd')) :
    simg2img files' [fd'] =
      some (files.fd fd ++ List.replicate (gap blockSize (files.fd fd).length) 0) := by
  have hvalid : ¬ (blockSize < 1024 ∨ blockSize % 4 ≠ 0) := by
    intro hinvalid
    rw [img2simg, if_pos hinvalid] at h
    cases h
  have hsize : 1024 ≤ blockSize := by omega
  have hfour : blockSize % 4 = 0 := by omega
  have hpos : 0 < blockSize := by omega
  have h12 : chunkHeaderLen = 12 := rfl
  have hword : blockSize < 2 ^ 31 := by
    by_contra hlarge
    rw [img2simg_none (by omega) (by omega)] at h
    cases h
  obtain ⟨input, hfd⟩ : ∃ x, files.fd fd = x := ⟨_, rfl⟩
  rw [hfd] at hsmall ⊢
  obtain ⟨total, htotal⟩ : ∃ x, divRoundUp input.length blockSize = x := ⟨_, rfl⟩
  have hround : roundUp blockSize input.length = total * blockSize := by
    rw [← htotal]
    rfl
  rw [hround] at hsmall
  obtain ⟨l, heq, hwritable, hend, hread⟩ :=
    img2simg_eq hfd hsize hfour hword (by rw [htotal]; omega)
  rw [heq] at h
  split at h
  swap
  · cases h
  rw [htotal] at h hend hread
  obtain ⟨bbl, himport, hwritable', hend', hread'⟩ := sparseFileImport_encodeImage hpos hfour
    hwritable (le_of_eq hend) (by omega) (Option.some.inj h).symm
  have himports : Imports files' blockSize total
      (fun i => if i < total * blockSize then some (input.getD i 0) else none) fd' :=
    ⟨bbl, himport, hwritable', hend', fun i => (hread' i).trans (hread i)⟩
  rw [simg2img_spec hpos hfour hword (List.Forall₂.cons himports List.Forall₂.nil)
    (List.pairwise_singleton _ _) (List.cons_ne_nil _ _)]
  have hlength : (input ++ List.replicate (gap blockSize input.length) (0 : UInt8)).length =
      total * blockSize := by
    rw [List.length_append, List.length_replicate, ← hround]
    exact add_gap hpos input.length
  have hall := take_eq_map_getD (le_of_eq hlength.symm)
  rw [← hlength, List.take_length] at hall
  conv_rhs => rw [hall, hlength]
  refine congrArg some (List.map_congr_left ?_)
  intro i hi
  have hlt := List.mem_range.mp hi
  simp only [List.findSome?_cons, if_pos hlt, Option.getD_some]
  by_cases hin : i < input.length
  · rw [List.getD_eq_getElem?_getD, List.getD_eq_getElem?_getD, List.getElem?_append_left hin]
  · rw [List.getD_eq_getElem?_getD, List.getD_eq_getElem?_getD,
      List.getElem?_append_right (by omega), List.getElem?_eq_none (by omega),
      List.getElem?_replicate]
    split <;> rfl

/-- Three bytes, in a build without assertions. -/
theorem simg2img_img2simg_short : let _ : Build := ⟨true⟩
    ∃ image, img2simg ⟨fun _ => none, fun _ => [1, 2, 3]⟩ 3 1024 = some image ∧
      simg2img ⟨fun _ => none, fun _ => image⟩ [4] =
        some ([1, 2, 3] ++ List.replicate 1021 0) := by
  intro build
  obtain ⟨l, heq, -⟩ := @img2simg_eq ⟨fun _ => none, fun _ => [1, 2, 3]⟩ 3 [1, 2, 3] 1024 build rfl
    (by decide) (by decide) (by decide) (by decide)
  rw [if_pos (.inl rfl)] at heq
  exact ⟨_, heq, simg2img_img2simg ⟨fun _ => none, fun _ => [1, 2, 3]⟩
    ⟨fun _ => none, fun _ => _⟩ 3 4 1024 (by decide) heq⟩

/-- With assertions, `img2simg` comes to its end for the images whose size is a multiple of that
of a block, and without them for all. -/
theorem isSome_img2simg_iff [Build] (files : Files) (fd : ℤ) (blockSize : ℕ)
    (hword : blockSize < 2 ^ 32)
    (hsmall : roundUp blockSize (files.fd fd).length + blockSize ≤ 2 ^ 32) :
    (img2simg files fd blockSize).isSome = true ↔
      (1024 ≤ blockSize ∧ blockSize % 4 = 0 ∧ blockSize < 2 ^ 31) ∧
        (Build.ndebug = true ∨ (files.fd fd).length % blockSize = 0) := by
  by_cases hinvalid : blockSize < 1024 ∨ blockSize % 4 ≠ 0
  · rw [img2simg, if_pos hinvalid]
    exact iff_of_false Bool.false_ne_true fun h => by omega
  by_cases hlarge : 2 ^ 31 ≤ blockSize
  · rw [img2simg_none hword hlarge]
    exact iff_of_false Bool.false_ne_true fun h => by omega
  have hvalid : 1024 ≤ blockSize ∧ blockSize % 4 = 0 ∧ blockSize < 2 ^ 31 := by omega
  obtain ⟨l, heq, -⟩ := img2simg_eq rfl hvalid.1 hvalid.2.1 hvalid.2.2 hsmall
  rw [heq, and_iff_right hvalid]
  by_cases hwritten : Build.ndebug = true ∨ (files.fd fd).length % blockSize = 0
  · rw [if_pos hwritten]
    exact iff_of_true rfl hwritten
  · rw [if_neg hwritten]
    exact iff_of_false Bool.false_ne_true hwritten

/-- Less than a block, in the build of the Makefile. -/
theorem isSome_img2simg_iff_short : let _ : Build := ⟨false⟩
    (img2simg ⟨fun _ => none, fun _ => [1, 2, 3]⟩ 3 1024).isSome = true ↔
      (1024 ≤ 1024 ∧ 1024 % 4 = 0 ∧ 1024 < 2 ^ 31) ∧
        (false = true ∨ ([1, 2, 3] : Bytes).length % 1024 = 0) :=
  @isSome_img2simg_iff ⟨false⟩ ⟨fun _ => none, fun _ => [1, 2, 3]⟩ 3 1024 (by decide) (by decide)

end Libsparse

end BootImageEditor
