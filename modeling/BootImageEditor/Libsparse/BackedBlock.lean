import BootImageEditor.Library.Align
import BootImageEditor.Library.Endian
import BootImageEditor.Library.Extents
import BootImageEditor.Library.Segments
import Mathlib.Data.List.TakeWhile

/-!
# Backed blocks

The list of blocks that libsparse keeps of an image. A block is backed by memory, by a part of
a file, or by a word that fills it. The list is kept in the order of the blocks, whatever the
order in which they are queued, and neighbours are merged where their backing goes on.

Numbers of blocks and lengths are `unsigned int`s, so a sum of lengths wraps at `2 ^ 32`. A
pointer to a node of the list is the number of its first block; where two nodes have the same
number, the search goes the same way from both.
-/

namespace BootImageEditor

open Codec

namespace Libsparse

/-- How the library is built. The Makefile leaves the assertions in, and the Gradle build defines
`NDEBUG`, which takes them out. -/
class Build where
  ndebug : Bool

/-- The union of `struct backed_block`, with the pointer `data` as the bytes behind it. -/
inductive Backing where
  | data (data : Bytes)
  | file (filename : Bytes) (offset : ℕ)
  | fd (fd : ℤ) (offset : ℕ)
  | fill (val : UInt32)
  deriving DecidableEq

structure BackedBlock where
  block : ℕ
  len : ℕ
  backing : Backing
  deriving DecidableEq

structure BackedBlockList where
  dataBlocks : List BackedBlock
  lastUsed : Option ℕ
  blockSize : ℕ

/-- `backed_block_list_new`. -/
def backedBlockListNew (blockSize : ℕ) : BackedBlockList := ⟨[], none, blockSize⟩

inductive Merge where
  | aborted
  | invalid
  | merged (a : BackedBlock)

/-- The offsets go on, or the words are the same. -/
def Backing.continues (len : ℕ) : Backing → Backing → Bool
  | .fill a, .fill b => a = b
  | .file filename offset, .file filename' offset' =>
      filename = filename' ∧ offset + len = offset'
  | .fd n offset, .fd n' offset' => n = n' ∧ offset + len = offset'
  | _, _ => false

section

variable [Build]

/-- `merge_bb(bbl, a, b)`. -/
def mergeBb (blockSize : ℕ) (a : BackedBlock) : Option BackedBlock → Merge
  | none => .invalid
  | some b =>
      -- `assert(a->block < b->block)`
      if Build.ndebug = false ∧ ¬ a.block < b.block then .aborted
      else if (a.block + a.len / blockSize) % 2 ^ 32 ≠ b.block then .invalid
      else if a.backing.continues a.len b.backing then
        .merged { a with len := (a.len + b.len) % 2 ^ 32 }
      else .invalid

/-- `new_bb` between `bb` and the rest, merged with both neighbours; with it the new
`last_used`. -/
def insertBehind (blockSize : ℕ) (newBb bb : BackedBlock) (rest : List BackedBlock) :
    Option (List BackedBlock × ℕ) :=
  match mergeBb blockSize newBb rest.head? with
  | .aborted => none
  | .invalid =>
      match mergeBb blockSize bb (some newBb) with
      | .aborted => none
      | .invalid => some (bb :: newBb :: rest, newBb.block)
      | .merged bb => some (bb :: rest, bb.block)
  | .merged newBb =>
      match mergeBb blockSize bb (some newBb) with
      | .aborted => none
      | .invalid => some (bb :: newBb :: rest.tail, newBb.block)
      | .merged bb => some (bb :: rest.tail, bb.block)

/-- The search from `bb` on. -/
def insertFrom (blockSize : ℕ) (newBb : BackedBlock) :
    BackedBlock → List BackedBlock → Option (List BackedBlock × ℕ)
  | bb, [] => insertBehind blockSize newBb bb []
  | bb, next :: rest =>
      if next.block < newBb.block then do
        let (rest, lastUsed) ← insertFrom blockSize newBb next rest
        some (bb :: rest, lastUsed)
      else insertBehind blockSize newBb bb (next :: rest)

/-- The block the search starts from: the one that was added last, if it is in front. -/
def searchStart (bbl : BackedBlockList) (first newBb : BackedBlock) : ℕ :=
  match bbl.lastUsed with
  | some lastUsed => if lastUsed < newBb.block then lastUsed else first.block
  | none => first.block

/-- `queue_bb`; `none` where an assertion fails. -/
def queueBb (bbl : BackedBlockList) (newBb : BackedBlock) : Option BackedBlockList :=
  match bbl.dataBlocks with
  | [] => some { bbl with dataBlocks := [newBb] }
  | first :: _ =>
      if newBb.block < first.block then
        some { bbl with dataBlocks := newBb :: bbl.dataBlocks }
      else
        let start := searchStart bbl first newBb
        match bbl.dataBlocks.dropWhile (·.block ≠ start) with
        | [] => none
        | bb :: rest => do
            let (rest, lastUsed) ← insertFrom bbl.blockSize newBb bb rest
            some { bbl with
              dataBlocks := bbl.dataBlocks.takeWhile (·.block ≠ start) ++ rest
              lastUsed := some lastUsed }

end

/-- What is behind a number of bytes. -/
def Backing.behind (maxLen : ℕ) : Backing → Backing
  | data bytes => data (bytes.drop maxLen)
  | file filename offset => file filename (offset + maxLen)
  | fd n offset => fd n (offset + maxLen)
  | fill val => fill val

/-- `backed_block_split(bbl, bb, max_len)`: the two parts, if there are two. -/
def backedBlockSplit (blockSize : ℕ) (bb : BackedBlock) (maxLen : ℕ) :
    BackedBlock × Option BackedBlock :=
  let maxLen := maxLen / blockSize * blockSize
  if bb.len ≤ maxLen then (bb, none)
  else ({ bb with len := maxLen },
    some ⟨(bb.block + maxLen / blockSize) % 2 ^ 32, bb.len - maxLen, bb.backing.behind maxLen⟩)

/-- The blocks behind the last one that is not behind `start`. -/
def insertBlocks (start : BackedBlock) (moved : List BackedBlock) :
    List BackedBlock → List BackedBlock
  | [] => moved
  | [bb] => bb :: moved
  | bb :: next :: rest =>
      if start.block < next.block then bb :: (moved ++ next :: rest)
      else bb :: insertBlocks start moved (next :: rest)

/-- `backed_block_list_move`, with the list that blocks are moved to and those blocks. -/
def backedBlockListMove (bbl : BackedBlockList) : List BackedBlock → BackedBlockList
  | [] => bbl
  | start :: rest =>
      { bbl with dataBlocks := insertBlocks start (start :: rest) bbl.dataBlocks, lastUsed := none }

/-! ## What a list of blocks stands for -/

/-- The files that blocks refer to. -/
structure Files where
  file : Bytes → Option Bytes
  fd : ℤ → Bytes

namespace Backing

/-- The bytes from the start of a block on; a word is written in the order of the machine. -/
def byteAt (files : Files) : Backing → ℕ → UInt8
  | data bytes, i => bytes.getD i 0
  | file filename offset, i => ((files.file filename).getD []).getD (offset + i) 0
  | fd n offset, i => (files.fd n).getD (offset + i) 0
  | fill val, i => (ByteOrder.littleEndian.encode 4 val.toNat).getD (i % 4) 0

def isFill : Backing → Bool
  | fill _ => true
  | _ => false

def isData : Backing → Bool
  | data _ => true
  | _ => false

theorem exists_of_isFill {b : Backing} (h : b.isFill = true) : ∃ val, b = fill val := by
  cases b with
  | fill val => exact ⟨val, rfl⟩
  | data | file | fd => cases h

/-- Where a backing goes on in another one, their bytes do. -/
theorem byteAt_continues {files : Files} {a b : Backing} {len : ℕ} (hlen : len % 4 = 0)
    (h : a.continues len b = true) (i : ℕ) : a.byteAt files (len + i) = b.byteAt files i := by
  cases a <;> cases b <;> simp only [continues, decide_eq_true_eq, Bool.false_eq_true] at h
  · obtain ⟨rfl, rfl⟩ := h
    rw [byteAt, byteAt, Nat.add_assoc]
  · obtain ⟨rfl, rfl⟩ := h
    rw [byteAt, byteAt, Nat.add_assoc]
  · obtain rfl := h
    rw [byteAt, byteAt, Nat.add_mod, hlen, Nat.zero_add, Nat.mod_mod]

/-- Bytes in memory are not merged, and words only with words. -/
theorem kind_of_continues {a b : Backing} {len : ℕ} (h : a.continues len b = true) :
    a.isData = false ∧ b.isData = false ∧ a.isFill = b.isFill := by
  cases a <;> cases b <;> first | exact ⟨rfl, rfl, rfl⟩ | exact absurd h Bool.false_ne_true

end Backing

/-- A range of positions, with bytes up to a length and zeros behind them. -/
def rangeCell (lo hi len : ℕ) (byteAt : ℕ → UInt8) (i : ℕ) : Option UInt8 :=
  if lo ≤ i ∧ i < hi then some (if i - lo < len then byteAt (i - lo) else 0) else none

theorem rangeCell_append {lo mid hi len len' : ℕ} {byteAt byteAt' : ℕ → UInt8}
    (hmid : mid = lo + len) (hhi : mid ≤ hi) (h : ∀ i, byteAt (len + i) = byteAt' i) (i : ℕ) :
    rangeCell lo hi (len + len') byteAt i =
      (rangeCell lo mid len byteAt i).or (rangeCell mid hi len' byteAt' i) := by
  subst hmid
  unfold rangeCell
  by_cases hlow : lo ≤ i
  swap
  · have hall : ∀ n, ¬ (lo ≤ i ∧ i < n) := fun n hr => hlow hr.1
    have hbehind : ¬ (lo + len ≤ i ∧ i < hi) := fun hr => hlow (by omega)
    rw [if_neg (hall _), if_neg (hall _), if_neg hbehind]
    rfl
  by_cases hlt : i < lo + len
  · have hin : lo ≤ i ∧ i < hi := ⟨hlow, by omega⟩
    have hmid : lo ≤ i ∧ i < lo + len := ⟨hlow, hlt⟩
    have hshort : i - lo < len := by omega
    have hlong : i - lo < len + len' := by omega
    rw [if_pos hin, if_pos hmid, if_pos hlong, if_pos hshort]
    rfl
  · obtain ⟨o, rfl⟩ := Nat.exists_eq_add_of_le (not_lt.mp hlt)
    have h1 : lo + len + o - lo = len + o := by omega
    have h2 : lo + len + o - (lo + len) = o := by omega
    have hfirst : ¬ (lo ≤ lo + len + o ∧ lo + len + o < lo + len) := fun hr => hlt hr.2
    have hsame : (len + o < len + len') ↔ o < len' := by omega
    have hrange : (lo ≤ lo + len + o ∧ lo + len + o < hi) ↔
        lo + len ≤ lo + len + o ∧ lo + len + o < hi := by omega
    rw [if_neg hfirst, Option.none_or, h1, h2, h]
    simp only [hsame, hrange]

namespace BackedBlock

/-- The blocks of the image that a block takes. -/
def blocks (blockSize : ℕ) (bb : BackedBlock) : ℕ := (bb.len + (blockSize - 1)) / blockSize

/-- The byte of the image at a position; behind the length there are zeros up to the end of
the last block. -/
def cell (files : Files) (blockSize : ℕ) (bb : BackedBlock) : ℕ → Option UInt8 :=
  rangeCell (bb.block * blockSize) ((bb.block + bb.blocks blockSize) * blockSize) bb.len
    (bb.backing.byteAt files)

/-- The bytes whose lengths are added up when blocks are merged. -/
def weight (bb : BackedBlock) : ℕ := if bb.backing.isData then 0 else bb.len

end BackedBlock

/-- The parts of an image that blocks cover. -/
def extents (files : Files) (blockSize : ℕ) : Extents BackedBlock UInt8 where
  lo bb := bb.block * blockSize
  hi bb := (bb.block + bb.blocks blockSize) * blockSize
  cell := BackedBlock.cell files blockSize
  covers bb i := by
    unfold BackedBlock.cell rangeCell
    split
    · next h => simp [h]
    · next h => simp [h]

/-- What is required of a block: it is not empty, words fill whole blocks, and its length with
the rest of a block and its end are `unsigned int`s. -/
structure BackedBlock.Fits (blockSize : ℕ) (bb : BackedBlock) : Prop where
  pos : 0 < bb.len
  whole : bb.backing.isFill = true → bb.len % blockSize = 0
  small : bb.len + blockSize ≤ 2 ^ 32
  bounded : bb.block + bb.blocks blockSize < 2 ^ 32

/-! ## Merging -/

section Merging

variable {files : Files} {blockSize : ℕ}

theorem BackedBlock.Fits.blocks_pos {bb : BackedBlock} (h : bb.Fits blockSize)
    (hsize : 0 < blockSize) : 0 < bb.blocks blockSize := by
  have hpos := h.pos
  exact Nat.div_pos (by omega) hsize

theorem BackedBlock.Fits.nonempty {bb : BackedBlock} (h : bb.Fits blockSize) (files : Files)
    (hsize : 0 < blockSize) :
    (extents files blockSize).lo bb < (extents files blockSize).hi bb :=
  Nat.mul_lt_mul_of_pos_right (Nat.lt_add_of_pos_right (h.blocks_pos hsize)) hsize

/-- A block that takes as many blocks as its length has whole ones. -/
theorem len_eq_of_blocks_le {bb : BackedBlock} (hsize : 0 < blockSize)
    (h : bb.blocks blockSize ≤ bb.len / blockSize) : bb.len = bb.len / blockSize * blockSize := by
  have hround : roundUp blockSize bb.len ≤ bb.len / blockSize * blockSize :=
    Nat.mul_le_mul_right blockSize h
  have hle := le_roundUp hsize bb.len
  have hdiv := Nat.div_mul_le_self bb.len blockSize
  omega

/-- Two blocks that were made one. -/
structure Joined (files : Files) (blockSize : ℕ) (a b m : BackedBlock) : Prop where
  block_eq : m.block = a.block
  blocks_eq : m.block + m.blocks blockSize = b.block + b.blocks blockSize
  fits : m.Fits blockSize
  weight_eq : m.weight = a.weight + b.weight
  cell_eq : ∀ i, m.cell files blockSize i = (a.cell files blockSize i).or (b.cell files blockSize i)

/-- What `merge_bb` does with neighbours. -/
theorem mergeBb_cases [Build] (files : Files) {a b : BackedBlock} (hsize : 0 < blockSize)
    (hfour : blockSize % 4 = 0) (ha : a.Fits blockSize) (hb : b.Fits blockSize)
    (hab : a.block + a.blocks blockSize ≤ b.block)
    (hweight : a.weight + b.weight + blockSize ≤ 2 ^ 32) :
    mergeBb blockSize a (some b) = .invalid ∨
      ∃ m, mergeBb blockSize a (some b) = .merged m ∧ Joined files blockSize a b m := by
  have hlt : a.block < b.block := by
    have hpos := ha.blocks_pos hsize
    omega
  have hbounded := hb.bounded
  rw [mergeBb, if_neg fun h => h.2 hlt]
  by_cases hnext : (a.block + a.len / blockSize) % 2 ^ 32 = b.block
  swap
  · exact Or.inl (if_pos hnext)
  rw [if_neg (not_not.mpr hnext)]
  by_cases hcont : a.backing.continues a.len b.backing = true
  swap
  · exact Or.inl (if_neg hcont)
  rw [if_pos hcont]
  have hle : a.len / blockSize ≤ a.blocks blockSize :=
    Nat.div_le_div_right (by omega)
  have hsmall : a.block + a.len / blockSize < 2 ^ 32 := by omega
  rw [Nat.mod_eq_of_lt hsmall] at hnext
  have hwhole := @len_eq_of_blocks_le blockSize a hsize (by omega)
  obtain ⟨hdataA, hdataB, hfill⟩ := Backing.kind_of_continues hcont
  have hlen : a.len + b.len + blockSize ≤ 2 ^ 32 := by
    simpa [BackedBlock.weight, hdataA, hdataB] using hweight
  rw [Nat.mod_eq_of_lt (by omega)]
  refine Or.inr ⟨_, rfl, ?_⟩
  obtain ⟨q, hq⟩ : ∃ x, a.len / blockSize = x := ⟨_, rfl⟩
  rw [hq] at hwhole hnext
  have hblocks : (a.len + b.len + (blockSize - 1)) / blockSize = q + b.blocks blockSize := by
    have hsum : a.len + b.len + (blockSize - 1) = b.len + (blockSize - 1) + blockSize * q := by
      rw [hwhole, Nat.mul_comm]
      omega
    rw [hsum, Nat.add_mul_div_left _ _ hsize, Nat.add_comm, BackedBlock.blocks]
  have haBlocks : a.blocks blockSize = q := by
    have hge : q ≤ a.blocks blockSize := by rw [← hq]; exact hle
    omega
  have hmod : a.len % 4 = 0 := by
    rw [hwhole, Nat.mul_mod, hfour]
    simp
  refine ⟨rfl, ?_, ?_, ?_, ?_⟩
  · simp only [BackedBlock.blocks]
    rw [hblocks]
    simp only [BackedBlock.blocks]
    omega
  · refine ⟨?_, ?_, hlen, ?_⟩
    · have hpos := ha.pos
      exact Nat.add_pos_left hpos _
    · intro hf
      have hA := ha.whole hf
      have hB := hb.whole (hfill ▸ hf)
      rw [Nat.add_mod, hA, hB]
      simp
    · simp only [BackedBlock.blocks]
      rw [hblocks]
      omega
  · simp [BackedBlock.weight, hdataA, hdataB]
  · intro i
    have hlo : b.block * blockSize = a.block * blockSize + a.len := by
      rw [← hnext, Nat.add_mul, ← hwhole]
    have hhiA : (a.block + a.blocks blockSize) * blockSize = b.block * blockSize := by
      rw [haBlocks, hnext]
    have hhiM : (a.block + (a.len + b.len + (blockSize - 1)) / blockSize) * blockSize =
        (b.block + b.blocks blockSize) * blockSize := by
      rw [hblocks, ← hnext, Nat.add_assoc]
    unfold BackedBlock.cell
    rw [hhiA, ← rangeCell_append hlo (Nat.mul_le_mul_right _ (Nat.le_add_right _ _))
      (Backing.byteAt_continues hmod hcont), ← hhiM]
    rfl

/-- What is merged goes on in each other. -/
theorem eq_of_mergeBb [Build] {a b m : BackedBlock}
    (h : mergeBb blockSize a (some b) = .merged m) :
    a.backing.continues a.len b.backing = true ∧
      m = { a with len := (a.len + b.len) % 2 ^ 32 } := by
  rw [mergeBb] at h
  split at h
  · cases h
  split at h
  · cases h
  split at h
  · next hcont => exact ⟨hcont, (Merge.merged.inj h).symm⟩
  · cases h

end Merging

/-! ## Queueing -/

section Queueing

variable [Build] {files : Files} {blockSize : ℕ}

/-- The block `newBb` has been added to the blocks of `l`. -/
structure Inserted (files : Files) (blockSize : ℕ) (newBb : BackedBlock)
    (l l' : List BackedBlock) : Prop where
  fits : ∀ bb ∈ l', bb.Fits blockSize
  ordered : (extents files blockSize).Ordered l'
  read_eq : ∀ i, (extents files blockSize).read l' i =
    (newBb.cell files blockSize i).or ((extents files blockSize).read l i)
  weight_eq : (l'.map BackedBlock.weight).sum = newBb.weight + (l.map BackedBlock.weight).sum

omit [Build] in
theorem blocks_le_of_hi_le_lo (hsize : 0 < blockSize) {a b : BackedBlock}
    (h : (extents files blockSize).hi a ≤ (extents files blockSize).lo b) :
    a.block + a.blocks blockSize ≤ b.block :=
  Nat.le_of_mul_le_mul_right h hsize

omit [Build] in
theorem Joined.hi_eq {a b m : BackedBlock} (h : Joined files blockSize a b m) :
    (extents files blockSize).hi m = (extents files blockSize).hi b :=
  congrArg (· * blockSize) h.blocks_eq

/-- The new block and what follows it. -/
theorem insert_next (hsize : 0 < blockSize) (hfour : blockSize % 4 = 0) {newBb : BackedBlock}
    {rest : List BackedBlock} (hnew : newBb.Fits blockSize)
    (hrest : ∀ bb ∈ rest, bb.Fits blockSize) (hord : (extents files blockSize).Ordered rest)
    (hafter : ∀ bb ∈ rest, (extents files blockSize).hi newBb ≤ (extents files blockSize).lo bb)
    (hweight : newBb.weight + (rest.map BackedBlock.weight).sum + blockSize ≤ 2 ^ 32) :
    ∃ n rest', n.block = newBb.block ∧ Inserted files blockSize newBb rest (n :: rest') ∧
      ((mergeBb blockSize newBb rest.head? = .invalid ∧ n = newBb ∧ rest' = rest) ∨
        (mergeBb blockSize newBb rest.head? = .merged n ∧ rest' = rest.tail)) := by
  have hplain : Inserted files blockSize newBb rest (newBb :: rest) :=
    ⟨List.forall_mem_cons.mpr ⟨hnew, hrest⟩, List.pairwise_cons.mpr ⟨hafter, hord⟩,
      fun i => Extents.read_cons _ _ i, by rw [List.map_cons, List.sum_cons]⟩
  cases rest with
  | nil => exact ⟨newBb, [], rfl, hplain, Or.inl ⟨rfl, rfl, rfl⟩⟩
  | cons next rest =>
      rw [List.map_cons, List.sum_cons] at hweight
      obtain ⟨hnext, hrest'⟩ := List.forall_mem_cons.mp hrest
      have hle := blocks_le_of_hi_le_lo hsize (hafter next List.mem_cons_self)
      rcases mergeBb_cases files hsize hfour hnew hnext hle (by omega) with
        hinvalid | ⟨m, hmerged, hm⟩
      · exact ⟨newBb, next :: rest, rfl, hplain, Or.inl ⟨hinvalid, rfl, rfl⟩⟩
      · refine ⟨m, rest, hm.block_eq, ⟨?_, ?_, ?_, ?_⟩, Or.inr ⟨hmerged, rfl⟩⟩
        · exact List.forall_mem_cons.mpr ⟨hm.fits, hrest'⟩
        · exact hord.replace hm.hi_eq
        · intro i
          rw [Extents.read_cons, Extents.read_cons, ← Option.or_assoc]
          exact congrArg (Option.or · _) (hm.cell_eq i)
        · simp only [List.map_cons, List.sum_cons, hm.weight_eq]
          omega

theorem insertBehind_spec (hsize : 0 < blockSize) (hfour : blockSize % 4 = 0)
    {newBb bb : BackedBlock} {rest : List BackedBlock} (hnew : newBb.Fits blockSize)
    (hfits : ∀ x ∈ bb :: rest, x.Fits blockSize)
    (hord : (extents files blockSize).Ordered (bb :: rest))
    (hbefore : (extents files blockSize).hi bb ≤ (extents files blockSize).lo newBb)
    (hafter : ∀ x ∈ rest, (extents files blockSize).hi newBb ≤ (extents files blockSize).lo x)
    (hweight : newBb.weight + ((bb :: rest).map BackedBlock.weight).sum + blockSize ≤ 2 ^ 32) :
    ∃ l' lastUsed, insertBehind blockSize newBb bb rest = some (l', lastUsed) ∧
      Inserted files blockSize newBb (bb :: rest) l' ∧ ∃ x ∈ l', x.block = lastUsed := by
  obtain ⟨hbb, hrest⟩ := List.forall_mem_cons.mp hfits
  obtain ⟨-, hordRest⟩ := List.pairwise_cons.mp hord
  rw [List.map_cons, List.sum_cons] at hweight
  obtain ⟨n, rest', hblock, hins, hnext⟩ :=
    insert_next hsize hfour hnew hrest hordRest hafter (by omega)
  obtain ⟨hn, hrest'⟩ := List.forall_mem_cons.mp hins.fits
  have hlo : (extents files blockSize).lo n = (extents files blockSize).lo newBb :=
    congrArg (· * blockSize) hblock
  have hbn : (extents files blockSize).hi bb ≤ (extents files blockSize).lo n := hlo ▸ hbefore
  have hapart : ∀ i, bb.cell files blockSize i = none ∨ newBb.cell files blockSize i = none :=
    Extents.cell_or_of_apart (E := extents files blockSize) (Or.inl hbefore)
  have hsum := hins.weight_eq
  rw [List.map_cons, List.sum_cons] at hsum
  -- what is read with the new block between its neighbours
  have hread : ∀ i, (bb.cell files blockSize i).or
      ((extents files blockSize).read (n :: rest') i) =
        (newBb.cell files blockSize i).or ((extents files blockSize).read (bb :: rest) i) := by
    intro i
    rw [hins.read_eq, Extents.read_cons, ← Option.or_assoc, ← Option.or_assoc,
      Extents.or_comm_of_none (hapart i)]
    rfl
  have hfinish : ∃ l' lastUsed,
      (match mergeBb blockSize bb (some n) with
        | .aborted => none
        | .invalid => some (bb :: n :: rest', n.block)
        | .merged bb => some (bb :: rest', bb.block)) = some (l', lastUsed) ∧
      Inserted files blockSize newBb (bb :: rest) l' ∧ ∃ x ∈ l', x.block = lastUsed := by
    rcases mergeBb_cases files hsize hfour hbb hn
        (blocks_le_of_hi_le_lo hsize hbn) (by omega) with hinvalid | ⟨m, hmerged, hm⟩
    · rw [hinvalid]
      refine ⟨_, _, rfl, ⟨?_, ?_, ?_, ?_⟩, n, by simp, rfl⟩
      · exact List.forall_mem_cons.mpr ⟨hbb, hins.fits⟩
      · exact hins.ordered.cons (le_of_lt (hn.nonempty files hsize)) hbn
      · intro i
        rw [Extents.read_cons]
        exact hread i
      · simp only [List.map_cons, List.sum_cons]
        omega
    · rw [hmerged]
      refine ⟨_, _, rfl, ⟨?_, ?_, ?_, ?_⟩, m, List.mem_cons_self, rfl⟩
      · exact List.forall_mem_cons.mpr ⟨hm.fits, hrest'⟩
      · exact hins.ordered.replace hm.hi_eq
      · intro i
        rw [← hread i, Extents.read_cons, Extents.read_cons, ← Option.or_assoc]
        exact congrArg (Option.or · _) (hm.cell_eq i)
      · simp only [List.map_cons, List.sum_cons, hm.weight_eq]
        omega
  unfold insertBehind
  rcases hnext with ⟨hinvalid, rfl, rfl⟩ | ⟨hmerged, rfl⟩
  · rw [hinvalid]
    exact hfinish
  · rw [hmerged]
    exact hfinish

omit [Build] in
/-- A block in front stays where it is. -/
theorem Inserted.cons (hsize : 0 < blockSize) {newBb bb : BackedBlock} {l l' : List BackedBlock}
    (h : Inserted files blockSize newBb l l') (hbb : bb.Fits blockSize)
    (hord : (extents files blockSize).Ordered (bb :: l))
    (hbefore : (extents files blockSize).hi bb ≤ (extents files blockSize).lo newBb) :
    Inserted files blockSize newBb (bb :: l) (bb :: l') := by
  have hne := fun x hx => (h.fits x hx).nonempty files hsize
  have hsilent : ∀ i, i < (extents files blockSize).hi bb →
      (extents files blockSize).read l' i = none := by
    intro i hi
    have hnew : newBb.cell files blockSize i = none :=
      Extents.cell_eq_none_iff.mpr fun hr : (extents files blockSize).lo newBb ≤ i ∧ _ => by omega
    rw [h.read_eq, hnew, Option.none_or, Extents.read_eq_none_iff]
    intro x hx hr
    have hle := (List.pairwise_cons.mp hord).1 x hx
    omega
  refine ⟨List.forall_mem_cons.mpr ⟨hbb, h.fits⟩, List.pairwise_cons.mpr ⟨?_, h.ordered⟩, ?_, ?_⟩
  · exact fun x hx => Extents.lo_ge_of_read hne hsilent hx
  · intro i
    have hapart : bb.cell files blockSize i = none ∨ newBb.cell files blockSize i = none :=
      Extents.cell_or_of_apart (E := extents files blockSize) (Or.inl hbefore) i
    rw [Extents.read_cons, Extents.read_cons, h.read_eq, ← Option.or_assoc, ← Option.or_assoc]
    exact congrArg (Option.or · _) (Extents.or_comm_of_none hapart)
  · rw [List.map_cons, List.map_cons, List.sum_cons, List.sum_cons, h.weight_eq]
    omega

omit [Build] in
/-- Of two blocks apart, the one with the lower number is in front. -/
theorem hi_le_lo_of_lt {a b : BackedBlock} (h : (extents files blockSize).Apart a b)
    (hsize : 0 < blockSize) (hlt : a.block < b.block) :
    (extents files blockSize).hi a ≤ (extents files blockSize).lo b := by
  refine h.resolve_right fun hba => ?_
  have hle := blocks_le_of_hi_le_lo hsize hba
  omega

theorem insertFrom_spec (hsize : 0 < blockSize) (hfour : blockSize % 4 = 0) {newBb : BackedBlock}
    (hnew : newBb.Fits blockSize) {bb : BackedBlock} {rest : List BackedBlock}
    (hfits : ∀ x ∈ bb :: rest, x.Fits blockSize)
    (hord : (extents files blockSize).Ordered (bb :: rest))
    (hbefore : (extents files blockSize).hi bb ≤ (extents files blockSize).lo newBb)
    (hapart : ∀ x ∈ rest, (extents files blockSize).Apart x newBb)
    (hweight : newBb.weight + ((bb :: rest).map BackedBlock.weight).sum + blockSize ≤ 2 ^ 32) :
    ∃ l' lastUsed, insertFrom blockSize newBb bb rest = some (l', lastUsed) ∧
      Inserted files blockSize newBb (bb :: rest) l' ∧ ∃ x ∈ l', x.block = lastUsed := by
  induction rest generalizing bb with
  | nil =>
      exact insertBehind_spec hsize hfour hnew hfits hord hbefore
        (fun x hx => absurd hx List.not_mem_nil) hweight
  | cons next rest ih =>
      obtain ⟨hbb, hfits'⟩ := List.forall_mem_cons.mp hfits
      obtain ⟨-, hord'⟩ := List.pairwise_cons.mp hord
      obtain ⟨hnextApart, hapart'⟩ := List.forall_mem_cons.mp hapart
      have hnext := hfits' next List.mem_cons_self
      rw [insertFrom]
      by_cases hlt : next.block < newBb.block
      · rw [if_pos hlt]
        rw [List.map_cons, List.sum_cons] at hweight
        obtain ⟨l', lastUsed, heq, hins, x, hx, hlast⟩ := ih hfits' hord'
          (hi_le_lo_of_lt hnextApart hsize hlt) hapart' (by omega)
        rw [heq]
        exact ⟨bb :: l', lastUsed, rfl, hins.cons hsize hbb hord hbefore, x,
          List.mem_cons_of_mem _ hx, hlast⟩
      · rw [if_neg hlt]
        have hne := hnext.nonempty files hsize
        have hfirst : (extents files blockSize).hi newBb ≤ (extents files blockSize).lo next :=
          hnextApart.resolve_left fun h => by
            have hle := blocks_le_of_hi_le_lo hsize h
            have hpos := hnext.blocks_pos hsize
            omega
        refine insertBehind_spec hsize hfour hnew hfits hord hbefore ?_ hweight
        intro x hx
        rcases List.mem_cons.mp hx with rfl | hx
        · exact hfirst
        · have hle := (List.pairwise_cons.mp hord').1 x hx
          omega

/-- What holds of a list at all times. -/
structure BackedBlockList.Valid (files : Files) (bbl : BackedBlockList) : Prop where
  fits : ∀ bb ∈ bbl.dataBlocks, bb.Fits bbl.blockSize
  ordered : (extents files bbl.blockSize).Ordered bbl.dataBlocks
  last_mem : ∀ lastUsed, bbl.lastUsed = some lastUsed →
    ∃ bb ∈ bbl.dataBlocks, bb.block = lastUsed

omit [Build] in
theorem valid_new (files : Files) (blockSize : ℕ) : (backedBlockListNew blockSize).Valid files :=
  ⟨fun _ h => absurd h List.not_mem_nil, List.Pairwise.nil, fun _ h => by cases h⟩

/-- The search may start anywhere in front of the new block. -/
theorem insert_at (hsize : 0 < blockSize) (hfour : blockSize % 4 = 0) {newBb bb : BackedBlock}
    {pre rest : List BackedBlock} (hnew : newBb.Fits blockSize)
    (hfits : ∀ x ∈ pre ++ bb :: rest, x.Fits blockSize)
    (hord : (extents files blockSize).Ordered (pre ++ bb :: rest))
    (hapart : ∀ x ∈ pre ++ bb :: rest, (extents files blockSize).Apart x newBb)
    (hlt : bb.block < newBb.block)
    (hweight : newBb.weight + ((pre ++ bb :: rest).map BackedBlock.weight).sum + blockSize ≤
      2 ^ 32) :
    ∃ l' lastUsed, insertFrom blockSize newBb bb rest = some (l', lastUsed) ∧
      Inserted files blockSize newBb (pre ++ bb :: rest) (pre ++ l') ∧
      ∃ x ∈ pre ++ l', x.block = lastUsed := by
  induction pre with
  | nil =>
      obtain ⟨hbbApart, hapart'⟩ := List.forall_mem_cons.mp hapart
      exact insertFrom_spec hsize hfour hnew hfits hord
        (hi_le_lo_of_lt hbbApart hsize hlt) hapart' hweight
  | cons a pre ih =>
      rw [List.cons_append] at hfits hord hapart hweight
      obtain ⟨ha, hfits'⟩ := List.forall_mem_cons.mp hfits
      obtain ⟨haApart, hapart'⟩ := List.forall_mem_cons.mp hapart
      obtain ⟨hhead, hord'⟩ := List.pairwise_cons.mp hord
      rw [List.map_cons, List.sum_cons] at hweight
      obtain ⟨l', lastUsed, heq, hins, x, hx, hlast⟩ := ih hfits' hord' hapart' (by omega)
      have hle := blocks_le_of_hi_le_lo hsize (hhead bb (by simp))
      exact ⟨l', lastUsed, heq,
        hins.cons hsize ha hord (hi_le_lo_of_lt haApart hsize (by omega)), x,
        List.mem_cons_of_mem _ hx, hlast⟩

omit [Build] in
/-- The list from the block on that the search starts from. -/
theorem exists_start {bbl : BackedBlockList} {first newBb : BackedBlock}
    {rest : List BackedBlock} (hblocks : bbl.dataBlocks = first :: rest)
    (hlast : ∀ u, bbl.lastUsed = some u → ∃ bb ∈ bbl.dataBlocks, bb.block = u)
    (hfirst : first.block < newBb.block) :
    ∃ pre bb tail, first :: rest = pre ++ bb :: tail ∧ bb.block < newBb.block ∧
      (first :: rest).takeWhile (·.block ≠ searchStart bbl first newBb) = pre ∧
      (first :: rest).dropWhile (·.block ≠ searchStart bbl first newBb) = bb :: tail := by
  have hmem : searchStart bbl first newBb < newBb.block ∧
      ∃ x ∈ first :: rest, x.block = searchStart bbl first newBb := by
    have hhere : ∃ x ∈ first :: rest, x.block = first.block := ⟨first, List.mem_cons_self, rfl⟩
    rw [hblocks] at hlast
    unfold searchStart
    cases hu : bbl.lastUsed with
    | none => exact ⟨hfirst, hhere⟩
    | some u =>
        simp only
        by_cases hlt : u < newBb.block
        · rw [if_pos hlt]
          exact ⟨hlt, hlast u hu⟩
        · rw [if_neg hlt]
          exact ⟨hfirst, hhere⟩
  obtain ⟨hlt, x, hx, hxstart⟩ := hmem
  obtain ⟨start, hstart⟩ : ∃ n, searchStart bbl first newBb = n := ⟨_, rfl⟩
  rw [hstart] at hlt hxstart ⊢
  have hsplit := List.takeWhile_append_dropWhile (p := fun bb : BackedBlock =>
    decide (bb.block ≠ start)) (l := first :: rest)
  rcases hdrop : (first :: rest).dropWhile (fun bb => decide (bb.block ≠ start)) with
    _ | ⟨bb, tail⟩
  · have hall := List.dropWhile_eq_nil_iff.mp hdrop x hx
    simp [hxstart] at hall
  have hbb : bb.block = start := by
    have hnot := List.head?_dropWhile_not (fun bb : BackedBlock =>
      decide (bb.block ≠ start)) (first :: rest)
    rw [hdrop] at hnot
    simpa using hnot
  rw [hdrop] at hsplit
  exact ⟨_, bb, tail, hsplit.symm, hbb ▸ hlt, rfl, hdrop⟩

/-- Queueing a block where nothing is yet. -/
theorem queueBb_spec {bbl : BackedBlockList} (hvalid : bbl.Valid files)
    (hsize : 0 < bbl.blockSize) (hfour : bbl.blockSize % 4 = 0) {newBb : BackedBlock}
    (hnew : newBb.Fits bbl.blockSize)
    (hfree : ∀ i, newBb.cell files bbl.blockSize i = none ∨
      (extents files bbl.blockSize).read bbl.dataBlocks i = none)
    (hweight : newBb.weight + (bbl.dataBlocks.map BackedBlock.weight).sum + bbl.blockSize ≤
      2 ^ 32) :
    ∃ bbl', queueBb bbl newBb = some bbl' ∧ bbl'.Valid files ∧ bbl'.blockSize = bbl.blockSize ∧
      Inserted files bbl.blockSize newBb bbl.dataBlocks bbl'.dataBlocks := by
  have hnewNe := hnew.nonempty files hsize
  have hapart : ∀ x ∈ bbl.dataBlocks, (extents files bbl.blockSize).Apart x newBb := by
    intro x hx
    refine Extents.apart_of_read hx ((hvalid.fits x hx).nonempty files hsize) hnewNe ?_
    intro i hlow hhigh
    refine (hfree i).resolve_left fun hnone => ?_
    exact Extents.cell_eq_none_iff.mp
      (show (extents files bbl.blockSize).cell newBb i = none from hnone) ⟨hlow, hhigh⟩
  obtain ⟨blocks, lastUsed, blockSize⟩ := bbl
  obtain ⟨hfits, hord, hlast⟩ := hvalid
  simp only at hsize hfour hnew hweight hfits hord hlast hapart ⊢
  unfold queueBb
  cases blocks with
  | nil =>
      refine ⟨_, rfl, ⟨?_, ?_, ?_⟩, rfl, ⟨?_, ?_, ?_, ?_⟩⟩
      · exact List.forall_mem_singleton.mpr hnew
      · exact List.pairwise_singleton _ _
      · intro u hu
        obtain ⟨x, hx, -⟩ := hlast u hu
        exact absurd hx List.not_mem_nil
      · exact List.forall_mem_singleton.mpr hnew
      · exact List.pairwise_singleton _ _
      · exact fun i => Extents.read_cons _ _ i
      · simp
  | cons first rest =>
      have hfirst := hfits first List.mem_cons_self
      have hfirstApart := hapart first List.mem_cons_self
      simp only
      by_cases hhead : newBb.block < first.block
      · have hle : (extents files blockSize).hi newBb ≤ (extents files blockSize).lo first :=
          hi_le_lo_of_lt hfirstApart.symm hsize hhead
        have hord' := hord.cons (le_of_lt (hfirst.nonempty files hsize)) hle
        rw [if_pos hhead]
        refine ⟨_, rfl, ⟨?_, hord', ?_⟩, rfl, ⟨?_, hord', ?_, ?_⟩⟩
        · exact List.forall_mem_cons.mpr ⟨hnew, hfits⟩
        · intro u hu
          obtain ⟨x, hx, hxu⟩ := hlast u hu
          exact ⟨x, List.mem_cons_of_mem _ hx, hxu⟩
        · exact List.forall_mem_cons.mpr ⟨hnew, hfits⟩
        · exact fun i => Extents.read_cons _ _ i
        · rw [List.map_cons, List.sum_cons]
      · rw [if_neg hhead]
        have hfirstLt : first.block < newBb.block := by
          rcases Nat.lt_or_ge first.block newBb.block with hlt | hge
          · exact hlt
          · rcases hfirstApart with h | h
            · have hle := blocks_le_of_hi_le_lo hsize h
              have hpos := hfirst.blocks_pos hsize
              omega
            · have hle := blocks_le_of_hi_le_lo hsize h
              have hpos := hnew.blocks_pos hsize
              omega
        obtain ⟨pre, bb, tail, hsplit, hlt, htake, hdrop⟩ :=
          @exists_start ⟨first :: rest, lastUsed, blockSize⟩ _ _ _ rfl hlast hfirstLt
        rw [hsplit] at hfits hord hapart hweight
        obtain ⟨l', last, heq, hins, y, hy, hylast⟩ :=
          insert_at hsize hfour hnew hfits hord hapart hlt hweight
        simp only [hdrop, htake, heq]
        refine ⟨_, rfl, ⟨hins.fits, hins.ordered, ?_⟩, rfl, ?_⟩
        · intro u hu
          obtain rfl := Option.some.inj hu
          exact ⟨y, hy, hylast⟩
        · rw [hsplit]
          exact hins

theorem foldlM_queueBb_spec {pieces : List BackedBlock} {bbl : BackedBlockList}
    (hvalid : bbl.Valid files) (hsize : 0 < bbl.blockSize) (hfour : bbl.blockSize % 4 = 0)
    (hfits : ∀ bb ∈ pieces, bb.Fits bbl.blockSize)
    (hapart : pieces.Pairwise (extents files bbl.blockSize).Apart)
    (hfree : ∀ bb ∈ pieces, ∀ i, bb.cell files bbl.blockSize i = none ∨
      (extents files bbl.blockSize).read bbl.dataBlocks i = none)
    (hweight : (pieces.map BackedBlock.weight).sum +
      (bbl.dataBlocks.map BackedBlock.weight).sum + bbl.blockSize ≤ 2 ^ 32) :
    ∃ bbl', pieces.foldlM queueBb bbl = some bbl' ∧ bbl'.Valid files ∧
      bbl'.blockSize = bbl.blockSize ∧
      ∀ i, (extents files bbl.blockSize).read bbl'.dataBlocks i =
        ((extents files bbl.blockSize).read bbl.dataBlocks i).or
          ((extents files bbl.blockSize).read pieces i) := by
  induction pieces generalizing bbl with
  | nil => exact ⟨bbl, rfl, hvalid, rfl, fun i => (Option.or_none).symm⟩
  | cons bb pieces ih =>
      obtain ⟨hbb, hfits'⟩ := List.forall_mem_cons.mp hfits
      obtain ⟨hbbApart, hapart'⟩ := List.pairwise_cons.mp hapart
      obtain ⟨hbbFree, hfree'⟩ := List.forall_mem_cons.mp hfree
      rw [List.map_cons, List.sum_cons] at hweight
      obtain ⟨bbl₁, hqueue, hvalid₁, hsame, hins⟩ :=
        queueBb_spec hvalid hsize hfour hbb hbbFree (by omega)
      rw [← hsame] at hsize hfour hfits' hapart'
      have hweight₁ := hins.weight_eq
      obtain ⟨bbl₂, hfold, hvalid₂, hsame₂, hread⟩ := ih hvalid₁ hsize hfour hfits' hapart' (by
        intro x hx i
        rw [hsame, hins.read_eq]
        have hxbb : bb.cell files bbl.blockSize i = none ∨ x.cell files bbl.blockSize i = none :=
          Extents.cell_or_of_apart (hbbApart x hx) i
        rcases hfree' x hx i with hnone | hnone
        · exact Or.inl hnone
        · rcases hxbb with hb | hb
          · right
            rw [hb, hnone]
            rfl
          · exact Or.inl hb) (by omega)
      refine ⟨bbl₂, ?_, hvalid₂, hsame₂.trans hsame, ?_⟩
      · rw [List.foldlM_cons, hqueue]
        exact hfold
      · intro i
        rw [hsame] at hread
        rw [hread, hins.read_eq, Extents.read_cons, ← Option.or_assoc]
        exact congrArg (Option.or · _) (Extents.or_comm_of_none (hbbFree i))

/-! ### What holds of every block -/

section Forall

variable {P : BackedBlock → Prop}
  (hmerge : ∀ {a b m}, P a → P b → mergeBb blockSize a (some b) = .merged m → P m)

include hmerge

theorem insertBehind_forall {newBb bb : BackedBlock} {rest : List BackedBlock}
    {out : List BackedBlock × ℕ} (h : insertBehind blockSize newBb bb rest = some out)
    (hnew : P newBb) (hbb : P bb) (hrest : ∀ x ∈ rest, P x) : ∀ x ∈ out.1, P x := by
  have hlast : ∀ {n : BackedBlock} {rest' : List BackedBlock}, P n → (∀ x ∈ rest', P x) →
      (match mergeBb blockSize bb (some n) with
        | .aborted => none
        | .invalid => some (bb :: n :: rest', n.block)
        | .merged bb => some (bb :: rest', bb.block)) = some out → ∀ x ∈ out.1, P x := by
    intro n rest' hn hrest' heq
    split at heq
    · cases heq
    · obtain rfl := Option.some.inj heq
      exact List.forall_mem_cons.mpr ⟨hbb, List.forall_mem_cons.mpr ⟨hn, hrest'⟩⟩
    · next m hm =>
        obtain rfl := Option.some.inj heq
        exact List.forall_mem_cons.mpr ⟨hmerge hbb hn hm, hrest'⟩
  unfold insertBehind at h
  split at h
  · cases h
  · exact hlast hnew hrest h
  · next m hm =>
      cases rest with
      | nil => cases hm
      | cons next rest =>
          obtain ⟨hnext, htail⟩ := List.forall_mem_cons.mp hrest
          exact hlast (hmerge hnew hnext hm) htail h

theorem insertFrom_forall {newBb bb : BackedBlock} {rest : List BackedBlock}
    {out : List BackedBlock × ℕ} (h : insertFrom blockSize newBb bb rest = some out)
    (hnew : P newBb) (hbb : P bb) (hrest : ∀ x ∈ rest, P x) : ∀ x ∈ out.1, P x := by
  induction rest generalizing bb out with
  | nil => exact insertBehind_forall hmerge h hnew hbb hrest
  | cons next rest ih =>
      rw [insertFrom] at h
      split at h
      · obtain ⟨hnext, htail⟩ := List.forall_mem_cons.mp hrest
        obtain ⟨⟨rest', last⟩, hrec, heq⟩ := Option.bind_eq_some_iff.mp h
        obtain rfl := Option.some.inj heq
        exact List.forall_mem_cons.mpr ⟨hbb, ih hrec hnext htail⟩
      · exact insertBehind_forall hmerge h hnew hbb hrest

end Forall

/-- What merging keeps holds of all blocks if it holds of those that are queued. -/
theorem queueBb_forall {P : BackedBlock → Prop} {bbl bbl' : BackedBlockList} {newBb : BackedBlock}
    (hmerge : ∀ {a b m}, P a → P b → mergeBb bbl.blockSize a (some b) = .merged m → P m)
    (h : queueBb bbl newBb = some bbl') (hnew : P newBb) (hall : ∀ x ∈ bbl.dataBlocks, P x) :
    bbl'.blockSize = bbl.blockSize ∧ ∀ x ∈ bbl'.dataBlocks, P x := by
  unfold queueBb at h
  split at h
  · obtain rfl := Option.some.inj h
    exact ⟨rfl, List.forall_mem_singleton.mpr hnew⟩
  split at h
  · obtain rfl := Option.some.inj h
    exact ⟨rfl, List.forall_mem_cons.mpr ⟨hnew, hall⟩⟩
  simp only at h
  split at h
  · cases h
  · next bb rest hdrop =>
      have hmem : ∀ x ∈ bb :: rest, P x := fun x hx =>
        hall x ((List.dropWhile_sublist _).subset (hdrop ▸ hx))
      obtain ⟨hbb, hrest⟩ := List.forall_mem_cons.mp hmem
      obtain ⟨⟨rest', last⟩, hins, heq⟩ := Option.bind_eq_some_iff.mp h
      obtain rfl := Option.some.inj heq
      refine ⟨rfl, ?_⟩
      intro x hx
      rcases List.mem_append.mp hx with hx | hx
      · exact hall x ((List.takeWhile_sublist _).subset hx)
      · exact insertFrom_forall hmerge hins hnew hbb hrest x hx

theorem foldlM_queueBb_forall {P : BackedBlock → Prop} {pieces : List BackedBlock}
    {bbl bbl' : BackedBlockList}
    (hmerge : ∀ {n a b m}, P a → P b → mergeBb n a (some b) = .merged m → P m)
    (h : pieces.foldlM queueBb bbl = some bbl') (hpieces : ∀ x ∈ pieces, P x)
    (hall : ∀ x ∈ bbl.dataBlocks, P x) : ∀ x ∈ bbl'.dataBlocks, P x := by
  induction pieces generalizing bbl with
  | nil =>
      obtain rfl := Option.some.inj h
      exact hall
  | cons bb pieces ih =>
      obtain ⟨hbb, hpieces'⟩ := List.forall_mem_cons.mp hpieces
      rw [List.foldlM_cons] at h
      obtain ⟨bbl₁, hqueue, hfold⟩ := Option.bind_eq_some_iff.mp h
      exact ih hfold hpieces' (queueBb_forall hmerge hqueue hbb hall).2

end Queueing

/-- Blocks may be queued in any order. As long as no two of them overlap, no assertion fails,
the list is in the order of the blocks and free of overlaps, and every byte of the image is
the one of the block that was queued for it, however the blocks were merged. -/
theorem foldlM_queueBb [Build] (files : Files) (blockSize : ℕ) (hsize : 0 < blockSize)
    (hfour : blockSize % 4 = 0) (pieces : List BackedBlock)
    (hfits : ∀ bb ∈ pieces, bb.Fits blockSize)
    (hapart : pieces.Pairwise (extents files blockSize).Apart)
    (hweight : (pieces.map BackedBlock.weight).sum + blockSize ≤ 2 ^ 32) :
    ∃ bbl, pieces.foldlM queueBb (backedBlockListNew blockSize) = some bbl ∧
      (extents files blockSize).Ordered bbl.dataBlocks ∧
      (∀ bb ∈ bbl.dataBlocks, bb.Fits blockSize) ∧
      ∀ i, (extents files blockSize).read bbl.dataBlocks i =
        (extents files blockSize).read pieces i := by
  obtain ⟨bbl, hfold, hvalid, hsame, hread⟩ := foldlM_queueBb_spec (valid_new files blockSize)
    hsize hfour hfits hapart (fun _ _ _ => Or.inr rfl) (by simpa [backedBlockListNew] using hweight)
  have hsame' : bbl.blockSize = blockSize := hsame
  have hord := hvalid.ordered
  have hall := hvalid.fits
  rw [hsame'] at hord hall
  exact ⟨bbl, hfold, hord, hall, fun i => (hread i).trans (Option.none_or)⟩

/-- Four blocks out of order, of which two are merged. -/
theorem foldlM_queueBb_outOfOrder : let _ : Build := ⟨false⟩
    ∃ bbl, [⟨5, 4096, .fill 7⟩, ⟨1, 4096, .fill 7⟩, ⟨3, 100, .data (List.replicate 100 1)⟩,
        ⟨2, 4096, .fill 7⟩].foldlM queueBb (backedBlockListNew 4096) = some bbl ∧
      (extents ⟨fun _ => none, fun _ => []⟩ 4096).Ordered bbl.dataBlocks := by
  intro build
  obtain ⟨bbl, hfold, hord, -, -⟩ := foldlM_queueBb ⟨fun _ => none, fun _ => []⟩ 4096 (by decide)
    (by decide) [⟨5, 4096, .fill 7⟩, ⟨1, 4096, .fill 7⟩, ⟨3, 100, .data (List.replicate 100 1)⟩,
      ⟨2, 4096, .fill 7⟩]
    (by
      intro bb hbb
      simp only [List.mem_cons, List.not_mem_nil, or_false] at hbb
      rcases hbb with rfl | rfl | rfl | rfl <;>
        exact ⟨by decide, by decide, by decide, by decide⟩)
    (by
      simp only [List.pairwise_cons, List.mem_cons, List.not_mem_nil, or_false, Extents.Apart]
      refine ⟨?_, ?_, ?_, ?_, List.Pairwise.nil⟩
      · rintro bb (rfl | rfl | rfl) <;> decide
      · rintro bb (rfl | rfl) <;> decide
      · rintro bb rfl
        decide
      · exact fun bb h => h.elim)
    (by decide)
  exact ⟨bbl, hfold, hord⟩

/-! ## The search from the block added last -/

/-- Blocks in front of the new one are passed over. -/
theorem insertFrom_append [Build] {blockSize : ℕ} {newBb bb a : BackedBlock}
    {pre rest : List BackedBlock} (hpre : ∀ x ∈ pre, x.block < newBb.block)
    (hbb : bb.block < newBb.block) :
    insertFrom blockSize newBb a (pre ++ bb :: rest) =
      (insertFrom blockSize newBb bb rest).map fun out => (a :: pre ++ out.1, out.2) := by
  induction pre generalizing a with
  | nil =>
      rw [List.nil_append, insertFrom, if_pos hbb]
      cases insertFrom blockSize newBb bb rest <;> rfl
  | cons x pre ih =>
      obtain ⟨hx, hpre'⟩ := List.forall_mem_cons.mp hpre
      rw [List.cons_append, insertFrom, if_pos hx, ih hpre']
      cases insertFrom blockSize newBb bb rest <;> rfl

/-- The search starts from the front where the first block has the number of the new one. -/
theorem searchStart_of_eq {bbl : BackedBlockList} {first newBb : BackedBlock}
    {rest : List BackedBlock} (hblocks : bbl.dataBlocks = first :: rest)
    (hord : (first :: rest).Pairwise fun a b => a.block ≤ b.block)
    (hlast : ∀ u, bbl.lastUsed = some u → ∃ bb ∈ bbl.dataBlocks, bb.block = u)
    (hfirst : first.block = newBb.block) : searchStart bbl first newBb = first.block := by
  unfold searchStart
  split
  · next u hu =>
      obtain ⟨bb, hbb, rfl⟩ := hlast u hu
      rw [hblocks] at hbb
      have hle : first.block ≤ bb.block := by
        rcases List.mem_cons.mp hbb with rfl | hbb
        · exact le_rfl
        · exact (List.pairwise_cons.mp hord).1 bb hbb
      exact if_neg (by omega)
  · rfl

/-- The list with the new block does not depend on which block was added last. -/
theorem queueBb_lastUsed [Build] (bbl : BackedBlockList) (newBb : BackedBlock)
    (lastUsed : Option ℕ) (hord : bbl.dataBlocks.Pairwise fun a b => a.block ≤ b.block)
    (hlast : ∀ u, bbl.lastUsed = some u → ∃ bb ∈ bbl.dataBlocks, bb.block = u)
    (hlast' : ∀ u, lastUsed = some u → ∃ bb ∈ bbl.dataBlocks, bb.block = u) :
    (queueBb { bbl with lastUsed := lastUsed } newBb).map BackedBlockList.dataBlocks =
      (queueBb bbl newBb).map BackedBlockList.dataBlocks := by
  obtain ⟨blocks, last, blockSize⟩ := bbl
  cases blocks with
  | nil => rfl
  | cons first rest =>
      simp only at hord hlast hlast'
      by_cases hhead : newBb.block < first.block
      · simp only [queueBb, if_pos hhead, Option.map_some]
      -- with any block of the list, the list is the one that the search from the front makes
      have hplain : ∀ u : Option ℕ,
          (∀ n, u = some n → ∃ bb ∈ first :: rest, bb.block = n) →
            (queueBb ⟨first :: rest, u, blockSize⟩ newBb).map BackedBlockList.dataBlocks =
              (insertFrom blockSize newBb first rest).map Prod.fst := by
        intro u hu
        rcases (not_lt.mp hhead).lt_or_eq with hfirstLt | hfirstEq
        · obtain ⟨pre, bb, tail, hsplit, hlt, htake, hdrop⟩ :=
            @exists_start ⟨first :: rest, u, blockSize⟩ _ _ _ rfl hu hfirstLt
          simp only [queueBb, if_neg hhead, htake, hdrop]
          cases pre with
          | nil =>
              obtain ⟨rfl, rfl⟩ := List.cons.inj hsplit
              cases insertFrom blockSize newBb first rest <;> rfl
          | cons a pre =>
              obtain ⟨rfl, hrest⟩ := List.cons.inj hsplit
              rw [List.append_eq] at hrest
              have hbefore : ∀ y ∈ pre, y.block < newBb.block := by
                intro y hy
                rw [hrest] at hord
                have hpair := (List.pairwise_cons.mp hord).2
                have hle := (List.pairwise_append.mp hpair).2.2 y hy bb List.mem_cons_self
                omega
              rw [hrest, insertFrom_append hbefore hlt]
              cases insertFrom blockSize newBb bb tail <;> rfl
        · have hstart :=
            @searchStart_of_eq ⟨first :: rest, u, blockSize⟩ _ _ _ rfl hord hu hfirstEq
          simp only [queueBb, if_neg hhead, hstart, ne_eq, not_true_eq_false, decide_false,
            List.dropWhile_cons_of_neg, List.takeWhile_cons_of_neg, Bool.false_eq_true,
            not_false_eq_true, List.nil_append]
          cases insertFrom blockSize newBb first rest <;> rfl
      exact (hplain lastUsed hlast').trans (hplain last hlast).symm

/-- Behind the block added last, and from the front. -/
theorem queueBb_lastUsed_applies : let _ : Build := ⟨false⟩
    (queueBb ⟨[⟨0, 4096, .fill 1⟩, ⟨3, 4096, .fill 2⟩], none, 4096⟩ ⟨7, 4096, .fill 3⟩).map
        BackedBlockList.dataBlocks =
      (queueBb ⟨[⟨0, 4096, .fill 1⟩, ⟨3, 4096, .fill 2⟩], some 3, 4096⟩ ⟨7, 4096, .fill 3⟩).map
        BackedBlockList.dataBlocks :=
  @queueBb_lastUsed ⟨false⟩ ⟨[⟨0, 4096, .fill 1⟩, ⟨3, 4096, .fill 2⟩], some 3, 4096⟩
    ⟨7, 4096, .fill 3⟩ none (by simp) (by simp) (by simp)

end Libsparse

end BootImageEditor
