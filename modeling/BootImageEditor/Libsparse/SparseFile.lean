import BootImageEditor.Libsparse.BackedBlock

/-!
# Sparse files

`output_file.cpp`, `sparse.cpp` and `sparse_read.cpp` of libsparse, for files that are written
and read through descriptors and without checksums, as the tools `img2simg`, `simg2img` and
`simg2simg` do: the sparse format with its chunks, raw images with holes, the reader of the
format and the reader of raw images. Reading and writing go through; a failing assertion, a
block without its bytes and input that is refused are `none`. Assertions fail in the build of
the Makefile only, since the one of Gradle defines `NDEBUG`.
-/

namespace BootImageEditor

open Codec

namespace Libsparse

/-- The macro `DIV_ROUND_UP`, of an `int64_t`. -/
def divRoundUp (x y : ℕ) : ℕ := (x + (y - 1)) / y

/-- `DIV_ROUND_UP` of `unsigned int`s, whose sum may wrap. -/
def divRoundUpUInt (x y : ℕ) : ℕ := (x + (y - 1)) % 2 ^ 32 / y

/-- The macro `ALIGN`, of `unsigned int`s. -/
def align (x y : ℕ) : ℕ := y * divRoundUpUInt x y

/-- The first block behind a block, as an `unsigned int`. -/
def BackedBlock.behind (blockSize : ℕ) (bb : BackedBlock) : ℕ :=
  (bb.block + divRoundUpUInt bb.len blockSize) % 2 ^ 32

/-- `n` bytes of a number, in the order of the machine. -/
def le (n x : ℕ) : Bytes := ByteOrder.littleEndian.encode n x

/-! ## Output -/

/-- A file that is written through a descriptor, with the position of the descriptor. -/
structure OutFd where
  content : Bytes
  pos : ℕ

namespace OutFd

/-- `file_write`: what was skipped beyond the end is zero. -/
def write (f : OutFd) (data : Bytes) : OutFd where
  content := (f.content ++ List.replicate (f.pos - f.content.length) 0).take f.pos ++ data ++
    f.content.drop (f.pos + data.length)
  pos := f.pos + data.length

/-- `file_skip`. -/
def skip (f : OutFd) (cnt : ℕ) : OutFd := { f with pos := f.pos + cnt }

/-- `file_pad`: the file gets this length. -/
def pad (f : OutFd) (len : ℕ) : OutFd :=
  { f with content := f.content.take len ++ List.replicate (len - f.content.length) 0 }

end OutFd

structure OutputFile where
  file : OutFd
  sparse : Bool
  blockSize : ℕ
  len : ℕ

def sparseHeaderMagic : ℕ := 0xed26ff3a

def sparseHeaderLen : ℕ := 28

def chunkHeaderLen : ℕ := 12

def chunkTypeRaw : ℕ := 0xcac1

def chunkTypeFill : ℕ := 0xcac2

def chunkTypeDontCare : ℕ := 0xcac3

def chunkTypeCrc32 : ℕ := 0xcac4

/-- The bytes of a `chunk_header_t`. -/
def chunkHeader (chunkType chunkSz totalSz : ℕ) : Bytes :=
  le 2 chunkType ++ le 2 0 ++ le 4 chunkSz ++ le 4 totalSz

/-- The bytes of a `sparse_header_t`. -/
def sparseHeader (blkSz totalBlks totalChunks : ℕ) : Bytes :=
  le 4 sparseHeaderMagic ++ le 2 1 ++ le 2 0 ++ le 2 sparseHeaderLen ++ le 2 chunkHeaderLen ++
    le 4 blkSz ++ le 4 totalBlks ++ le 4 totalChunks ++ le 4 0

namespace OutputFile

def write (out : OutputFile) (data : Bytes) : OutputFile :=
  { out with file := out.file.write data }

/-- `write_sparse_skip_chunk`. -/
def writeSparseSkipChunk (out : OutputFile) (skipLen : ℕ) : Option OutputFile :=
  if skipLen % out.blockSize ≠ 0 then none
  else some (out.write (chunkHeader chunkTypeDontCare (skipLen / out.blockSize) chunkHeaderLen))

/-- `write_sparse_fill_chunk`. -/
def writeSparseFillChunk (out : OutputFile) (len : ℕ) (fillVal : UInt32) : OutputFile :=
  let rndUpLen := align len out.blockSize
  let out := out.write
    (chunkHeader chunkTypeFill (rndUpLen / out.blockSize) (chunkHeaderLen + 4))
  out.write (le 4 fillVal.toNat)

/-- `write_sparse_data_chunk`. -/
def writeSparseDataChunk (out : OutputFile) (len : ℕ) (data : Bytes) : OutputFile :=
  let rndUpLen := align len out.blockSize
  let zeroLen := (rndUpLen + 2 ^ 32 - len) % 2 ^ 32
  let out := out.write
    (chunkHeader chunkTypeRaw (rndUpLen / out.blockSize) (chunkHeaderLen + rndUpLen))
  let out := out.write (data.take len)
  if zeroLen ≠ 0 then out.write (List.replicate zeroLen 0) else out

/-- `write_normal_data_chunk`. -/
def writeNormalDataChunk (out : OutputFile) (len : ℕ) (data : Bytes) : OutputFile :=
  let rndUpLen := align len out.blockSize
  let out := out.write (data.take len)
  if len < rndUpLen then { out with file := out.file.skip (rndUpLen - len) } else out

/-- `write_normal_fill_chunk`, block by block from a buffer with the word. -/
def writeNormalFillChunk (out : OutputFile) (len : ℕ) (fillVal : UInt32) : OutputFile :=
  let fillBuf := (List.replicate (out.blockSize / 4) (le 4 fillVal.toNat)).flatten ++
    List.replicate (out.blockSize % 4) 0
  { out with
    file := (List.range (divRoundUp len out.blockSize)).foldl (fun file i =>
      file.write (fillBuf.take (min (len - i * out.blockSize) out.blockSize))) out.file }

def writeDataChunk (out : OutputFile) (len : ℕ) (data : Bytes) : OutputFile :=
  if out.sparse then out.writeSparseDataChunk len data else out.writeNormalDataChunk len data

def writeFillChunk (out : OutputFile) (len : ℕ) (fillVal : UInt32) : OutputFile :=
  if out.sparse then out.writeSparseFillChunk len fillVal
  else out.writeNormalFillChunk len fillVal

/-- `write_skip_chunk`, whose result its callers do not look at. -/
def writeSkipChunk (out : OutputFile) (len : ℕ) : OutputFile :=
  if out.sparse then (out.writeSparseSkipChunk len).getD out
  else { out with file := out.file.skip len }

/-- What is mapped of a file: whole pages, with zeros behind its end. -/
def mapped (content : Bytes) : Bytes := content ++ List.replicate (gap 4096 content.length) 0

/-- `write_fd_chunk`: the file is mapped from a page boundary on. -/
def writeFdChunk (files : Files) (out : OutputFile) (len : ℕ) (fd : ℤ) (offset : ℕ) :
    Option OutputFile :=
  let alignedOffset := offset / 4096 * 4096
  let alignedDiff := offset - alignedOffset
  let bufferSize := len + alignedDiff
  -- nothing of no length is mapped
  if bufferSize = 0 then none
  else
    let data := slice alignedOffset bufferSize (mapped (files.fd fd))
    let ptr := data.drop alignedDiff
    -- behind the last page, writing fails
    if ptr.length < len then none else some (out.writeDataChunk len ptr)

/-- `write_file_chunk`, which opens the file at the descriptor `fileFd`. -/
def writeFileChunk (files : Files) (out : OutputFile) (len : ℕ) (filename : Bytes) (offset : ℕ) :
    Option OutputFile :=
  match files.file filename with
  | none => none
  | some content => writeFdChunk ⟨files.file, fun _ => content⟩ out len 0 offset

/-- `sparse_file_write_block`. -/
def sparseFileWriteBlock (files : Files) (out : OutputFile) (bb : BackedBlock) :
    Option OutputFile :=
  match bb.backing with
  | .data data => if data.length < bb.len then none else some (out.writeDataChunk bb.len data)
  | .file filename offset => writeFileChunk files out bb.len filename offset
  | .fd fd offset => writeFdChunk files out bb.len fd offset
  | .fill val => some (out.writeFillChunk bb.len val)

end OutputFile

/-! ## Files in memory -/

section

variable [Build]

structure SparseFile where
  blockSize : ℕ
  len : ℕ
  backedBlockList : BackedBlockList

/-- `sparse_file_new`. -/
def sparseFileNew (blockSize len : ℕ) : SparseFile :=
  ⟨blockSize, len, backedBlockListNew blockSize⟩

namespace SparseFile

/-- `sparse_file_add_fill`; lengths are cut to an `unsigned int`. -/
def addFill (s : SparseFile) (fillVal : UInt32) (len block : ℕ) : Option SparseFile := do
  let bbl ← queueBb s.backedBlockList ⟨block, len % 2 ^ 32, .fill fillVal⟩
  some { s with backedBlockList := bbl }

/-- `sparse_file_add_fd`. -/
def addFd (s : SparseFile) (fd : ℤ) (fileOffset len block : ℕ) : Option SparseFile := do
  let bbl ← queueBb s.backedBlockList ⟨block, len % 2 ^ 32, .fd fd fileOffset⟩
  some { s with backedBlockList := bbl }

/-- `sparse_count_chunks`. -/
def countChunks (s : SparseFile) : ℕ :=
  let (lastBlock, chunks) := s.backedBlockList.dataBlocks.foldl (fun (lastBlock, chunks) bb =>
    let chunks := if lastBlock < bb.block then chunks + 1 else chunks
    (bb.behind s.blockSize, chunks + 1)) (0, 0)
  if lastBlock < divRoundUp s.len s.blockSize then chunks + 1 else chunks

/-- A block in `write_all_blocks`, with a chunk for what is skipped in front of it. -/
def writeNext (files : Files) (blockSize : ℕ) (st : OutputFile × ℕ) (bb : BackedBlock) :
    Option (OutputFile × ℕ) := do
  let out := if st.2 < bb.block then st.1.writeSkipChunk ((bb.block - st.2) * blockSize) else st.1
  let out ← out.sparseFileWriteBlock files bb
  some (out, bb.behind blockSize)

/-- `write_all_blocks`. -/
def writeAllBlocks (files : Files) (s : SparseFile) (out : OutputFile) : Option OutputFile := do
  let (out, lastBlock) ← s.backedBlockList.dataBlocks.foldlM (writeNext files s.blockSize) (out, 0)
  -- `assert(pad >= 0)`; without it, nothing is skipped where `pad` is negative
  if Build.ndebug = false ∧ s.len < lastBlock * s.blockSize then none
  else
    let pad := s.len - lastBlock * s.blockSize
    if 0 < pad then some (out.writeSkipChunk pad) else some out

/-- `sparse_file_write(s, fd, false, sparse, false)`. -/
def write (files : Files) (s : SparseFile) (fd : OutFd) (sparse : Bool) : Option OutFd :=
  -- `output_file_init` takes the size as an `int`; nothing of a negative size is allocated
  if 2 ^ 31 ≤ s.blockSize then none
  else do
    let out : OutputFile := ⟨fd, sparse, s.blockSize, s.len⟩
    let out := if sparse then
      out.write (sparseHeader s.blockSize (divRoundUp s.len s.blockSize) s.countChunks) else out
    let out ← s.writeAllBlocks files out
    -- `write_end_chunk`
    some (if sparse then out.file else out.file.pad s.len)

end SparseFile

/-! ## Input -/

/-- `read_all` at the position of the descriptor. -/
def readValue (input : Bytes) (offset len : ℕ) : Option Bytes :=
  if offset + len ≤ input.length then some (slice offset len input) else none

/-- A number of a header. -/
def field (offset len : ℕ) (header : Bytes) : ℕ :=
  ByteOrder.littleEndian.decode (slice offset len header)

/-- `process_raw_chunk`; with the file the position behind the chunk. -/
def processRawChunk (fd : ℤ) (s : SparseFile) (chunkSize offset blocks block : ℕ) :
    Option (SparseFile × ℕ) :=
  let len := blocks * s.blockSize % 2 ^ 32
  if s.blockSize = 0 ∨ chunkSize % s.blockSize ≠ 0 then none
  else if chunkSize / s.blockSize ≠ blocks then none
  else do
    let s ← s.addFd fd offset len block
    some (s, offset + len)

/-- `process_fill_chunk`. -/
def processFillChunk (input : Bytes) (s : SparseFile) (chunkSize offset blocks block : ℕ) :
    Option (SparseFile × ℕ) :=
  if chunkSize ≠ 4 then none
  else do
    let fillVal ← readValue input offset 4
    let s ← s.addFill (UInt32.ofNat (ByteOrder.littleEndian.decode fillVal))
      (blocks * s.blockSize) block
    some (s, offset + 4)

/-- `process_chunk`: the file, the position behind the chunk, and its blocks. An unknown type
counts for nothing. -/
def processChunk (fd : ℤ) (input : Bytes) (s : SparseFile) (chunkHdrSz : ℕ) (header : Bytes)
    (offset curBlock : ℕ) : Option (SparseFile × ℕ × ℕ) :=
  let chunkType := field 0 2 header
  let chunkSz := field 4 4 header
  let chunkDataSize := (field 8 4 header + 2 ^ 32 - chunkHdrSz) % 2 ^ 32
  -- the number of blocks is returned as an `int`
  let returned (r : SparseFile × ℕ) : Option (SparseFile × ℕ × ℕ) :=
    if 2 ^ 31 ≤ chunkSz then none else some (r.1, r.2, chunkSz)
  if chunkType = chunkTypeRaw then
    (processRawChunk fd s chunkDataSize offset chunkSz curBlock).bind returned
  else if chunkType = chunkTypeFill then
    (processFillChunk input s chunkDataSize offset chunkSz curBlock).bind returned
  else if chunkType = chunkTypeDontCare then
    if chunkDataSize ≠ 0 then none else returned (s, offset)
  else if chunkType = chunkTypeCrc32 then
    if chunkDataSize ≠ 4 then none
    else (readValue input offset 4).map fun _ => (s, offset + 4, 0)
  else some (s, offset, 0)

/-- The loop of `sparse_file_read_sparse` over the chunks. -/
def readChunks (fd : ℤ) (input : Bytes) (chunkHdrSz : ℕ) :
    ℕ → SparseFile → ℕ → ℕ → Option (SparseFile × ℕ × ℕ)
  | 0, s, offset, curBlock => some (s, offset, curBlock)
  | n + 1, s, offset, curBlock => do
      let header ← readValue input offset chunkHeaderLen
      let (s, offset, blocks) ← processChunk fd input s chunkHdrSz header
        (offset + chunkHdrSz) curBlock
      readChunks fd input chunkHdrSz n s offset ((curBlock + blocks) % 2 ^ 32)

/-- The checks of the header, in the reader and in the import. -/
def headerAccepted (header : Bytes) : Bool :=
  field 0 4 header = sparseHeaderMagic && field 4 2 header = 1 &&
    sparseHeaderLen ≤ field 8 2 header && chunkHeaderLen ≤ field 10 2 header

/-- `sparse_file_read_sparse(s, source, false)` from the start of the file. -/
def readSparse (fd : ℤ) (input : Bytes) (s : SparseFile) : Option SparseFile := do
  let header ← readValue input 0 sparseHeaderLen
  if !headerAccepted header then none
  else
    let (s, _, curBlock) ← readChunks fd input (field 10 2 header) (field 20 4 header) s
      (field 8 2 header) 0
    if field 16 4 header ≠ curBlock then none else some s

/-- `sparse_file_import(fd, verbose, false)`. -/
def sparseFileImport (files : Files) (fd : ℤ) : Option SparseFile := do
  let input := files.fd fd
  let header ← readValue input 0 sparseHeaderLen
  if !headerAccepted header then none
  else
    readSparse fd input
      (sparseFileNew (field 12 4 header) (field 16 4 header * field 12 4 header))

/-- `sparse_file_read_normal`: blocks of one word are not taken from the file. -/
def readNormal (fd : ℤ) (input : Bytes) (s : SparseFile) : Option SparseFile :=
  (List.range (divRoundUp s.len s.blockSize)).foldlM (fun s block => do
    let toRead := min (s.len - block * s.blockSize) s.blockSize
    let buf ← readValue input (block * s.blockSize) toRead
    let words := (List.range (s.blockSize / 4)).map fun i => field (4 * i) 4 buf
    let sparseBlock := toRead = s.blockSize ∧ ∀ w ∈ words, w = words.headD 0
    if sparseBlock then s.addFill (UInt32.ofNat (words.headD 0)) toRead block
    else s.addFd fd (block * s.blockSize) toRead block) s

/-- `img2simg`, between the descriptors. -/
def img2simg (files : Files) (fd : ℤ) (blockSize : ℕ) : Option Bytes :=
  if blockSize < 1024 ∨ blockSize % 4 ≠ 0 then none
  else do
    let input := files.fd fd
    let s ← readNormal fd input (sparseFileNew blockSize input.length)
    let out ← s.write files ⟨[], 0⟩ true
    some out.content

/-- `simg2img`, which writes one image after the other over the same file. -/
def simg2img (files : Files) (fds : List ℤ) : Option Bytes := do
  let out ← fds.foldlM (fun (out : OutFd) fd => do
    let s ← sparseFileImport files fd
    s.write files { out with pos := 0 } false) ⟨[], 0⟩
  some out.content

end

end Libsparse

end BootImageEditor
