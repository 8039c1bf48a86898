import RpiBoot.Vfs

/-!
# The shared read and write loops (`libfs.c`)

A filesystem supplies the map from the blocks of a file to those of the device; `fs_fread` and
`fs_fwrite` walk over the blocks of a range of the file. A part of a block goes through a buffer
that `malloc` returns; `temp i` is its address for block `i` of the file.

* `GetNext`: the block map of a filesystem, with its own data `ο`.
* `fsFread`, `fsFwrite`: the two loops.
-/

namespace RpiBoot

variable {σ ο : Type}

/-- `get_next_bdev_block_num(f_block_idx, s, opaque, add_blocks)`. -/
abbrev GetNext (σ ο : Type) := (fBlockIdx : ℕ) → (addBlocks : Bool) → ο → FileIo σ → ℕ × ο × FileIo σ

/-- The block number by which a filesystem refuses. -/
def noBlock : ℕ := 0xffffffff

/-- The range of a file that a call covers, in blocks and offsets. -/
structure Span where
  firstFBlockIdx : ℕ
  firstFBlockOffset : ℕ
  lastFBlockIdx : ℕ
  lastFBlockOffset : ℕ

/-- The range of `byte_size` bytes from `pos` on. -/
def span (fsBlockSize pos byteSize : ℕ) : Span :=
  let lastPos := u32 (pos + byteSize)
  ⟨pos / fsBlockSize, pos % fsBlockSize, lastPos / fsBlockSize, lastPos % fsBlockSize⟩

/-- `start_block_offset` and `last_block_offset` of a block. -/
def Span.offsets (r : Span) (fsBlockSize curBlock : ℕ) : ℕ × ℕ :=
  (if curBlock = r.firstFBlockIdx then r.firstFBlockOffset else 0,
    if curBlock = r.lastFBlockIdx then r.lastFBlockOffset else fsBlockSize)

/-- Move the position by a number of bytes. -/
def FileIo.advance (io : FileIo σ) (n : ℤ) : FileIo σ :=
  { io with file := { io.file with pos := io.file.pos + n } }

/-- Raise the length to the position. -/
def FileIo.extend (io : FileIo σ) : FileIo σ :=
  { io with file := { io.file with
      len := if io.file.pos > io.file.len then io.file.pos else io.file.len } }

/-- The segment length once the last offset is cut to the bytes transferred. -/
def cutSegment (startBlockOffset lastBlockOffset bytes : ℕ) : ℕ :=
  let last := if lastBlockOffset > bytes then bytes else lastBlockOffset
  if last < startBlockOffset then 0 else last - startBlockOffset

section Loops

variable (getNext : GetNext σ ο) (fs : Fs σ) (temp : ℕ → ℕ) (r : Span)

/-- The variables of the loop of `fs_fread`, with the state that its calls change. -/
structure FreadState (σ ο : Type) where
  curBlock : ℕ
  saveBuf : ℕ
  totalBytesRead : ℤ
  opq : ο
  io : FileIo σ

/-- One round of the loop of `fs_fread`: on to the next block, or a return from the function. -/
def fsFreadRound (st : FreadState σ ο) : Except (ℕ × FileIo σ) (FreadState σ ο) :=
  let off := r.offsets fs.blockSize st.curBlock
  let segmentLength := sub32 off.2 off.1
  let g := getNext st.curBlock false st.opq st.io
  let io := g.2.2
  if g.1 = noBlock then .error (toU32 st.totalBytesRead, io)
  else if off.1 = 0 ∧ segmentLength = fs.blockSize then
    let b := blockRead fs.parent io.dev io.mem st.saveBuf fs.blockSize g.1
    let io := { io with mem := b.2.1, dev := b.2.2 }.advance (i32 b.1)
    if b.1 ≠ fs.blockSize then .error (toU32 (st.totalBytesRead + i32 b.1), io)
    else .ok ⟨st.curBlock + 1, st.saveBuf + b.1, st.totalBytesRead + i32 b.1, g.2.1, io⟩
  else
    let b := blockRead fs.parent io.dev io.mem (temp st.curBlock) fs.blockSize g.1
    let segmentLength := cutSegment off.1 off.2 b.1
    let mem := qmemcpy b.2.1 st.saveBuf (temp st.curBlock + off.1) segmentLength
    let io := { io with mem := mem, dev := b.2.2 }.advance segmentLength
    if b.1 ≠ fs.blockSize then .error (toU32 (st.totalBytesRead + segmentLength), io)
    else
      .ok ⟨st.curBlock + 1, st.saveBuf + segmentLength, st.totalBytesRead + segmentLength, g.2.1, io⟩

/-- The loop of `fs_fread`; `fuel` counts the blocks up to the last. -/
def fsFreadLoop : ℕ → FreadState σ ο → ℕ × FileIo σ
  | 0, st => (toU32 st.totalBytesRead, st.io)
  | fuel + 1, st =>
    if st.curBlock ≤ r.lastFBlockIdx then
      match fsFreadRound getNext fs temp r st with
      | .error ret => ret
      | .ok st => fsFreadLoop fuel st
    else (toU32 st.totalBytesRead, st.io)

/-- The loop of `fs_fwrite`. -/
def fsFwriteLoop : ℕ → (curBlock saveBuf : ℕ) → (totalBytesWritten : ℤ) → ο → FileIo σ → ℕ × FileIo σ
  | 0, _, _, total, _, io => (toU32 total, io)
  | fuel + 1, curBlock, saveBuf, total, opq, io =>
    if curBlock ≤ r.lastFBlockIdx then
      let off := r.offsets fs.blockSize curBlock
      let segmentLength := sub32 off.2 off.1
      let g := getNext curBlock true opq io
      let io := g.2.2
      if g.1 = noBlock then (toU32 total, io)
      else if off.1 = 0 ∧ segmentLength = fs.blockSize then
        let w := blockWrite fs.parent io.dev io.mem saveBuf fs.blockSize g.1
        let io := ({ io with dev := w.2 }.advance (i32 w.1)).extend
        if w.1 ≠ fs.blockSize then (toU32 (total + i32 w.1), io)
        else fsFwriteLoop fuel (curBlock + 1) (saveBuf + w.1) (total + i32 w.1) g.2.1 io
      else
        let b := blockRead fs.parent io.dev io.mem (temp curBlock) fs.blockSize g.1
        if b.1 ≠ fs.blockSize then (toU32 total, { io with mem := b.2.1, dev := b.2.2 })
        else
          let mem := qmemcpy b.2.1 (temp curBlock + off.1) saveBuf segmentLength
          let w := blockWrite fs.parent b.2.2 mem (temp curBlock) fs.blockSize g.1
          let segmentLength := cutSegment off.1 off.2 w.1
          let io := ({ io with mem := mem, dev := w.2 }.advance segmentLength).extend
          if w.1 ≠ fs.blockSize then (toU32 (total + segmentLength), io)
          else
            fsFwriteLoop fuel (curBlock + 1) (saveBuf + segmentLength) (total + segmentLength) g.2.1 io
    else (toU32 total, io)

end Loops

/-- `fs_fread(get_next_bdev_block_num, fs, ptr, byte_size, stream, opaque)`. Blocks are of more than
one byte, so that the index of the last block does not wrap. -/
def fsFread (getNext : GetNext σ ο) (fs : Fs σ) (temp : ℕ → ℕ) (opq : ο) : FsTransfer σ :=
  fun ptr byteSize io =>
    let r := span fs.blockSize (toU32 io.file.pos) byteSize
    fsFreadLoop getNext fs temp r (r.lastFBlockIdx + 1 - r.firstFBlockIdx)
      ⟨r.firstFBlockIdx, ptr, 0, opq, io⟩

/-- The position of a write: files opened in mode "a+" are written at their end. -/
def writePos (file : Stream) : ℤ :=
  if file.mode &&& vfsModeAppend ≠ 0 ∧ file.mode &&& vfsModeR ≠ 0 then file.len else file.pos

/-- `fs_fwrite(get_next_bdev_block_num, fs, ptr, byte_size, stream, opaque)`. -/
def fsFwrite (getNext : GetNext σ ο) (fs : Fs σ) (temp : ℕ → ℕ) (opq : ο) : FsTransfer σ :=
  fun ptr byteSize io =>
    let io := { io with file := { io.file with pos := writePos io.file } }
    let r := span fs.blockSize (toU32 io.file.pos) byteSize
    fsFwriteLoop getNext fs temp r (r.lastFBlockIdx + 1 - r.firstFBlockIdx) r.firstFBlockIdx ptr 0 opq io

end RpiBoot
