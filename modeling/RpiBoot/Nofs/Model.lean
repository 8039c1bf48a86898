import RpiBoot.Libfs.Model

/-!
# The filesystem without files (`nofs.c`)

The whole device is one file. Its first three bytes are the byte order mark, and it ends with an
end-of-file mark, which a write that extends the file puts behind it.

* `nofsGetNextBdevBlockNum`: block `i` of the file is block `i` of the device.
* `nofsFopen`, `nofsFread`, `nofsFwrite`, `nofsFseek`, `nofsFsize`, `nofsFtell`.
* `nofsStep`: one call on a filesystem with any number of open files.
-/

namespace RpiBoot

open Store

variable {σ : Type}

/-- `EOF`. -/
def eof : UInt8 := 0xff

/-- `EOF_MARK`. -/
def eofMark : List UInt8 := [eof, 0x7e, 0x7e, 0x7e, 0x7e, 0x7e, 0x7e, 0x7e, 0x7e]

/-- The byte order mark. -/
def utfBom : List UInt8 := [0xef, 0xbb, 0xbf]

/-- The filesystem that `nofs_init` makes on a device. -/
def nofsInit (parent : BlockDevice σ) : Fs σ := ⟨parent, parent.blockSize⟩

section Nofs

variable (fs : Fs σ)

/-- `nofs_get_next_bdev_block_num(f_block_idx, s, opaque, add_blocks)`. -/
def nofsGetNextBdevBlockNum : GetNext σ Unit := fun fBlockIdx addBlocks _ io =>
  if fs.parent.blockSize ≠ 0 ∧ fBlockIdx ≥ fs.parent.blockSize then (noBlock, (), io)
  else if fBlockIdx > toU32 io.file.len / fs.blockSize ∧ addBlocks = false then (noBlock, (), io)
  else (fBlockIdx, (), io)

/-- The index of the first end-of-file byte among the first `n` bytes of a buffer. -/
def firstEof (mem : Mem) (buf n : ℕ) : Option ℕ := (List.range n).find? fun i => mem (buf + i) = eof

/-- The loop of `nofs_fopen` that looks for the end-of-file mark, in a buffer at `buf`. The number of
the block does not change, so it may go on for ever: `none` when the fuel does not suffice. -/
def nofsScan (buf blockNo : ℕ) : ℕ → Mem → σ → Option (Option ℕ × Mem × σ)
  | 0, _, _ => none
  | fuel + 1, mem, s =>
    if blockNo < fs.parent.numBlocks then
      match fs.parent.read with
      | none => none
      | some rd =>
        let r := rd s buf fs.parent.blockSize blockNo
        let bytesRead := toU32 r.1.ret
        let mem := patch mem buf r.1.data
        if bytesRead = 0 then some (none, mem, r.2)
        else
          match firstEof mem buf bytesRead with
          | some i => some (some (blockNo * fs.parent.blockSize + i), mem, r.2)
          | none => nofsScan buf blockNo fuel mem r.2
    else some (none, mem, s)

/-- `nofs_fopen(fs, path, mode)`, with the scan buffer at `buf`: the file, or `none` for a null pointer.
The outer `none` is a call that does not return. -/
def nofsFopen (fuel buf : ℕ) (mode : String) (mem : Mem) (s : σ) : Option (Option Stream × Mem × σ) :=
  let m := fsInterpretMode mode
  let startPos : ℕ := 3
  let r := readFresh fs.parent s fs.blockSize 0
  let block0 := r.2.1
  let s := r.2.2
  if r.1 ≠ fs.blockSize then some (none, mem, s)
  else if slice block0 0 3 = utfBom then
    if m &&& vfsModeAppend ≠ 0 ∧ fs.parent.numBlocks ≠ 0 then
      (nofsScan fs buf 0 fuel mem s).map fun r =>
        let startPos := r.1.getD startPos
        (some ⟨startPos, m, startPos, 0⟩, r.2.1, r.2.2)
    else some (some ⟨startPos, m, startPos, 0⟩, mem, s)
  else
    let w := blockWrite fs.parent s (patch block0 0 (utfBom ++ eofMark)) 0 fs.blockSize 0
    if w.1 ≠ fs.blockSize then some (none, mem, w.2)
    else some (some ⟨startPos, m, startPos, 0⟩, mem, w.2)

/-- `nofs_fread(fs, ptr, byte_size, stream)`. -/
def nofsFread (temp : ℕ → ℕ) : FsTransfer σ := fsFread (nofsGetNextBdevBlockNum fs) fs temp ()

/-- `nofs_fwrite(fs, ptr, byte_size, stream)`; the array `eof_mark` is at address `mark`. -/
def nofsFwrite (mark : ℕ) (temp tempMark : ℕ → ℕ) : FsTransfer σ := fun ptr byteSize io =>
  let oldLen := io.file.len
  let r := fsFwrite (nofsGetNextBdevBlockNum fs) fs temp () ptr byteSize io
  let io := r.2
  if io.file.len > oldLen then
    let newPos := io.file.len
    let io := (fsFwrite (nofsGetNextBdevBlockNum fs) fs tempMark () mark eofMark.length io).2
    (r.1, { io with file := { io.file with pos := newPos, len := newPos } })
  else (r.1, io)

end Nofs

/-- `nofs_fsize(fp)`. -/
def nofsFsize (file : Stream) : ℤ := file.len - 3

/-- `nofs_ftell(fp)`. -/
def nofsFtell (file : Stream) : ℤ := file.pos - 3

/-- `nofs_fseek(stream, offset, whence)`. -/
def nofsFseek (file : Stream) (offset : ℤ) : Whence → ℤ × Stream
  | .bad => (-1, file)
  | whence =>
    let pos := match whence with
      | .set => long (offset + 3)
      | .stop => long (file.len - offset)
      | _ => long (file.pos + offset)
    let pos := if pos < 3 then 3 else pos
    let pos := if pos > file.len then file.len else pos
    (0, { file with pos := pos })

/-! ## Calls on a filesystem -/

/-- Memory, device and the files opened so far; a closed file is `none`. -/
structure NofsState (σ : Type) where
  mem : Mem
  dev : σ
  files : List (Option Stream)

/-- A call, on the file with a number. Before a write the caller stores `data` at `ptr`. -/
inductive NofsCall where
  | fopen (fuel buf : ℕ) (mode : String)
  | fseek (file : ℕ) (offset : ℤ) (whence : Whence)
  | fread (file : ℕ) (temp : ℕ → ℕ) (ptr size nmemb : ℕ)
  | fwrite (file : ℕ) (temp tempMark : ℕ → ℕ) (data : List UInt8) (ptr size nmemb : ℕ)
  | fclose (file : ℕ)

/-- A transfer on an open file. -/
def NofsState.transfer (st : NofsState σ) (file : ℕ) (f : FileIo σ → ℕ × FileIo σ) :
    Option (NofsState σ) :=
  (st.files[file]?.join).map fun stream =>
    let io := (f ⟨st.mem, st.dev, stream⟩).2
    ⟨io.mem, io.dev, st.files.set file (some io.file)⟩

/-- One call; `none` when it does not return, or the file is not open. -/
def nofsStep (fs : Fs σ) (mark : ℕ) (st : NofsState σ) : NofsCall → Option (NofsState σ)
  | .fopen fuel buf mode =>
    (nofsFopen fs fuel buf mode st.mem st.dev).map fun r => ⟨r.2.1, r.2.2, st.files ++ [r.1]⟩
  | .fseek file offset whence =>
    (st.files[file]?.join).map fun stream =>
      { st with files := st.files.set file (some (nofsFseek stream offset whence).2) }
  | .fread file temp ptr size nmemb => st.transfer file (fread (nofsFread fs temp) ptr size nmemb)
  | .fwrite file temp tempMark data ptr size nmemb =>
    ({ st with mem := patch st.mem ptr data }).transfer file
      (fwrite (nofsFwrite fs mark temp tempMark) ptr size nmemb)
  | .fclose file =>
    (st.files[file]?.join).map fun _ => { st with files := st.files.set file none }

end RpiBoot
