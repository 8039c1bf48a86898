import RpiBoot.Block.Model

/-!
# Open files (`vfs.h`, `fs.h`, `vfs.c`)

A call on an open file acts on the memory, the device below the filesystem and the file itself.

* `Stream`: `struct vfs_file`; `FileIo`: what a call reads and changes.
* `fread`, `fwrite`: whole members only, `fread` up to the end of the file.
* `fseek`: the position stays within the file.
-/

namespace RpiBoot

variable {σ : Type}

def vfsModeR : ℕ := 1
def vfsModeW : ℕ := 2
def vfsModeRW : ℕ := 3
def vfsModeAppend : ℕ := 4
def vfsModeCreate : ℕ := 8

def vfsFlagsEof : ℕ := 1

/-- `fs_interpret_mode(mode)`. -/
def fsInterpretMode (mode : String) : ℕ :=
  if mode = "r" then vfsModeR
  else if mode = "r+" then vfsModeRW
  else if mode = "w" then vfsModeW ||| vfsModeCreate
  else if mode = "w+" then vfsModeRW ||| vfsModeCreate
  else if mode = "a" then vfsModeW ||| vfsModeAppend ||| vfsModeCreate
  else if mode = "a+" then vfsModeRW ||| vfsModeAppend ||| vfsModeCreate
  else 0

/-- `struct vfs_file`, without the fields that belong to one filesystem. -/
structure Stream where
  pos : ℤ
  mode : ℕ
  len : ℤ
  flags : ℕ
deriving DecidableEq

/-- The part of `struct fs` that the shared functions use. -/
structure Fs (σ : Type) where
  parent : BlockDevice σ
  blockSize : ℕ

/-- Memory, device and open file. -/
structure FileIo (σ : Type) where
  mem : Mem
  dev : σ
  file : Stream

/-- A filesystem's `fread` or `fwrite`: from the address and the number of bytes. -/
abbrev FsTransfer (σ : Type) := (ptr byteSize : ℕ) → FileIo σ → ℕ × FileIo σ

/-- `fread(ptr, size, nmemb, stream)`. -/
def fread (fsRead : FsTransfer σ) (ptr size nmemb : ℕ) (io : FileIo σ) : ℕ × FileIo σ :=
  let bytesToRead := u32 (size * nmemb)
  let left := toU32 (io.file.len - io.file.pos)
  let bytesToRead := if bytesToRead > left then left else bytesToRead
  let nmembToRead := bytesToRead / size
  let r := fsRead ptr (nmembToRead * size) io
  (r.1 / size, r.2)

/-- `fwrite(ptr, size, nmemb, stream)` on a file of a filesystem that can write. -/
def fwrite (fsWrite : FsTransfer σ) (ptr size nmemb : ℕ) (io : FileIo σ) : ℕ × FileIo σ :=
  let bytesToWrite := u32 (size * nmemb)
  let nmembToWrite := bytesToWrite / size
  let r := fsWrite ptr (nmembToWrite * size) io
  (r.1 / size, r.2)

/-- The `whence` argument of `fseek`; any other value is `bad`. -/
inductive Whence where
  | set | stop | cur | bad
deriving DecidableEq

/-- `fseek(stream, offset, whence)` where the filesystem has none of its own. -/
def fseek (file : Stream) (offset : ℤ) : Whence → ℤ × Stream
  | .bad => (-1, file)
  | whence =>
    let pos := match whence with
      | .set => offset
      | .stop => long (file.len - offset)
      | _ => long (file.pos + offset)
    let pos := if pos < 0 then 0 else pos
    let pos := if pos > file.len then file.len else pos
    (0, { file with pos := pos })

/-- The number of bytes that `fread` asks the filesystem for. -/
def freadSize (size nmemb : ℕ) (file : Stream) : ℕ :=
  min (u32 (size * nmemb)) (toU32 (file.len - file.pos)) / size * size

theorem fread_eq (fsRead : FsTransfer σ) (ptr size nmemb : ℕ) (io : FileIo σ) :
    fread fsRead ptr size nmemb io = ((fsRead ptr (freadSize size nmemb io.file) io).1 / size,
      (fsRead ptr (freadSize size nmemb io.file) io).2) := by
  have hmin : (if u32 (size * nmemb) > toU32 (io.file.len - io.file.pos) then
      toU32 (io.file.len - io.file.pos) else u32 (size * nmemb)) =
      min (u32 (size * nmemb)) (toU32 (io.file.len - io.file.pos)) := by
    split_ifs <;> omega
  simp only [fread, hmin, freadSize]

/-- With members of one byte, `fread` passes the number of bytes that are left at most. -/
theorem fread_one {fsRead : FsTransfer σ} {ptr nmemb : ℕ} {io : FileIo σ} {len pos : ℕ}
    (hn : nmemb < 2 ^ 32) (hl : io.file.len = len) (hp : io.file.pos = pos) (hle : pos ≤ len)
    (hlen : len < 2 ^ 31) :
    fread fsRead ptr 1 nmemb io = fsRead ptr (min nmemb (len - pos)) io := by
  have hleft : toU32 (io.file.len - io.file.pos) = len - pos := by
    rw [hl, hp, ← Nat.cast_sub hle, toU32_natCast (by omega)]
  rw [fread_eq, freadSize, hleft, Nat.one_mul, u32_of_lt hn, Nat.div_one, Nat.mul_one, Nat.div_one]

end RpiBoot
