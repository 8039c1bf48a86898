import RpiBoot.Ext2.Model
import RpiBoot.Fat.Model
import RpiBoot.Nofs.Model

/-!
# Streams (`fs.h`, `vfs.c`)

A call on an open file goes to the filesystem where its `struct fs` has a function for it, and to the
shared code where the pointer is null.

* `FsFunctions`: the function pointers, as `fat_init`, `ext2_init` and `nofs_init` set them.
* `vfsFsize`, `vfsFtell`, `vfsFseek`, `feof`.
* `StreamFs`: the filesystem behind a stream.
* `streamStep`: one call on a stream.
-/

namespace RpiBoot

variable {σ : Type}

/-- The functions of `struct fs` that the calls on a stream use; a null pointer is `none`. -/
structure FsFunctions (σ : Type) where
  fread : (temp : ℕ → ℕ) → FsTransfer σ
  fsize : Option (Stream → ℤ)
  fseek : Option (Stream → ℤ → Whence → ℤ × Stream)
  ftell : Option (Stream → ℤ)

/-- `fsize(stream)`. -/
def vfsFsize (f : FsFunctions σ) (stream : Stream) : ℤ :=
  match f.fsize with
  | some fsize => fsize stream
  | none => stream.len

/-- `ftell(stream)`. -/
def vfsFtell (f : FsFunctions σ) (stream : Stream) : ℤ :=
  match f.ftell with
  | some ftell => ftell stream
  | none => stream.pos

/-- `fseek(stream, offset, whence)`. -/
def vfsFseek (f : FsFunctions σ) (stream : Stream) (offset : ℤ) (whence : Whence) : ℤ × Stream :=
  match f.fseek with
  | some fseek => fseek stream offset whence
  | none => fseek stream offset whence

/-- `feof(stream)`. -/
def feof (stream : Stream) : ℤ := if stream.flags &&& vfsFlagsEof ≠ 0 then 1 else 0

/-- The filesystem of a stream, with what it keeps in the stream: the first cluster, or the inode. -/
inductive StreamFs (σ : Type) where
  | fat (fs : FatFs σ) (cluster : ℕ)
  | ext2 (fs : Ext2Fs σ) (inodeIdx : ℕ)
  | nofs (fs : Fs σ)

namespace StreamFs

/-- The function pointers of the filesystem. -/
def functions : StreamFs σ → FsFunctions σ
  | fat fs cluster => ⟨fun temp => fatFread fs temp cluster, none, none, none⟩
  | ext2 fs inodeIdx => ⟨fun temp => ext2Fread fs temp inodeIdx, none, none, none⟩
  | nofs fs => ⟨nofsFread fs, some nofsFsize, some nofsFseek, some nofsFtell⟩

/-- The part of `struct fs` that the shared read loop uses. -/
def shared : StreamFs σ → Fs σ
  | fat fs _ => fs.b
  | ext2 fs _ => fs.b
  | nofs fs => fs

/-- A FAT filesystem has no `fsize` of its own. -/
theorem vfsFsize_fat (fs : FatFs σ) (cluster : ℕ) (stream : Stream) :
    vfsFsize (fat fs cluster).functions stream = stream.len := rfl

end StreamFs

/-- A call on a stream; `temp` gives the addresses of the buffers allocated during a read. -/
inductive StreamCall where
  | fseek (offset : ℤ) (whence : Whence)
  | ftell
  | fread (temp : ℕ → ℕ) (ptr size nmemb : ℕ)

/-- One call: what it returns, and what it leaves. -/
def streamStep (f : FsFunctions σ) (io : FileIo σ) : StreamCall → ℤ × FileIo σ
  | .fseek offset whence =>
    let r := vfsFseek f io.file offset whence
    (r.1, { io with file := r.2 })
  | .ftell => (vfsFtell f io.file, io)
  | .fread temp ptr size nmemb =>
    let r := fread (f.fread temp) ptr size nmemb io
    (r.1, r.2)

end RpiBoot
