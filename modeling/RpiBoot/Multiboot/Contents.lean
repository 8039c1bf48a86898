import RpiBoot.Libfs.SeqFile
import RpiBoot.Multiboot.Model

/-!
# The contents of a file that is loaded

Memory is what lies beside the loader's own here: the buffers of a filesystem are not part of it. Behind
the bytes that it delivers, a read may spoil 16 more, as `fs_fread` does. One that counts all of its bytes
has delivered them: so does `fs_fread` as long as the blocks can be read; of one that cannot, it may count
bytes that it does not have.

* `DeliversFile`: a filesystem's `fread` of a file with given contents delivers them.
* `ReadsFile`: a read may fail, and then nothing is known of the bytes it was to fill; other memory is left
  alone. `ReadsInFull`: no read fails.
* `OpensFiles`: every file of the loader has contents.
* `Keeps`: a read leaves some memory alone. `Chunk.rim`: what a read to a chunk may spoil.
* `seekPos`, **`ReadsFile.fread_seek`**: what a read behind a seek leaves in memory.
* `imageRead_readsInFull`, `filesEnv_opensFiles`: files that are held in lists.
-/

namespace RpiBoot

open Store

variable {σ : Type}

/-- A filesystem's `fread` delivers the bytes of a file; what else it writes is left open. -/
structure DeliversFile (fsRead : FsTransfer σ) (data : List UInt8) (ok : σ → Prop) : Prop where
  length_lt : data.length < 2 ^ 31
  read : ∀ ptr n (io : FileIo σ) (pos : ℕ), ok io.dev → io.file.len = data.length →
    io.file.pos = pos → pos + n ≤ data.length → (fsRead ptr n io).1 = n ∧
      slice (fsRead ptr n io).2.mem ptr n = (data.drop pos).take n

/-- What is known of a read of `n` bytes, from position `pos`, to `ptr`. -/
structure ReadBack (data : List UInt8) (ok : σ → Prop) (ptr pos n : ℕ) (io : FileIo σ)
    (r : ℕ × FileIo σ) : Prop where
  count : r.1 ≤ n
  dev : ok r.2.dev
  len : r.2.file.len = io.file.len
  -- the last copy of a read may move 16 bytes where it has none to move
  frame : ∀ a, a < ptr ∨ ptr + n + 16 ≤ a → r.2.mem a = io.mem a
  bytes : r.1 = n → slice r.2.mem ptr n = (data.drop pos).take n

/-- A filesystem's `fread` of a file with the given contents. -/
structure ReadsFile (fsRead : FsTransfer σ) (data : List UInt8) (ok : σ → Prop) : Prop where
  length_lt : data.length < 2 ^ 31
  read : ∀ ptr n (io : FileIo σ) (pos : ℕ), ok io.dev → io.file.len = data.length →
    io.file.pos = pos → pos + n ≤ data.length → ReadBack data ok ptr pos n io (fsRead ptr n io)
  /-- The count does not depend on what memory holds. -/
  reply : ∀ ptr n (io : FileIo σ) (pos : ℕ) mem, ok io.dev → io.file.len = data.length →
    io.file.pos = pos → pos + n ≤ data.length → (fsRead ptr n { io with mem := mem }).1 = (fsRead ptr n io).1

/-- The same, where no read fails. -/
structure ReadsInFull (fsRead : FsTransfer σ) (data : List UInt8) (ok : σ → Prop) : Prop
    extends ReadsFile fsRead data ok where
  full : ∀ ptr n (io : FileIo σ) (pos : ℕ), ok io.dev → io.file.len = data.length →
    io.file.pos = pos → pos + n ≤ data.length → (fsRead ptr n io).1 = n

theorem ReadsInFull.deliversFile {fsRead : FsTransfer σ} {data : List UInt8} {ok : σ → Prop}
    (h : ReadsInFull fsRead data ok) : DeliversFile fsRead data ok := by
  refine ⟨h.length_lt, fun ptr n io pos hdev hlen hpos hle => ?_⟩
  have hfull := h.full ptr n io pos hdev hlen hpos hle
  exact ⟨hfull, (h.read ptr n io pos hdev hlen hpos hle).bytes hfull⟩

/-- The files of the loader have contents, and are read from their start; `Reads` is how. -/
structure OpensFiles (env : BootEnv σ) (contents : List UInt8 → List UInt8) (ok : σ → Prop)
    (Reads : FsTransfer σ → List UInt8 → (σ → Prop) → Prop) : Prop where
  dev : ∀ path dev, ok dev → ok (env.fopen path dev).2
  file : ∀ path dev, ok dev → ∀ f ∈ (env.fopen path dev).1,
    Reads f.fsRead (contents path) ok ∧ f.file.len = (contents path).length ∧ f.file.pos = 0

theorem OpensFiles.mono {env : BootEnv σ} {contents : List UInt8 → List UInt8} {ok : σ → Prop}
    {Reads Reads' : FsTransfer σ → List UInt8 → (σ → Prop) → Prop}
    (hmono : ∀ fsRead data, Reads fsRead data ok → Reads' fsRead data ok)
    (h : OpensFiles env contents ok Reads) : OpensFiles env contents ok Reads' :=
  ⟨h.dev, fun path dev hok f hf =>
    ⟨hmono _ _ (h.file path dev hok f hf).1, (h.file path dev hok f hf).2⟩⟩

theorem OpensFiles.readsFile {env : BootEnv σ} {contents : List UInt8 → List UInt8} {ok : σ → Prop}
    (h : OpensFiles env contents ok ReadsInFull) : OpensFiles env contents ok ReadsFile :=
  h.mono fun _ _ hf => hf.toReadsFile

/-- Where a seek to `offset` leads in a file of `len` bytes: the offset is taken as a `long`. -/
def seekPos (len offset : ℕ) : ℕ := clampPos len (i32 offset)

theorem seekPos_of_lt {len offset : ℕ} (h : offset < 2 ^ 31) : seekPos len offset = min offset len := by
  rw [seekPos, i32_of_lt h, clampPos]
  omega

theorem seekPos_le (len offset : ℕ) : seekPos len offset ≤ len := by
  unfold seekPos clampPos
  omega

/-- A read of `n` bytes leaves the memory in `s` alone, whatever it holds. -/
def Keeps (fsRead : FsTransfer σ) (ptr n : ℕ) (io : FileIo σ) (s : Set ℕ) : Prop :=
  ∀ mem, ∀ a ∈ s, (fread fsRead ptr 1 n { io with mem := mem }).2.mem a = mem a

/-- The 16 bytes behind a chunk. -/
def Chunk.rim (c : Chunk) : Set ℕ := Set.Ico (c.start + c.length) (c.start + c.length + 16)

variable {fsRead : FsTransfer σ} {data : List UInt8} {ok : σ → Prop} {io : FileIo σ}

theorem DeliversFile.fread_at (hf : DeliversFile fsRead data ok) (io : FileIo σ) (hdev : ok io.dev)
    (hlen : io.file.len = data.length) {pos : ℕ} (hpos : io.file.pos = pos) (hle : pos ≤ data.length)
    (ptr : ℕ) {n : ℕ} (hn : n < 2 ^ 32) :
    (fread fsRead ptr 1 n io).1 = min n (data.length - pos) ∧
      slice (fread fsRead ptr 1 n io).2.mem ptr (min n (data.length - pos)) =
        (data.drop pos).take (min n (data.length - pos)) := by
  rw [fread_one hn hlen hpos hle hf.length_lt]
  exact hf.read ptr _ io pos hdev hlen hpos (by omega)

/-- A read from position `pos` on. -/
theorem ReadsFile.fread_at (hf : ReadsFile fsRead data ok) (io : FileIo σ) (hdev : ok io.dev)
    (hlen : io.file.len = data.length) {pos : ℕ} (hpos : io.file.pos = pos) (hle : pos ≤ data.length)
    (ptr : ℕ) {n : ℕ} (hn : n < 2 ^ 32) :
    ReadBack data ok ptr pos (min n (data.length - pos)) io (fread fsRead ptr 1 n io) := by
  rw [fread_one hn hlen hpos hle hf.length_lt]
  exact hf.read ptr _ io pos hdev hlen hpos (by omega)

theorem ReadsInFull.count_at (hf : ReadsInFull fsRead data ok) (io : FileIo σ) (hdev : ok io.dev)
    (hlen : io.file.len = data.length) {pos : ℕ} (hpos : io.file.pos = pos) (hle : pos ≤ data.length)
    (ptr : ℕ) {n : ℕ} (hn : n < 2 ^ 32) : (fread fsRead ptr 1 n io).1 = min n (data.length - pos) := by
  rw [fread_one hn hlen hpos hle hf.length_lt]
  exact hf.full ptr _ io pos hdev hlen hpos (by omega)

theorem seek_file (hlen : io.file.len = data.length) (offset : ℕ) :
    (io.seek offset).file = { io.file with pos := seekPos data.length offset } :=
  (fseek_pos hlen (i32 offset)).1

/-- **A read behind a seek.** -/
theorem ReadsFile.fread_seek (hf : ReadsFile fsRead data ok) (io : FileIo σ) (hdev : ok io.dev)
    (hlen : io.file.len = data.length) (ptr : ℕ) {n : ℕ} (hn : n < 2 ^ 32) (offset : ℕ) :
    ReadBack data ok ptr (seekPos data.length offset)
      (min n (data.length - seekPos data.length offset)) io
      (fread fsRead ptr 1 n (io.seek offset)) := by
  have hfile := seek_file hlen offset
  have hlen' : (io.seek offset).file.len = data.length := by rw [hfile, hlen]
  obtain ⟨hcount, hdev', hkept, hframe, hbytes⟩ := hf.fread_at (io.seek offset) hdev hlen'
    (congrArg Stream.pos hfile) (seekPos_le data.length offset) ptr hn
  exact ⟨hcount, hdev', hkept.trans (hlen'.trans hlen.symm), hframe, hbytes⟩

theorem ReadsInFull.count_seek (hf : ReadsInFull fsRead data ok) (io : FileIo σ) (hdev : ok io.dev)
    (hlen : io.file.len = data.length) (ptr : ℕ) {n : ℕ} (hn : n < 2 ^ 32) (offset : ℕ) :
    (fread fsRead ptr 1 n (io.seek offset)).1 = min n (data.length - seekPos data.length offset) := by
  have hfile := seek_file hlen offset
  have hlen' : (io.seek offset).file.len = data.length := by rw [hfile, hlen]
  exact hf.count_at (io.seek offset) hdev hlen' (congrArg Stream.pos hfile)
    (seekPos_le data.length offset) ptr hn

theorem ReadsFile.reply_seek (hf : ReadsFile fsRead data ok) (io : FileIo σ) (hdev : ok io.dev)
    (hlen : io.file.len = data.length) (ptr : ℕ) {n : ℕ} (hn : n < 2 ^ 32) (offset : ℕ) (mem : Mem) :
    (fread fsRead ptr 1 n { io.seek offset with mem := mem }).1 =
      (fread fsRead ptr 1 n (io.seek offset)).1 := by
  have hfile := seek_file hlen offset
  have hlen' : (io.seek offset).file.len = data.length := by rw [hfile, hlen]
  have hpos' : (io.seek offset).file.pos = seekPos data.length offset := congrArg Stream.pos hfile
  have hlen'' : ({ io.seek offset with mem := mem } : FileIo σ).file.len = data.length := hlen'
  have hle := seekPos_le data.length offset
  rw [fread_one hn hlen' hpos' hle hf.length_lt, fread_one hn hlen'' hpos' hle hf.length_lt]
  exact hf.reply ptr _ (io.seek offset) _ mem hdev hlen' hpos' (by omega)

/-! ## Files that are held in lists -/

theorem imageRead_readsInFull (image : List UInt8) (hlt : image.length < 2 ^ 31) :
    ReadsInFull (imageRead image) image fun _ => True := by
  have hgot : ∀ (io : FileIo Unit) (pos n : ℕ), io.file.pos = pos → pos + n ≤ image.length →
      ((image.drop io.file.pos.toNat).take n).length = n := fun io pos n hpos hle => by
    rw [List.length_take, List.length_drop, hpos, Int.toNat_natCast]
    omega
  refine ⟨⟨hlt, fun ptr n io pos _ _ hpos hle => ?_, fun _ _ _ _ _ _ _ _ _ => rfl⟩,
    fun ptr n io pos _ _ hpos hle => hgot io pos n hpos hle⟩
  have hlen := hgot io pos n hpos hle
  refine ⟨hlen.le, trivial, rfl, fun a ha => ?_, fun _ => ?_⟩
  · exact patch_apply_of_notMem _ _ _ (by rw [hlen]; omega)
  · have hslice := slice_patch io.mem ptr ((image.drop io.file.pos.toNat).take n)
    rw [hlen, hpos, Int.toNat_natCast] at hslice
    simp only [imageRead, hpos, Int.toNat_natCast]
    exact hslice

theorem filesEnv_opensFiles (files : List UInt8 → Option (List UInt8))
    (hlt : ∀ path image, files path = some image → image.length < 2 ^ 31) :
    OpensFiles (filesEnv files) (fun path => (files path).getD []) (fun _ => True) ReadsInFull := by
  refine ⟨fun _ _ _ => trivial, fun path dev _ f hf => ?_⟩
  obtain ⟨image, himage, rfl⟩ := Option.map_eq_some_iff.mp hf
  rw [himage, Option.getD_some]
  exact ⟨imageRead_readsInFull image (hlt path image himage), rfl, rfl⟩

end RpiBoot
