import RpiBoot.Ext2.Blocks
import RpiBoot.Libfs.Read

/-!
# The contents of an ext2 file

A byte of a file is the byte of the block that the tree maps it to, and `0` in a hole; a block whose
pointers cannot be read has no bytes. Any read of a pointer block may fail, each time anew, so what
can be read depends on the state in which the block is looked up.

* `Mapping.Gives`: the byte that a mapping gives.
* `Ext2File`: a volume holds a file.
* `ext2Fread_spec`: the bytes that `ext2_fread` delivers are those of the blocks at which the
  lookups end.
* **`ext2_fread_contents`**: they are the bytes of the file if and only if every mapping asked for can
  be read, and block `0` stands for every hole with a zero.
-/

namespace RpiBoot

open Store

variable {σ : Type}

/-- The byte at offset `o` of a block of the file in a volume with contents `c`. -/
def Mapping.Gives (c : Mem) (bs o : ℕ) (v : UInt8) : Mapping → Prop
  | .hole => v = 0
  | .unreadable => False
  | .block b => v = c (b * bs + o)

section File

variable (fs : Ext2Fs σ) (c : Mem)

/-- What the tree says of block `idx`. -/
def Ext2Inode.mapping (inode : Ext2Inode) (s : σ) (idx : ℕ) : Mapping :=
  follow fs c s (inode.path fs.pointersPerIndirectBlock idx).2
    (inode.path fs.pointersPerIndirectBlock idx).1

/-- The block at which the lookup of block `idx` ends. -/
def Ext2Inode.ending (inode : Ext2Inode) (s : σ) (idx : ℕ) : ℕ :=
  (walk fs s (inode.path fs.pointersPerIndirectBlock idx).2
    (inode.path fs.pointersPerIndirectBlock idx).1).1

/-- The volume holds the file `inode` as number `inodeIdx`; its block of the inode table can be read. -/
structure Ext2File (sound : ℕ → Prop) (inodeIdx : ℕ) (inode : Ext2Inode) : Prop where
  ne_zero : inodeIdx ≠ 0
  table : fs.Sound sound (inodePlace fs inodeIdx).1
  place_le : (inodePlace fs inodeIdx).2 + 128 ≤ fs.b.blockSize
  inode_eq : inode = Ext2Inode.ofBuf c
    ((inodePlace fs inodeIdx).1 * fs.b.blockSize + (inodePlace fs inodeIdx).2)
  pointers : ∀ idx, idx * fs.b.blockSize < inode.size →
    PointersIn fs c (inode.path fs.pointersPerIndirectBlock idx).2
      (inode.path fs.pointersPerIndirectBlock idx).1

/-- The state in which a read of `n` bytes at `pos` looks block `idx` up, from `io` on. -/
def lookupState (temp : ℕ → ℕ) (inode : Ext2Inode) (ptr pos n : ℕ) (io : FileIo σ) (idx : ℕ) : σ :=
  (fsFreadAt (ext2GetNextBdevBlockNum fs) fs.b temp inode ptr pos n io idx).io.dev

/-- Memory, device and file when `ext2_fread` has read the inode. -/
def afterInode (inodeIdx : ℕ) (io : FileIo σ) : FileIo σ :=
  { io with dev := (ext2ReadInode fs io.dev inodeIdx).2 }

end File

variable {fs : Ext2Fs σ} {inv : σ → Prop} {content : σ → Mem} {sound : ℕ → Prop} {inodeIdx : ℕ}
  {inode : Ext2Inode} {temp : ℕ → ℕ} {ptr pos n : ℕ} {io : FileIo σ}

/-! ## Opening -/

/-- `ext2_init` computes the geometry of a volume. -/
theorem ext2Init_volume {parent : BlockDevice σ} {s s' : σ} (h : ext2Init parent s = (.ok fs, s'))
    (hsize : ∃ e ≤ 6, fs.b.blockSize = 1024 <<< e)
    (hdvd : parent.blockSize ∣ fs.b.blockSize) (htotal : fs.totalBlocks * fs.b.blockSize ≤ 2 ^ 32) :
    fs.b.parent = parent ∧ fs.Volume := by
  obtain ⟨hparent, -, hfan⟩ := ext2Init_ok h
  obtain ⟨-, h₁, h₂, h₃⟩ := hfan hsize
  exact ⟨hparent, hsize, hparent ▸ hdvd, h₁, h₂, h₃, htotal⟩

/-- An inode is made of its first 128 bytes. -/
theorem Ext2Inode.ofBuf_congr {f g : Mem} {a b : ℕ} (h : slice f a 128 = slice g b 128) :
    Ext2Inode.ofBuf f a = Ext2Inode.ofBuf g b := by
  rw [Ext2Inode.ofBuf, Ext2Inode.ofBuf, le32_congr h (by decide), le32_congr h (by decide),
    le32_congr h (by decide), le32_congr h (by decide)]
  congr 1
  funext i
  rw [Nat.add_assoc, le32_congr h (by omega), ← Nat.add_assoc]

/-- The inode of a file is read as it is in the table. -/
theorem ext2ReadInode_spec (h : HealthyReads fs.b.parent inv content sound)
    (hf : FallibleReads fs.b.parent inv content fs.OnVolume) (hv : fs.Volume) {s : σ} (hs : inv s)
    (hfile : Ext2File fs (content s) sound inodeIdx inode) :
    ∃ s', ext2ReadInode fs s inodeIdx = (some inode, s') ∧ inv s' ∧ content s' = content s := by
  obtain ⟨-, htable, hplace, hinode, -⟩ := hfile
  obtain ⟨hi, hc⟩ := readBlock_frame hf hs (inodePlace fs inodeIdx).1
  obtain ⟨buf, s', hr⟩ := readBlock_sound h hv hs htable
  have hbuf := readBlock_spec hf hv hs htable.lt_total hr
  have hbytes := slice_part hbuf hplace
  rw [Nat.zero_add] at hbytes
  rw [hr] at hi hc
  refine ⟨s', ?_, hi, hc⟩
  simp only [ext2ReadInode, hr, Option.map_some]
  rw [hinode, Ext2Inode.ofBuf_congr hbytes]

/-! ## Reading -/

/-- Block `idx` holds a byte of the range. -/
def Touched (bs pos n idx : ℕ) : Prop := ∃ i < n, (pos + i) / bs = idx

/-- The device blocks of a read. -/
noncomputable def ext2Map (fs : Ext2Fs σ) (temp : ℕ → ℕ) (inode : Ext2Inode) (ptr pos n : ℕ)
    (io : FileIo σ) (idx : ℕ) : Option ℕ :=
  open Classical in
  if Touched fs.b.blockSize pos n idx then
    some (getSectorNum fs (inode.ending fs (lookupState fs temp inode ptr pos n io idx) idx))
  else none

/-- A lookup gives the block at which the walk ends. -/
theorem ext2GetNextBdevBlockNum_spec (hf : FallibleReads fs.b.parent inv content fs.OnVolume)
    (hv : fs.Volume) (hs : inv io.dev) {idx : ℕ} (hidx : idx * fs.b.blockSize < 2 ^ 31) :
    ∃ s, ext2GetNextBdevBlockNum fs idx false inode io =
      (getSectorNum fs (inode.ending fs io.dev idx), inode, { io with dev := s }) ∧
      inv s ∧ content s = content io.dev := by
  obtain ⟨hw, hwc⟩ := walk_frame hf (inode.path fs.pointersPerIndirectBlock idx).2 io.dev
    (inode.path fs.pointersPerIndirectBlock idx).1 hs
  refine ⟨_, ?_, hw, hwc⟩
  rw [ext2GetNextBdevBlockNum, getBlockNoFromInode_eq hv.fanOut _ _ (by omega), Ext2Inode.ending]

/-- The loop of `fs_fread` delivers the bytes of the blocks at which the lookups end. -/
theorem ext2_fsFread (h : HealthyReads fs.b.parent inv content sound)
    (hf : FallibleReads fs.b.parent inv content fs.OnVolume) (hv : fs.Volume) (hs : inv io.dev)
    (htemp : TempApart temp fs.b.blockSize ptr n) (hn : pos + n < 2 ^ 31) (hpos : io.file.pos = pos)
    (hend : ∀ i < n, fs.Sound sound (inode.ending fs
      (lookupState fs temp inode ptr pos n io ((pos + i) / fs.b.blockSize))
      ((pos + i) / fs.b.blockSize))) :
    (∃ io', fsFread (ext2GetNextBdevBlockNum fs) fs.b temp inode ptr n io = (n, io') ∧
      ReadDone fs.b inv content (ext2Map fs temp inode ptr pos n io) (content io.dev) ptr pos n
        io.file.len io') ∧
    ∀ i < n, inv (lookupState fs temp inode ptr pos n io ((pos + i) / fs.b.blockSize)) ∧
      content (lookupState fs temp inode ptr pos n io ((pos + i) / fs.b.blockSize)) =
        content io.dev := by
  obtain ⟨hk, hsize⟩ := hv.sectorsPerBlock_spec
  have hbs := hv.size_bounds
  have hfm : FileMap fs.b sound fs.sectorsPerBlock (ext2Map fs temp inode ptr pos n io) := by
    refine ⟨hk, hsize, by omega, fun idx b hb => ?_⟩
    unfold ext2Map at hb
    split_ifs at hb with ht
    obtain ⟨i, hin, rfl⟩ := ht
    obtain rfl := Option.some.inj hb
    have hsound := hend i hin
    exact ⟨(hv.getSectorNum_spec hsound.lt_total).2.1, hsound.sectors⟩
  have hmap : ∀ p, pos ≤ p → p < pos + n →
      ext2Map fs temp inode ptr pos n io (p / fs.b.blockSize) ≠ none := fun p hp hp' => by
    rw [ext2Map, if_pos ⟨p - pos, by omega, by rw [Nat.add_sub_cancel' hp]⟩]
    exact Option.some_ne_none _
  have hnext : ∀ st : FreadState σ Ext2Inode, st.opq = inode → inv st.io.dev →
      st.curBlock ≤ (pos + n) / fs.b.blockSize →
      ∃ s, ext2GetNextBdevBlockNum fs st.curBlock false st.opq st.io =
        (getSectorNum fs (inode.ending fs st.io.dev st.curBlock), inode, { st.io with dev := s }) ∧
        inv s ∧ content s = content st.io.dev := fun st hJ hi hcur => by
    have h₁ := Nat.mul_le_mul_right fs.b.blockSize hcur
    have h₂ := Nat.div_mul_le_self (pos + n) fs.b.blockSize
    rw [hJ]
    exact ext2GetNextBdevBlockNum_spec hf hv hi (by omega)
  have hlook : ∀ st : FreadState σ Ext2Inode, st.opq = inode →
      st = fsFreadAt (ext2GetNextBdevBlockNum fs) fs.b temp inode ptr pos n io st.curBlock →
      pos / fs.b.blockSize ≤ st.curBlock → st.curBlock ≤ (pos + n) / fs.b.blockSize →
      ReadAt fs.b inv content (ext2Map fs temp inode ptr pos n io) (content io.dev) ptr pos n
        io.file.len st →
      LookupAt (ext2GetNextBdevBlockNum fs) fs.b inv content (ext2Map fs temp inode ptr pos n io) st := by
    intro st hJ hst _ hcur hat
    obtain ⟨s, hg, hi, hc⟩ := hnext st hJ hat.dev_inv hcur
    refine ⟨_, _, _, hg, ⟨rfl, hi, hc, rfl, rfl⟩, ?_⟩
    by_cases ht : Touched fs.b.blockSize pos n st.curBlock
    · refine Or.inl ((if_pos ht).trans ?_)
      rw [lookupState, ← hst]
    · exact Or.inr ⟨if_neg ht, Or.inr fun s mem buf hs => blockRead_frame hf hs mem buf _ _⟩
  have hopq : ∀ st st' : FreadState σ Ext2Inode, st.opq = inode →
      ReadAt fs.b inv content (ext2Map fs temp inode ptr pos n io) (content io.dev) ptr pos n
        io.file.len st →
      fsFreadRound (ext2GetNextBdevBlockNum fs) fs.b temp (span fs.b.blockSize pos n) st = .ok st' →
      st'.opq = inode := by
    intro st st' hJ _ hround
    rw [(fsFreadRound_ok hround).2]
    exact hJ
  obtain ⟨hread, hat⟩ := fsFread_spec_at hfm h htemp hn hmap hlook hopq hs rfl hpos
  refine ⟨hread, fun i hi => ?_⟩
  have := hat (pos + i) (by omega) (by omega)
  exact ⟨this.dev_inv, this.dev_content⟩

/-- The state in which a read of `n` bytes at `pos` by `ext2_fread` looks up the block of byte `i`. -/
def byteState (fs : Ext2Fs σ) (temp : ℕ → ℕ) (inodeIdx : ℕ) (inode : Ext2Inode) (ptr pos n : ℕ)
    (io : FileIo σ) (i : ℕ) : σ :=
  lookupState fs temp inode ptr pos n (afterInode fs inodeIdx io) ((pos + i) / fs.b.blockSize)

/-- **The bytes that `ext2_fread` delivers**, when the blocks at which the lookups end can be read. -/
theorem ext2Fread_spec (h : HealthyReads fs.b.parent inv content sound)
    (hf : FallibleReads fs.b.parent inv content fs.OnVolume) (hv : fs.Volume) (hs : inv io.dev)
    (hfile : Ext2File fs (content io.dev) sound inodeIdx inode)
    (htemp : TempApart temp fs.b.blockSize ptr n) (hn : pos + n < 2 ^ 31) (hpos : io.file.pos = pos)
    (hend : ∀ i < n, fs.Sound sound (inode.ending fs
      (byteState fs temp inodeIdx inode ptr pos n io i) ((pos + i) / fs.b.blockSize))) :
    ∃ io', ext2Fread fs temp inodeIdx ptr n io = (n, io') ∧ io'.file.pos = (pos + n : ℕ) ∧
      ∀ i < n, inv (byteState fs temp inodeIdx inode ptr pos n io i) ∧
        content (byteState fs temp inodeIdx inode ptr pos n io i) = content io.dev ∧
        io'.mem (ptr + i) = content io.dev (inode.ending fs
          (byteState fs temp inodeIdx inode ptr pos n io i) ((pos + i) / fs.b.blockSize) *
            fs.b.blockSize + (pos + i) % fs.b.blockSize) := by
  obtain ⟨s', hread, hi, hc⟩ := ext2ReadInode_spec h hf hv hs hfile
  have hafter : afterInode fs inodeIdx io = { io with dev := s' } := by rw [afterInode, hread]
  unfold byteState at hend ⊢
  rw [hafter] at hend ⊢
  have hpos' : (FileIo.mk io.mem s' io.file).file.pos = pos := hpos
  obtain ⟨⟨io', hf', hdone⟩, hstates⟩ := ext2_fsFread h hf hv hi htemp hn hpos' hend
  refine ⟨io', ?_, hdone.pos_eq, fun i hin => ?_⟩
  · rw [ext2Fread, if_neg hfile.ne_zero, hread]
    exact hf'
  · obtain ⟨hi', hc'⟩ := hstates i hin
    refine ⟨hi', hc'.trans hc, ?_⟩
    have hd := slice_eq_iff.mp hdone.delivered i hin
    rw [fileBytes, fileByte, ext2Map, if_pos ⟨i, hin, rfl⟩, Option.getD_some,
      hv.getSectorNum_mul (hend i hin).lt_total] at hd
    exact hd.trans (congrFun hc _)

/-- A lookup that ends at a block with the byte `v` gives the byte of the file. -/
def Mapping.StoodFor (v : UInt8) : Mapping → Prop
  | .hole => v = 0
  | .unreadable => False
  | .block _ => True

/-- The end of a lookup and the tree. -/
theorem gives_iff (hf : FallibleReads fs.b.parent inv content fs.OnVolume) (hv : fs.Volume) {s : σ}
    (hs : inv s) {c : Mem} (hc : content s = c) {idx o : ℕ} (hidx : idx * fs.b.blockSize < 2 ^ 31)
    (hin : PointersIn fs c (inode.path fs.pointersPerIndirectBlock idx).2
      (inode.path fs.pointersPerIndirectBlock idx).1) {v : UInt8}
    (hval : v = c (inode.ending fs s idx * fs.b.blockSize + o)) :
    (inode.mapping fs c s idx).Gives c fs.b.blockSize o v ↔ (inode.mapping fs c s idx).StoodFor v := by
  rw [Ext2Inode.mapping]
  rcases walk_spec hf hv _ s _ hs hc (inode.path_lt hv.fanOut (by omega)) hin with hm | ⟨hm, -⟩ | hm
  · rw [hm]
    exact Iff.rfl
  · rw [hm]
    exact Iff.rfl
  · rw [hm]
    exact iff_of_true hval trivial

/-- `fread` asks for no byte behind the end of the file, also when the size does not fit a `long`. -/
theorem pos_add_freadSize_le (size nmemb : ℕ) {file : Stream} {len : ℕ} (hpos : file.pos = pos)
    (hlen : file.len = i32 len) (hlt : len < 2 ^ 32) (hle : pos ≤ len) :
    pos + freadSize size nmemb file ≤ len := by
  have hleft : toU32 (file.len - file.pos) = len - pos := by
    rw [hlen, hpos, i32, u32_of_lt hlt]
    unfold toU32
    split_ifs <;> omega
  have h₁ := Nat.div_mul_le_self (min (u32 (size * nmemb)) (toU32 (file.len - file.pos))) size
  have h₂ := min_le_right (u32 (size * nmemb)) (toU32 (file.len - file.pos))
  unfold freadSize
  omega

/-! ## A small volume -/

/-- A volume of 32 blocks of 1 KiB, full of `0x55` but for its tables. File 12 has 2048 bytes: block 9
and a hole. -/
def holeVolume : Mem :=
  patch (patch (patch (fun _ => 0x55)
    1024 ([16, 0, 0, 0, 32, 0, 0, 0] ++ List.replicate 24 0 ++ [0, 32, 0, 0, 0, 32, 0, 0, 16, 0, 0, 0] ++
      List.replicate 12 0 ++ [0x53, 0xef] ++ List.replicate 22 0))
    2048 [3, 0, 0, 0, 4, 0, 0, 0, 5, 0, 0, 0])
    (6 * 1024 + 384) ([0xa4, 0x81, 0, 0, 0, 8, 0, 0] ++ List.replicate 32 0 ++ [9] ++ List.replicate 87 0)

/-- What `ext2_init` makes of a volume that it accepts. -/
theorem exists_ext2Init {dev : BlockDevice Mem} {vol : Mem} {α : Type} {f : Ext2Fs Mem → α} {v : α}
    (h : (ext2Init dev vol).1.toOption.map f = some v) :
    ∃ fs s', ext2Init dev vol = (.ok fs, s') ∧ f fs = v := by
  rcases hinit : ext2Init dev vol with ⟨_ | fs, s'⟩
  · rw [hinit] at h
    cases h
  · rw [hinit] at h
    exact ⟨fs, s', rfl, Option.some.inj h⟩

theorem holeVolume_init : ∃ fs s', ext2Init (storeDevice 64) holeVolume = (.ok fs, s') ∧
    (fs.b.blockSize, fs.totalBlocks) = (1024, 32) :=
  exists_ext2Init (by decide +kernel)

/-- The volume as `ext2_init` takes it from its superblock and descriptor table. -/
def holeFs : Ext2Fs Mem :=
  { Ext2Fs.ofSuperblock (storeDevice 64) (window holeVolume 1024) with bgdt := window holeVolume 2048 }

def holeInode : Ext2Inode := Ext2Inode.ofBuf holeVolume (6 * 1024 + 384)

theorem holeFs_volume : holeFs.Volume := by
  refine ⟨⟨0, by decide, by decide⟩, by decide, by decide, by decide, by decide, by decide⟩

theorem holeFs_sound {b : ℕ} (hb : b < 32) : holeFs.Sound (fun d => d * 512 + 512 ≤ 64 * 512) b := by
  have htotal : holeFs.totalBlocks = 32 := by decide
  have hk : holeFs.sectorsPerBlock = 2 := by decide
  have hlt : b < holeFs.totalBlocks := by rwa [htotal]
  refine ⟨hlt, fun j hj => ?_⟩
  rw [(holeFs_volume.getSectorNum_spec hlt).1, hk]
  omega

theorem holeFs_file : Ext2File holeFs holeVolume (fun d => d * 512 + 512 ≤ 64 * 512) 12 holeInode := by
  have hplace : inodePlace holeFs 12 = (6, 384) := by decide
  have hsize : holeFs.b.blockSize = 1024 := by decide
  refine ⟨by decide, ?_, ?_, ?_, fun idx hidx => ?_⟩
  · rw [hplace]; exact holeFs_sound (by decide)
  · rw [hplace, hsize]; decide
  · rw [hplace, hsize, holeInode]
  · have hlen : holeInode.size = 2048 := by decide
    rw [hlen, hsize] at hidx
    obtain rfl | rfl : idx = 0 ∨ idx = 1 := by omega
    · exact (by decide : holeInode.db 0 < holeFs.totalBlocks)
    · exact (by decide : holeInode.db 1 < holeFs.totalBlocks)

theorem holeFs_reads : HealthyReads holeFs.b.parent (fun _ => True) (fun c => c)
      (fun d => d * 512 + 512 ≤ 64 * 512) ∧
    FallibleReads holeFs.b.parent (fun _ => True) (fun c => c) holeFs.OnVolume :=
  ⟨(storeDevice_serves (by decide)).healthyReads, storeDevice_fallible (by decide)⟩

/-- Block 1 of the file is a hole, and its lookup ends at block 0. -/
theorem holeInode_hole (s : Mem) : holeInode.mapping holeFs holeVolume s 1 = .hole ∧
    holeInode.ending holeFs s 1 = 0 := by
  have hpath : holeInode.path holeFs.pointersPerIndirectBlock 1 = (0, []) := by decide
  rw [Ext2Inode.mapping, Ext2Inode.ending, hpath]
  exact ⟨rfl, rfl⟩

theorem holeInode_block (s : Mem) : holeInode.ending holeFs s 0 = 9 := by
  have hpath : holeInode.path holeFs.pointersPerIndirectBlock 0 = (9, []) := by decide
  rw [Ext2Inode.ending, hpath]
  rfl

theorem tempApart_const {temp ptr bs : ℕ} (h : temp + bs ≤ ptr) (n : ℕ) :
    TempApart (fun _ => temp) bs ptr n := fun _ => Or.inl h

/-- A byte of the hole is read from the boot block. -/
theorem ext2_fread_contents_broken :
    ∃ io', fread (ext2Fread holeFs (fun _ => 0x10000) 12) 0x20000 1 1
        ⟨fun _ => 0, holeVolume, ⟨1024, 0, 2048, 0⟩⟩ = (1, io') ∧
      ∀ s, ¬ (holeInode.mapping holeFs holeVolume s 1).Gives holeVolume 1024 0 (io'.mem 0x20000) := by
  obtain ⟨h, hf⟩ := holeFs_reads
  have hblock : (1024 + 0) / holeFs.b.blockSize = 1 := by decide
  have hend : ∀ i < 1, holeFs.Sound (fun d => d * 512 + 512 ≤ 64 * 512) (holeInode.ending holeFs
      (byteState holeFs (fun _ => 0x10000) 12 holeInode 0x20000 1024 1
        ⟨fun _ => 0, holeVolume, ⟨1024, 0, 2048, 0⟩⟩ i) ((1024 + i) / holeFs.b.blockSize)) := fun i hi => by
    obtain rfl : i = 0 := by omega
    rw [hblock, (holeInode_hole _).2]
    exact holeFs_sound (by decide)
  have hbs : (0x10000 : ℕ) + holeFs.b.blockSize ≤ 0x20000 := by decide
  obtain ⟨io', hread, -, hbytes⟩ := ext2Fread_spec h hf holeFs_volume trivial holeFs_file
    (tempApart_const hbs 1) (by decide) rfl hend
  have hsize : freadSize 1 1 ⟨1024, 0, 2048, 0⟩ = 1 := by decide
  refine ⟨io', by rw [fread_eq, hsize, hread, Nat.div_one], fun s => ?_⟩
  obtain ⟨-, -, hval⟩ := hbytes 0 one_pos
  rw [hblock, (holeInode_hole _).2] at hval
  rw [(holeInode_hole s).1]
  exact fun h0 => absurd (h0.symm.trans hval) (by decide)

/-- **The contents of an ext2 file.** `fread` of an opened file delivers, for every byte, the byte of the
file, if and only if the mapping of each of them could be read, and the byte that stands for one in
a hole is `0`. -/
theorem ext2_fread_contents (h : HealthyReads fs.b.parent inv content sound)
    (hf : FallibleReads fs.b.parent inv content fs.OnVolume) (hv : fs.Volume) (hs : inv io.dev)
    (hfile : Ext2File fs (content io.dev) sound inodeIdx inode) (hpos : io.file.pos = pos)
    (hlen : io.file.len = i32 inode.size) (hle : pos ≤ inode.size) {size nmemb : ℕ}
    (hsize : freadSize size nmemb io.file = n) (hn : pos + n < 2 ^ 31)
    (htemp : TempApart temp fs.b.blockSize ptr n)
    (hend : ∀ i < n, fs.Sound sound (inode.ending fs
      (byteState fs temp inodeIdx inode ptr pos n io i) ((pos + i) / fs.b.blockSize))) :
    ∃ io', fread (ext2Fread fs temp inodeIdx) ptr size nmemb io = (n / size, io') ∧
      io'.file.pos = (pos + n : ℕ) ∧
      ((∀ i < n, (inode.mapping fs (content io.dev) (byteState fs temp inodeIdx inode ptr pos n io i)
          ((pos + i) / fs.b.blockSize)).Gives (content io.dev) fs.b.blockSize
            ((pos + i) % fs.b.blockSize) (io'.mem (ptr + i))) ↔
        ∀ i < n, (inode.mapping fs (content io.dev) (byteState fs temp inodeIdx inode ptr pos n io i)
          ((pos + i) / fs.b.blockSize)).StoodFor (content io.dev (inode.ending fs
            (byteState fs temp inodeIdx inode ptr pos n io i) ((pos + i) / fs.b.blockSize) *
              fs.b.blockSize + (pos + i) % fs.b.blockSize))) := by
  obtain ⟨io', hread, hpos', hbytes⟩ := ext2Fread_spec h hf hv hs hfile htemp hn hpos hend
  have hlt : inode.size < 2 ^ 32 := by rw [hfile.inode_eq]; exact le32_lt _ _
  have hend' := pos_add_freadSize_le size nmemb hpos hlen hlt hle
  rw [hsize] at hend'
  refine ⟨io', by rw [fread_eq, hsize, hread], hpos', forall₂_congr fun i hi => ?_⟩
  obtain ⟨hi', hc', hval⟩ := hbytes i hi
  have hidx := Nat.div_mul_le_self (pos + i) fs.b.blockSize
  rw [hval]
  exact gives_iff hf hv hi' hc' (by omega) (hfile.pointers _ (by omega)) rfl

/-- Reading 600 bytes of block 9. -/
theorem ext2_fread_contents_block :
    ∃ io', fread (ext2Fread holeFs (fun _ => 0x10000) 12) 0x20000 1 600
        ⟨fun _ => 0, holeVolume, ⟨0, 0, 2048, 0⟩⟩ = (600 / 1, io') ∧
      io'.file.pos = (0 + 600 : ℕ) ∧
      ((∀ i < 600, (holeInode.mapping holeFs holeVolume (byteState holeFs (fun _ => 0x10000) 12 holeInode
          0x20000 0 600 ⟨fun _ => 0, holeVolume, ⟨0, 0, 2048, 0⟩⟩ i)
          ((0 + i) / holeFs.b.blockSize)).Gives holeVolume holeFs.b.blockSize
            ((0 + i) % holeFs.b.blockSize) (io'.mem (0x20000 + i))) ↔
        ∀ i < 600, (holeInode.mapping holeFs holeVolume (byteState holeFs (fun _ => 0x10000) 12 holeInode
          0x20000 0 600 ⟨fun _ => 0, holeVolume, ⟨0, 0, 2048, 0⟩⟩ i)
          ((0 + i) / holeFs.b.blockSize)).StoodFor (holeVolume (holeInode.ending holeFs
            (byteState holeFs (fun _ => 0x10000) 12 holeInode 0x20000 0 600
              ⟨fun _ => 0, holeVolume, ⟨0, 0, 2048, 0⟩⟩ i) ((0 + i) / holeFs.b.blockSize) *
              holeFs.b.blockSize + (0 + i) % holeFs.b.blockSize))) := by
  obtain ⟨h, hf⟩ := holeFs_reads
  have hbs : (0x10000 : ℕ) + holeFs.b.blockSize ≤ 0x20000 := by decide
  refine ext2_fread_contents h hf holeFs_volume trivial holeFs_file rfl (by decide) (by decide)
    (by decide) (by decide) (tempApart_const hbs 600) fun i hi => ?_
  have hsize : holeFs.b.blockSize = 1024 := by decide
  rw [show (0 + i) / holeFs.b.blockSize = 0 by rw [hsize]; omega, holeInode_block]
  exact holeFs_sound (by decide)

end RpiBoot
