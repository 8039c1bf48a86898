import RpiBoot.Libfs.Model

/-!
# ext2 volumes (`ext2.c`)

* `ext2Init`: the geometry of a volume from its superblock.
* `ext2ReadInode`: an inode of the table.
* `getBlockNoFromInode`: the block of a file, through up to three levels of indirect blocks. A block
  that cannot be read gives `0`.
* `ext2GetNextBdevBlockNum`, `ext2Fopen`, `ext2Fread`: opening and reading a file.
-/

namespace RpiBoot

variable {σ : Type}

/-- `struct ext2_fs`; `bgdt` is the block group descriptor table. -/
structure Ext2Fs (σ : Type) where
  b : Fs σ
  totalInodes : ℕ
  totalBlocks : ℕ
  inodeSize : ℕ
  inodesPerGroup : ℕ
  blocksPerGroup : ℕ
  totalGroups : ℕ
  pointersPerIndirectBlock : ℕ
  pointersPerIndirectBlock2 : ℕ
  pointersPerIndirectBlock3 : ℕ
  bgdt : Mem

/-- The fields of `struct ext2_inode` that reading a file uses; `db` is `db0` to `db11`. -/
structure Ext2Inode where
  size : ℕ
  db : Fin 12 → ℕ
  sibp : ℕ
  dibp : ℕ
  tibp : ℕ

/-- The inode at address `a`. -/
def Ext2Inode.ofBuf (mem : Mem) (a : ℕ) : Ext2Inode where
  size := le32 mem (a + 4)
  db := fun i => le32 mem (a + 40 + 4 * i.val)
  sibp := le32 mem (a + 88)
  dibp := le32 mem (a + 92)
  tibp := le32 mem (a + 96)

variable (fs : Ext2Fs σ)

/-- `get_sector_num(fs, block_no)`. -/
def getSectorNum (blockNo : ℕ) : ℕ := u32 (blockNo * fs.b.blockSize) / fs.b.parent.blockSize

/-- `read_block(fs, block_no)`; `none` is the null pointer. -/
def readBlock (s : σ) (blockNo : ℕ) : Option Mem × σ :=
  let r := readFresh fs.b.parent s fs.b.blockSize (getSectorNum fs blockNo)
  if i32 r.1 < 0 then (none, r.2.2) else (some r.2.1, r.2.2)

/-- Load an indirect block and go on with it, or return `0`. -/
def withBlock (s : σ) (blockNo : ℕ) (k : Mem → σ → ℕ × σ) : ℕ × σ :=
  match readBlock fs s blockNo with
  | (none, s) => (0, s)
  | (some buf, s) => k buf s

/-- `((uint32_t *)buf)[index]`. -/
def pointerAt (buf : Mem) (index : ℕ) : ℕ := le32 buf (4 * index)

/-- `get_block_no_from_inode(fs, i, index, add_blocks)`; files are not extended. -/
def getBlockNoFromInode (s : σ) (i : Ext2Inode) (index : ℕ) : ℕ × σ :=
  if h : index < 12 then (i.db ⟨index, h⟩, s)
  else
    let index := index - 12
    if index < fs.pointersPerIndirectBlock then
      withBlock fs s i.sibp fun sib s => (pointerAt sib index, s)
    else
      let index := index - fs.pointersPerIndirectBlock
      if index < fs.pointersPerIndirectBlock2 then
        let dibIndex := index / fs.pointersPerIndirectBlock
        let sibIndex := index % fs.pointersPerIndirectBlock
        withBlock fs s i.dibp fun dib s =>
          withBlock fs s (pointerAt dib dibIndex) fun sib s => (pointerAt sib sibIndex, s)
      else
        let index := index - fs.pointersPerIndirectBlock2
        if index < fs.pointersPerIndirectBlock3 then
          let tibIndex := index / fs.pointersPerIndirectBlock2
          let tibRem := index % fs.pointersPerIndirectBlock2
          let dibIndex := tibRem / fs.pointersPerIndirectBlock
          let sibIndex := tibRem % fs.pointersPerIndirectBlock
          withBlock fs s i.tibp fun tib s =>
            withBlock fs s (pointerAt tib tibIndex) fun dib s =>
              withBlock fs s (pointerAt dib dibIndex) fun sib s => (pointerAt sib sibIndex, s)
        else (0, s)

/-- `ext2_get_next_bdev_block_num(f_block_idx, s, opaque, add_blocks)`. -/
def ext2GetNextBdevBlockNum : GetNext σ Ext2Inode := fun fBlockIdx _ opq io =>
  let r := getBlockNoFromInode fs io.dev opq fBlockIdx
  (getSectorNum fs r.1, opq, { io with dev := r.2 })

/-- The block of the inode table with inode `inodeIdx`, and the place of the inode in it. -/
def inodePlace (inodeIdx : ℕ) : ℕ × ℕ :=
  -- inode numbers start at 1
  let inodeIdx := sub32 inodeIdx 1
  let group := inodeIdx / fs.inodesPerGroup
  let offset := inodeIdx % fs.inodesPerGroup
  let inodesPerBlock := fs.b.blockSize / fs.inodeSize
  (u32 (le32 fs.bgdt (32 * group + 8) + offset / inodesPerBlock),
    offset % inodesPerBlock * fs.inodeSize)

/-- `ext2_read_inode(fs, inode_idx)`. -/
def ext2ReadInode (s : σ) (inodeIdx : ℕ) : Option Ext2Inode × σ :=
  let place := inodePlace fs inodeIdx
  let r := readBlock fs s place.1
  (r.1.map fun itable => Ext2Inode.ofBuf itable place.2, r.2)

/-- `ext2_fopen(fs, path, mode)` of the inode of `path`; `none` is `EROFS`. An inode that cannot be read
is taken from address `0` of memory. -/
def ext2Fopen (mem : Mem) (s : σ) (inodeIdx : ℕ) (mode : String) : Option Stream × σ :=
  if mode ≠ "r" then (none, s)
  else
    let r := ext2ReadInode fs s inodeIdx
    let inode := r.1.getD (Ext2Inode.ofBuf mem 0)
    (some ⟨0, 0, i32 inode.size, 0⟩, r.2)

/-- `ext2_fread(fs, ptr, byte_size, stream)` of a file with the given inode number. -/
def ext2Fread (temp : ℕ → ℕ) (inodeIdx : ℕ) : FsTransfer σ := fun ptr byteSize io =>
  if inodeIdx = 0 then (toU32 (-1), io)
  else
    let r := ext2ReadInode fs io.dev inodeIdx
    let inode := r.1.getD (Ext2Inode.ofBuf io.mem 0)
    fsFread (ext2GetNextBdevBlockNum fs) fs.b temp inode ptr byteSize { io with dev := r.2 }

/-- The number of groups of `per` items that `total` items take. -/
def groupCount (total per : ℕ) : ℕ := if total % per ≠ 0 then total / per + 1 else total / per

/-- The `struct ext2_fs` that `ext2_init` fills in from a superblock, without the descriptor table. -/
def Ext2Fs.ofSuperblock (parent : BlockDevice σ) (sb : Mem) : Ext2Fs σ :=
  let blockSize := u32 (1024 <<< le32 sb 24)
  let totalInodes := le32 sb 0
  let inodesPerGroup := le32 sb 40
  let p := blockSize / 4
  { b := ⟨parent, blockSize⟩
    totalInodes := totalInodes
    totalBlocks := le32 sb 4
    -- only the extended superblock gives a size
    inodeSize := if 1 ≤ i32 (le32 sb 76) then le16 sb 88 else 128
    inodesPerGroup := inodesPerGroup
    blocksPerGroup := le32 sb 32
    totalGroups := groupCount totalInodes inodesPerGroup
    pointersPerIndirectBlock := p
    pointersPerIndirectBlock2 := u32 (p * p)
    pointersPerIndirectBlock3 := u32 (u32 (p * p) * p)
    bgdt := fun _ => 0 }

/-- `ext2_init(parent, fs)`; on failure, the negative result. -/
def ext2Init (parent : BlockDevice σ) (s : σ) : Except ℤ (Ext2Fs σ) × σ :=
  let r := readFresh parent s 1024 (1024 / parent.blockSize)
  let ret := i32 r.1
  if ret < 0 then (.error ret, r.2.2)
  else if ret ≠ 1024 then (.error (-1), r.2.2)
  else
    let sb := r.2.1
    if le16 sb 56 ≠ 0xef53 then (.error (-1), r.2.2)
    else
      let fs := Ext2Fs.ofSuperblock parent sb
      -- the two ways to count the groups have to agree
      if fs.totalGroups ≠ groupCount fs.totalBlocks fs.blocksPerGroup then
        (.error (-1), r.2.2)
      else
        let size := u32 (fs.totalGroups * 32)
        let size := if size % fs.b.blockSize ≠ 0 then u32 ((size / fs.b.blockSize + 1) * fs.b.blockSize)
          else size
        let bgdtBlock := if fs.b.blockSize = 1024 then 2 else 1
        let t := readFresh parent r.2.2 size (getSectorNum fs bgdtBlock)
        (.ok { fs with bgdt := t.2.1 }, t.2.2)

end RpiBoot
