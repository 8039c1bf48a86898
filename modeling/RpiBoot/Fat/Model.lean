import RpiBoot.Libfs.Model

/-!
# FAT volumes (`fat.c`)

* `fatInit`: the geometry of a volume from its boot sector.
* `getNextFatEntry`: the cluster that follows another, in the two encodings.
* `fatGetNextBdevBlockNum`: the sector of a block of a file, by a cursor into its cluster chain that
  only moves forward.
* `fatFopen`, `fatFread`: opening and reading a file.
-/

namespace RpiBoot

variable {σ : Type}

inductive FatType where
  | fat12 | fat16 | fat32
deriving DecidableEq

/-- `struct fat_fs`, without the texts: `fat_init` copies the label of the volume by `strcpy`, up to a zero
byte behind it, into 12 bytes that nothing but `printf` reads. -/
structure FatFs (σ : Type) where
  b : Fs σ
  fatType : FatType
  totalSectors : ℕ
  sectorsPerCluster : ℕ
  bytesPerSector : ℕ
  firstFatSector : ℕ
  firstDataSector : ℕ
  sectorsPerFat : ℕ
  rootDirEntries : ℕ
  rootDirSectors : ℕ
  firstNonRootSector : ℕ
  rootDirCluster : ℕ

/-- The fields of `struct fat_BS` that `fat_init` reads. -/
structure FatBS where
  bootjmp0 : ℕ
  bytesPerSector : ℕ
  sectorsPerCluster : ℕ
  reservedSectorCount : ℕ
  tableCount : ℕ
  rootEntryCount : ℕ
  totalSectors16 : ℕ
  tableSize16 : ℕ
  totalSectors32 : ℕ
  tableSize32 : ℕ
  rootCluster : ℕ
deriving DecidableEq

/-- The boot sector at the start of a buffer. -/
def FatBS.ofBuf (buf : Mem) : FatBS where
  bootjmp0 := (buf 0).toNat
  bytesPerSector := le16 buf 11
  sectorsPerCluster := (buf 13).toNat
  reservedSectorCount := le16 buf 14
  tableCount := (buf 16).toNat
  rootEntryCount := le16 buf 17
  totalSectors16 := le16 buf 19
  tableSize16 := le16 buf 22
  totalSectors32 := le32 buf 32
  tableSize32 := le32 buf 36
  rootCluster := le32 buf 44

/-- The `struct fat_fs` that `fat_init` fills in from a boot sector. -/
def FatBS.toFs (bs : FatBS) (parent : BlockDevice σ) : FatFs σ :=
  let totalSectors := if bs.totalSectors16 = 0 then bs.totalSectors32 else bs.totalSectors16
  -- the sum rounds the number of sectors up
  let rootDirSectors := (bs.rootEntryCount * 32 + bs.bytesPerSector - 1) / bs.bytesPerSector
  let fatSize := if bs.tableSize16 = 0 then bs.tableSize32 else bs.tableSize16
  let dataSec := sub32 totalSectors
    (u32 (bs.reservedSectorCount + u32 (bs.tableCount * fatSize) + rootDirSectors))
  let totalClusters := dataSec / bs.sectorsPerCluster
  let fatType := if totalClusters < 4085 then FatType.fat12
    else if totalClusters < 65525 then .fat16
    else .fat32
  let tableSize := if fatType = .fat32 then bs.tableSize32 else bs.tableSize16
  let firstDataSector := u32 (bs.reservedSectorCount + u32 (bs.tableCount * tableSize))
  { b := ⟨parent, u32 (bs.bytesPerSector * bs.sectorsPerCluster)⟩
    fatType := fatType
    totalSectors := totalSectors
    sectorsPerCluster := bs.sectorsPerCluster
    bytesPerSector := bs.bytesPerSector
    firstFatSector := bs.reservedSectorCount
    firstDataSector := firstDataSector
    sectorsPerFat := tableSize
    rootDirEntries := bs.rootEntryCount
    rootDirSectors := rootDirSectors
    firstNonRootSector := if fatType = .fat32 then firstDataSector
      else u32 (firstDataSector + rootDirSectors)
    rootDirCluster := if fatType = .fat32 then bs.rootCluster else 2 }

/-- `fat_init(parent, fs)`, but for the copy of the label; on failure, the negative result. -/
def fatInit (parent : BlockDevice σ) (s : σ) : Except ℤ (FatFs σ) × σ :=
  let r := readFresh parent s 512 0
  let ret := i32 r.1
  if ret < 0 then (.error ret, r.2.2)
  else if ret ≠ 512 then (.error (-1), r.2.2)
  else
    let bs := FatBS.ofBuf r.2.1
    if bs.bootjmp0 ≠ 0xeb then (.error (-1), r.2.2)
    else (.ok (bs.toFs parent), r.2.2)

/-- `get_sector(fs, rel_cluster)`. -/
def getSector (fs : FatFs σ) (relCluster : ℕ) : ℕ :=
  u32 (fs.firstNonRootSector + u32 (sub32 relCluster 2 * fs.sectorsPerCluster))

/-- The sector of the FAT with the byte `fat_offset`, and the place of the byte in it. -/
def readFatSector (fs : FatFs σ) (s : σ) (fatOffset : ℕ) : ℕ × Mem × σ :=
  readFresh fs.b.parent s 512 (u32 (fs.firstFatSector + fatOffset / fs.bytesPerSector))

/-- `get_next_fat_entry(fs, current_cluster)`. -/
def getNextFatEntry (fs : FatFs σ) (s : σ) (currentCluster : ℕ) : ℕ × σ :=
  match fs.fatType with
  | .fat16 =>
    let fatOffset := u32 (currentCluster * 2)
    let r := readFatSector fs s fatOffset
    if i32 r.1 < 0 then (0x0ffffff7, r.2.2)
    else
      let nextCluster := le16 r.2.1 (fatOffset % fs.bytesPerSector)
      (if nextCluster ≥ 0xfff7 then nextCluster ||| 0x0fff0000 else nextCluster, r.2.2)
  | .fat32 =>
    let fatOffset := u32 (currentCluster * 4)
    let r := readFatSector fs s fatOffset
    if i32 r.1 < 0 then (0x0ffffff7, r.2.2)
    else (le32 r.2.1 (fatOffset % fs.bytesPerSector) &&& 0x0fffffff, r.2.2)
  | .fat12 => (0, s)

theorem getNextFatEntry_fat16 {fs : FatFs σ} (h : fs.fatType = .fat16) {s s' : σ} {c ret : ℕ}
    {buf : Mem} (hr : readFatSector fs s (u32 (c * 2)) = (ret, buf, s')) (hret : 0 ≤ i32 ret) :
    getNextFatEntry fs s c =
      (if le16 buf (u32 (c * 2) % fs.bytesPerSector) ≥ 0xfff7 then
        le16 buf (u32 (c * 2) % fs.bytesPerSector) ||| 0x0fff0000
      else le16 buf (u32 (c * 2) % fs.bytesPerSector), s') := by
  simp only [getNextFatEntry, h, hr, if_neg (not_lt.mpr hret)]

theorem getNextFatEntry_fat32 {fs : FatFs σ} (h : fs.fatType = .fat32) {s s' : σ} {c ret : ℕ}
    {buf : Mem} (hr : readFatSector fs s (u32 (c * 4)) = (ret, buf, s')) (hret : 0 ≤ i32 ret) :
    getNextFatEntry fs s c =
      (le32 buf (u32 (c * 4) % fs.bytesPerSector) &&& 0x0fffffff, s') := by
  simp only [getNextFatEntry, h, hr, if_neg (not_lt.mpr hret)]

/-- `struct fat_file_block_offset`. -/
structure FatFileBlockOffset where
  fBlock : ℕ
  cluster : ℕ
deriving DecidableEq

/-- A cluster number from here on ends a chain. -/
def endOfChain : ℕ := 0x0ffffff8

/-- The walk along the chain in `fat_get_next_bdev_block_num`. -/
def fatWalk (fs : FatFs σ) (fBlockIdx : ℕ) : ℕ → FatFileBlockOffset → σ → FatFileBlockOffset × σ
  | 0, ffbo, s => (ffbo, s)
  | fuel + 1, ffbo, s =>
    if ffbo.fBlock ≠ fBlockIdx ∧ ffbo.cluster < endOfChain then
      let r := getNextFatEntry fs s ffbo.cluster
      fatWalk fs fBlockIdx fuel ⟨u32 (ffbo.fBlock + 1), r.1⟩ r.2
    else (ffbo, s)

/-- `fat_get_next_bdev_block_num(f_block_idx, s, opaque, add_blocks)`. Counting up from `f_block` with
wrap-around reaches `f_block_idx` after the number of steps given to the walk. -/
def fatGetNextBdevBlockNum (fs : FatFs σ) : GetNext σ FatFileBlockOffset :=
  fun fBlockIdx _ opq io =>
    let steps := if opq.fBlock ≤ fBlockIdx then fBlockIdx - opq.fBlock
      else 2 ^ 32 - opq.fBlock + fBlockIdx
    let w := fatWalk fs fBlockIdx steps opq io.dev
    let io := { io with dev := w.2 }
    if w.1.cluster < endOfChain then (getSector fs w.1.cluster, w.1, io)
    else
      (noBlock, w.1, { io with file := { io.file with flags := io.file.flags ||| vfsFlagsEof } })

/-- The fields of `struct dirent` that opening a file reads. -/
structure FatDirent where
  cluster : ℕ
  byteSize : ℕ

/-- `fat_fopen(fs, path, mode)`: the file and its first cluster; `none` is `EROFS`. -/
def fatFopen (path : FatDirent) (mode : String) : Option (Stream × ℕ) :=
  if mode ≠ "r" then none else some (⟨0, 0, i32 path.byteSize, 0⟩, path.cluster)

/-- `fat_fread(fs, ptr, byte_size, stream)` of a file with the given first cluster. -/
def fatFread (fs : FatFs σ) (temp : ℕ → ℕ) (cluster : ℕ) : FsTransfer σ := fun ptr byteSize io =>
  if cluster = 0 then (toU32 (-1), io)
  else fsFread (fatGetNextBdevBlockNum fs) fs.b temp ⟨0, cluster⟩ ptr byteSize io

end RpiBoot
