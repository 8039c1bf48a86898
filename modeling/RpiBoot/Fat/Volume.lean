import Mathlib.Data.Nat.Bitwise
import RpiBoot.Fat.Model
import RpiBoot.Libfs.Read

/-!
# The layout of a FAT volume

The volume as its boot sector describes it: the first file allocation table starts behind the
reserved sectors, the data area behind the tables and the root directory, and the clusters are
numbered from `2`. `fatInit` computes this geometry without wrap-around, and `getNextFatEntry` reads
the entries of the table.

* `FatBS.Volume`: the boot sectors of FAT16 and FAT32 volumes with sectors of 512 bytes.
* `fatEntry`, `EndMark`, `clusterBytes`: the table and the data area.
* **`fatInit_spec`**, **`getNextFatEntry_spec`**: the code agrees with the layout.
-/

namespace RpiBoot

open Store

namespace FatBS

variable (bs : FatBS)

/-- The number of sectors of the volume. -/
def sectors : ℕ := if bs.totalSectors16 = 0 then bs.totalSectors32 else bs.totalSectors16

/-- The number of sectors of one table. -/
def fatSize : ℕ := if bs.tableSize16 = 0 then bs.tableSize32 else bs.tableSize16

/-- The number of sectors of the root directory. -/
def rootSectors : ℕ := (bs.rootEntryCount * 32 + 511) / 512

/-- The first sector of the data area. -/
def dataStart : ℕ := bs.reservedSectorCount + bs.tableCount * bs.fatSize + bs.rootSectors

/-- The number of clusters of the data area. -/
def clusters : ℕ := (bs.sectors - bs.dataStart) / bs.sectorsPerCluster

/-- The size of an entry of the table, in bytes. -/
def entrySize : FatType → ℕ
  | .fat12 | .fat16 => 2
  | .fat32 => 4

/-- The number of clusters, and the size field in use, decide the type. -/
def HasType : FatType → Prop
  | .fat12 => False
  | .fat16 => 4085 ≤ bs.clusters ∧ bs.clusters < 65525 ∧ bs.tableSize16 ≠ 0
  | .fat32 => 65525 ≤ bs.clusters ∧ bs.clusters ≤ 0x0ffffff5 ∧ bs.tableSize16 = 0 ∧
    bs.rootEntryCount = 0

/-- The boot sector of a FAT16 or FAT32 volume with sectors of 512 bytes. -/
structure Volume (ft : FatType) : Prop where
  jump : bs.bootjmp0 = 0xeb
  sector_size : bs.bytesPerSector = 512
  cluster_pos : 0 < bs.sectorsPerCluster
  cluster_lt : bs.sectorsPerCluster < 256
  sectors_lt : bs.sectors < 2 ^ 32
  table_pos : 0 < bs.tableCount
  data_fits : bs.dataStart ≤ bs.sectors
  hasType : bs.HasType ft
  table_covers : (bs.clusters + 2) * entrySize ft ≤ bs.fatSize * 512

/-- `c` is the number of a cluster of the data area. -/
def IsCluster (c : ℕ) : Prop := 2 ≤ c ∧ c < bs.clusters + 2

/-- The first sector of a cluster. -/
def clusterSector (c : ℕ) : ℕ := bs.dataStart + (c - 2) * bs.sectorsPerCluster

/-- The bytes of a cluster. -/
def clusterBytes (vol : Mem) (c : ℕ) : List UInt8 :=
  slice vol (bs.clusterSector c * 512) (bs.sectorsPerCluster * 512)

/-- The entry of a cluster in the first table (of a FAT16 or FAT32 volume). -/
def fatEntry (ft : FatType) (vol : Mem) (c : ℕ) : ℕ :=
  match ft with
  | .fat12 => 0
  | .fat16 => le16 vol (bs.reservedSectorCount * 512 + c * 2)
  | .fat32 => le32 vol (bs.reservedSectorCount * 512 + c * 4) % 2 ^ 28

end FatBS

/-- An entry that ends a chain. -/
def EndMark (ft : FatType) (e : ℕ) : Prop :=
  match ft with
  | .fat12 => False
  | .fat16 => 0xfff8 ≤ e
  | .fat32 => 0x0ffffff8 ≤ e

variable {bs : FatBS} {ft : FatType}

namespace FatBS.Volume

theorem table_le (hv : bs.Volume ft) : bs.fatSize ≤ bs.tableCount * bs.fatSize :=
  Nat.le_mul_of_pos_left _ hv.table_pos

/-- The sectors of a cluster lie on the volume. -/
theorem cluster_fits (hv : bs.Volume ft) {c : ℕ} (hc : bs.IsCluster c) :
    bs.clusterSector c + bs.sectorsPerCluster ≤ bs.sectors := by
  have h₁ : (c - 2 + 1) * bs.sectorsPerCluster ≤ bs.clusters * bs.sectorsPerCluster :=
    Nat.mul_le_mul_right _ (by have := hc.1; have := hc.2; omega)
  have h₂ : bs.clusters * bs.sectorsPerCluster ≤ bs.sectors - bs.dataStart := Nat.div_mul_le_self _ _
  have h₃ := hv.data_fits
  rw [Nat.add_mul, Nat.one_mul] at h₁
  unfold FatBS.clusterSector
  omega

/-- Cluster numbers are below the marks. -/
theorem isCluster_lt (hv : bs.Volume ft) {c : ℕ} (hc : bs.IsCluster c) : c < 0x0ffffff7 := by
  have h := hv.hasType
  have := hc.2
  cases ft with
  | fat12 => exact h.elim
  | fat16 => have := h.2.1; omega
  | fat32 => have := h.2.1; omega

end FatBS.Volume

variable {σ : Type} {inv : σ → Prop} {content : σ → Mem} {parent : BlockDevice σ}

/-! ## `fat_init` -/

/-- The number of clusters that `fat_init` computes, `total_clusters`. -/
def FatBS.totalClusters (bs : FatBS) : ℕ :=
  let rootDirSectors := (bs.rootEntryCount * 32 + bs.bytesPerSector - 1) / bs.bytesPerSector
  sub32 bs.sectors (u32 (bs.reservedSectorCount + u32 (bs.tableCount * bs.fatSize) + rootDirSectors)) /
    bs.sectorsPerCluster

theorem toFs_fatType (bs : FatBS) (parent : BlockDevice σ) :
    (bs.toFs parent).fatType = if bs.totalClusters < 4085 then .fat12
      else if bs.totalClusters < 65525 then .fat16 else .fat32 := rfl

/-- The sectors of the root directory, as `fat_init` rounds them up. -/
theorem rootSectors_eq (h : bs.bytesPerSector = 512) :
    (bs.rootEntryCount * 32 + bs.bytesPerSector - 1) / bs.bytesPerSector = bs.rootSectors := by
  rw [h]
  rfl

/-- The start of the data area, as `fat_init` adds it up. -/
theorem dataStart_eq (h : bs.dataStart < 2 ^ 32) :
    u32 (bs.reservedSectorCount + u32 (bs.tableCount * bs.fatSize) + bs.rootSectors) = bs.dataStart := by
  have hds : bs.dataStart = bs.reservedSectorCount + bs.tableCount * bs.fatSize + bs.rootSectors := rfl
  rw [u32_of_lt (show bs.tableCount * bs.fatSize < 2 ^ 32 by omega), u32_of_lt (by omega), hds]

/-- **The geometry that `fat_init` computes.** -/
theorem toFs_spec (hv : bs.Volume ft) (parent : BlockDevice σ) :
    (bs.toFs parent).b = ⟨parent, bs.sectorsPerCluster * 512⟩ ∧ (bs.toFs parent).fatType = ft ∧
      (bs.toFs parent).bytesPerSector = 512 ∧
      (bs.toFs parent).sectorsPerCluster = bs.sectorsPerCluster ∧
      (bs.toFs parent).firstFatSector = bs.reservedSectorCount ∧
      (bs.toFs parent).firstNonRootSector = bs.dataStart := by
  have hspc := hv.cluster_lt
  have hfit := hv.data_fits
  have hlt := hv.sectors_lt
  have hds : bs.dataStart = bs.reservedSectorCount + bs.tableCount * bs.fatSize + bs.rootSectors := rfl
  have hroot := rootSectors_eq hv.sector_size
  have hsum := dataStart_eq (hfit.trans_lt hlt)
  have hclusters : sub32 bs.sectors bs.dataStart / bs.sectorsPerCluster = bs.clusters := by
    rw [sub32_of_le hfit hlt]; rfl
  have hsize : u32 (bs.bytesPerSector * bs.sectorsPerCluster) = bs.sectorsPerCluster * 512 := by
    rw [hv.sector_size, u32_of_lt (by omega), Nat.mul_comm]
  have htotal : (if bs.totalSectors16 = 0 then bs.totalSectors32 else bs.totalSectors16) =
      bs.sectors := rfl
  have htable : (if bs.tableSize16 = 0 then bs.tableSize32 else bs.tableSize16) = bs.fatSize := rfl
  have htype := hv.hasType
  simp only [FatBS.toFs, hroot, htotal, htable, hsum, hclusters, hsize]
  cases ft with
  | fat12 => exact htype.elim
  | fat16 =>
    obtain ⟨h₁, h₂, h₃⟩ := htype
    have hft : bs.fatSize = bs.tableSize16 := if_neg h₃
    rw [if_neg (by omega), if_pos h₂]
    refine ⟨trivial, rfl, hv.sector_size, trivial, trivial, ?_⟩
    simp only [reduceCtorEq, if_false]
    rw [← hft, u32_of_lt (show bs.tableCount * bs.fatSize < 2 ^ 32 by omega),
      u32_of_lt (show bs.reservedSectorCount + bs.tableCount * bs.fatSize < 2 ^ 32 by omega),
      u32_of_lt (by omega), hds]
  | fat32 =>
    obtain ⟨h₁, h₂, h₃, h₄⟩ := htype
    have hft : bs.fatSize = bs.tableSize32 := if_pos h₃
    have hrs : bs.rootSectors = 0 := by rw [FatBS.rootSectors, h₄]
    rw [if_neg (by omega), if_neg (by omega)]
    refine ⟨trivial, rfl, hv.sector_size, trivial, trivial, ?_⟩
    simp only [if_true]
    rw [← hft, u32_of_lt (show bs.tableCount * bs.fatSize < 2 ^ 32 by omega), u32_of_lt (by omega), hds,
      hrs, Nat.add_zero]

/-- Reading one sector of a volume on a healthy device to a new buffer. -/
theorem readFresh_sector (h : HealthyReads parent inv content (· < bs.sectors))
    (hbs : parent.blockSize = 512) {s : σ} (hs : inv s) {b : ℕ} (hb : b < bs.sectors) :
    ∃ buf s', readFresh parent s 512 b = (512, buf, s') ∧
      slice buf 0 512 = slice (content s) (b * 512) 512 ∧ inv s' ∧ content s' = content s := by
  have := readFresh_healthy h hs hb
  rwa [hbs] at this

theorem ofBuf_congr {f g : Mem} (h : slice f 0 512 = slice g 0 512) : FatBS.ofBuf f = FatBS.ofBuf g := by
  have hb := slice_eq_iff.mp h
  have hh : ∀ i, i + 2 ≤ 512 → le16 f i = le16 g i := fun i hi => by
    simpa using le16_congr h hi
  have hw : ∀ i, i + 4 ≤ 512 → le32 f i = le32 g i := fun i hi => by
    simpa using le32_congr h hi
  simp only [Nat.zero_add] at hb
  simp only [FatBS.ofBuf, hb 0 (by decide), hb 13 (by decide), hb 16 (by decide),
    hh 11 (by decide), hh 14 (by decide), hh 17 (by decide), hh 19 (by decide), hh 22 (by decide),
    hw 32 (by decide), hw 36 (by decide), hw 44 (by decide)]

/-- **`fat_init` accepts a FAT16 or FAT32 volume.** -/
theorem fatInit_spec (h : HealthyReads parent inv content (· < bs.sectors))
    (hbs : parent.blockSize = 512) {s : σ} (hs : inv s) (hboot : FatBS.ofBuf (content s) = bs)
    (hv : bs.Volume ft) :
    ∃ s', fatInit parent s = (.ok (bs.toFs parent), s') ∧ inv s' ∧ content s' = content s := by
  have hpos : 0 < bs.sectors := by
    have h₁ := hv.table_covers
    have h₂ := hv.table_le
    have h₃ := hv.data_fits
    have h₄ : 0 < FatBS.entrySize ft := by cases ft <;> decide
    have h₅ := Nat.le_mul_of_pos_right (bs.clusters + 2) h₄
    unfold FatBS.dataStart at h₃
    omega
  obtain ⟨buf, s', hr, hbuf, hi, hc⟩ := readFresh_sector h hbs hs hpos
  rw [Nat.zero_mul] at hbuf
  refine ⟨s', ?_, hi, hc⟩
  have hret : i32 512 = 512 := i32_of_lt (by decide)
  simp only [fatInit, hr, hret, ofBuf_congr hbuf, hboot, hv.jump]
  rfl

/-! ## The table -/

theorem or_badMark {e : ℕ} (he : e < 2 ^ 16) : e ||| 0x0fff0000 = 0x0fff0000 + e := by
  have h := Nat.two_pow_add_eq_or_of_lt he 0x0fff
  rw [show 2 ^ 16 * 0x0fff = 0x0fff0000 by norm_num] at h
  rw [Nat.or_comm, h]

/-- **The entry that `get_next_fat_entry` reads.** -/
theorem getNextFatEntry_spec (h : HealthyReads parent inv content (· < bs.sectors))
    (hbs : parent.blockSize = 512) (hv : bs.Volume ft) {s : σ} (hs : inv s) {c : ℕ}
    (hc : bs.IsCluster c) :
    ∃ v s', getNextFatEntry (bs.toFs parent) s c = (v, s') ∧ inv s' ∧ content s' = content s ∧
      (bs.IsCluster (bs.fatEntry ft (content s) c) → v = bs.fatEntry ft (content s) c) ∧
      (EndMark ft (bs.fatEntry ft (content s) c) → endOfChain ≤ v) := by
  obtain ⟨hb, htype, hbps, -, hfirst, -⟩ := toFs_spec hv parent
  have hcover := hv.table_covers
  have htable := hv.table_le
  have hfit := hv.data_fits
  have hlt := hv.sectors_lt
  have hc₂ := hc.2
  have hret : 0 ≤ i32 512 := by rw [i32_of_lt (by decide)]; decide
  unfold FatBS.dataStart at hfit
  -- the sector of the entry lies in the first table
  have hsector : ∀ off, off < bs.fatSize * 512 →
      ∃ buf s', readFatSector (bs.toFs parent) s off = (512, buf, s') ∧
        slice buf 0 512 = slice (content s) ((bs.reservedSectorCount + off / 512) * 512) 512 ∧
        inv s' ∧ content s' = content s := fun off hoff => by
    rw [readFatSector, hfirst, hbps, hb, u32_of_lt (by omega)]
    exact readFresh_sector h hbs hs (by omega)
  have hht := hv.hasType
  cases ft with
  | fat12 => exact hht.elim
  | fat16 =>
    simp only [FatBS.entrySize] at hcover
    obtain ⟨buf, s', hr, hbuf, hi, hcs⟩ := hsector (c * 2) (by omega)
    have he : le16 buf (c * 2 % 512) = bs.fatEntry .fat16 (content s) c := by
      have := le16_congr hbuf (i := c * 2 % 512) (by omega)
      rw [Nat.zero_add] at this
      rw [this, FatBS.fatEntry]
      exact congrArg (le16 (content s)) (by omega)
    have hcl := hv.isCluster_lt hc
    have hu : u32 (c * 2) = c * 2 := u32_of_lt (by omega)
    rw [← hu] at hr
    refine ⟨_, s', getNextFatEntry_fat16 htype hr hret, hi, hcs, fun hcl' => ?_, fun hend => ?_⟩
    · have := hcl'.2
      have := hht.2.1
      rw [hu, hbps, he, if_neg (by omega)]
    · have hend : 0xfff8 ≤ bs.fatEntry .fat16 (content s) c := hend
      rw [hu, hbps, he, if_pos (by omega), or_badMark (by rw [← he]; exact le16_lt _ _), endOfChain]
      omega
  | fat32 =>
    simp only [FatBS.entrySize] at hcover
    obtain ⟨buf, s', hr, hbuf, hi, hcs⟩ := hsector (c * 4) (by omega)
    have he : le32 buf (c * 4 % 512) &&& 0x0fffffff = bs.fatEntry .fat32 (content s) c := by
      have := le32_congr hbuf (i := c * 4 % 512) (by omega)
      rw [Nat.zero_add] at this
      rw [this, FatBS.fatEntry, show 0x0fffffff = 2 ^ 28 - 1 by norm_num,
        Nat.and_two_pow_sub_one_eq_mod]
      exact congrArg (fun a => le32 (content s) a % 2 ^ 28) (by omega)
    have hcl := hv.isCluster_lt hc
    have hu : u32 (c * 4) = c * 4 := u32_of_lt (by omega)
    rw [← hu] at hr
    refine ⟨_, s', getNextFatEntry_fat32 htype hr hret, hi, hcs, ?_⟩
    rw [hu, hbps, he]
    exact ⟨fun _ => rfl, fun hend => hend⟩

end RpiBoot
