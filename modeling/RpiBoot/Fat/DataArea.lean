import RpiBoot.Fat.Geometry

/-!
# The sectors that a FAT file leads to

`fat_get_next_bdev_block_num` follows the links of the table until it comes to the block asked for, or
to an end mark. Whatever else it comes to, it takes for a cluster: `0` and `1`, the bad mark, and any
number behind the last cluster.

* `FatBS.Consistent`: the geometry of a volume. `FatBS.InDataArea`: the sectors of its clusters.
* `fatFollow`: the number that the links lead to, as they are read; `fatWalk_cluster`: it is where the
  walk ends.
* `FatBS.Lands`: the numbers whose sector lies in the data area.
* **`fat_next_block_iff`**: the sector found lies in the data area, or there is none, if and only if
  the links lead to a number that lands there.
-/

namespace RpiBoot

variable {σ : Type}

namespace FatBS

variable (bs : FatBS)

/-- A geometry without contradictions: the parts in front of the data area fit the volume, and the
fields that depend on the type are those of the type. -/
structure Consistent : Prop where
  bytes_pos : 0 < bs.bytesPerSector
  cluster_pos : 0 < bs.sectorsPerCluster
  sectors_lt : bs.sectors < 2 ^ 32
  fits : bs.metaSectors ≤ bs.sectors
  table : bs.totalClusters < 65525 → bs.tableSize16 ≠ 0
  table32 : 65525 ≤ bs.totalClusters → bs.tableSize16 = 0 ∧ bs.rootEntryCount = 0

/-- Sector `b` belongs to a cluster of the volume. -/
def InDataArea (b : ℕ) : Prop :=
  ∃ c, 2 ≤ c ∧ c ≤ bs.totalClusters + 1 ∧ bs.metaSectors + (c - 2) * bs.sectorsPerCluster ≤ b ∧
    b < bs.metaSectors + (c - 2) * bs.sectorsPerCluster + bs.sectorsPerCluster

/-- The number is an end mark; or its distance from cluster `2`, in sectors and modulo `2 ^ 32`, lies in
the data area, or leads to `0xffffffff`. -/
def Lands (c : ℕ) : Prop :=
  endOfChain ≤ c ∨ u32 (sub32 c 2 * bs.sectorsPerCluster) < bs.totalClusters * bs.sectorsPerCluster ∨
    bs.metaSectors + u32 (sub32 c 2 * bs.sectorsPerCluster) = noBlock

instance (c : ℕ) : Decidable (bs.Lands c) := inferInstanceAs (Decidable (_ ∨ _ ∨ _))

variable {bs}

/-- The clusters fill the data area. -/
theorem Consistent.totalClusters_eq (hg : bs.Consistent) :
    bs.totalClusters = (bs.sectors - bs.metaSectors) / bs.sectorsPerCluster := by
  have hfit := hg.fits
  have hlt := hg.sectors_lt
  have hmeta : bs.metaSectors =
      bs.reservedSectorCount + bs.tableCount * bs.fatSize + bs.rootDirSectors := rfl
  have hroot : bs.rootDirSectors =
      (bs.rootEntryCount * 32 + bs.bytesPerSector - 1) / bs.bytesPerSector := rfl
  rw [totalClusters, ← hroot, u32_of_lt (show bs.tableCount * bs.fatSize < 2 ^ 32 by omega), ← hmeta,
    u32_of_lt (by omega), sub32_of_le hfit hlt]

theorem Consistent.clusters_le (hg : bs.Consistent) :
    bs.metaSectors + bs.totalClusters * bs.sectorsPerCluster ≤ bs.sectors := by
  have hfit := hg.fits
  have hle := Nat.div_mul_le_self (bs.sectors - bs.metaSectors) bs.sectorsPerCluster
  rw [← hg.totalClusters_eq] at hle
  omega

/-- The sectors of the clusters, from the first to the last. -/
theorem inDataArea_iff (hpos : 0 < bs.sectorsPerCluster) {b : ℕ} :
    bs.InDataArea b ↔ bs.metaSectors ≤ b ∧
      b < bs.metaSectors + bs.totalClusters * bs.sectorsPerCluster := by
  constructor
  · rintro ⟨c, hc, hc', hle, hlt⟩
    have h := Nat.mul_le_mul_right bs.sectorsPerCluster (show c - 2 + 1 ≤ bs.totalClusters by omega)
    rw [Nat.add_mul, Nat.one_mul] at h
    omega
  · rintro ⟨hle, hlt⟩
    obtain ⟨o, rfl⟩ := Nat.exists_eq_add_of_le hle
    have ho : o / bs.sectorsPerCluster < bs.totalClusters :=
      (Nat.div_lt_iff_lt_mul hpos).mpr (by omega)
    have hdiv := Nat.div_add_mod' o bs.sectorsPerCluster
    have hmod := Nat.mod_lt o hpos
    generalize o / bs.sectorsPerCluster = q at *
    refine ⟨q + 2, by omega, by omega, ?_, ?_⟩ <;>
    · rw [Nat.add_sub_cancel]
      omega

/-- The sectors of the data area lie on the volume, behind the tables and the root directory. -/
theorem InDataArea.lt_sectors (hg : bs.Consistent) {b : ℕ} (h : bs.InDataArea b) :
    bs.metaSectors ≤ b ∧ b < bs.sectors := by
  obtain ⟨hle, hlt⟩ := (inDataArea_iff hg.cluster_pos).mp h
  exact ⟨hle, hlt.trans_le hg.clusters_le⟩

end FatBS

/-! ## The walk -/

/-- The number that `n` links lead to from `c` on, as the table is read from state `s` on, with reads
that may fail. An end mark leads no further. -/
def fatFollow (fs : FatFs σ) : ℕ → ℕ → σ → ℕ
  | 0, c, _ => c
  | n + 1, c, s =>
    if c < endOfChain then fatFollow fs n (getNextFatEntry fs s c).1 (getNextFatEntry fs s c).2 else c

/-- The number of links from block `f` to block `idx`, counting up with wrap-around. -/
def blockSteps (f idx : ℕ) : ℕ := if f ≤ idx then idx - f else 2 ^ 32 - f + idx

theorem blockSteps_succ {f idx n : ℕ} (hf : f < 2 ^ 32) (hidx : idx < 2 ^ 32)
    (h : blockSteps f idx = n + 1) : f ≠ idx ∧ blockSteps (u32 (f + 1)) idx = n := by
  unfold blockSteps u32 at *
  split_ifs at * <;> omega

/-- **The walk ends where the links lead.** -/
theorem fatWalk_cluster (fs : FatFs σ) {idx : ℕ} (hidx : idx < 2 ^ 32) (n : ℕ)
    {opq : FatFileBlockOffset} (hf : opq.fBlock < 2 ^ 32) (hn : blockSteps opq.fBlock idx = n) (s : σ) :
    (fatWalk fs idx n opq s).1.cluster = fatFollow fs n opq.cluster s := by
  induction n generalizing opq s with
  | zero => rfl
  | succ n ih =>
    obtain ⟨hne, hn'⟩ := blockSteps_succ hf hidx hn
    rw [fatWalk, fatFollow]
    by_cases hlt : opq.cluster < endOfChain
    · rw [if_pos ⟨hne, hlt⟩, if_pos hlt]
      exact ih (u32_lt _) hn' _
    · rw [if_neg fun hc => hlt hc.2, if_neg hlt]

variable {bs : FatBS} {parent : BlockDevice σ}

/-- The place of the data area that `fat_init` computes. -/
theorem toFs_dataArea (hg : bs.Consistent) (parent : BlockDevice σ) :
    (bs.toFs parent).firstNonRootSector = bs.metaSectors := by
  have hfit := hg.fits
  have hlt := hg.sectors_lt
  have hmeta : bs.metaSectors =
      bs.reservedSectorCount + bs.tableCount * bs.fatSize + bs.rootDirSectors := rfl
  have hfirst : (bs.toFs parent).firstDataSector = u32 (bs.reservedSectorCount + u32 (bs.tableCount *
      if (bs.toFs parent).fatType = .fat32 then bs.tableSize32 else bs.tableSize16)) := rfl
  have hnonroot : (bs.toFs parent).firstNonRootSector = if (bs.toFs parent).fatType = .fat32 then
      (bs.toFs parent).firstDataSector
    else u32 ((bs.toFs parent).firstDataSector + bs.rootDirSectors) := rfl
  rw [hnonroot, hfirst]
  rcases Nat.lt_or_ge bs.totalClusters 65525 with h | h
  · have htype : (bs.toFs parent).fatType ≠ .fat32 := by
      rw [toFs_fatType, if_pos h]
      split_ifs <;> decide
    have hsize : bs.tableSize16 = bs.fatSize := (if_neg (hg.table h)).symm
    rw [if_neg htype, if_neg htype, hsize, u32_of_lt (show bs.tableCount * bs.fatSize < 2 ^ 32 by omega),
      u32_of_lt (show bs.reservedSectorCount + bs.tableCount * bs.fatSize < 2 ^ 32 by omega), ← hmeta,
      u32_of_lt (by omega)]
  · have htype : (bs.toFs parent).fatType = .fat32 := by
      rw [toFs_fatType, if_neg (by omega), if_neg (by omega)]
    obtain ⟨htable, hcount⟩ := hg.table32 h
    have hsize : bs.tableSize32 = bs.fatSize := (if_pos htable).symm
    have hroot : bs.rootDirSectors = 0 := by
      have := hg.bytes_pos
      rw [FatBS.rootDirSectors, hcount]
      exact Nat.div_eq_of_lt (by omega)
    rw [if_pos htype, if_pos htype, hsize, u32_of_lt (show bs.tableCount * bs.fatSize < 2 ^ 32 by omega),
      u32_of_lt (by omega)]
    omega

/-- **The sector of a number** that is no end mark. -/
theorem getSector_inDataArea_iff (hg : bs.Consistent) {c : ℕ} (hc : c < endOfChain) :
    (getSector (bs.toFs parent) c = noBlock ∨ bs.InDataArea (getSector (bs.toFs parent) c)) ↔
      bs.Lands c := by
  have hle := hg.clusters_le
  have hlt := hg.sectors_lt
  have ho := u32_lt (sub32 c 2 * bs.sectorsPerCluster)
  have hsector : getSector (bs.toFs parent) c =
      u32 (bs.metaSectors + u32 (sub32 c 2 * bs.sectorsPerCluster)) := by
    rw [getSector, toFs_dataArea hg]
    rfl
  rw [hsector, FatBS.inDataArea_iff hg.cluster_pos, FatBS.Lands,
    or_iff_right (not_le.mpr hc)]
  generalize u32 (sub32 c 2 * bs.sectorsPerCluster) = o at *
  generalize bs.totalClusters * bs.sectorsPerCluster = n at *
  unfold u32 noBlock
  omega

theorem emptyDirVolume_consistent : (FatBS.ofBuf emptyDirVolume).Consistent :=
  ⟨by decide, by decide, by decide, by decide, fun _ => by decide, fun h => absurd h (by decide)⟩

/-- A link to a free cluster is followed to cluster `0`: on `emptyDirVolume`, to a sector of the table. -/
theorem fat_next_block_in_table :
    (fatGetNextBdevBlockNum ((FatBS.ofBuf emptyDirVolume).toFs (storeDevice 4200)) 1 false ⟨0, 3⟩
        ⟨fun _ => 0, emptyDirVolume, ⟨0, 0, 0, 0⟩⟩).1 = 17 ∧
      17 ≠ noBlock ∧ ¬ (FatBS.ofBuf emptyDirVolume).InDataArea 17 := by
  refine ⟨by decide +kernel, by decide, fun h => ?_⟩
  have hle := (h.lt_sectors emptyDirVolume_consistent).1
  exact absurd hle (by decide)

/-- **The sectors of a file.** What is found for a block is no sector, or a sector of the data area, if
and only if the links lead from the cursor to a number that lands there. -/
theorem fat_next_block_iff (hg : bs.Consistent) {idx : ℕ} (hidx : idx < 2 ^ 32)
    {opq : FatFileBlockOffset} (hf : opq.fBlock < 2 ^ 32) (addBlocks : Bool) (io : FileIo σ) :
    ((fatGetNextBdevBlockNum (bs.toFs parent) idx addBlocks opq io).1 = noBlock ∨
        bs.InDataArea (fatGetNextBdevBlockNum (bs.toFs parent) idx addBlocks opq io).1) ↔
      bs.Lands (fatFollow (bs.toFs parent) (blockSteps opq.fBlock idx) opq.cluster io.dev) := by
  have hwalk := fatWalk_cluster (bs.toFs parent) hidx _ hf rfl io.dev
  rw [← hwalk]
  unfold fatGetNextBdevBlockNum
  dsimp only
  rw [← blockSteps]
  generalize (fatWalk (bs.toFs parent) idx (blockSteps opq.fBlock idx) opq io.dev).1.cluster = c
  by_cases hc : c < endOfChain
  · rw [if_pos hc]
    exact getSector_inDataArea_iff hg hc
  · rw [if_neg hc]
    exact iff_of_true (Or.inl rfl) (Or.inl (not_lt.mp hc))

/-- The second block of the file in cluster `2` of `emptyDirVolume` is behind its end. -/
theorem fat_next_block_iff_empty :
    (fatGetNextBdevBlockNum ((FatBS.ofBuf emptyDirVolume).toFs (storeDevice 4200)) 1 false ⟨0, 2⟩
        ⟨fun _ => 0, emptyDirVolume, ⟨0, 0, 0, 0⟩⟩).1 = noBlock ∨
      (FatBS.ofBuf emptyDirVolume).InDataArea
        (fatGetNextBdevBlockNum ((FatBS.ofBuf emptyDirVolume).toFs (storeDevice 4200)) 1 false ⟨0, 2⟩
          ⟨fun _ => 0, emptyDirVolume, ⟨0, 0, 0, 0⟩⟩).1 :=
  (fat_next_block_iff emptyDirVolume_consistent (by decide) (by decide) false _).mpr
    (by decide +kernel)

end RpiBoot
