import RpiBoot.Fat.Directory

/-!
# The extent of the root directory of FAT12 and FAT16

The root directory takes `root_entry_count` entries in front of the data area. `fat_read_dir` reads it in
whole clusters, and rounds their number down, but reads one at least.

* `liveEntries`: the live entries of a range of the volume.
* `rootEntries_eq`: the range that the loop examines.
* `FatBS.RootExact`: on every readable device with the boot sector, just the entries of the root
  directory are listed.
* **`fat_root_extent_iff`**: that is so if and only if the root directory is not empty and a whole number
  of clusters long.
-/

namespace RpiBoot

open Store

/-- The live ones of `n` entries from address `a` on. -/
def liveEntries (vol : Mem) (a n : ℕ) : List Dirent :=
  (List.range n).filterMap fun k => fatDirEntry (window vol a) (32 * k)

namespace FatBS

variable (bs : FatBS)

/-- The first sector of the root directory. -/
def rootStart : ℕ := bs.dataStart - bs.rootSectors

/-- The number of sectors that `fat_read_dir` reads for the root directory. -/
def rootScan : ℕ := max 1 (bs.rootSectors / bs.sectorsPerCluster) * bs.sectorsPerCluster

/-- The root directory is listed as it is, whatever the volume holds and on whichever device that can
read it. -/
def RootExact : Prop :=
  ∀ (σ : Type) (parent : BlockDevice σ) (inv : σ → Prop) (content : σ → Mem) (n : ℕ),
    HealthyReads parent inv content (· < n) → parent.blockSize = 512 →
    bs.dataStart + bs.sectorsPerCluster ≤ n → ∀ s, inv s → FatBS.ofBuf (content s) = bs →
    ∃ s', fatReadDir (bs.toFs parent) none s =
      some (liveEntries (content s) (bs.rootStart * 512) bs.rootEntryCount, s')

end FatBS

variable {bs : FatBS} {vol : Mem}

theorem liveEntries_add (vol : Mem) (a m n : ℕ) :
    liveEntries vol a (m + n) = liveEntries vol a m ++ liveEntries vol (a + 32 * m) n := by
  unfold liveEntries
  rw [List.range_add, List.filterMap_append, List.filterMap_map]
  congr 1
  refine List.filterMap_congr fun k _ => fatDirEntry_congr fun i _ => ?_
  simp only [window]
  exact congrArg vol (by ring)

theorem sectorEntries_eq (bs : FatBS) (vol : Mem) (sector : ℕ) :
    sectorEntries bs vol sector = liveEntries vol (sector * 512) (16 * bs.sectorsPerCluster) := by
  rw [sectorEntries, fatClusterEntries, liveEntries,
    show (bs.sectorsPerCluster * 512 + 31) / 32 = 16 * bs.sectorsPerCluster by omega]

/-- Clusters of entries, one behind another. -/
theorem flatMap_sectorEntries (bs : FatBS) (vol : Mem) (start m : ℕ) :
    ((List.range m).flatMap fun k => sectorEntries bs vol (start + k * bs.sectorsPerCluster)) =
      liveEntries vol (start * 512) (16 * (m * bs.sectorsPerCluster)) := by
  induction m with
  | zero => rw [Nat.zero_mul]; rfl
  | succ m ih =>
    rw [List.range_succ, List.flatMap_append, ih, List.flatMap_singleton, sectorEntries_eq,
      Nat.succ_mul m, Nat.mul_add, liveEntries_add,
      show (start + m * bs.sectorsPerCluster) * 512 =
        start * 512 + 32 * (16 * (m * bs.sectorsPerCluster)) by ring]

/-- **The range that the loop examines.** -/
theorem rootEntries_eq (bs : FatBS) (vol : Mem) :
    rootEntries bs vol = liveEntries vol (bs.rootStart * 512) (16 * bs.rootScan) :=
  flatMap_sectorEntries bs vol _ _

/-- A live entry at the start of a range. -/
theorem liveEntries_ne_nil {a n : ℕ} (hn : 0 < n) {d : Dirent}
    (hd : fatDirEntry (window vol a) 0 = some d) : liveEntries vol a n ≠ [] := fun h => by
  have := List.filterMap_eq_nil_iff.mp h 0 (List.mem_range.mpr hn)
  rw [Nat.mul_zero, hd] at this
  cases this

/-- Two lengths of a range that differ can be told apart by a live entry at the end of the shorter. -/
theorem eq_of_liveEntries_eq {a m n : ℕ} {d : Dirent}
    (hd : fatDirEntry (window vol (a + 32 * min m n)) 0 = some d)
    (h : liveEntries vol a m = liveEntries vol a n) : m = n := by
  rcases Nat.lt_trichotomy m n with hlt | heq | hlt
  · obtain ⟨k, rfl⟩ := Nat.exists_eq_add_of_lt hlt
    rw [Nat.add_assoc, liveEntries_add, List.self_eq_append_right] at h
    rw [Nat.min_eq_left (by omega)] at hd
    exact absurd h (liveEntries_ne_nil k.succ_pos hd)
  · exact heq
  · obtain ⟨k, rfl⟩ := Nat.exists_eq_add_of_lt hlt
    rw [Nat.add_assoc, liveEntries_add, List.append_right_eq_self] at h
    rw [Nat.min_eq_right (by omega)] at hd
    exact absurd h (liveEntries_ne_nil k.succ_pos hd)

/-- A file `a` in an entry of a directory. -/
def plainEntry : List UInt8 := 0x41 :: (List.replicate 10 0x20 ++ List.replicate 21 0)

theorem fatDirEntry_plain (vol : Mem) (a : ℕ) :
    ∃ d, fatDirEntry (window (patch vol a plainEntry) a) 0 = some d := by
  have hcongr : fatDirEntry (window (patch vol a plainEntry) a) 0 =
      fatDirEntry (patch (fun _ => 0) 0 plainEntry) 0 := by
    refine fatDirEntry_congr fun i hi => ?_
    have h₁ := patch_apply_add vol a plainEntry hi
    have h₂ := patch_apply_add (fun _ => 0) 0 plainEntry hi
    rw [Nat.zero_add] at h₂ ⊢
    exact h₁.trans h₂.symm
  rw [hcongr]
  exact ⟨⟨[0x61], by decide, 0, false, 0⟩, by decide +kernel⟩

/-- What lies in front of the data area of FAT12 and FAT16 is small. -/
theorem dataStart_lt (vol : Mem) (hv : (FatBS.ofBuf vol).RootVolume) :
    (FatBS.ofBuf vol).dataStart < 2 ^ 25 := by
  have h₁ : (FatBS.ofBuf vol).reservedSectorCount < 2 ^ 16 := le16_lt _ _
  have h₂ : (FatBS.ofBuf vol).tableCount < 2 ^ 8 := UInt8.toNat_lt _
  have h₃ : (FatBS.ofBuf vol).fatSize < 2 ^ 16 := by
    rw [FatBS.fatSize, if_neg hv.table_ne]
    exact le16_lt _ _
  have h₄ := Nat.mul_le_mul (Nat.le_of_lt h₂) (Nat.le_of_lt h₃)
  have h₅ := hv.count_lt
  unfold FatBS.dataStart FatBS.rootSectors
  omega

/-- The entries are listed as far as the loop reads. -/
theorem rootExact_of_eq (hv : bs.RootVolume) (h : 16 * bs.rootScan = bs.rootEntryCount) :
    bs.RootExact := by
  intro σ parent inv content n hh hbs hn s hs _
  obtain ⟨s', hr, -, -⟩ := fatReadDir_root hh hbs hv hn hs
  rw [rootEntries_eq, h] at hr
  exact ⟨s', hr⟩

/-- A loop that reads too much or too little is found out by an entry. -/
theorem eq_of_rootExact (hv : (FatBS.ofBuf vol).RootVolume)
    (hres : 0 < (FatBS.ofBuf vol).reservedSectorCount) (h : (FatBS.ofBuf vol).RootExact) :
    16 * (FatBS.ofBuf vol).rootScan = (FatBS.ofBuf vol).rootEntryCount := by
  generalize hbs : FatBS.ofBuf vol = bs at *
  have hstart : 0 < bs.rootStart := by
    unfold FatBS.rootStart FatBS.dataStart
    omega
  -- the entry is put to the end of the shorter range
  have ha : 512 ≤ bs.rootStart * 512 + 32 * min (16 * bs.rootScan) bs.rootEntryCount := by omega
  obtain ⟨d, hd⟩ := fatDirEntry_plain vol
    (bs.rootStart * 512 + 32 * min (16 * bs.rootScan) bs.rootEntryCount)
  have hboot : FatBS.ofBuf (patch vol
      (bs.rootStart * 512 + 32 * min (16 * bs.rootScan) bs.rootEntryCount) plainEntry) = bs :=
    (ofBuf_congr (slice_patch_of_disjoint (Or.inl (by omega)))).trans hbs
  generalize patch vol (bs.rootStart * 512 + 32 * min (16 * bs.rootScan) bs.rootEntryCount)
    plainEntry = vol' at hd hboot
  have hlt : bs.dataStart < 2 ^ 25 := hboot ▸ dataStart_lt vol' (hboot ▸ hv)
  have hspc := hv.cluster_lt
  have hh : HealthyReads (storeDevice (bs.dataStart + bs.sectorsPerCluster)) (fun _ => True)
      (fun c => c) (· < bs.dataStart + bs.sectorsPerCluster) :=
    (storeDevice_serves (by omega)).healthyReads.mono fun b hb => by
      change b * 512 + 512 ≤ (bs.dataStart + bs.sectorsPerCluster) * 512
      omega
  obtain ⟨s₁, hr₁, -, -⟩ := fatReadDir_root hh rfl hv le_rfl (s := vol') trivial
  obtain ⟨s₂, hr₂⟩ := h _ _ _ _ _ hh rfl le_rfl vol' trivial hboot
  rw [hr₁, rootEntries_eq] at hr₂
  exact eq_of_liveEntries_eq hd (congrArg Prod.fst (Option.some.inj hr₂))

/-- The loop reads the root directory as it is when this is a whole number of clusters long. -/
theorem rootScan_eq_iff (hpos : 0 < bs.sectorsPerCluster) :
    bs.rootScan = bs.rootSectors ↔ 0 < bs.rootSectors ∧ bs.sectorsPerCluster ∣ bs.rootSectors := by
  unfold FatBS.rootScan
  constructor
  · intro h
    refine ⟨?_, ?_⟩
    · rw [← h]
      exact Nat.mul_pos (by omega) hpos
    · rw [← h]
      exact Nat.dvd_mul_left _ _
  · rintro ⟨hlt, k, hk⟩
    rw [hk] at hlt ⊢
    have hk : 0 < k := Nat.pos_of_mul_pos_left hlt
    rw [Nat.mul_div_cancel_left k hpos, Nat.max_eq_right hk, Nat.mul_comm]

/-- A FAT12 volume of 100 sectors, in clusters of two, with a root directory of one sector, which is
empty. The data area starts with bytes that look like an entry. -/
def shortRootVolume : Mem :=
  patch (patch (fun _ => 0) 0 [0xeb, 0x3c, 0x90, 0, 0, 0, 0, 0, 0, 0, 0, 0x00, 0x02, 2, 1, 0, 1, 16, 0,
    100, 0, 0xf8, 1, 0]) (3 * 512) plainEntry

theorem shortRootVolume_rootVolume : (FatBS.ofBuf shortRootVolume).RootVolume :=
  ⟨by decide, by decide, by decide, by decide, by decide, by decide, by decide, by decide, by decide⟩

/-- Half of the cluster that is read for the root directory belongs to the data area. -/
theorem fat_root_extent_broken :
    ¬ (FatBS.ofBuf shortRootVolume).RootExact ∧
      liveEntries shortRootVolume ((FatBS.ofBuf shortRootVolume).rootStart * 512)
        (FatBS.ofBuf shortRootVolume).rootEntryCount = [] ∧
      (fatReadDir ((FatBS.ofBuf shortRootVolume).toFs (storeDevice 100)) none shortRootVolume).map
        (fun r => r.1.map (·.name)) = some [[0x61]] := by
  refine ⟨fun h => ?_, by decide +kernel, by decide +kernel⟩
  exact absurd (eq_of_rootExact shortRootVolume_rootVolume (by decide) h) (by decide)

/-- **The extent of the root directory.** Just its entries are examined if and only if there are any, and
the directory is a whole number of clusters long. -/
theorem fat_root_extent_iff (hv : (FatBS.ofBuf vol).RootVolume)
    (hres : 0 < (FatBS.ofBuf vol).reservedSectorCount)
    (hcount : 16 ∣ (FatBS.ofBuf vol).rootEntryCount) :
    (FatBS.ofBuf vol).RootExact ↔ 0 < (FatBS.ofBuf vol).rootEntryCount ∧
      (FatBS.ofBuf vol).sectorsPerCluster ∣ (FatBS.ofBuf vol).rootSectors := by
  have hsectors : 16 * (FatBS.ofBuf vol).rootSectors = (FatBS.ofBuf vol).rootEntryCount := by
    unfold FatBS.rootSectors
    omega
  have hexact : (FatBS.ofBuf vol).RootExact ↔
      (FatBS.ofBuf vol).rootScan = (FatBS.ofBuf vol).rootSectors := by
    refine ⟨fun h => ?_, fun h => rootExact_of_eq hv (by rw [h, hsectors])⟩
    have := eq_of_rootExact hv hres h
    omega
  rw [hexact, rootScan_eq_iff hv.cluster_pos]
  exact and_congr_left' (by omega)

/-- The root directory of `emptyDirVolume` takes a sector, like its clusters. -/
theorem fat_root_extent_iff_empty : (FatBS.ofBuf emptyDirVolume).RootExact :=
  (fat_root_extent_iff (emptyDirVolume_volume.rootVolume (by decide) (by decide)) (by decide)
    (by decide)).mpr ⟨by decide, by decide⟩

end RpiBoot
