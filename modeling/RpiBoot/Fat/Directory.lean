import RpiBoot.Directory
import RpiBoot.Fat.File

/-!
# FAT directories (`fat_read_dir`)

A directory is read cluster by cluster, in entries of 32 bytes. The root directory of a volume other
than FAT32 lies in front of the data area and has no chain.

* `fatDirEntry`, `fatReadDir`: the entry at a place of a cluster; all entries of a directory.
* `chainEntries`, `rootEntries`: the entries as they lie on the volume.
* `fatReadDir_chain`, `fatReadDir_root`: the code lists these.
* **`fatTree_readsDirs`**: on a healthy device with well-formed chains, every directory is listed.
* **`fat_opendir_iff`**: when `opendir` and `readdir` find what a path names.
-/

namespace RpiBoot

open Store

variable {σ : Type}

/-- One round of the loop of `fat_read_dir` that builds a name: the characters so far, and `has_ext`. -/
def fatNameStep (buf : Mem) (ptr : ℕ) (st : List UInt8 × Bool) (i : ℕ) : List UInt8 × Bool :=
  let curV := buf (ptr + i)
  let name := if i = 8 then st.1 ++ [0x2e] else st.1
  if curV = 0x20 then (name, st.2)
  else
    (name ++ [if curV ≥ 0x41 ∧ curV ≤ 0x5a then 0x61 + curV - 0x41 else curV],
      if i ≥ 8 then true else st.2)

/-- The name of an entry; without an extension, the last character, which is the dot, is cut off. -/
def fatName (buf : Mem) (ptr : ℕ) : List UInt8 :=
  let st := (List.range 11).foldl (fatNameStep buf ptr) ([], false)
  (if !st.2 then st.1.dropLast else st.1).takeWhile (· != 0)

theorem zero_notMem_fatName (buf : Mem) (ptr : ℕ) : 0 ∉ fatName buf ptr := fun h => by
  simpa using List.mem_takeWhile_imp h

/-- The entry at `ptr`, unless it is skipped. -/
def fatDirEntry (buf : Mem) (ptr : ℕ) : Option Dirent :=
  if buf ptr = 0 ∨ buf ptr = 0xe5 then none
  else if buf ptr = 0x2e ∧ buf (ptr + 1) = 0x20 then none
  else if buf ptr = 0x2e ∧ buf (ptr + 1) = 0x2e ∧ buf (ptr + 2) = 0x20 then none
  else if buf (ptr + 11) &&& 0x08 ≠ 0 then none
  else some {
    name := fatName buf ptr
    clean := zero_notMem_fatName buf ptr
    isDir := decide (buf (ptr + 11) &&& 0x10 ≠ 0)
    byteSize := le32 buf (ptr + 28)
    opq := le16 buf (ptr + 26) ||| le16 buf (ptr + 20) <<< 16 }

/-- The loop of `fat_read_dir` over a cluster. -/
def fatClusterEntries (buf : Mem) (clusterSize : ℕ) : List Dirent :=
  (List.range ((clusterSize + 31) / 32)).filterMap fun k => fatDirEntry buf (32 * k)

/-- The loop of `fat_read_dir` over the clusters. -/
def fatReadDirLoop (fs : FatFs σ) (isRoot : Bool) :
    ℕ → ℕ → ℕ → List Dirent → σ → Option (List Dirent × σ)
  | 0, _, _, _, _ => none
  | fuel + 1, curCluster, curRootClusterOffset, ret, s =>
    let clusterSize := u32 (fs.bytesPerSector * fs.sectorsPerCluster)
    let absoluteCluster := sub32 curCluster 2
    let firstDataSector := if !isRoot then fs.firstNonRootSector else fs.firstDataSector
    let r := readFresh fs.b.parent s clusterSize
      (u32 (u32 (absoluteCluster * fs.sectorsPerCluster) + firstDataSector))
    if i32 r.1 < 0 then some ([], r.2.2)
    else
      let ret := ret ++ fatClusterEntries r.2.1 clusterSize
      let next :=
        if isRoot ∧ fs.fatType ≠ .fat32 then
          (if curRootClusterOffset + 1 < fs.rootDirSectors / fs.sectorsPerCluster then
            u32 (curCluster + 1) else 0x0ffffff8, r.2.2)
        else getNextFatEntry fs r.2.2 curCluster
      if next.1 < 0x0ffffff7 then
        fatReadDirLoop fs isRoot fuel next.1 (curRootClusterOffset + 1) ret next.2
      else some (ret, next.2)

/-- `fat_read_dir(fs, d)`. Cluster numbers are below `0x0ffffff7`, so that a walk that has not ended after
`2 ^ 28` clusters (`none`) goes in a circle. -/
def fatReadDir (fs : FatFs σ) (d : Option Dirent) (s : σ) : Option (List Dirent × σ) :=
  match d with
  | none => fatReadDirLoop fs true (2 ^ 28) fs.rootDirCluster 0 [] s
  | some d => fatReadDirLoop fs false (2 ^ 28) d.opq 0 [] s

/-! ## The entries on the volume -/

/-- A cluster of entries from a sector on. -/
def sectorEntries (bs : FatBS) (vol : Mem) (sector : ℕ) : List Dirent :=
  fatClusterEntries (window vol (sector * 512)) (bs.sectorsPerCluster * 512)

/-- The entries of a directory with a chain. -/
def chainEntries (bs : FatBS) (vol : Mem) (chain : List ℕ) : List Dirent :=
  chain.flatMap fun c => sectorEntries bs vol (bs.clusterSector c)

/-- The entries of the root directory in front of the data area: as many whole clusters as it has, but
one at least. -/
def rootEntries (bs : FatBS) (vol : Mem) : List Dirent :=
  (List.range (max 1 (bs.rootSectors / bs.sectorsPerCluster))).flatMap fun k =>
    sectorEntries bs vol (bs.dataStart - bs.rootSectors + k * bs.sectorsPerCluster)

/-- The directories of a volume have well-formed chains, and the given entries. -/
structure FatTree (bs : FatBS) (ft : FatType) (vol : Mem) (entries : Option Dirent → List Dirent) :
    Prop where
  root : ft ≠ .fat32 → entries none = rootEntries bs vol
  root32 : ft = .fat32 → ∃ chain, ClusterChain bs ft vol bs.rootCluster chain ∧
    entries none = chainEntries bs vol chain
  sub : ∀ d, Below entries none (some d) → ∃ chain, ClusterChain bs ft vol d.opq chain ∧
    entries (some d) = chainEntries bs vol chain

theorem fatDirEntry_congr {f g : Mem} {a b : ℕ} (h : ∀ i < 32, f (a + i) = g (b + i)) :
    fatDirEntry f a = fatDirEntry g b := by
  have hname : fatName f a = fatName g b := by
    have hstep : ∀ st, ∀ i ∈ List.range 11, fatNameStep f a st i = fatNameStep g b st i := by
      intro st i hi
      have := List.mem_range.mp hi
      simp only [fatNameStep, h i (by omega)]
    simp only [fatName, List.foldl_ext _ _ _ hstep]
  have h16 : ∀ i, i + 2 ≤ 32 → le16 f (a + i) = le16 g (b + i) := fun i hi =>
    le16_congr (slice_congr h) hi
  have h32 : le32 f (a + 28) = le32 g (b + 28) := le32_congr (slice_congr h) (by decide)
  have h₀ : f a = g b := h 0 (by decide)
  unfold fatDirEntry
  simp only [h₀, h 1 (by decide), h 2 (by decide), h 11 (by decide), h16 26 (by decide),
    h16 20 (by decide), h32, hname]

/-- The entries of a cluster that has been read to a buffer. -/
theorem fatClusterEntries_congr {f g : Mem} {n : ℕ} (h : slice f 0 (n * 512) = slice g 0 (n * 512)) :
    fatClusterEntries f (n * 512) = fatClusterEntries g (n * 512) := by
  have h := slice_eq_iff.mp h
  refine List.filterMap_congr fun k hk => fatDirEntry_congr fun i hi => ?_
  have hk := List.mem_range.mp hk
  have := h (32 * k + i) (by omega)
  simpa using this

variable {inv : σ → Prop} {content : σ → Mem} {parent : BlockDevice σ} {bs : FatBS} {ft : FatType}
  {vol : Mem}

/-- Reading a cluster of directory entries from a sector on. -/
theorem readFresh_entries {n : ℕ} (h : HealthyReads parent inv content (· < n))
    (hbs : parent.blockSize = 512) (hpos : 0 < bs.sectorsPerCluster) (hspc : bs.sectorsPerCluster < 256)
    {s : σ} (hs : inv s) {sector : ℕ} (hfit : sector + bs.sectorsPerCluster ≤ n) :
    ∃ buf s', readFresh parent s (bs.sectorsPerCluster * 512) sector =
        (bs.sectorsPerCluster * 512, buf, s') ∧
      fatClusterEntries buf (bs.sectorsPerCluster * 512) = sectorEntries bs (content s) sector ∧
      inv s' ∧ content s' = content s := by
  have hgood : ∀ i < bs.sectorsPerCluster, sector + i < n := fun i hi => by omega
  obtain ⟨s', hr, hi, hc⟩ := blockRead_healthy h hs (fun _ => 0) 0 hpos hgood
    (by rw [hbs]; omega)
  rw [hbs] at hr
  refine ⟨_, s', hr, fatClusterEntries_congr ?_, hi, hc⟩
  rw [slice_patch_slice, slice_window, Nat.add_zero]

/-- The boot sector of a FAT12 or FAT16 volume with sectors of 512 bytes. -/
structure FatBS.RootVolume (bs : FatBS) : Prop where
  jump : bs.bootjmp0 = 0xeb
  sector_size : bs.bytesPerSector = 512
  cluster_pos : 0 < bs.sectorsPerCluster
  cluster_lt : bs.sectorsPerCluster < 256
  count_lt : bs.rootEntryCount < 2 ^ 16
  sectors_lt : bs.sectors < 2 ^ 32
  table_ne : bs.tableSize16 ≠ 0
  data_fits : bs.dataStart ≤ bs.sectors
  clusters_lt : bs.clusters < 65525

theorem FatBS.Volume.rootVolume (hv : bs.Volume ft) (hft : ft ≠ .fat32)
    (hcount : bs.rootEntryCount < 2 ^ 16) : bs.RootVolume := by
  have hht := hv.hasType
  cases ft with
  | fat12 => exact hht.elim
  | fat16 =>
    exact ⟨hv.jump, hv.sector_size, hv.cluster_pos, hv.cluster_lt, hcount, hv.sectors_lt, hht.2.2,
      hv.data_fits, hht.2.1⟩
  | fat32 => exact absurd rfl hft

theorem toFs_rootDirCluster (bs : FatBS) (parent : BlockDevice σ) : (bs.toFs parent).rootDirCluster =
    if (bs.toFs parent).fatType = .fat32 then bs.rootCluster else 2 := rfl

/-- **The geometry of a volume with a root directory** in front of the data area. -/
theorem toFs_rootVolume (hv : bs.RootVolume) (parent : BlockDevice σ) :
    (bs.toFs parent).b = ⟨parent, bs.sectorsPerCluster * 512⟩ ∧ (bs.toFs parent).fatType ≠ .fat32 ∧
      (bs.toFs parent).bytesPerSector = 512 ∧
      (bs.toFs parent).sectorsPerCluster = bs.sectorsPerCluster ∧
      (bs.toFs parent).rootDirSectors = bs.rootSectors ∧
      (bs.toFs parent).firstDataSector = bs.dataStart - bs.rootSectors := by
  have hspc := hv.cluster_lt
  have hfit := hv.data_fits
  have hlt := hv.sectors_lt
  have hclusters := hv.clusters_lt
  have hds : bs.dataStart = bs.reservedSectorCount + bs.tableCount * bs.fatSize + bs.rootSectors := rfl
  have hroot := rootSectors_eq hv.sector_size
  have hsum := dataStart_eq (hfit.trans_lt hlt)
  have htotal : bs.totalClusters = bs.clusters := by
    rw [FatBS.totalClusters, hroot, hsum, sub32_of_le hfit hlt]
    rfl
  have htype : (bs.toFs parent).fatType ≠ .fat32 := by
    rw [toFs_fatType, htotal, if_pos hclusters]
    split_ifs <;> decide
  have hb : (bs.toFs parent).b = ⟨parent, u32 (bs.bytesPerSector * bs.sectorsPerCluster)⟩ := rfl
  have hsectors : (bs.toFs parent).rootDirSectors =
      (bs.rootEntryCount * 32 + bs.bytesPerSector - 1) / bs.bytesPerSector := rfl
  have hfirst : (bs.toFs parent).firstDataSector = u32 (bs.reservedSectorCount + u32 (bs.tableCount *
      if (bs.toFs parent).fatType = .fat32 then bs.tableSize32 else bs.tableSize16)) := rfl
  have hsize : bs.tableSize16 = bs.fatSize := (if_neg hv.table_ne).symm
  refine ⟨?_, htype, hv.sector_size, rfl, hsectors.trans hroot, ?_⟩
  · rw [hb, hv.sector_size, u32_of_lt (by omega), Nat.mul_comm]
  · rw [hfirst, if_neg htype, hsize, u32_of_lt (show bs.tableCount * bs.fatSize < 2 ^ 32 by omega),
      u32_of_lt (by omega)]
    omega

/-- A FAT32 volume has no root directory in front of the data area. -/
theorem toFs_root32 (hv : bs.Volume .fat32) (parent : BlockDevice σ) :
    (bs.toFs parent).firstDataSector = bs.dataStart := by
  obtain ⟨-, htype, -⟩ := toFs_spec hv parent
  obtain ⟨-, -, htable, hcount⟩ := hv.hasType
  have hsize : bs.tableSize32 = bs.fatSize := (if_pos htable).symm
  have hrs : bs.rootSectors = 0 := by rw [FatBS.rootSectors, hcount]
  have hfirst : (bs.toFs parent).firstDataSector = u32 (bs.reservedSectorCount + u32 (bs.tableCount *
      if (bs.toFs parent).fatType = .fat32 then bs.tableSize32 else bs.tableSize16)) := rfl
  have hfit := hv.data_fits
  have hlt := hv.sectors_lt
  have hds : bs.dataStart = bs.reservedSectorCount + bs.tableCount * bs.fatSize + bs.rootSectors := rfl
  rw [hfirst, htype, if_pos rfl, hsize, u32_of_lt (show bs.tableCount * bs.fatSize < 2 ^ 32 by omega),
    u32_of_lt (by omega)]
  omega

/-- The sector at which a cluster of a directory is read. -/
theorem readDir_sector (hv : bs.Volume ft) (parent : BlockDevice σ) {isRoot : Bool}
    (hroot : isRoot = true → ft = .fat32) {c : ℕ} (hc : bs.IsCluster c) :
    u32 (u32 (sub32 c 2 * (bs.toFs parent).sectorsPerCluster) +
      if !isRoot then (bs.toFs parent).firstNonRootSector else (bs.toFs parent).firstDataSector) =
      bs.clusterSector c := by
  obtain ⟨-, -, -, hspc, -, hnonroot⟩ := toFs_spec hv parent
  have hstart : (if !isRoot then (bs.toFs parent).firstNonRootSector
      else (bs.toFs parent).firstDataSector) = bs.dataStart := by
    cases isRoot with
    | false => exact (if_pos rfl).trans hnonroot
    | true =>
      obtain rfl := hroot rfl
      exact (if_neg Bool.false_ne_true).trans (toFs_root32 hv parent)
  have hfit := hv.cluster_fits hc
  have hlt := hv.sectors_lt
  have hcl := hv.isCluster_lt hc
  have := hc.1
  unfold FatBS.clusterSector at *
  rw [hstart, hspc, sub32_of_le hc.1 (by omega),
    u32_of_lt (show (c - 2) * bs.sectorsPerCluster < 2 ^ 32 by omega), Nat.add_comm,
    u32_of_lt (by omega)]

/-- **A directory with a chain** is listed cluster by cluster, from cluster `i` of the chain on. -/
theorem fatReadDirLoop_chain (h : HealthyReads parent inv content (· < bs.sectors))
    (hbs : parent.blockSize = 512) (hv : bs.Volume ft) {isRoot : Bool}
    (hroot : isRoot = true → ft = .fat32) {first : ℕ} {chain : List ℕ}
    (hc : ClusterChain bs ft vol first chain) :
    ∀ (fuel i c off : ℕ) (ret : List Dirent) (s : σ), chain[i]? = some c → chain.length ≤ i + fuel →
      inv s → content s = vol →
      ∃ s', fatReadDirLoop (bs.toFs parent) isRoot fuel c off ret s =
        some (ret ++ chainEntries bs vol (chain.drop i), s') ∧ inv s' ∧ content s' = vol := by
  obtain ⟨hb, htype, hbps, hspc, -, -⟩ := toFs_spec hv parent
  have hlt := hv.cluster_lt
  have hsize : u32 ((bs.toFs parent).bytesPerSector * (bs.toFs parent).sectorsPerCluster) =
      bs.sectorsPerCluster * 512 := by
    rw [hbps, hspc, u32_of_lt (by omega), Nat.mul_comm]
  have hnoroot : ¬ (isRoot = true ∧ (bs.toFs parent).fatType ≠ .fat32) := fun hr =>
    hr.2 (htype.trans (hroot hr.1))
  intro fuel
  induction fuel with
  | zero =>
    intro i c off ret s hi hlen
    have := (List.getElem?_eq_some_iff.mp hi).1
    omega
  | succ fuel ih =>
    intro i c off ret s hi hlen hs hvol
    have hmem := List.mem_of_getElem? hi
    have hcl := hc.isCluster c hmem
    obtain ⟨buf, s₁, hr, hbuf, hs₁, hc₁⟩ := readFresh_entries h hbs hv.cluster_pos hv.cluster_lt hs
      (hv.cluster_fits hcl)
    obtain ⟨v, s₂, hnext, hs₂, hc₂, hlink, hend⟩ := getNextFatEntry_spec h hbs hv hs₁ hcl
    rw [hvol] at hbuf hc₁
    rw [hc₁] at hc₂ hlink hend
    have hret : ¬ i32 (bs.sectorsPerCluster * 512) < 0 := by
      rw [i32_of_lt (by omega)]
      omega
    have hdrop : chain.drop i = c :: chain.drop (i + 1) := by
      obtain ⟨hlt, rfl⟩ := List.getElem?_eq_some_iff.mp hi
      exact List.drop_eq_getElem_cons hlt
    have hparent : (bs.toFs parent).b.parent = parent := by rw [hb]
    have hsplit : ret ++ chainEntries bs vol (chain.drop i) =
        ret ++ sectorEntries bs vol (bs.clusterSector c) ++ chainEntries bs vol (chain.drop (i + 1)) := by
      rw [hdrop, List.append_assoc]
      rfl
    simp only [fatReadDirLoop, hsize, readDir_sector hv parent hroot hcl, hparent, hr, hret, if_false,
      hnoroot, hbuf, hnext, hsplit]
    cases hn : chain[i + 1]? with
    | some c' =>
      -- the link leads to the next cluster of the chain
      have hl := hc.link i c c' hi hn
      have hc' := hc.isCluster c' (List.mem_of_getElem? hn)
      obtain rfl : v = c' := (hlink (hl ▸ hc')).trans hl
      rw [if_pos (hv.isCluster_lt hc')]
      exact ih (i + 1) v (off + 1) _ s₂ hn (by omega) hs₂ hc₂
    | none =>
      -- the mark ends the loop
      have hv' := hend (hc.last i c hi hn)
      have hnil : chain.drop (i + 1) = [] := List.drop_eq_nil_iff.mpr (List.getElem?_eq_none_iff.mp hn)
      unfold endOfChain at hv'
      rw [if_neg (by omega), hnil]
      exact ⟨s₂, by rw [show chainEntries bs vol [] = [] from rfl, List.append_nil], hs₂, hc₂⟩

/-- The root directory in front of the data area, from its cluster `off` on. -/
theorem fatReadDirLoop_root {n : ℕ} (h : HealthyReads parent inv content (· < n))
    (hbs : parent.blockSize = 512) (hv : bs.RootVolume) (hn : bs.dataStart + bs.sectorsPerCluster ≤ n) :
    ∀ (fuel off : ℕ) (ret : List Dirent) (s : σ),
      off < max 1 (bs.rootSectors / bs.sectorsPerCluster) →
      max 1 (bs.rootSectors / bs.sectorsPerCluster) ≤ off + fuel → inv s → content s = vol →
      ∃ s', fatReadDirLoop (bs.toFs parent) true fuel (2 + off) off ret s =
        some (ret ++ (List.range' off (max 1 (bs.rootSectors / bs.sectorsPerCluster) - off)).flatMap
          (fun k => sectorEntries bs vol (bs.dataStart - bs.rootSectors + k * bs.sectorsPerCluster)),
          s') ∧ inv s' ∧ content s' = vol := by
  obtain ⟨hb, htype, hbps, hspc, hrs, hfirst⟩ := toFs_rootVolume hv parent
  have hlt := hv.cluster_lt
  have hpos := hv.cluster_pos
  have hdata := hv.data_fits
  have hsectors_lt := hv.sectors_lt
  have hsize : u32 ((bs.toFs parent).bytesPerSector * (bs.toFs parent).sectorsPerCluster) =
      bs.sectorsPerCluster * 512 := by
    rw [hbps, hspc, u32_of_lt (by omega), Nat.mul_comm]
  have hsectors : bs.rootSectors < 2 ^ 13 := by
    have := hv.count_lt
    unfold FatBS.rootSectors
    omega
  have hq₁ := Nat.div_mul_le_self bs.rootSectors bs.sectorsPerCluster
  have hq₂ := Nat.div_le_self bs.rootSectors bs.sectorsPerCluster
  generalize hq : bs.rootSectors / bs.sectorsPerCluster = q at *
  obtain ⟨m, hm⟩ : ∃ m, m = max 1 q := ⟨_, rfl⟩
  rw [← hm]
  have hds : bs.dataStart = bs.reservedSectorCount + bs.tableCount * bs.fatSize + bs.rootSectors := rfl
  -- the clusters lie in the root directory, but for a single one that may reach into the data area
  have hfit : ∀ off < m, off * bs.sectorsPerCluster ≤ bs.rootSectors := by
    intro off hoff
    have h₁ : off * bs.sectorsPerCluster ≤ q * bs.sectorsPerCluster :=
      Nat.mul_le_mul_right _ (by omega)
    omega
  intro fuel
  induction fuel with
  | zero =>
    intro off ret s hoff hlen
    omega
  | succ fuel ih =>
    intro off ret s hoff hlen hs hvol
    have hoff_lt : off < 2 ^ 13 := by omega
    have hfit := hfit off hoff
    have hsector : u32 (u32 (sub32 (2 + off) 2 * (bs.toFs parent).sectorsPerCluster) +
        if !true then (bs.toFs parent).firstNonRootSector else (bs.toFs parent).firstDataSector) =
        bs.dataStart - bs.rootSectors + off * bs.sectorsPerCluster := by
      rw [hspc, sub32_of_le (by omega) (by omega), Nat.add_sub_cancel_left,
        u32_of_lt (show off * bs.sectorsPerCluster < 2 ^ 32 by omega), Bool.not_true,
        if_neg Bool.false_ne_true, hfirst, Nat.add_comm, u32_of_lt (by omega)]
    obtain ⟨buf, s₁, hr, hbuf, hs₁, hc₁⟩ := readFresh_entries h hbs hpos hlt hs
      (show bs.dataStart - bs.rootSectors + off * bs.sectorsPerCluster + bs.sectorsPerCluster ≤ n by omega)
    rw [hvol] at hbuf hc₁
    have hret : ¬ i32 (bs.sectorsPerCluster * 512) < 0 := by
      rw [i32_of_lt (by omega)]
      omega
    have hparent : (bs.toFs parent).b.parent = parent := by rw [hb]
    have hnext : u32 (2 + off + 1) = 2 + (off + 1) := by
      rw [u32_of_lt (by omega), Nat.add_assoc]
    have hrange : List.range' off (m - off) = off :: List.range' (off + 1) (m - (off + 1)) := by
      rw [show m - off = m - (off + 1) + 1 by omega, List.range'_succ]
    simp only [fatReadDirLoop, hsize, hsector, hparent, hr, hret, if_false, htype, ne_eq,
      not_false_eq_true, and_self, if_true, hbuf, hnext, hrange, List.flatMap_cons]
    rw [hrs, hspc, hq, ← List.append_assoc]
    by_cases hlast : off + 1 < q
    · rw [if_pos hlast, if_pos (by omega)]
      exact ih (off + 1) _ s₁ (by omega) (by omega) hs₁ hc₁
    · have hdone : m - (off + 1) = 0 := by omega
      rw [if_neg hlast, if_neg (by decide), hdone]
      exact ⟨s₁, by rw [List.range'_zero, List.flatMap_nil, List.append_nil], hs₁, hc₁⟩

/-- **The root directory in front of the data area** is listed as far as the loop reads it. -/
theorem fatReadDir_root {n : ℕ} (h : HealthyReads parent inv content (· < n))
    (hbs : parent.blockSize = 512) (hv : bs.RootVolume) (hn : bs.dataStart + bs.sectorsPerCluster ≤ n)
    {s : σ} (hs : inv s) :
    ∃ s', fatReadDir (bs.toFs parent) none s = some (rootEntries bs (content s), s') ∧ inv s' ∧
      content s' = content s := by
  obtain ⟨-, htype, -⟩ := toFs_rootVolume hv parent
  have hlen : bs.rootSectors / bs.sectorsPerCluster ≤ 2 ^ 28 := by
    have := Nat.div_le_self bs.rootSectors bs.sectorsPerCluster
    have := hv.count_lt
    unfold FatBS.rootSectors at *
    omega
  rw [fatReadDir, toFs_rootDirCluster, if_neg htype, rootEntries, List.range_eq_range']
  exact fatReadDirLoop_root h hbs hv hn (2 ^ 28) 0 [] s (by omega) (by omega) hs rfl

/-- The first cluster of a directory with a chain. -/
def FatBS.dirCluster (bs : FatBS) : Option Dirent → ℕ
  | none => bs.rootCluster
  | some d => d.opq

/-- **A directory with a chain** is listed. -/
theorem fatReadDir_chain (h : HealthyReads parent inv content (· < bs.sectors))
    (hbs : parent.blockSize = 512) (hv : bs.Volume ft) {d : Option Dirent}
    (hroot : d = none → ft = .fat32) {s : σ} (hs : inv s) {chain : List ℕ}
    (hc : ClusterChain bs ft (content s) (bs.dirCluster d) chain) :
    ∃ s', fatReadDir (bs.toFs parent) d s = some (chainEntries bs (content s) chain, s') ∧ inv s' ∧
      content s' = content s := by
  obtain ⟨-, htype, -⟩ := toFs_spec hv parent
  have hlen := hc.length_lt hv
  cases d with
  | some d =>
    have hsub : false = true → ft = .fat32 := fun h => absurd h Bool.false_ne_true
    exact fatReadDirLoop_chain h hbs hv hsub hc (2 ^ 28) 0 _ 0 [] s hc.head (by omega) hs rfl
  | none =>
    rw [fatReadDir, toFs_rootDirCluster, htype, if_pos (hroot rfl)]
    exact fatReadDirLoop_chain h hbs hv (fun _ => hroot rfl) hc (2 ^ 28) 0 _ 0 [] s hc.head (by omega)
      hs rfl

/-- Behind the root directory of a FAT16 volume there is room for a cluster. -/
theorem FatBS.Volume.dataStart_add_le (hv : bs.Volume ft) (hft : ft ≠ .fat32) :
    bs.dataStart + bs.sectorsPerCluster ≤ bs.sectors := by
  have hclusters : 0 < bs.clusters := by
    have hht := hv.hasType
    cases ft with
    | fat12 => exact hht.elim
    | fat16 => exact (Nat.succ_pos _).trans_le hht.1
    | fat32 => exact absurd rfl hft
  have h₁ : bs.clusters * bs.sectorsPerCluster ≤ bs.sectors - bs.dataStart := Nat.div_mul_le_self _ _
  have h₂ := Nat.le_mul_of_pos_left bs.sectorsPerCluster hclusters
  have h₃ := hv.data_fits
  have h₄ := hv.cluster_pos
  omega

/-- **Every directory of a tree is listed.** -/
theorem fatTree_readsDirs (h : HealthyReads parent inv content (· < bs.sectors))
    (hbs : parent.blockSize = 512) (hv : bs.Volume ft) (hcount : bs.rootEntryCount < 2 ^ 16)
    {entries : Option Dirent → List Dirent} (ht : FatTree bs ft vol entries) :
    ReadsDirs (fatReadDir (bs.toFs parent)) (fun s => inv s ∧ content s = vol) entries := by
  rintro dir hdir s ⟨hs, rfl⟩
  cases dir with
  | some d =>
    obtain ⟨chain, hc, hentries⟩ := ht.sub d hdir
    rw [hentries]
    exact fatReadDir_chain h hbs hv (fun h => absurd h (Option.some_ne_none d)) hs hc
  | none =>
    by_cases hft : ft = .fat32
    · obtain ⟨chain, hc, hentries⟩ := ht.root32 hft
      rw [hentries]
      exact fatReadDir_chain h hbs hv (fun _ => hft) hs hc
    · rw [ht.root hft]
      exact fatReadDir_root h hbs (hv.rootVolume hft hcount) (hv.dataStart_add_le hft) hs

/-- All sectors of a volume of 4200 sectors are there. -/
theorem smallVolume_healthy {bs : FatBS} (h : bs.sectors = 4200) :
    HealthyReads (storeDevice 4200) (fun _ => True) (fun c => c) (· < bs.sectors) :=
  (storeDevice_serves (by decide)).healthyReads.mono fun b hb => by
    have : b < 4200 := h ▸ hb
    change b * 512 + 512 ≤ 4200 * 512
    omega

/-! ## A volume with a file in a directory -/

/-- A FAT16 volume of 4200 sectors with a file `boot/rpi_boot.cfg` of the five bytes `boot` and a newline:
the directory is cluster `2`, the file cluster `3`. -/
def cfgVolume : Mem :=
  patch (patch (patch (patch (patch (fun _ => 0) 0 [0xeb, 0x3c, 0x90, 0, 0, 0, 0, 0, 0, 0, 0, 0x00, 0x02, 1,
    1, 0, 1, 16, 0, 0x68, 0x10, 0xf8, 17, 0]) 512 [0xf8, 0xff, 0xff, 0xff, 0xff, 0xff, 0xff, 0xff]) (18 * 512)
    ([0x42, 0x4f, 0x4f, 0x54, 0x20, 0x20, 0x20, 0x20, 0x20, 0x20, 0x20, 0x10] ++ List.replicate 14 0 ++
      [2, 0, 0, 0, 0, 0])) (19 * 512)
    ([0x52, 0x50, 0x49, 0x5f, 0x42, 0x4f, 0x4f, 0x54, 0x43, 0x46, 0x47, 0x20] ++ List.replicate 14 0 ++
      [3, 0, 5, 0, 0, 0])) (20 * 512) [0x62, 0x6f, 0x6f, 0x74, 0x0a]

/-- `"boot"` and `"rpi_boot.cfg"`. -/
def cfgDirName : List UInt8 := [0x62, 0x6f, 0x6f, 0x74]
def cfgFileName : List UInt8 := [0x72, 0x70, 0x69, 0x5f, 0x62, 0x6f, 0x6f, 0x74, 0x2e, 0x63, 0x66, 0x67]

theorem cfgDirName_clean : 0 ∉ cfgDirName := by decide

theorem cfgFileName_clean : 0 ∉ cfgFileName := by decide

def cfgDirDirent : Dirent := ⟨cfgDirName, cfgDirName_clean, 0, true, 2⟩
def cfgDirent : Dirent := ⟨cfgFileName, cfgFileName_clean, 5, false, 3⟩

/-- The directories of `cfgVolume`. -/
def cfgEntries : Option Dirent → List Dirent
  | none => [cfgDirDirent]
  | some _ => [cfgDirent]

theorem cfgVolume_volume : (FatBS.ofBuf cfgVolume).Volume .fat16 := by
  refine ⟨by decide, by decide, by decide, by decide, by decide, by decide, by decide, ?_, by decide⟩
  exact ⟨by decide, by decide, by decide⟩

theorem cfgVolume_chain {cluster : ℕ} (h : cluster = 2 ∨ cluster = 3) :
    ClusterChain (FatBS.ofBuf cfgVolume) .fat16 cfgVolume cluster [cluster] := by
  rcases h with rfl | rfl
  · exact clusterChain_singleton (by unfold FatBS.IsCluster; decide) (by decide : 0xfff8 ≤ 0xffff)
  · exact clusterChain_singleton (by unfold FatBS.IsCluster; decide) (by decide : 0xfff8 ≤ 0xffff)

theorem cfgVolume_tree : FatTree (FatBS.ofBuf cfgVolume) .fat16 cfgVolume cfgEntries := by
  have hdir : chainEntries (FatBS.ofBuf cfgVolume) cfgVolume [2] = [cfgDirent] := by decide +kernel
  refine ⟨fun _ => by decide +kernel, fun h => (nomatch h), fun d hd => ⟨[2], ?_, hdir.symm⟩⟩
  have hd : d = cfgDirDirent := by
    cases hd with
    | @sub dir e hdir he hisDir =>
      cases dir with
      | none => exact List.mem_singleton.mp he
      | some _ =>
        rw [List.mem_singleton.mp he] at hisDir
        exact absurd hisDir (by decide)
  rw [hd]
  exact cfgVolume_chain (Or.inl rfl)

theorem cfgVolume_readsDirs : ReadsDirs (fatReadDir ((FatBS.ofBuf cfgVolume).toFs (storeDevice 4200)))
    (fun s => True ∧ s = cfgVolume) cfgEntries :=
  fatTree_readsDirs (smallVolume_healthy rfl) rfl cfgVolume_volume (by decide) cfgVolume_tree

/-! ## A volume with an empty directory -/

/-- A FAT16 volume of 4200 sectors with a directory `sub` in cluster `2`, which has no entries. -/
def emptyDirVolume : Mem :=
  patch (patch (patch (fun _ => 0) 0 [0xeb, 0x3c, 0x90, 0, 0, 0, 0, 0, 0, 0, 0, 0x00, 0x02, 1, 1, 0, 1,
    16, 0, 0x68, 0x10, 0xf8, 17, 0]) 512 [0xf8, 0xff, 0xff, 0xff, 0xff, 0xff]) (18 * 512)
    ([0x53, 0x55, 0x42, 0x20, 0x20, 0x20, 0x20, 0x20, 0x20, 0x20, 0x20, 0x10] ++
      List.replicate 14 0 ++ [2, 0])

def subDirent : Dirent := ⟨[0x73, 0x75, 0x62], by decide, 0, true, 2⟩

/-- The directories of `emptyDirVolume`. -/
def emptyDirEntries : Option Dirent → List Dirent
  | none => [subDirent]
  | some _ => []

theorem emptyDirVolume_volume : (FatBS.ofBuf emptyDirVolume).Volume .fat16 := by
  refine ⟨by decide, by decide, by decide, by decide, by decide, by decide, by decide, ?_, by decide⟩
  exact ⟨by decide, by decide, by decide⟩

/-- The chain of the directory. -/
theorem emptyDirVolume_chain :
    ClusterChain (FatBS.ofBuf emptyDirVolume) .fat16 emptyDirVolume subDirent.opq [2] :=
  clusterChain_singleton (by unfold FatBS.IsCluster; decide) (by decide : 0xfff8 ≤ 0xffff)

theorem emptyDirVolume_tree :
    FatTree (FatBS.ofBuf emptyDirVolume) .fat16 emptyDirVolume emptyDirEntries := by
  have hempty : chainEntries (FatBS.ofBuf emptyDirVolume) emptyDirVolume [2] = [] := by decide +kernel
  refine ⟨fun _ => by decide +kernel, fun h => (nomatch h), fun d hd => ⟨[2], ?_, hempty.symm⟩⟩
  have hd : d = subDirent := by
    cases hd with
    | @sub dir e hdir he hisDir =>
      cases dir with
      | none => exact List.mem_singleton.mp he
      | some _ => exact absurd he List.not_mem_nil
  rw [hd]
  exact emptyDirVolume_chain

theorem emptyDirVolume_healthy : HealthyReads (storeDevice 4200) (fun _ => True) (fun c => c)
    (· < (FatBS.ofBuf emptyDirVolume).sectors) := smallVolume_healthy rfl

theorem emptyDirVolume_readsDirs :
    ReadsDirs (fatReadDir ((FatBS.ofBuf emptyDirVolume).toFs (storeDevice 4200)))
      (fun s => True ∧ s = emptyDirVolume) emptyDirEntries :=
  fatTree_readsDirs emptyDirVolume_healthy rfl emptyDirVolume_volume (by decide) emptyDirVolume_tree

/-- `sub` is there and cannot be opened. -/
theorem fat_opendir_broken :
    ¬ Opens (fatReadDir ((FatBS.ofBuf emptyDirVolume).toFs (storeDevice 4200))) emptyDirEntries
      [[0x73, 0x75, 0x62]] 0 emptyDirVolume := by
  rw [opens_iff emptyDirVolume_readsDirs ⟨trivial, rfl⟩ (by decide)]
  exact fun h => h (some subDirent) rfl rfl

/-- **Path resolution.** On a volume of which the directories can be read, `opendir` and `readdir` find
what a path names if and only if the path does not end in a directory without entries. -/
theorem fat_opendir_iff {fs : FatFs σ} {entries : Option Dirent → List Dirent}
    (hread : ReadsDirs (fatReadDir fs) inv entries) {s : σ} (hs : inv s) {p : List (List UInt8)}
    (hp : ∀ name ∈ p, 0 ∉ name) (errno : ℤ) :
    Opens (fatReadDir fs) entries p errno s ↔
      ∀ dir, resolve entries none p = .ok dir → entries dir ≠ [] :=
  opens_iff hread hs hp

/-- The directory `boot` of `cfgVolume`. -/
theorem fat_opendir_iff_boot :
    Opens (fatReadDir ((FatBS.ofBuf cfgVolume).toFs (storeDevice 4200))) cfgEntries [cfgDirName] 0 cfgVolume :=
  (fat_opendir_iff cfgVolume_readsDirs ⟨trivial, rfl⟩ (by decide) 0).mpr fun dir hdir => by
    obtain rfl : some cfgDirDirent = dir := Except.ok.inj hdir
    exact List.cons_ne_nil _ _

end RpiBoot
