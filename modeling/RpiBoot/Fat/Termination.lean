import RpiBoot.Fat.Links
import RpiBoot.Lib.Chain

/-!
# The clusters that a directory walk visits

`fat_read_dir` goes from cluster to cluster until one cannot be read or is linked to a mark. Nothing
counts the clusters or notes those that have been visited.

* `FatReadDirWithin`: the walk ends after a number of clusters.
* `fatDirNext`: the cluster that follows another in the walk.
* `fatReadDir_endless_iff`: the walk never ends if and only if it meets a cluster twice.
* **`fat_read_dir_within_iff`**: it ends after as many clusters as the volume has, at most, if and only
  if they form a chain of that length.
-/

namespace RpiBoot

open Store Chains

variable {σ : Type}

/-- The cluster at which `fat_read_dir` starts. -/
def FatFs.dirStart (fs : FatFs σ) : Option Dirent → ℕ
  | none => fs.rootDirCluster
  | some d => d.opq

/-- `fat_read_dir(fs, d)` returns after it has visited `n` clusters at most. -/
def FatReadDirWithin (fs : FatFs σ) (d : Option Dirent) (s : σ) (n : ℕ) : Prop :=
  (fatReadDirLoop fs d.isNone n (fs.dirStart d) 0 [] s).isSome

/-- The cluster that follows `c` in the walk, if the walk does not end there. -/
def fatDirNext (fs : FatFs σ) (read : ℕ → ℕ → ℕ × Mem) (isRoot : Bool) (c : ℕ) : Option ℕ :=
  let firstDataSector := if !isRoot then fs.firstNonRootSector else fs.firstDataSector
  let r := read (u32 (fs.bytesPerSector * fs.sectorsPerCluster))
    (u32 (u32 (sub32 c 2 * fs.sectorsPerCluster) + firstDataSector))
  let next :=
    if isRoot ∧ fs.fatType ≠ .fat32 then
      -- the clusters of the root directory count from `2`
      if c - 1 < fs.rootDirSectors / fs.sectorsPerCluster then c + 1 else 0x0ffffff8
    else fatEntryValue fs read c
  if i32 r.1 < 0 then none else if next < 0x0ffffff7 then some next else none

theorem fatDirNext_lt {fs : FatFs σ} {read : ℕ → ℕ → ℕ × Mem} {isRoot : Bool} {c c' : ℕ}
    (h : fatDirNext fs read isRoot c = some c') : c' < 0x0ffffff7 := by
  obtain ⟨-, h⟩ := Option.ite_none_left_eq_some.mp h
  obtain ⟨hlt, he⟩ := Option.ite_none_right_eq_some.mp h
  exact Option.some.inj he ▸ hlt

theorem fatDirNext_finite (fs : FatFs σ) (read : ℕ → ℕ → ℕ × Mem) (isRoot : Bool) :
    ∃ S : Finset ℕ, ∀ c c', fatDirNext fs read isRoot c = some c' → c' ∈ S := by
  obtain ⟨n, hn⟩ : ∃ n, n = 0x0ffffff7 := ⟨_, rfl⟩
  exact ⟨Finset.range n, fun c c' h => Finset.mem_range.mpr (hn ▸ fatDirNext_lt h)⟩

variable {fs : FatFs σ} {inv : σ → Prop} {read : ℕ → ℕ → ℕ × Mem}

/-- One cluster of the walk. -/
theorem fatReadDirLoop_step (h : SteadyReads fs.b.parent inv read) {isRoot : Bool}
    (hsectors : fs.rootDirSectors < 2 ^ 31) {s : σ} (hs : inv s) {c off : ℕ}
    (hoff : isRoot ∧ fs.fatType ≠ .fat32 → c = 2 + off) (n : ℕ) (ret : List Dirent) :
    match fatDirNext fs read isRoot c with
    | none => (fatReadDirLoop fs isRoot (n + 1) c off ret s).isSome
    | some c' => (isRoot ∧ fs.fatType ≠ .fat32 → c' = 2 + (off + 1)) ∧ ∃ ret' s', inv s' ∧
      fatReadDirLoop fs isRoot (n + 1) c off ret s = fatReadDirLoop fs isRoot n c' (off + 1) ret' s' := by
  obtain ⟨s₁, hr, hs₁⟩ := h s (u32 (fs.bytesPerSector * fs.sectorsPerCluster))
    (u32 (u32 (sub32 c 2 * fs.sectorsPerCluster) +
      if !isRoot then fs.firstNonRootSector else fs.firstDataSector)) hs
  obtain ⟨s₂, hv, hs₂⟩ := getNextFatEntry_steady h hs₁ c
  have hq := Nat.div_le_self fs.rootDirSectors fs.sectorsPerCluster
  unfold fatDirNext
  rw [fatReadDirLoop]
  dsimp only
  rw [hr]
  dsimp only
  by_cases hfail : i32 (read (u32 (fs.bytesPerSector * fs.sectorsPerCluster))
      (u32 (u32 (sub32 c 2 * fs.sectorsPerCluster) +
        if !isRoot then fs.firstNonRootSector else fs.firstDataSector))).1 < 0
  · rw [if_pos hfail, if_pos hfail]
    exact Option.isSome_some
  rw [if_neg hfail, if_neg hfail]
  by_cases hroot : isRoot ∧ fs.fatType ≠ .fat32
  · -- the root directory is counted
    obtain rfl := hoff hroot
    rw [if_pos hroot, if_pos hroot, show 2 + off - 1 = off + 1 by omega]
    dsimp only
    by_cases hlast : off + 1 < fs.rootDirSectors / fs.sectorsPerCluster
    · rw [if_pos hlast, if_pos hlast, u32_of_lt (by omega)]
      by_cases hlt : 2 + off + 1 < 0x0ffffff7
      · rw [if_pos hlt, if_pos hlt]
        exact ⟨fun _ => Nat.add_assoc 2 off 1, _, s₁, hs₁, rfl⟩
      · rw [if_neg hlt, if_neg hlt]
        exact Option.isSome_some
    · rw [if_neg hlast, if_neg hlast, if_neg (by decide), if_neg (by decide)]
      exact Option.isSome_some
  · -- the other directories follow the table
    rw [if_neg hroot, if_neg hroot, hv]
    dsimp only
    by_cases hlt : fatEntryValue fs read c < 0x0ffffff7
    · rw [if_pos hlt, if_pos hlt]
      exact ⟨fun hr => absurd hr hroot, _, s₂, hs₂, rfl⟩
    · rw [if_neg hlt, if_neg hlt]
      exact Option.isSome_some

/-- **The loop ends when the walk does.** -/
theorem fatReadDirLoop_isSome_iff (h : SteadyReads fs.b.parent inv read) {isRoot : Bool}
    (hsectors : fs.rootDirSectors < 2 ^ 31) (n : ℕ) {s : σ} (hs : inv s) {c off : ℕ}
    (hoff : isRoot ∧ fs.fatType ≠ .fat32 → c = 2 + off) (ret : List Dirent) :
    (fatReadDirLoop fs isRoot n c off ret s).isSome ↔ EndsWithin (fatDirNext fs read isRoot) n c := by
  induction n generalizing s c off ret with
  | zero => exact iff_of_false Bool.false_ne_true id
  | succ n ih =>
    have hstep := fatReadDirLoop_step h hsectors hs hoff n ret
    rw [EndsWithin]
    cases hnext : fatDirNext fs read isRoot c with
    | none =>
      rw [hnext] at hstep
      refine iff_of_true hstep fun b hb => ?_
      cases hb
    | some c' =>
      rw [hnext] at hstep
      obtain ⟨hoff', ret', s', hs', hloop⟩ := hstep
      rw [hloop, ih hs' hoff' ret']
      exact ⟨fun he b hb => Option.some.inj hb ▸ he, fun he => he c' rfl⟩

/-! ## Volumes that `fat_init` accepts -/

theorem toFs_rootDirSectors_lt (buf : Mem) (parent : BlockDevice σ) :
    ((FatBS.ofBuf buf).toFs parent).rootDirSectors < 2 ^ 31 := by
  have hcount : (FatBS.ofBuf buf).rootEntryCount < 2 ^ 16 := le16_lt _ _
  have hbytes : (FatBS.ofBuf buf).bytesPerSector < 2 ^ 16 := le16_lt _ _
  have hle : ((FatBS.ofBuf buf).toFs parent).rootDirSectors ≤
      (FatBS.ofBuf buf).rootEntryCount * 32 + (FatBS.ofBuf buf).bytesPerSector - 1 := Nat.div_le_self _ _
  omega

variable {parent : BlockDevice σ} {s s' t : σ}

/-- What `fat_init` accepts on a device with steady contents. -/
theorem fatInit_steady (h : SteadyReads parent inv read) (hs : inv s)
    (hinit : fatInit parent s = (.ok fs, s')) :
    fs = (FatBS.ofBuf (read 512 0).2).toFs parent ∧ (FatBS.ofBuf (read 512 0).2).bootjmp0 = 0xeb := by
  obtain ⟨s₁, hr, -⟩ := h s 512 0 hs
  unfold fatInit at hinit
  rw [hr] at hinit
  dsimp only at hinit
  split_ifs at hinit with h₁ h₂ h₃
  all_goals first
    | cases hinit; done
    | exact ⟨(Except.ok.inj (congrArg Prod.fst hinit)).symm, not_not.mp h₃⟩

/-- The start of the root directory of FAT12 and FAT16. -/
theorem dirStart_root (bs : FatBS) (parent : BlockDevice σ) (d : Option Dirent)
    (h : d.isNone ∧ (bs.toFs parent).fatType ≠ .fat32) : (bs.toFs parent).dirStart d = 2 := by
  obtain rfl := Option.isNone_iff_eq_none.mp h.1
  rw [FatFs.dirStart, toFs_rootDirCluster, if_neg h.2]

theorem fatReadDirWithin_iff (h : SteadyReads parent inv read) (buf : Mem) (d : Option Dirent)
    (ht : inv t) (n : ℕ) :
    FatReadDirWithin ((FatBS.ofBuf buf).toFs parent) d t n ↔
      EndsWithin (fatDirNext ((FatBS.ofBuf buf).toFs parent) read d.isNone) n
        (((FatBS.ofBuf buf).toFs parent).dirStart d) :=
  fatReadDirLoop_isSome_iff h (toFs_rootDirSectors_lt buf parent) n ht
    (dirStart_root (FatBS.ofBuf buf) parent d) []

/-- **The walk goes in a circle.** `fat_read_dir` never returns if and only if it comes to a cluster for
the second time. -/
theorem fatReadDir_endless_iff (h : SteadyReads parent inv read) (hs : inv s)
    (hinit : fatInit parent s = (.ok fs, s')) (d : Option Dirent) (ht : inv t) :
    (∀ n, ¬ FatReadDirWithin fs d t n) ↔ ∃ i j c, i ≠ j ∧
      nth (fatDirNext fs read d.isNone) (fs.dirStart d) i = some c ∧
      nth (fatDirNext fs read d.isNone) (fs.dirStart d) j = some c := by
  obtain ⟨rfl, -⟩ := fatInit_steady h hs hinit
  obtain ⟨S, hfin⟩ := fatDirNext_finite ((FatBS.ofBuf (read 512 0).2).toFs parent) read d.isNone
  simp only [fatReadDirWithin_iff h _ d ht, endsWithin_iff]
  constructor
  · intro hno
    by_contra hinj
    push Not at hinj
    obtain ⟨l, hl⟩ := (exists_chain_iff hfin).mpr fun i j c hi hj =>
      by_contra fun hne => hinj i j c hne hi hj
    exact hno l.length ⟨l, hl, le_rfl⟩
  · rintro ⟨i, j, c, hne, hi, hj⟩ n ⟨l, hl, -⟩
    exact hne ((exists_chain_iff hfin).mp ⟨l, hl⟩ i j c hi hj)

/-- A FAT12 volume of 100 sectors with a directory `sub` in cluster `2`. -/
def fat12Volume : Mem :=
  patch (patch (fun _ => 0) 0 [0xeb, 0x3c, 0x90, 0, 0, 0, 0, 0, 0, 0, 0, 0x00, 0x02, 1, 1, 0, 1, 16, 0,
    100, 0, 0xf8, 1, 0]) (2 * 512)
    ([0x53, 0x55, 0x42, 0x20, 0x20, 0x20, 0x20, 0x20, 0x20, 0x20, 0x20, 0x10] ++
      List.replicate 14 0 ++ [2, 0])

/-- The `struct fat_fs` of `fat12Volume`. -/
def fat12Fs : FatFs Mem := (FatBS.ofBuf fat12Volume).toFs (storeDevice 100)

/-- The walk through `sub` never ends: `get_next_fat_entry` returns `0` on FAT12, and the loop takes this
for a cluster. -/
theorem fat12_subdirectory_endless :
    (fatInit (storeDevice 100) fat12Volume).1.toOption.map (·.fatType) = some .fat12 ∧
      (fatReadDir fat12Fs none fat12Volume).map Prod.fst = some [subDirent] ∧
      ∀ n, ¬ FatReadDirWithin fat12Fs (some subDirent) fat12Volume n := by
  refine ⟨by decide +kernel, by decide +kernel, fun n => ?_⟩
  have hlinks : fatDirNext fat12Fs (readAt (storeDevice 100) fat12Volume) false 2 = some 0 ∧
      fatDirNext fat12Fs (readAt (storeDevice 100) fat12Volume) false 0 = some 0 := by decide +kernel
  rw [fat12Fs, fatReadDirWithin_iff (storeDevice_steady 100 fat12Volume) fat12Volume (some subDirent) rfl]
  intro he
  cases n with
  | zero => exact he
  | succ n => exact not_endsWithin_of_self hlinks.2 n (he 0 hlinks.1)

/-- **Directory walks that end.** `fat_read_dir` returns after it has visited as many clusters as the
volume has, at most, if and only if the links from the start form a chain of at most that length. -/
theorem fat_read_dir_within_iff (h : SteadyReads parent inv read) (hs : inv s)
    (hinit : fatInit parent s = (.ok fs, s')) (d : Option Dirent) (ht : inv t) :
    FatReadDirWithin fs d t (FatBS.ofBuf (read 512 0).2).totalClusters ↔
      ∃ chain, Chain (fatDirNext fs read d.isNone) (fs.dirStart d) chain ∧
        chain.length ≤ (FatBS.ofBuf (read 512 0).2).totalClusters := by
  obtain ⟨rfl, -⟩ := fatInit_steady h hs hinit
  rw [fatReadDirWithin_iff h _ d ht, endsWithin_iff]

/-- The directory of `emptyDirVolume` takes one cluster. -/
theorem fat_read_dir_within_iff_empty :
    FatReadDirWithin ((FatBS.ofBuf emptyDirVolume).toFs (storeDevice 4200)) (some subDirent)
      emptyDirVolume (FatBS.ofBuf (readAt (storeDevice 4200) emptyDirVolume 512 0).2).totalClusters := by
  obtain ⟨s', hinit, -, -⟩ := fatInit_spec emptyDirVolume_healthy rfl trivial rfl emptyDirVolume_volume
  have hlast : fatDirNext ((FatBS.ofBuf emptyDirVolume).toFs (storeDevice 4200))
      (readAt (storeDevice 4200) emptyDirVolume) false 2 = none := by decide +kernel
  exact (fat_read_dir_within_iff (storeDevice_steady 4200 emptyDirVolume) rfl hinit (some subDirent)
    rfl).mpr ⟨[2], .last hlast, by decide +kernel⟩

end RpiBoot
