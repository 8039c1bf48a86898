import RpiBoot.Boot.Search
import RpiBoot.Cache.Volumes
import RpiBoot.Fat.Directory
import RpiBoot.Libfs.ReadWhole
import RpiBoot.Streams.Model

/-!
# The boot configuration on a card with FAT partitions

The whole way of a configuration file: the search over the registered filesystems, the walk along the path
in the FAT directories, the chain of the file in the table, the blocks of the partition, the cache and the
card. What comes out is a string in memory, which the parser gets.

* `fatOps`: the calls of a FAT filesystem.
* `fileAt`: the entry that a path names. `fatOps_fopenSplit`: `fopen` finds it.
* `fatFread_whole`: a read of a whole file.
* `FatMount`: a FAT volume on a partition of a cached disk.
* **`boot_config_handed`**: the parser gets the contents of the first configuration file that is there,
  with a zero behind them; when there is none it is not called.
-/

namespace RpiBoot

open Segments Store

variable {σ : Type} {inv : σ → Prop} {content : σ → Mem}

/-! ## The calls of a FAT filesystem -/

/-- `EROFS`. -/
def erofs : ℤ := -6

/-- The functions of a FAT filesystem. The state is that of the device and `errno`; nothing is left of it
in a call that does not return. An open file is its filesystem, its stream and its first cluster. -/
def fatOps (temp : ℕ → ℕ) : FileOps (FatFs σ) (Option (σ × ℤ)) (FatFs σ × Stream × ℕ) where
  supportsEmptyFname _ := false
  readDirectory fs p w :=
    match w.bind fun w => readDirectory (fatReadDir fs) p w.2 w.1 with
    | none => ([], none)
    | some (dir, errno, s) => (dir, some (s, errno))
  fopen fs path mode w :=
    match path.bind fun d => fatFopen ⟨d.opq, d.byteSize⟩ mode with
    | none => (none, w.map fun w => (w.1, erofs))
    | some file => (some (fs, file), w)
  setErrno e w := w.map fun w => (w.1, e)
  fsize f _ := vfsFsize (StreamFs.fat f.1 f.2.2).functions f.2.1
  fread f ptr size nmemb w :=
    match w.2 with
    | none => (0, w.1, none)
    | some (s, errno) =>
      let r := fread (fatFread f.1 temp f.2.2) ptr size nmemb ⟨w.1, s, f.2.1⟩
      (r.1, r.2.mem, some (r.2.dev, errno))
  fclose _ w := w

/-- The entry that a path names, in the directories of a volume. -/
def fileAt (entries : Option Dirent → List Dirent) (p : List (List UInt8)) : Option Dirent :=
  match p.getLast?, resolve entries none p.dropLast with
  | some fname, .ok dir => (entries dir).find? fun d => d.name == fname
  | _, _ => none

/-- **`fopen` finds the entry** that the names lead to, on a volume of which the directories can be read. -/
theorem fatOps_fopenSplit {fs : FatFs σ} {entries : Option Dirent → List Dirent}
    (hread : ReadsDirs (fatReadDir fs) inv entries) {p : List (List UInt8)} (hp : p ≠ [])
    (hclean : ∀ name ∈ p, 0 ∉ name) (hdev : p.head? ≠ some wholeDevice) (temp : ℕ → ℕ) {s : σ} (hs : inv s)
    (errno : ℤ) :
    ∃ s' errno', fopenSplit (fatOps temp).toFsOps fs p "r" (some (s, errno)) =
      ((fileAt entries p).map fun d => (fs, ⟨0, 0, i32 d.byteSize, 0⟩, d.opq), some (s', errno')) ∧
      inv s' := by
  obtain ⟨fname, hlast⟩ : ∃ fname, p.getLast? = some fname := by
    rw [← Option.isSome_iff_exists, List.getLast?_isSome]
    exact hp
  have hfname : 0 ∉ fname := hclean fname (List.mem_of_getLast? hlast)
  have hwhole : p.head?.any (strcmp · wholeDevice = 0) = false := by
    cases hhead : p.head? with
    | none => rfl
    | some name =>
      have hname : 0 ∉ name := hclean name (List.mem_of_head? hhead)
      rw [Option.any_some, decide_eq_false_iff_not, strcmp_eq_zero hname (by decide)]
      rintro rfl
      exact hdev hhead
  -- the containing directory
  obtain ⟨s₁, hroot, hs₁⟩ := hread none Below.self s hs
  obtain ⟨s', hs', hwalk⟩ := walkDirectory_spec errno hread Below.self hs₁
    fun name hname => hclean name (List.dropLast_subset p hname)
  rw [fopenSplit, hlast]
  dsimp only
  rw [hwhole, if_neg Bool.false_ne_true, fileAt, hlast]
  simp only [fatOps, RpiBoot.readDirectory, hroot, Option.bind_some, hwalk]
  cases resolve entries none p.dropLast with
  | error e => exact ⟨s', e, rfl, hs'⟩
  | ok dir =>
    have hfind : ((entries dir).find? fun d => strcmp d.name fname = 0) =
        (entries dir).find? fun d => d.name == fname :=
      List.find?_congr fun d _ => by
        rw [Bool.eq_iff_iff, decide_eq_true_iff, beq_iff_eq]
        exact strcmp_eq_zero d.clean hfname
    dsimp only
    rw [hfind]
    cases (entries dir).find? fun d => d.name == fname with
    | none => exact ⟨s', errno, rfl, hs'⟩
    | some d => exact ⟨s', errno, rfl, hs'⟩

/-! ## A whole file -/

section Whole

variable {parent : BlockDevice σ} {bs : FatBS} {ft : FatType} {vol : Mem} {first len : ℕ} {chain : List ℕ}

/-- **A read of a whole file**, of which the chain has no cluster to spare, delivers its contents and
writes nothing but these outside its own buffers. -/
theorem fatFread_whole (h : HealthyReads parent inv content (· < bs.sectors)) (hbs : parent.blockSize = 512)
    (hv : bs.Volume ft) (hc : ClusterChain bs ft vol first chain) (hlen : len < 2 ^ 31)
    (hcover : len ≤ chain.length * (bs.sectorsPerCluster * 512))
    (hexact : chain.length * (bs.sectorsPerCluster * 512) < len + bs.sectorsPerCluster * 512)
    (temp : ℕ → ℕ) (ptr : ℕ) (htemp : TempApart temp (bs.sectorsPerCluster * 512) ptr len) (io : FileIo σ)
    (hi : inv io.dev) (hvol : content io.dev = vol) (hpos : io.file.pos = 0) :
    ∃ io', fatFread (bs.toFs parent) temp first ptr len io = (len, io') ∧
      slice io'.mem ptr len = fatContents bs vol chain len ∧ inv io'.dev ∧ content io'.dev = vol ∧
      ∀ a, a < ptr ∨ ptr + len ≤ a → (∀ i, a < temp i ∨ temp i + bs.sectorsPerCluster * 512 ≤ a) →
        io'.mem a = io.mem a := by
  obtain ⟨hb, -⟩ := toFs_spec hv parent
  have hfm := fat_fileMap hbs hv hc
  have hsize : (bs.toFs parent).b.blockSize = bs.sectorsPerCluster * 512 := by rw [hb]
  have hpos' : 0 < bs.sectorsPerCluster * 512 := Nat.mul_pos hv.cluster_pos (by decide)
  have hfirst : first ≠ 0 := by
    have := (hc.isCluster first (List.mem_of_getElem? hc.head)).1
    omega
  have hstart : OnChain chain ⟨0, first⟩ := Or.inl hc.head
  have htail : chainMap bs chain (len / (bs.toFs parent).b.blockSize) = none ∨
      TailHarmless (bs.toFs parent).b temp 0 len ptr := by
    rw [chainMap_eq_none, hsize]
    by_cases hmod : len % (bs.sectorsPerCluster * 512) = 0
    · -- the file ends with its last cluster
      left
      have hd := Nat.div_add_mod' len (bs.sectorsPerCluster * 512)
      refine Nat.le_of_lt_succ (Nat.lt_of_mul_lt_mul_right (a := bs.sectorsPerCluster * 512) ?_)
      rw [Nat.succ_mul]
      omega
    · right
      left
      rw [Nat.zero_add, hsize]
      exact ⟨hmod, fun hzero => hmod (by rw [hzero, Nat.zero_mod])⟩
  obtain ⟨io', hread, hdone, hframe⟩ := fsFread_whole hfm (by rw [hb]; exact h)
    (fat_lookup h hbs hv hc false) (by rwa [hsize]) hlen
    (fun p hp => by rw [hsize]; exact chainMap_ne_none hcover hp) htail hi ⟨hvol, Nat.zero_le _, hstart⟩ hpos
  refine ⟨io', (if_neg hfirst).trans hread, ?_, hdone.dev_inv, hdone.dev_content.trans hvol,
    fun a ha hout => hframe a ha ?_⟩
  · rw [hdone.delivered, hvol, fatContents, flatMap_clusterBytes hbs hv, take_slice, min_eq_left hcover]
  · unfold Scratch
    rw [hsize]
    have h₁ := hout (0 / (bs.sectorsPerCluster * 512))
    have h₂ := hout ((0 + len) / (bs.sectorsPerCluster * 512))
    omega

end Whole

/-! ## FAT volumes on a card -/

/-- What a partition of a disk with the contents `c` holds. -/
def Partition.vol (p : Partition) (c : Mem) : Mem := window c (p.region 512).base

/-- The cache is coherent, and the disk holds `c`. -/
def CardAt (cd : CacheDev σ) (inv : σ → Prop) (content : σ → Mem) (cap : ℕ) (c : Mem) (st : CacheState σ) :
    Prop :=
  Coherent cd inv content cap st ∧ content st.parent = c

/-- A FAT volume on a partition of a cached disk of `cap` bytes that holds `c`, with its directories. -/
structure FatMount (cd : CacheDev σ) (cap : ℕ) (c : Mem) where
  name : List UInt8
  part : Partition
  ft : FatType
  entries : Option Dirent → List Dirent
  clean : 0 ∉ name
  slots : part.startBlock + part.blocks ≤ emptySlot
  fits : (part.startBlock + part.blocks) * 512 ≤ cap
  volume : (FatBS.ofBuf (part.vol c)).Volume ft
  small : (FatBS.ofBuf (part.vol c)).sectors ≤ part.blocks
  tree : FatTree (FatBS.ofBuf (part.vol c)) ft (part.vol c) entries

section Card

variable {cap : ℕ} {cd : CacheDev σ} {c : Mem}

namespace FatMount

variable (m : FatMount cd cap c)

/-- The contents of the volume. -/
def vol : Mem := m.part.vol c

/-- The boot sector. -/
def bs : FatBS := FatBS.ofBuf m.vol

/-- The number of bytes of a cluster. -/
def clusterSize : ℕ := m.bs.sectorsPerCluster * 512

/-- The filesystem that `fat_init` makes. -/
def fs : FatFs (CacheState σ) := m.bs.toFs (mbrDevice (cacheDevice cd) m.part)

/-- The entry of the volume in the VFS. -/
def entry : VfsEntry (FatMount cd cap c) := ⟨m.name, m⟩

/-- The entry is that of a file that can be read: it has a chain of just the clusters that its bytes
take. -/
structure HoldsFile (d : Dirent) (chain : List ℕ) : Prop where
  linked : ClusterChain m.bs m.ft m.vol d.opq chain
  size_lt : d.byteSize < 2 ^ 31
  covers : d.byteSize ≤ chain.length * m.clusterSize
  exact : chain.length * m.clusterSize < d.byteSize + m.clusterSize

variable {m}

/-- The partition of the volume can be read. -/
theorem reads (h : Serves cd.parent inv content cap) (hbs : cd.parent.blockSize = 512)
    (m : FatMount cd cap c) :
    HealthyReads (mbrDevice (cacheDevice cd) m.part) (CardAt cd inv content cap c) (fun _ => m.vol)
      (· < m.bs.sectors) := by
  have hcache : HealthyReads (cacheDevice cd) (CardAt cd inv content cap c) (fun _ => c)
      (CachedBlock cd.parent.blockSize cap) := (cacheDevice_reads h).fixed c
  have hpart := mbrDevice_reads hcache fun b hb =>
    m.part.cachedBlock m.slots (by rw [hbs]; exact m.fits) hb
  change HealthyReads _ _ (fun _ => window c (m.part.region cd.parent.blockSize).base) _ at hpart
  rw [hbs] at hpart
  exact hpart.mono fun b (hb : b < _) => hb.trans_le m.small

/-- **`fat_init` mounts the volume.** -/
theorem mount (h : Serves cd.parent inv content cap) (hbs : cd.parent.blockSize = 512)
    (m : FatMount cd cap c) {st : CacheState σ} (hst : CardAt cd inv content cap c st) :
    ∃ st', fatInit (mbrDevice (cacheDevice cd) m.part) st = (.ok m.fs, st') ∧
      CardAt cd inv content cap c st' := by
  obtain ⟨st', hinit, hst', -⟩ := fatInit_spec (m.reads h hbs) hbs hst rfl m.volume
  exact ⟨st', hinit, hst'⟩

/-- Its directories can be read. -/
theorem readsDirs (h : Serves cd.parent inv content cap) (hbs : cd.parent.blockSize = 512)
    (m : FatMount cd cap c) : ReadsDirs (fatReadDir m.fs) (CardAt cd inv content cap c) m.entries := by
  have hcount : m.bs.rootEntryCount < 2 ^ 16 := le16_lt _ _
  have hdirs := fatTree_readsDirs (m.reads h hbs) hbs m.volume hcount m.tree
  simp only [FatMount.vol, and_true] at hdirs
  exact hdirs

end FatMount

/-! ## The configuration -/

/-- The volume and the entry of a candidate that is there. -/
def Candidate.found (t : Candidate (FatMount cd cap c)) : Option (FatMount cd cap c × Dirent) :=
  t.target.bind fun (m, p) => (fileAt m.entries p).map fun d => (m, d)

/-- The first configuration file that is there: its path, the volume and the entry. -/
def bootFile (mounts : List (FatMount cd cap c)) : Option (List UInt8 × FatMount cd cap c × Dirent) :=
  (candidates (mounts.map FatMount.entry)).findSome? fun t => t.found.map (t.path, ·)

/-- The open file of an entry. -/
def FatMount.opened (m : FatMount cd cap c) (d : Dirent) : FatFs (CacheState σ) × Stream × ℕ :=
  (m.fs, ⟨0, 0, i32 d.byteSize, 0⟩, d.opq)

/-- The variables of `vfs.c` once the volumes have been registered. -/
def mountTable (mounts : List (FatMount cd cap c)) : VfsTable (FatFs (CacheState σ)) :=
  VfsTable.registerAll (mounts.map fun m => ⟨m.name, m.fs⟩)

theorem bootCfgNames_segments {fname : List UInt8} (h : fname ∈ bootCfgNames) :
    segments slash fname ≠ [] ∧ (segments slash fname).head? ≠ some wholeDevice ∧
      ∀ name ∈ segments slash fname, 0 ∉ name := by
  revert fname
  decide

/-- No call has failed to return, and the card is at `c`. -/
def WorldAt (cd : CacheDev σ) (inv : σ → Prop) (content : σ → Mem) (cap : ℕ) (c : Mem)
    (w : Option (CacheState σ × ℤ)) : Prop :=
  ∃ st errno, w = some (st, errno) ∧ CardAt cd inv content cap c st

/-- A candidate opens when it is there. -/
theorem fopen_found (h : Serves cd.parent inv content cap) (hbs : cd.parent.blockSize = 512) (temp : ℕ → ℕ)
    (mounts : List (FatMount cd cap c)) (t : Candidate (FatMount cd cap c))
    (ht : t ∈ candidates (mounts.map FatMount.entry)) (w : Option (CacheState σ × ℤ))
    (hw : WorldAt cd inv content cap c w) :
    ∃ w', (t.map FatMount.fs).fopen (fatOps temp).toFsOps w = (t.found.map fun (m, d) => m.opened d, w') ∧
      WorldAt cd inv content cap c w' := by
  obtain ⟨st, errno, rfl, hst⟩ := hw
  rw [Candidate.map, Candidate.fopen, Candidate.found]
  rcases htarget : t.target with _ | ⟨m, p⟩
  · exact ⟨some (st, efault), rfl, st, efault, rfl, hst⟩
  · obtain ⟨-, fname, hfname, rfl⟩ := mem_candidates ht htarget
    obtain ⟨hp, hdev, hclean⟩ := bootCfgNames_segments hfname
    obtain ⟨st', errno', hopen, hst'⟩ :=
      fatOps_fopenSplit (m.readsDirs h hbs) hp hclean hdev temp hst errno
    refine ⟨some (st', errno'), ?_, st', errno', rfl, hst'⟩
    rw [Option.bind_some, Option.map_map]
    exact hopen

/-- **The search on a card** finds the first configuration file, and leaves the card as it is. -/
theorem findConfig_card (h : Serves cd.parent inv content cap) (hbs : cd.parent.blockSize = 512)
    (mounts : List (FatMount cd cap c)) {st : CacheState σ} (hst : CardAt cd inv content cap c st)
    (temp : ℕ → ℕ) (errno : ℤ) :
    ∃ st' errno', findConfig (fatOps temp).toFsOps (mountTable mounts) (some (st, errno)) =
      some ((bootFile mounts).map fun (path, m, d) => (path, m.opened d), some (st', errno')) ∧
      CardAt cd inv content cap c st' := by
  have hregs : (mounts.map fun m => (⟨m.name, m.fs⟩ : VfsEntry (FatFs (CacheState σ)))) =
      (mounts.map FatMount.entry).map (VfsEntry.map FatMount.fs) := by
    rw [List.map_map]
    rfl
  have hclean : ∀ ve ∈ mounts.map fun m => (⟨m.name, m.fs⟩ : VfsEntry (FatFs (CacheState σ))),
      0 ∉ ve.deviceName := by
    intro ve hve
    obtain ⟨m, -, rfl⟩ := List.mem_map.mp hve
    exact m.clean
  obtain ⟨w', hfirst, st', errno', rfl, hst'⟩ := firstOpened_spec (fatOps temp).toFsOps
    (fopen_found h hbs temp mounts) ⟨st, errno, rfl, hst⟩
  have hfound (t : Candidate (FatMount cd cap c)) :
      (t.found.map fun (m, d) => m.opened d).map ((t.map FatMount.fs).path, ·) =
        (t.found.map (t.path, ·)).map fun (path, m, d) => (path, m.opened d) := by
    rw [Option.map_map, Option.map_map]
    rfl
  simp only [hfound] at hfirst
  refine ⟨st', errno', ?_, hst'⟩
  rw [mountTable, findConfig_eq _ hclean, hregs, candidates_map, hfirst, bootFile, List.map_findSome?]
  rfl

/-- **The configuration is handed over.** On a card with FAT volumes, registered one after another, the
parser gets the contents of the first configuration file that is there, with a zero behind them; nothing
else in memory has changed, outside the buffers of the read. When there is no such file the parser is not
called. -/
theorem boot_config_handed (h : Serves cd.parent inv content cap) (hbs : cd.parent.blockSize = 512)
    (mounts : List (FatMount cd cap c)) {st : CacheState σ} (hst : CardAt cd inv content cap c st)
    (temp : ℕ → ℕ) (buf : ℕ)
    (cfgParse : ℕ → Mem × Option (CacheState σ × ℤ) → Mem × Option (CacheState σ × ℤ)) (mem : Mem)
    (errno : ℤ) :
    match bootFile mounts with
    | none => ∃ st' errno', findAndRunConfig (fatOps temp) (mountTable mounts) buf cfgParse mem
        (some (st, errno)) = some (mem, some (st', errno')) ∧ CardAt cd inv content cap c st'
    | some (_, m, d) => ∀ chain, m.HoldsFile d chain → TempApart temp m.clusterSize buf (d.byteSize + 1) →
        ∃ mem' st' errno', findAndRunConfig (fatOps temp) (mountTable mounts) buf cfgParse mem
            (some (st, errno)) = some (cfgParse buf (mem', some (st', errno'))) ∧
          slice mem' buf d.byteSize = fatContents m.bs m.vol chain d.byteSize ∧
          Str 0 mem' buf ((fatContents m.bs m.vol chain d.byteSize).takeWhile (· != 0)) ∧
          (∀ a, a < buf ∨ buf + d.byteSize < a → (∀ i, a < temp i ∨ temp i + m.clusterSize ≤ a) →
            mem' a = mem a) ∧
          CardAt cd inv content cap c st' := by
  obtain ⟨st', errno', hfind, hst'⟩ := findConfig_card h hbs mounts hst temp errno
  rw [findAndRunConfig, hfind, Option.map_some]
  cases bootFile mounts with
  | none => exact ⟨st', errno', rfl, hst'⟩
  | some found =>
    obtain ⟨path, m, d⟩ := found
    intro chain hfile htemp
    have hlen := hfile.size_lt
    have hsize : (i32 d.byteSize : ℤ) = (d.byteSize : ℤ) := i32_of_lt hlen
    have hend : ((buf : ℤ) + (d.byteSize : ℤ)).toNat = buf + d.byteSize := by omega
    have hcount : toU32 (d.byteSize : ℤ) = d.byteSize := toU32_natCast (by omega)
    have happart : TempApart temp m.clusterSize buf d.byteSize := fun i => by
      have := htemp i
      omega
    -- the zero is put behind the buffer first, and the read leaves it
    obtain ⟨io', hread, hdata, hio, -, hframe⟩ := fatFread_whole (m.reads h hbs) hbs m.volume hfile.linked hlen
      hfile.covers hfile.exact temp buf happart
      ⟨Function.update mem (buf + d.byteSize) 0, st', ⟨0, 0, i32 d.byteSize, 0⟩⟩ hst' rfl rfl
    have hone : fread (fatFread m.fs temp d.opq) buf 1 d.byteSize
        ⟨Function.update mem (buf + d.byteSize) 0, st', ⟨0, 0, i32 d.byteSize, 0⟩⟩ = (d.byteSize, io') := by
      rw [fread_one (by omega) hsize rfl (Nat.zero_le _) hlen, Nat.sub_zero, Nat.min_self]
      exact hread
    have hzero : io'.mem (buf + d.byteSize) = 0 := by
      have hout (i : ℕ) : buf + d.byteSize < temp i ∨ temp i + m.clusterSize ≤ buf + d.byteSize := by
        have := htemp i
        omega
      rw [hframe (buf + d.byteSize) (Or.inr le_rfl) hout]
      exact Function.update_self ..
    have hlength : (fatContents m.bs m.vol chain d.byteSize).length = d.byteSize :=
      length_fatContents (mbrDevice (cacheDevice cd) m.part) hbs m.volume hfile.covers
    refine ⟨io'.mem, io'.dev, errno', ?_, hdata, str_takeWhile (by rw [hlength, hdata]) (by rw [hlength, hzero]),
      fun a ha hout => ?_, hio⟩
    · rw [hsize] at hone
      simp only [Option.map_some, fatOps, StreamFs.vfsFsize_fat, FatMount.opened, hsize, hend, hcount, hone]
    · rw [hframe a (by omega) hout]
      exact Function.update_of_ne (by omega) _ _

end Card

/-! ## A card with a configuration file -/

/-- A card with `cfgVolume` from block 1 on. -/
def cfgDisk (a : ℕ) : UInt8 := if a < 512 then 0 else cfgVolume (a - 512)

theorem cfgDisk_vol (p : Partition) (hp : p.startBlock = 1) : p.vol cfgDisk = cfgVolume := by
  funext j
  change cfgDisk (p.startBlock * 512 + j) = _
  rw [hp, cfgDisk, if_neg (by omega), Nat.one_mul, Nat.add_sub_cancel_left]

/-- Its partition. -/
def cfgPart : Partition := ⟨0, 6, 1, 4200⟩

theorem cfgPart_vol : cfgPart.vol cfgDisk = cfgVolume := cfgDisk_vol _ rfl

theorem cfgPart_slots : cfgPart.startBlock + cfgPart.blocks ≤ emptySlot := by decide

theorem cfgPart_fits : (cfgPart.startBlock + cfgPart.blocks) * 512 ≤ 8192 * 512 := by decide

theorem cfgPart_small : (FatBS.ofBuf (cfgPart.vol cfgDisk)).sectors ≤ cfgPart.blocks := by
  rw [cfgPart_vol]
  decide

theorem deviceA_clean : (0 : UInt8) ∉ ([0x61] : List UInt8) := by decide

/-- The volume on the card. -/
def cfgMount (cd : CacheDev Mem) : FatMount cd (8192 * 512) cfgDisk where
  name := [0x61]
  part := cfgPart
  ft := .fat16
  entries := cfgEntries
  clean := deviceA_clean
  slots := cfgPart_slots
  fits := cfgPart_fits
  volume := cfgPart_vol.symm ▸ cfgVolume_volume
  small := cfgPart_small
  tree := cfgPart_vol.symm ▸ cfgVolume_tree

theorem cfgMount_vol (cd : CacheDev Mem) : (cfgMount cd).vol = cfgVolume :=
  cfgPart_vol

theorem cfgMount_holdsFile (cd : CacheDev Mem) : (cfgMount cd).HoldsFile cfgDirent [3] := by
  refine ⟨?_, by decide, ?_, ?_⟩
  · rw [FatMount.bs, cfgMount_vol]
    exact cfgVolume_chain (Or.inr rfl)
  · rw [FatMount.clusterSize, FatMount.bs, cfgMount_vol]
    decide
  · rw [FatMount.clusterSize, FatMount.bs, cfgMount_vol]
    decide

theorem cfgMount_contents (cd : CacheDev Mem) :
    (fatContents (cfgMount cd).bs (cfgMount cd).vol [3] cfgDirent.byteSize).takeWhile (· != 0) =
      [0x62, 0x6f, 0x6f, 0x74, 0x0a] := by
  rw [FatMount.bs, cfgMount_vol]
  decide +kernel

theorem cfgDisk_cacheInit : ∃ cd st,
    cacheInit (storeDevice 8192) cfgDisk (fun _ => 0) 0x2000000 0x4000 = some (cd, st) := ⟨_, _, rfl⟩

theorem cfgMount_bootFile (cd : CacheDev Mem) : ∃ path, bootFile [cfgMount cd] =
    some (path, cfgMount cd, cfgDirent) := ⟨_, rfl⟩

set_option linter.constructorNameAsVariable false in
/-- The five bytes of the file, and a zero, are handed over. -/
theorem boot_config_handed_cfgDisk : ∃ cd st,
    cacheInit (storeDevice 8192) cfgDisk (fun _ => 0) 0x2000000 0x4000 = some (cd, st) ∧
    ∃ mem' st' errno', findAndRunConfig (fatOps fun _ => 0x10000) (mountTable [cfgMount cd]) 0x20000
        (fun _ w => w) (fun _ => 1) (some (st, 0)) = some (mem', some (st', errno')) ∧
      Str 0 mem' 0x20000 [0x62, 0x6f, 0x6f, 0x74, 0x0a] := by
  obtain ⟨cd, st, h⟩ := cfgDisk_cacheInit
  obtain ⟨hparent, hst, hco⟩ : cd.parent = storeDevice 8192 ∧ st.parent = cfgDisk ∧
      Coherent cd (fun _ => True) (fun c => c) (8192 * 512) st := coherent_init _ _ trivial h
  have hserves : Serves cd.parent (fun _ => True) (fun c => c) (8192 * 512) := by
    rw [hparent]
    exact storeDevice_serves (by decide)
  have hbs : cd.parent.blockSize = 512 := by rw [hparent]; rfl
  have hrun := boot_config_handed hserves hbs [cfgMount cd] ⟨hco, hst⟩ (fun _ => 0x10000) 0x20000
    (fun _ w => w) (fun _ => 1) 0
  obtain ⟨path, hfile⟩ := cfgMount_bootFile cd
  rw [hfile] at hrun
  have hsize : 0x10000 + (cfgMount cd).clusterSize ≤ 0x20000 := by
    rw [FatMount.clusterSize, FatMount.bs, cfgMount_vol]
    decide
  obtain ⟨mem', st', errno', hrun, -, hstr, -⟩ :=
    hrun [3] (cfgMount_holdsFile cd) fun _ => Or.inl hsize
  rw [cfgMount_contents] at hstr
  exact ⟨cd, st, h, mem', st', errno', hrun, hstr⟩

end RpiBoot
