import RpiBoot.Ext2.File
import RpiBoot.Streams.Eof

/-!
# The number of members that are read

`fread` divides by the size of a member, before and after the filesystem's `fread`. It does not look
whether that size is `0`, and takes the `-1` by which a filesystem refuses for a number of bytes.

* `checkedFread`: `fread` with divisions that may be undefined.
* `FindsBlocks`, **`FindsBlocks.fsFread_count`**: `fs_fread` returns the bytes asked for, where the
  filesystem finds every block of the file.
* `HealthyFile`: a FAT or ext2 file on a healthy device.
* **`fread_count_iff`**: when `fread` returns the members that are asked for and left.
-/

namespace RpiBoot

open Store

variable {σ ο : Type}

/-- A division of unsigned words; there is none by `0`. -/
def udiv (a b : ℕ) : Option ℕ := if b = 0 then none else some (a / b)

/-- `fread(ptr, size, nmemb, stream)`; `none` where it divides by zero. -/
def checkedFread (fsRead : FsTransfer σ) (ptr size nmemb : ℕ) (io : FileIo σ) : Option (ℕ × FileIo σ) :=
  let bytesToRead := u32 (size * nmemb)
  let left := toU32 (io.file.len - io.file.pos)
  let bytesToRead := if bytesToRead > left then left else bytesToRead
  (udiv bytesToRead size).bind fun nmembToRead =>
    let r := fsRead ptr (nmembToRead * size) io
    (udiv r.1 size).map fun nmembRead => (nmembRead, r.2)

theorem checkedFread_zero (fsRead : FsTransfer σ) (ptr nmemb : ℕ) (io : FileIo σ) :
    checkedFread fsRead ptr 0 nmemb io = none := rfl

/-- Where the divisions are defined, this is `fread`. -/
theorem checkedFread_of_ne_zero (fsRead : FsTransfer σ) (ptr nmemb : ℕ) (io : FileIo σ) {size : ℕ}
    (hsize : size ≠ 0) : checkedFread fsRead ptr size nmemb io = some (fread fsRead ptr size nmemb io) := by
  simp only [checkedFread, udiv, if_neg hsize, Option.bind_some, Option.map_some, fread]

/-! ## Reading what is found -/

/-- While `J` holds, the filesystem finds each block of a file of `len` bytes, and all of the block is
read. `J idx opq s` suits a lookup of block `idx` or a later one, with the data `opq`. -/
def FindsBlocks (getNext : GetNext σ ο) (fs : Fs σ) (len : ℕ) (J : ℕ → ο → σ → Prop) : Prop :=
  ∀ idx opq io, idx * fs.blockSize < len → J idx opq io.dev →
    ∃ b opq' io', getNext idx false opq io = (b, opq', io') ∧ b ≠ noBlock ∧
      ∀ mem buf, ∃ mem' s', blockRead fs.parent io'.dev mem buf fs.blockSize b =
        (fs.blockSize, mem', s') ∧ J (idx + 1) opq' s'

section Loop

variable {getNext : GetNext σ ο} {fs : Fs σ} {temp : ℕ → ℕ} {J : ℕ → ο → σ → Prop} {len pos n p m : ℕ}
  {st : FreadState σ ο}

/-- A round on a block that is found. -/
theorem FindsBlocks.round (hfind : FindsBlocks getNext fs len J) (temp : ℕ → ℕ)
    (hlt : fs.blockSize < 2 ^ 31) (hr : Round fs.blockSize pos n st.curBlock p m) (hm : 0 < m)
    (hlen : pos + n ≤ len) (hJ : J st.curBlock st.opq st.io.dev) :
    ∃ st', fsFreadRound getNext fs temp (span fs.blockSize pos n) st = .ok st' ∧
      st'.curBlock = st.curBlock + 1 ∧ st'.totalBytesRead = st.totalBytesRead + m ∧
      J st'.curBlock st'.opq st'.io.dev := by
  have hp := hr.block_le
  have hq := hr.le_stop
  obtain ⟨b, opq', io', hg, hb, hread⟩ := hfind st.curBlock st.opq st.io (by omega) hJ
  unfold fsFreadRound
  simp only [hr.offsets_eq, hg, hr.segment_eq, if_neg hb]
  by_cases hwhole : p - st.curBlock * fs.blockSize = 0 ∧ m = fs.blockSize
  · obtain ⟨mem', s', hblock, hJ'⟩ := hread io'.mem st.saveBuf
    rw [if_pos hwhole, hblock, if_neg (not_not.mpr rfl), i32_of_lt hlt]
    exact ⟨_, rfl, rfl, by rw [hwhole.2], hJ'⟩
  · obtain ⟨mem', s', hblock, hJ'⟩ := hread io'.mem (temp st.curBlock)
    rw [if_neg hwhole, hblock, if_neg (not_not.mpr rfl), hr.cutSegment_eq]
    exact ⟨_, rfl, rfl, rfl, hJ'⟩

variable (getNext temp) in
/-- A round with nothing to transfer counts nothing, whatever it finds. -/
theorem fsFreadRound_empty_count (hbs : 0 < fs.blockSize)
    (hr : Round fs.blockSize pos n st.curBlock p 0) :
    (∃ io', fsFreadRound getNext fs temp (span fs.blockSize pos n) st =
      .error (toU32 st.totalBytesRead, io')) ∨
    ∃ st', fsFreadRound getNext fs temp (span fs.blockSize pos n) st = .ok st' ∧
      st'.totalBytesRead = st.totalBytesRead := by
  have hseg : ∀ count, cutSegment (p - st.curBlock * fs.blockSize)
      (p + 0 - st.curBlock * fs.blockSize) count = 0 := fun count => by
    simp only [cutSegment]
    split_ifs <;> omega
  unfold fsFreadRound
  simp only [hr.offsets_eq, hr.segment_eq, hseg]
  rw [if_neg (show ¬ (p - st.curBlock * fs.blockSize = 0 ∧ 0 = fs.blockSize) by omega)]
  split_ifs
  · exact Or.inl ⟨_, rfl⟩
  · exact Or.inl ⟨_, by rw [Nat.cast_zero, add_zero]⟩
  · exact Or.inr ⟨_, rfl, add_zero _⟩

/-- The rounds from the current block on. -/
theorem FindsBlocks.fsFreadLoop_count (hfind : FindsBlocks getNext fs len J) (hbs : 0 < fs.blockSize)
    (hlt : fs.blockSize < 2 ^ 31) (hlen : pos + n ≤ len) (hn : pos + n < 2 ^ 31) :
    ∀ fuel (st : FreadState σ ο), st.curBlock + fuel = (pos + n) / fs.blockSize + 1 →
      pos / fs.blockSize ≤ st.curBlock →
      (fuel ≠ 0 → J st.curBlock st.opq st.io.dev) →
      st.totalBytesRead = (reach fs.blockSize pos (pos + n) st.curBlock - pos : ℕ) →
      (fsFreadLoop getNext fs temp (span fs.blockSize pos n) fuel st).1 = n := by
  intro fuel
  induction fuel with
  | zero =>
    intro st hf _ _ htotal
    rw [fsFreadLoop, htotal, show st.curBlock = (pos + n) / fs.blockSize + 1 by omega, reach_last hbs,
      Nat.add_sub_cancel_left, toU32_natCast (by omega)]
  | succ fuel ih =>
    intro st hf h₁ hJ htotal
    obtain ⟨p, m, hr⟩ := exists_round hbs hn (by omega) h₁ (by omega)
    have hp := hr.pos_le
    rw [hr.start_eq] at htotal
    rw [fsFreadLoop, if_pos hr.cur_le]
    rcases Nat.eq_zero_or_pos m with rfl | hm
    · -- the last round has nothing to transfer
      obtain ⟨hcur, hstop, -⟩ := hr.of_empty hbs h₁
      have hcount : toU32 st.totalBytesRead = n := by
        rw [htotal, toU32_natCast (by omega)]
        omega
      obtain ⟨io', hround⟩ | ⟨st', hround, htotal'⟩ :=
        fsFreadRound_empty_count getNext temp hbs hr
      · rw [hround]
        exact hcount
      · rw [hround, show fuel = 0 by omega]
        rw [← htotal'] at hcount
        exact hcount
    · obtain ⟨st', hround, hcur, htotal', hJ'⟩ :=
        hfind.round temp hlt hr hm hlen (hJ (Nat.succ_ne_zero fuel))
      rw [hround]
      refine ih st' (by omega) (by omega) (fun _ => hJ') ?_
      rw [htotal', htotal, hcur, hr.stop_eq]
      omega

/-- **`fs_fread` returns the bytes asked for**, where the blocks that hold them are found. -/
theorem FindsBlocks.fsFread_count (hfind : FindsBlocks getNext fs len J) (hbs : 0 < fs.blockSize)
    (hlt : fs.blockSize < 2 ^ 31) (hlen : pos + n ≤ len) (hn : pos + n < 2 ^ 31) {opq : ο} {ptr : ℕ}
    {io : FileIo σ} (hpos : io.file.pos = pos) (hJ : J (pos / fs.blockSize) opq io.dev) :
    (fsFread getNext fs temp opq ptr n io).1 = n := by
  have hdiv : pos / fs.blockSize ≤ (pos + n) / fs.blockSize :=
    Nat.div_le_div_right (Nat.le_add_right _ _)
  rw [fsFread_eq hn hpos]
  refine hfind.fsFreadLoop_count hbs hlt hlen hn _ _ (by dsimp only; omega) le_rfl (fun _ => hJ) ?_
  dsimp only
  rw [reach_first (Nat.le_add_right _ _), Nat.sub_self, Nat.cast_zero]

end Loop

/-! ## The filesystems -/

/-- The block at which FAT12 looks block `idx` up: in the first cluster, or in cluster `0`, as the entries
of its table are not looked at. -/
def fat12Sector (fs : FatFs σ) (cluster idx : ℕ) : ℕ := getSector fs (if idx = 0 then cluster else 0)

/-- A FAT or ext2 file of `len` bytes on a healthy device, with what the reads keep of the device: its
blocks can be read where the filesystem looks for them. -/
inductive HealthyFile : StreamFs σ → (len : ℕ) → (kept : σ → Prop) → Prop
  | chain {parent : BlockDevice σ} {inv : σ → Prop} {content : σ → Mem} {bs : FatBS} {ft : FatType}
      {vol : Mem} {first : ℕ} {chain : List ℕ} {len : ℕ}
      (h : HealthyReads parent inv content (· < bs.sectors)) (hbs : parent.blockSize = 512)
      (hv : bs.Volume ft) (hc : ClusterChain bs ft vol first chain)
      (hcover : len ≤ chain.length * (bs.sectorsPerCluster * 512)) :
      HealthyFile (.fat (bs.toFs parent) first) len fun s => inv s ∧ content s = vol
  | fat12 {fs : FatFs σ} {inv : σ → Prop} {content : σ → Mem} {good : ℕ → Prop} {vol : Mem}
      {cluster k len : ℕ} (hft : fs.fatType = .fat12) (hc : cluster ≠ 0) (hlt : cluster < endOfChain)
      (h : HealthyReads fs.b.parent inv content good) (hk : 0 < k)
      (hsize : fs.b.blockSize = k * fs.b.parent.blockSize) (hbs : fs.b.blockSize < 2 ^ 31)
      (hgood : ∀ idx, idx * fs.b.blockSize < len → fat12Sector fs cluster idx ≠ noBlock ∧
        ∀ j < k, good (fat12Sector fs cluster idx + j)) :
      HealthyFile (.fat fs cluster) len fun s => inv s ∧ content s = vol
  | ext2 {fs : Ext2Fs σ} {inv : σ → Prop} {content : σ → Mem} {sound : ℕ → Prop} {vol : Mem}
      {inodeIdx len : ℕ} {inode : Ext2Inode} (h : HealthyReads fs.b.parent inv content sound)
      (hf : FallibleReads fs.b.parent inv content fs.OnVolume) (hv : fs.Volume)
      (hfile : Ext2File fs vol sound inodeIdx inode)
      (hend : ∀ s, inv s → content s = vol → ∀ idx, idx * fs.b.blockSize < len →
        fs.Sound sound (inode.ending fs s idx)) :
      HealthyFile (.ext2 fs inodeIdx) len fun s => inv s ∧ content s = vol
  | fatNone {fs : FatFs σ} {len : ℕ} : HealthyFile (.fat fs 0) len fun _ => True
  | ext2None {fs : Ext2Fs σ} {len : ℕ} : HealthyFile (.ext2 fs 0) len fun _ => True

/-- A file with a chain. -/
theorem chain_findsBlocks {parent : BlockDevice σ} {inv : σ → Prop} {content : σ → Mem} {bs : FatBS}
    {ft : FatType} {vol : Mem} {first len : ℕ} {chain : List ℕ}
    (h : HealthyReads parent inv content (· < bs.sectors)) (hbs : parent.blockSize = 512)
    (hv : bs.Volume ft) (hc : ClusterChain bs ft vol first chain)
    (hcover : len ≤ chain.length * (bs.sectorsPerCluster * 512)) :
    FindsBlocks (fatGetNextBdevBlockNum (bs.toFs parent)) (bs.toFs parent).b len fun idx opq s =>
      (inv s ∧ content s = vol) ∧ opq.fBlock ≤ idx ∧ OnChain chain opq := by
  rintro idx opq io hidx ⟨⟨hs, hvol⟩, hle, ho⟩
  have hfm : FileMap (bs.toFs parent).b (· < bs.sectors) bs.sectorsPerCluster (chainMap bs chain) :=
    fat_fileMap hbs hv hc
  obtain ⟨hb, -⟩ := toFs_spec hv parent
  have hsize : (bs.toFs parent).b.blockSize = bs.sectorsPerCluster * 512 := by rw [hb]
  obtain ⟨opq', io', hg, ⟨-, hle', ho'⟩, -, hi, hcs, -⟩ :=
    fat_lookup h hbs hv hc false idx opq io hs ⟨hvol, hle, ho⟩
  have hmap : chainMap bs chain (idx * (bs.sectorsPerCluster * 512) / (bs.sectorsPerCluster * 512)) ≠ none :=
    chainMap_ne_none hcover (by rw [← hsize]; exact hidx)
  rw [Nat.mul_div_cancel _ (by rw [← hsize]; exact hfm.size_pos)] at hmap
  obtain ⟨b, hbm⟩ := Option.ne_none_iff_exists'.mp hmap
  rw [hbm, Option.getD_some] at hg
  refine ⟨b, opq', io', hg, (hfm.mapped idx b hbm).1, fun mem buf => ?_⟩
  obtain ⟨s', hread, hi', hcs'⟩ := hfm.blockRead (by rw [hb]; exact h) hi mem buf hbm
  exact ⟨_, s', hread, ⟨hi', hcs'.trans (hcs.trans hvol)⟩, hle', ho'⟩

/-- The walk of FAT12 goes to cluster `0`, or nowhere. -/
theorem fat12_walk {fs : FatFs σ} (hft : fs.fatType = .fat12) (idx : ℕ) :
    ∀ (fuel : ℕ) (opq : FatFileBlockOffset) (s : σ),
      (fatWalk fs idx fuel opq s).2 = s ∧
      (opq.cluster = 0 → (fatWalk fs idx fuel opq s).1.cluster = 0) ∧
      (opq.fBlock ≠ idx → opq.cluster < endOfChain → fuel ≠ 0 → (fatWalk fs idx fuel opq s).1.cluster = 0) ∧
      (opq.fBlock = idx → fatWalk fs idx fuel opq s = (opq, s)) := by
  intro fuel
  induction fuel with
  | zero => exact fun opq s => ⟨rfl, id, fun _ _ h => absurd rfl h, fun _ => rfl⟩
  | succ fuel ih =>
    intro opq s
    have hentry : getNextFatEntry fs s opq.cluster = (0, s) := by simp only [getNextFatEntry, hft]
    rw [fatWalk]
    split_ifs with hgo
    · obtain ⟨hs, hzero, -, -⟩ := ih ⟨u32 (opq.fBlock + 1), 0⟩ s
      rw [hentry]
      exact ⟨hs, fun _ => hzero rfl, fun _ _ _ => hzero rfl, fun h => absurd h hgo.1⟩
    · exact ⟨rfl, id, fun h₁ h₂ _ => absurd ⟨h₁, h₂⟩ hgo, fun _ => rfl⟩

/-- A FAT12 file. -/
theorem fat12_findsBlocks {fs : FatFs σ} {inv : σ → Prop} {content : σ → Mem} {good : ℕ → Prop} (vol : Mem)
    {cluster k len : ℕ} (hft : fs.fatType = .fat12) (hlt : cluster < endOfChain)
    (h : HealthyReads fs.b.parent inv content good) (hk : 0 < k)
    (hsize : fs.b.blockSize = k * fs.b.parent.blockSize) (hbs : fs.b.blockSize < 2 ^ 31)
    (hgood : ∀ idx, idx * fs.b.blockSize < len → fat12Sector fs cluster idx ≠ noBlock ∧
      ∀ j < k, good (fat12Sector fs cluster idx + j)) :
    FindsBlocks (fatGetNextBdevBlockNum fs) fs.b len fun idx opq s =>
      (inv s ∧ content s = vol) ∧ (opq.cluster = 0 ∧ idx ≠ 0 ∨ opq = ⟨0, cluster⟩) := by
  rintro idx opq io hidx ⟨⟨hs, hvol⟩, hopq⟩
  -- the lookup ends in the first cluster for block `0`, and in cluster `0` for the others
  obtain ⟨opq', hg, hopq'⟩ : ∃ opq', fatGetNextBdevBlockNum fs idx false opq io =
      (fat12Sector fs cluster idx, opq', io) ∧ (opq'.cluster = 0 ∧ idx + 1 ≠ 0 ∨ opq' = ⟨0, cluster⟩) := by
    obtain ⟨steps, hsteps⟩ : ∃ steps, steps = if opq.fBlock ≤ idx then idx - opq.fBlock
      else 2 ^ 32 - opq.fBlock + idx := ⟨_, rfl⟩
    obtain ⟨hdev, hzero, hmove, hstay⟩ := fat12_walk hft idx steps opq io.dev
    have hend : (0 : ℕ) < endOfChain := by decide
    simp only [fatGetNextBdevBlockNum, ← hsteps, hdev]
    rcases hopq with ⟨hcl, hne⟩ | rfl
    · rw [hzero hcl, if_pos hend, fat12Sector, if_neg hne]
      exact ⟨_, rfl, Or.inl ⟨hzero hcl, Nat.succ_ne_zero idx⟩⟩
    · by_cases h0 : idx = 0
      · rw [hstay h0.symm, if_pos hlt, fat12Sector, if_pos h0]
        exact ⟨_, rfl, Or.inr rfl⟩
      · have hcl := hmove (Ne.symm h0) hlt (by rw [hsteps, if_pos (Nat.zero_le _)]; exact h0)
        rw [hcl, if_pos hend, fat12Sector, if_neg h0]
        exact ⟨_, rfl, Or.inl ⟨hcl, Nat.succ_ne_zero idx⟩⟩
  obtain ⟨hno, hok⟩ := hgood idx hidx
  refine ⟨_, opq', io, hg, hno, fun mem buf => ?_⟩
  obtain ⟨s', hread, hi, hc⟩ := blockRead_healthy h hs mem buf hk hok (by rw [← hsize]; exact hbs)
  rw [← hsize] at hread
  exact ⟨_, s', hread, ⟨hi, hc.trans hvol⟩, hopq'⟩

/-- An ext2 file. -/
theorem ext2_findsBlocks {fs : Ext2Fs σ} {inv : σ → Prop} {content : σ → Mem} {sound : ℕ → Prop}
    {vol : Mem} {len : ℕ} {inode : Ext2Inode} (h : HealthyReads fs.b.parent inv content sound)
    (hf : FallibleReads fs.b.parent inv content fs.OnVolume) (hv : fs.Volume) (hlen : len < 2 ^ 31)
    (hend : ∀ s, inv s → content s = vol → ∀ idx, idx * fs.b.blockSize < len →
      fs.Sound sound (inode.ending fs s idx)) :
    FindsBlocks (ext2GetNextBdevBlockNum fs) fs.b len fun _ opq s =>
      (inv s ∧ content s = vol) ∧ opq = inode := by
  rintro idx opq io hidx ⟨⟨hs, hvol⟩, rfl⟩
  obtain ⟨hk, hsize⟩ := hv.sectorsPerBlock_spec
  have hbs := hv.size_bounds
  obtain ⟨s, hg, hi, hc⟩ : ∃ s, ext2GetNextBdevBlockNum fs idx false opq io =
      (getSectorNum fs (opq.ending fs io.dev idx), opq, { io with dev := s }) ∧
      inv s ∧ content s = content io.dev := ext2GetNextBdevBlockNum_spec hf hv hs (by omega)
  have hsound := hend io.dev hs hvol idx hidx
  refine ⟨_, opq, _, hg, (hv.getSectorNum_spec hsound.lt_total).2.1, fun mem buf => ?_⟩
  obtain ⟨s', hread, hi', hc'⟩ := blockRead_healthy h hi mem buf hk hsound.sectors (by omega)
  rw [← hsize] at hread
  exact ⟨_, s', hread, ⟨hi', hc'.trans (hc.trans hvol)⟩, rfl⟩

variable {S : StreamFs σ} {len pos n : ℕ} {kept : σ → Prop} {io : FileIo σ}

/-- **A healthy file** gives the bytes asked for, where its filesystem reads at all. -/
theorem HealthyFile.fread_count (hfile : HealthyFile S len kept) (hlen : len < 2 ^ 31)
    (hdev : kept io.dev) (hpos : io.file.pos = pos) (hn : pos + n ≤ len) (hreads : S.Reads)
    (temp : ℕ → ℕ) (ptr : ℕ) : (S.functions.fread temp ptr n io).1 = n := by
  have hrange : pos + n < 2 ^ 31 := by omega
  cases hfile with
  | @chain parent inv content bs ft vol first chain _ h hbs hv hc hcover =>
    have hfm : FileMap (bs.toFs parent).b (· < bs.sectors) bs.sectorsPerCluster (chainMap bs chain) :=
      fat_fileMap hbs hv hc
    have hfind := chain_findsBlocks h hbs hv hc hcover
    simp only [StreamFs.functions, fatFread, if_neg (show first ≠ 0 from hreads)]
    exact hfind.fsFread_count hfm.size_pos hfm.size_lt hn hrange hpos
      ⟨hdev, Nat.zero_le _, Or.inl hc.head⟩
  | @fat12 fs inv content good vol cluster k _ hft hc hlt h hk hsize hbs hgood =>
    have hfind := fat12_findsBlocks vol hft hlt h hk hsize hbs hgood
    have hbs₀ : 0 < fs.b.blockSize := by
      rw [hsize]
      exact Nat.mul_pos hk fs.b.parent.blockSize_pos
    simp only [StreamFs.functions, fatFread, if_neg hc]
    exact hfind.fsFread_count hbs₀ hbs hn hrange hpos ⟨hdev, Or.inr rfl⟩
  | @ext2 fs inv content sound vol inodeIdx _ inode h hf hv hfile hend =>
    have hsize := hv.size_bounds
    have hfind := ext2_findsBlocks h hf hv hlen hend
    obtain ⟨hi, hvol⟩ := hdev
    obtain ⟨s', hread, hi', hc'⟩ := ext2ReadInode_spec h hf hv hi (by rwa [hvol])
    simp only [StreamFs.functions, ext2Fread, if_neg (show inodeIdx ≠ 0 from hreads), hread,
      Option.getD_some]
    exact hfind.fsFread_count (by omega) (by omega) hn hrange hpos ⟨⟨hi', hc'.trans hvol⟩, rfl⟩
  | fatNone => exact absurd rfl hreads
  | ext2None => exact absurd rfl hreads

/-! ## The count -/

/-- `fread` does not divide by zero, and returns the members that are asked for and left. -/
def CountsMembers (S : StreamFs σ) (temp : ℕ → ℕ) (ptr size nmemb : ℕ) (io : FileIo σ) : Prop :=
  ∃ ret io', checkedFread (S.functions.fread temp) ptr size nmemb io = some (ret, io') ∧
    ret = if size = 0 then 0 else min nmemb ((io.file.len - io.file.pos).toNat / size)

/-- When a wrapped product asks for as many members as are wanted and left. -/
theorem min_u32_div_iff {size : ℕ} (hsize : 0 < size) (nmemb left : ℕ) :
    min (u32 (size * nmemb)) left / size = min nmemb (left / size) ↔
      size * nmemb < 2 ^ 32 ∨ left / size ≤ u32 (size * nmemb) / size := by
  have hmin : min (u32 (size * nmemb)) left / size = min (u32 (size * nmemb) / size) (left / size) := by
    rcases le_total (u32 (size * nmemb)) left with hle | hle
    · rw [min_eq_left hle, min_eq_left (Nat.div_le_div_right hle)]
    · rw [min_eq_right hle, min_eq_right (Nat.div_le_div_right hle)]
  rw [hmin]
  rcases Nat.lt_or_ge (size * nmemb) (2 ^ 32) with hlt | hge
  · rw [u32_of_lt hlt, Nat.mul_div_cancel_left _ hsize]
    exact iff_of_true rfl (Or.inl hlt)
  · have hfew : u32 (size * nmemb) / size < nmemb :=
      Nat.div_lt_of_lt_mul ((u32_lt _).trans_le hge)
    omega

/-- `-1` is more members than are left of any file. -/
theorem lt_refused_div (left : ℕ) {size : ℕ} (hsize : 0 < size) (hsize' : size < 2 ^ 32)
    (hleft : left < 2 ^ 31) : left / size < toU32 (-1) / size := by
  have hall : toU32 (-1) = 2 ^ 32 - 1 := rfl
  rw [hall, Nat.div_lt_iff_lt_mul hsize]
  have hd := Nat.div_add_mod' (2 ^ 32 - 1) size
  have hm := Nat.mod_lt (2 ^ 32 - 1) hsize
  rcases Nat.lt_or_ge size (2 ^ 31) with hlt | hge
  · omega
  · have hone : 1 * size ≤ (2 ^ 32 - 1) / size * size :=
      Nat.mul_le_mul_right size ((Nat.le_div_iff_mul_le hsize).mpr (by omega))
    omega

theorem HealthyFile.counts_iff (hfile : HealthyFile S len kept) (hlen : len < 2 ^ 31)
    (h : OnFile kept len io) {size : ℕ} (hsize : size < 2 ^ 32) (nmemb : ℕ) (temp : ℕ → ℕ) (ptr : ℕ) :
    CountsMembers S temp ptr size nmemb io ↔ size ≠ 0 ∧ S.Reads ∧ (size * nmemb < 2 ^ 32 ∨
      (io.file.len - io.file.pos).toNat / size ≤ u32 (size * nmemb) / size) := by
  obtain ⟨hkept, hl, hnonneg, hle⟩ := id h
  obtain ⟨pos, hpos⟩ := Int.eq_ofNat_of_zero_le hnonneg
  have hleft : toU32 (io.file.len - io.file.pos) = (io.file.len - io.file.pos).toNat := by
    unfold toU32; omega
  rcases Nat.eq_zero_or_pos size with rfl | hpositive
  · refine iff_of_false ?_ fun h => h.1 rfl
    rintro ⟨ret, io', hnone, -⟩
    rw [checkedFread_zero] at hnone
    cases hnone
  have hne : size ≠ 0 := Nat.ne_of_gt hpositive
  have hcounts : CountsMembers S temp ptr size nmemb io ↔
      (S.functions.fread temp ptr (freadSize size nmemb io.file) io).1 / size =
        min nmemb ((io.file.len - io.file.pos).toNat / size) := by
    simp only [CountsMembers, checkedFread_of_ne_zero _ _ _ _ hne, fread_eq, if_neg hne,
      Option.some.injEq, Prod.mk.injEq]
    constructor
    · rintro ⟨ret, io', ⟨rfl, -⟩, hret⟩
      exact hret
    · exact fun hret => ⟨_, _, ⟨rfl, rfl⟩, hret⟩
  rw [hcounts]
  by_cases hreads : S.Reads
  · rw [hfile.fread_count hlen hkept hpos (h.freadSize_le hlen size nmemb hpos).1 hreads temp ptr,
      freadSize, Nat.mul_div_cancel _ hpositive, hleft, min_u32_div_iff hpositive]
    exact ⟨fun h => ⟨hne, hreads, h⟩, fun h => h.2.2⟩
  · -- the filesystem returns `-1`
    refine iff_of_false (fun hret => ?_) fun h => hreads h.2.1
    have hrefused : (S.functions.fread temp ptr (freadSize size nmemb io.file) io).1 = toU32 (-1) := by
      cases S with
      | fat fs cluster => simp only [StreamFs.functions, fatFread, if_pos (not_not.mp hreads)]
      | ext2 fs inodeIdx => simp only [StreamFs.functions, ext2Fread, if_pos (not_not.mp hreads)]
      | nofs fs => exact absurd trivial hreads
    have hmore := lt_refused_div (io.file.len - io.file.pos).toNat hpositive hsize (by omega)
    rw [hrefused] at hret
    omega

/-- **The number of members that `fread` returns** from a FAT or ext2 file on a healthy device is that of
the members asked for and left, without a division by zero, if and only if members are not of size `0`, the
file has a first cluster or an inode, and the product of size and number does not wrap, or still covers
what is left. -/
theorem fread_count_iff (hfile : HealthyFile S len kept) (hlen : len < 2 ^ 31) (h : OnFile kept len io)
    {size : ℕ} (hsize : size < 2 ^ 32) (nmemb : ℕ) (temp : ℕ → ℕ) (ptr : ℕ) :
    CountsMembers S temp ptr size nmemb io ↔ size ≠ 0 ∧ S.Reads ∧ (size * nmemb < 2 ^ 32 ∨
      (io.file.len - io.file.pos).toNat / size ≤ u32 (size * nmemb) / size) :=
  hfile.counts_iff hlen h hsize nmemb temp ptr

/-- One byte asked of an empty file gives `0xffffffff` members. -/
theorem fread_count_broken :
    ¬ ∀ (σ : Type) (S : StreamFs σ) (len : ℕ) (kept : σ → Prop) (io : FileIo σ) (size nmemb : ℕ)
      (temp : ℕ → ℕ) (ptr : ℕ), HealthyFile S len kept → len < 2 ^ 31 → OnFile kept len io →
      size < 2 ^ 32 → nmemb < 2 ^ 32 → CountsMembers S temp ptr size nmemb io := by
  intro h
  have hfile : HealthyFile (.fat ((FatBS.ofBuf smallVolume).toFs (storeDevice 4200)) 0) 0 fun _ => True :=
    .fatNone
  have hio : OnFile (fun _ => True) 0 (⟨fun _ => 0, smallVolume, ⟨0, 0, 0, 0⟩⟩ : FileIo Mem) :=
    ⟨trivial, rfl, le_rfl, le_rfl⟩
  have hcounts := h Mem _ _ _ _ 1 1 (fun _ => 0x10000) 0x20000 hfile (by decide) hio (by decide) (by decide)
  exact ((hfile.counts_iff (by decide) hio (by decide) 1 _ _).mp hcounts).2.1 rfl

/-- Reading three members of 100 bytes from the file of 600 bytes of `smallVolume`. -/
theorem fread_count_three :
    CountsMembers smallStream (fun _ => 0x10000) 0x20000 100 3 ⟨fun _ => 0, smallVolume, ⟨0, 1, 600, 0⟩⟩ ↔
      100 ≠ 0 ∧ smallStream.Reads ∧ (100 * 3 < 2 ^ 32 ∨
        ((600 : ℤ) - 0).toNat / 100 ≤ u32 (100 * 3) / 100) :=
  fread_count_iff (.chain smallVolume_reads rfl smallVolume_volume smallVolume_chain (by decide))
    (by decide) ⟨⟨trivial, rfl⟩, rfl, by decide, by decide⟩ (by decide) _ _ _

end RpiBoot
