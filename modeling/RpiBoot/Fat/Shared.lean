import RpiBoot.Cache.Volumes
import RpiBoot.Fat.File

/-!
# A file on a disk that others write to

The filesystems on the partitions of a card share one cache. The console log, for one, is a nofs file on
one partition that grows while the loader reads its files from another.

* `sharedStep`: calls on an open file between requests to the partitions.
* `aloneStep`: the same calls on the bytes of the file, which nothing else changes.
* **`shared_run`**: the two runs have the same replies, where no request writes to the partition of the
  file.
* **`fat_file_undisturbed`**: so do those on a FAT file, from mounting the partition on.
-/

namespace RpiBoot

open Store Runs

variable {σ : Type} {inv : σ → Prop} {content : σ → Mem} {cap : ℕ} {cd : CacheDev σ}
  {parts : List Partition} {i : ℕ} {p : Partition}

/-- The request writes to partition `i`. -/
def VolCall.Writes (i : ℕ) : VolCall → Prop
  | .read .. => False
  | .write j .. => j = i

/-- A call on an open file, or a request to a partition, of which only the effect on the device is kept. -/
def sharedStep (fsRead : (ℕ → ℕ) → FsTransfer σ) (dev : BlockDevice σ) (parts : List Partition)
    (st : FileIo σ × List (ℕ × List UInt8)) : FileCall ⊕ VolCall → Option (FileIo σ × List (ℕ × List UInt8))
  | .inl call => fileStep fsRead st call
  | .inr call => (partStep dev parts (st.1.dev, []) call).map fun r => ({ st.1 with dev := r.1 }, st.2)

/-- The calls on the bytes of the file. -/
def aloneStep (data : List UInt8) (st : ℕ × List (ℕ × List UInt8)) :
    FileCall ⊕ VolCall → Option (ℕ × List (ℕ × List UInt8))
  | .inl call => seqFileStep data st call
  | .inr _ => some st

/-- The calls are legal, and no request writes to partition `i`. -/
def SharedLegal (bs len sector : ℕ) (parts : List Partition) (i : ℕ) (st : ℕ × List (ℕ × List UInt8)) :
    FileCall ⊕ VolCall → Prop
  | .inl call => LegalCall bs len st call
  | .inr call => call.Legal sector parts ∧ ¬ call.Writes i

/-- The cache is coherent, and the partition holds the store `vol`. -/
def PartHolds (cd : CacheDev σ) (inv : σ → Prop) (content : σ → Mem) (cap : ℕ) (p : Partition) (vol : Mem)
    (st : CacheState σ) : Prop :=
  Coherent cd inv content cap st ∧ (p.region cd.parent.blockSize).Shows (content st.parent) vol

/-- The partition serves reads from the store it holds. -/
theorem partHolds_reads (h : Serves cd.parent inv content cap)
    (hparts : PartitionsFit cd.parent.blockSize cap parts) (hp : p ∈ parts) (vol : Mem) :
    HealthyReads (mbrDevice (cacheDevice cd) p) (PartHolds cd inv content cap p vol) (fun _ => vol)
      (· < p.blocks) := by
  have hreads := mbrDevice_reads (cacheDevice_reads h) fun b hb => hparts.cachedBlock hp hb
  obtain ⟨rd, hrd, hlaw⟩ := hreads.exists_read
  refine ⟨hreads.good_lt, rd, hrd, fun st buf k b ⟨hst, hvol⟩ hk hg hn => ?_⟩
  obtain ⟨st', hr, hst', hc⟩ := hlaw st buf k b hst hk hg hn
  refine ⟨st', ?_, ⟨hst', fun j hj => ?_⟩, rfl⟩
  · have hle : b * cd.parent.blockSize + k * cd.parent.blockSize ≤ (p.region cd.parent.blockSize).size := by
      have hlast := hg (k - 1) (by omega)
      rw [← Nat.add_mul]
      exact Nat.mul_le_mul_right _ (show b + k ≤ p.blocks by omega)
    rw [hr, slice_window]
    exact congrArg (fun l => (ReadReply.mk _ l, st')) (hvol.slice_eq hle)
  · rw [← hvol j hj]
    exact congrFun hc j

/-- A request that does not write to the partition leaves the store it holds. -/
theorem partStep_partHolds (h : Serves cd.parent inv content cap)
    (hparts : PartitionsFit cd.parent.blockSize cap parts) (hp : parts[i]? = some p) {vol : Mem}
    {st : CacheState σ} (hst : PartHolds cd inv content cap p vol st) {call : VolCall}
    (hcall : call.Legal cd.parent.blockSize parts) (hw : ¬ call.Writes i) :
    ∃ st' replies, partStep (cacheDevice cd) parts (st, []) call = some (st', replies) ∧
      PartHolds cd inv content cap p vol st' := by
  have hregion : (partRegions cd.parent.blockSize parts)[i]? = some (p.region cd.parent.blockSize) := by
    rw [partRegions, List.getElem?_map, hp, Option.map_some]
  obtain ⟨st', vols', replies, hstep, hvol, hst'⟩ := partStep_spec h hparts
    ⟨hst.1, lays_partVols _ parts (content st.parent), fun _ _ => rfl⟩ hcall []
  have hsame : vols' i = partVols cd.parent.blockSize parts (content st.parent) i := by
    cases call with
    | read =>
      obtain ⟨rfl, -⟩ := Prod.ext_iff.mp (Option.some.inj hvol)
      rfl
    | write j =>
      obtain ⟨rfl, -⟩ := Prod.ext_iff.mp (Option.some.inj hvol)
      exact Function.update_of_ne (Ne.symm hw) _ _
  refine ⟨st', replies, hstep, hst'.coherent, fun j hj => ?_⟩
  have hbefore := lays_partVols cd.parent.blockSize parts (content st.parent) i _ hregion j hj
  rw [hst'.lays i _ hregion j hj, hsame, ← hbefore, hst.2 j hj]

/-- **A file while others use the disk.** A filesystem that delivers the bytes of a file from partition `i`
delivers them between any requests to the partitions of the disk that do not write to that one. -/
theorem shared_run (h : Serves cd.parent inv content cap)
    (hparts : PartitionsFit cd.parent.blockSize cap parts) (hp : parts[i]? = some p) {vol : Mem}
    {fsRead : (ℕ → ℕ) → FsTransfer (CacheState σ)} {bs : ℕ} {data : List UInt8}
    (hread : Delivers fsRead bs data fun io => PartHolds cd inv content cap p vol io.dev)
    (hlen : data.length < 2 ^ 31) {io : FileIo (CacheState σ)}
    (hi : PartHolds cd inv content cap p vol io.dev) (hpos : io.file.pos = 0)
    (hl : io.file.len = data.length) {calls : List (FileCall ⊕ VolCall)}
    (hcalls : Along (aloneStep data) (SharedLegal bs data.length cd.parent.blockSize parts i) (0, []) calls) :
    ∃ io' pos replies, run (sharedStep fsRead (cacheDevice cd) parts) (io, []) calls = some (io', replies) ∧
      run (aloneStep data) (0, []) calls = some (pos, replies) ∧ io'.file.pos = pos := by
  have hstep : ∀ (st : FileIo (CacheState σ) × List (ℕ × List UInt8)) (t : ℕ × List (ℕ × List UInt8))
      (call : FileCall ⊕ VolCall),
      SeqRel data (fun io => PartHolds cd inv content cap p vol io.dev) st t →
      SharedLegal bs data.length cd.parent.blockSize parts i t call →
      ∃ st' t', sharedStep fsRead (cacheDevice cd) parts st call = some st' ∧ aloneStep data t call = some t' ∧
        SeqRel data (fun io => PartHolds cd inv content cap p vol io.dev) st' t' := by
    intro st t call hR hcall
    cases call with
    | inl call => exact seqRel_step hread (fun _ _ hio => hio) hlen st t call hR hcall
    | inr call =>
      obtain ⟨hio, hrest⟩ := hR
      obtain ⟨dev, replies, hstep, hdev⟩ := partStep_partHolds h hparts hp hio hcall.1 hcall.2
      exact ⟨({ st.1 with dev := dev }, st.2), t, by rw [sharedStep, hstep, Option.map_some], rfl, hdev, hrest⟩
  have hR : SeqRel data (fun io => PartHolds cd inv content cap p vol io.dev) (io, []) (0, []) :=
    ⟨hi, hpos, hl, Nat.zero_le _, rfl⟩
  obtain ⟨st', t', hrun, hrun', -, hpos', -, -, hrep⟩ := run_rel hstep hR hcalls
  exact ⟨st'.1, t'.1, t'.2, by rw [hrun, ← hrep], hrun', hpos'⟩

/-- **A FAT file while others use the disk.** On a card behind a cache, a FAT16 or FAT32 volume on
partition `i` is mounted and a file of it opened; any legal calls of `fseek` and `fread`, between any
requests to the partitions that do not write to this one, have the replies of the same calls on the
clusters of the file. -/
theorem fat_file_undisturbed {parent : BlockDevice σ} {s : σ} {cacheMem : Mem} {start length : ℕ}
    {st : CacheState σ} (h : Serves parent inv content cap) (hbs : parent.blockSize = 512) (hs : inv s)
    (hinit : cacheInit parent s cacheMem start length = some (cd, st)) (hparts : PartitionsFit 512 cap parts)
    (hp : parts[i]? = some p) {vol : Mem} (hvol : partVols 512 parts (content s) i = vol) {ft : FatType}
    (hv : (FatBS.ofBuf vol).Volume ft) (hfit : (FatBS.ofBuf vol).sectors ≤ p.blocks) {path : FatDirent}
    {chain : List ℕ} (hc : ClusterChain (FatBS.ofBuf vol) ft vol path.cluster chain)
    (hlen : path.byteSize < 2 ^ 31)
    (hcover : path.byteSize ≤ chain.length * ((FatBS.ofBuf vol).sectorsPerCluster * 512)) (mem : Mem)
    {calls : List (FileCall ⊕ VolCall)}
    (hcalls : Along (aloneStep (fatContents (FatBS.ofBuf vol) vol chain path.byteSize))
      (SharedLegal ((FatBS.ofBuf vol).sectorsPerCluster * 512) path.byteSize 512 parts i) (0, []) calls) :
    ∃ fs st₁ file cluster, fatInit (mbrDevice (cacheDevice cd) p) st = (.ok fs, st₁) ∧
      fatFopen path "r" = some (file, cluster) ∧
      ∃ io pos replies,
        run (sharedStep (fun temp => fatFread fs temp cluster) (cacheDevice cd) parts)
          (⟨mem, st₁, file⟩, []) calls = some (io, replies) ∧
        run (aloneStep (fatContents (FatBS.ofBuf vol) vol chain path.byteSize)) (0, []) calls =
          some (pos, replies) ∧
        io.file.pos = pos := by
  obtain ⟨rfl, rfl, hst⟩ := coherent_init content cap hs hinit
  have hdev : (mbrDevice (cacheDevice cd) p).blockSize = 512 := hbs
  rw [← hbs] at hparts
  have hreads := (partHolds_reads h hparts (List.mem_of_getElem? hp) vol).mono fun b (hb : b < _) =>
    hb.trans_le hfit
  have hholds : PartHolds cd inv content cap p vol st := by
    refine ⟨hst, fun j hj => ?_⟩
    rw [← hvol, partVols, hp, hbs]
    rfl
  have hdl : (fatContents (FatBS.ofBuf vol) vol chain path.byteSize).length = path.byteSize :=
    length_fatContents (mbrDevice (cacheDevice cd) p) hdev hv hcover
  obtain ⟨st₁, hfat, hst₁, -⟩ := fatInit_spec hreads hdev hholds rfl hv
  have hdel := fat_delivers hreads hdev hv hc hlen hcover
  simp only [and_true] at hdel
  refine ⟨_, st₁, _, _, hfat, rfl, ?_⟩
  refine shared_run h hparts hp hdel (by rwa [hdl]) hst₁ rfl ?_ (by rwa [hbs, hdl])
  rw [hdl]
  exact i32_of_lt hlen

/-- A card with `smallVolume` from block 1 on. -/
def smallDisk (a : ℕ) : UInt8 := if a < 512 then 0 else smallVolume (a - 512)

theorem smallDisk_partVols (ps : List Partition) (p : Partition) (hp : p.startBlock = 1) :
    partVols 512 (p :: ps) smallDisk 0 = smallVolume := by
  funext j
  change smallDisk (p.startBlock * 512 + j) = _
  rw [hp, smallDisk, if_neg (by omega), Nat.one_mul, Nat.add_sub_cancel_left]

/-- A read of the file of 600 bytes, a write to the partition behind the volume, and another read. -/
theorem fat_file_undisturbed_smallDisk : ∃ cd st,
    cacheInit (storeDevice 8192) smallDisk (fun _ => 0) 0x2000000 0x4000 = some (cd, st) ∧
    ∃ fs st₁ file cluster, fatInit (mbrDevice (cacheDevice cd) ⟨0, 6, 1, 4200⟩) st = (.ok fs, st₁) ∧
      fatFopen ⟨2, 600⟩ "r" = some (file, cluster) ∧
      ∃ io pos replies,
        run (sharedStep (fun temp => fatFread fs temp cluster) (cacheDevice cd)
            [⟨0, 6, 1, 4200⟩, ⟨1, 0xda, 4201, 512⟩]) (⟨fun _ => 0, st₁, file⟩, [])
          [.inl (.read (fun _ => 0x10000) 0x20000 100), .inr (.write 1 (fun _ => 7) 0 1 0),
            .inl (.read (fun _ => 0x10000) 0x20000 500)] = some (io, replies) ∧
        run (aloneStep (fatContents (FatBS.ofBuf smallVolume) smallVolume [2, 3] 600)) (0, [])
          [.inl (.read (fun _ => 0x10000) 0x20000 100), .inr (.write 1 (fun _ => 7) 0 1 0),
            .inl (.read (fun _ => 0x10000) 0x20000 500)] = some (pos, replies) ∧
        io.file.pos = pos := by
  obtain ⟨cd, st, h⟩ : ∃ cd st, cacheInit (storeDevice 8192) smallDisk (fun _ => 0) 0x2000000 0x4000 =
    some (cd, st) := ⟨_, _, rfl⟩
  have htemp : ∀ n, TempApart (fun _ => 0x10000) 512 0x20000 n := fun _ _ =>
    Or.inl (show 0x10000 + 512 ≤ 0x20000 by decide)
  have hc : ClusterChain (FatBS.ofBuf smallVolume) .fat16 smallVolume (FatDirent.mk 2 600).cluster [2, 3] :=
    smallVolume_chain
  refine ⟨cd, st, h, fat_file_undisturbed (storeDevice_serves (by decide)) rfl trivial h
    ⟨by decide, by decide, by decide⟩ rfl (smallDisk_partVols _ _ rfl) smallVolume_volume (by decide) hc
    (by decide) (by decide) _ ?_⟩
  exact ⟨⟨by decide, htemp _⟩, fun _ _ => ⟨⟨⟨by decide, by decide, ⟨1, 0xda, 4201, 512⟩, rfl, by decide⟩,
    by simp [VolCall.Writes]⟩, fun _ _ => ⟨⟨by decide, htemp _⟩, fun _ _ => trivial⟩⟩⟩

end RpiBoot
