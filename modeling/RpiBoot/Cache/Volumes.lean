import RpiBoot.Cache.Coherent
import RpiBoot.Lib.Regions
import RpiBoot.Mbr

/-!
# The partitions of a cached disk

`libfs_init` puts the cache in front of the card, and `read_mbr` makes the partitions of the cached
device: every request to a partition is moved to its blocks, looked up in the cache that all partitions
share, and served by the card.

* `cacheDevice_reads`, `cacheDevice_writes`: the cached device is healthy.
* `mbrDevice_reads`: so is a partition, with the contents of its blocks.
* `partStep`, `volumeStep`: requests to the partitions, and to stores of their own.
* **`partitions_are_volumes`**: the runs of the two have the same replies, the partitions hold what the
  stores hold, and the rest of the disk stays as it is.
-/

namespace RpiBoot

open Store Runs

variable {σ : Type} {inv : σ → Prop} {content : σ → Mem} {cap : ℕ}

/-! ## The cached device -/

section Cached

variable {cd : CacheDev σ} {st : CacheState σ}

/-- A block that a cached device of `cap` bytes can serve; the last number marks the empty slots. -/
def CachedBlock (bs cap b : ℕ) : Prop := b < emptySlot ∧ b * bs + bs ≤ cap

/-- `cache_read` stores no more than was asked for. -/
theorem length_cacheRead {rd : ReadFn σ} {buf n b : ℕ} {ret : ℤ} {data : List UInt8} {st' : CacheState σ}
    (hrd : ∀ s buf, inv s → ∃ data s', rd s buf n b = (⟨n, data⟩, s') ∧ data.length ≤ n)
    (hst : inv st.parent) (hn : 0 < n) (hlt : n < 2 ^ 31)
    (h : cacheRead cd rd st buf n b = (⟨ret, data⟩, st')) : data.length ≤ n := by
  have hcount (dest src : ℕ) : copyCount dest src n = n := if_neg fun h => hn.ne' h.2
  have hdata : (cacheRead cd rd st buf n b).1.data = data := by rw [h]
  rw [← hdata]
  rcases Nat.lt_or_ge cd.parent.blockSize n with hlen | hlen
  · obtain ⟨data', s', hr, hle⟩ := hrd st.parent buf hst
    rw [cacheRead_of_gt hlen, hr]
    exact hle
  by_cases hmiss : st.cachedBlocks (cacheIdx cd b) = b
  · rw [cacheRead_hit hlen hmiss, length_slice, hcount]
  · obtain ⟨data', s', hr, -⟩ := hrd st.parent (cd.cacheStart + cd.parent.blockSize * cacheIdx cd b) hst
    rw [cacheRead_miss hlen hmiss hr, length_slice, toU32_natCast (by omega), hcount]

/-- **The cached device serves reads** from the contents of its parent. -/
theorem cacheDevice_reads (h : Serves cd.parent inv content cap) :
    HealthyReads (cacheDevice cd) (Coherent cd inv content cap) (fun st => content st.parent)
      (CachedBlock cd.parent.blockSize cap) := by
  obtain ⟨rd, hrd, hlaw⟩ := h.exists_read
  refine ⟨fun b hb => hb.1.trans (by decide), cacheRead cd rd, by rw [cacheDevice, hrd, Option.map_some],
    fun st buf k b hst hk hg hn => ?_⟩
  change k * cd.parent.blockSize < 2 ^ 31 at hn
  have hsv : served cd.parent.blockSize cap (k * cd.parent.blockSize) b = k * cd.parent.blockSize :=
    served_blocks hk fun i hi => (hg i hi).2
  obtain ⟨data, st', hr, htake, hst', hc⟩ :=
    cacheRead_serves hlaw hst buf (b := b) (hg 0 hk).1 (n := k * cd.parent.blockSize) (by rwa [hsv])
  rw [hsv] at hr htake
  have hlen : data.length ≤ k * cd.parent.blockSize := by
    refine length_cacheRead (fun s buf hs => ?_) hst.parent_inv (Nat.mul_pos hk cd.parent.blockSize_pos) hn hr
    obtain ⟨data, s', hr, hle, -⟩ := hlaw s buf (k * cd.parent.blockSize) b hs (by rwa [hsv])
    rw [hsv] at hr
    exact ⟨data, s', hr, hle⟩
  rw [List.take_of_length_le hlen] at htake
  rw [htake] at hr
  exact ⟨st', hr, hst', hc⟩

/-- **The cached device serves writes.** -/
theorem cacheDevice_writes (h : Serves cd.parent inv content cap) :
    HealthyWrites (cacheDevice cd) (Coherent cd inv content cap) (fun st => content st.parent)
      (CachedBlock cd.parent.blockSize cap) := by
  obtain ⟨wr, hwr, hlaw⟩ := h.exists_write
  refine ⟨fun b hb => hb.1.trans (by decide), cacheWrite cd wr, by rw [cacheDevice, hwr, Option.map_some],
    fun st mem buf k b hst hk hg hn => ?_⟩
  change k * cd.parent.blockSize < 2 ^ 31 at hn
  have hsv : served cd.parent.blockSize cap (k * cd.parent.blockSize) b = k * cd.parent.blockSize :=
    served_blocks hk fun i hi => (hg i hi).2
  obtain ⟨r, st', hr, hst', hc⟩ := cacheWrite_serves h.cap_le hlaw hst mem buf
    (n := k * cd.parent.blockSize) (by rwa [hsv]) (Nat.mul_mod_left _ _)
  rw [hsv] at hr hc
  exact ⟨r, st', hr, hst', hc⟩

end Cached

/-- A device that is only read keeps its contents. -/
theorem HealthyReads.fixed {dev : BlockDevice σ} {good : ℕ → Prop} (h : HealthyReads dev inv content good)
    (c : Mem) : HealthyReads dev (fun s => inv s ∧ content s = c) (fun _ => c) good := by
  obtain ⟨rd, hrd, hlaw⟩ := h.exists_read
  refine ⟨h.good_lt, rd, hrd, ?_⟩
  rintro s buf k b ⟨hs, rfl⟩ hk hg hn
  obtain ⟨s', hr, hs', hc⟩ := hlaw s buf k b hs hk hg hn
  exact ⟨s', hr, ⟨hs', hc⟩, rfl⟩

/-! ## Partitions -/

section Partition

variable {parent : BlockDevice σ} {good : ℕ → Prop} {p : Partition}

/-- The bytes of a partition. -/
def Partition.region (bs : ℕ) (p : Partition) : Region := ⟨p.startBlock * bs, p.blocks * bs⟩

/-- The blocks of a partition are among those that the cached device serves. -/
theorem Partition.cachedBlock {bs : ℕ} (p : Partition) (hslots : p.startBlock + p.blocks ≤ emptySlot)
    (hfits : (p.startBlock + p.blocks) * bs ≤ cap) {b : ℕ} (hb : b < p.blocks) :
    CachedBlock bs cap (b + p.startBlock) := by
  have hmul := Nat.mul_le_mul_right bs (show b + p.startBlock + 1 ≤ p.startBlock + p.blocks by omega)
  rw [Nat.succ_mul] at hmul
  exact ⟨by omega, hmul.trans hfits⟩

/-- A block of a partition is where the partition has it. -/
theorem Partition.block_base (bs : ℕ) (p : Partition) (b : ℕ) :
    (b + p.startBlock) * bs = (p.region bs).base + b * bs := by
  rw [Nat.add_mul, Nat.add_comm]
  rfl

/-- **A partition of a healthy device** serves reads from its blocks. -/
theorem mbrDevice_reads (h : HealthyReads parent inv content good)
    (hgood : ∀ b < p.blocks, good (b + p.startBlock)) :
    HealthyReads (mbrDevice parent p) inv
      (fun s => window (content s) (p.region parent.blockSize).base) (· < p.blocks) := by
  obtain ⟨rd, hrd, hlaw⟩ := h.exists_read
  refine ⟨fun b hb => (Nat.le_add_right _ _).trans_lt (h.good_lt _ (hgood b hb)), _,
    by rw [mbrDevice, hrd, Option.map_some], fun s buf k b hs hk hg hn => ?_⟩
  change k * parent.blockSize < 2 ^ 31 at hn
  have hfirst : b + p.startBlock < 2 ^ 32 := h.good_lt _ (hgood b (hg 0 hk))
  obtain ⟨s', hr, hi, hc⟩ := hlaw s buf k (b + p.startBlock) hs hk
    (fun i hi => by
      rw [Nat.add_right_comm]
      exact hgood _ (hg i hi)) hn
  change ∃ s', rd s buf (k * parent.blockSize) (u32 (b + p.startBlock)) = _ ∧ _
  rw [u32_of_lt hfirst, hr, slice_window, p.block_base]
  exact ⟨s', rfl, hi, by rw [hc]⟩

/-- A block number of a partition that a loop of `block.c` counts up. -/
theorem u32_partition (b j start : ℕ) : u32 (u32 (b + j) + start) = u32 (u32 (b + start) + j) := by
  unfold u32
  omega

theorem blockReadLoop_mbrDevice (rd : ReadFn σ) (buf b : ℕ) :
    ∀ (fuel : ℕ) (s : σ) (mem : Mem) (n off j : ℕ),
      blockReadLoop (mbrDevice parent p) (fun s buf n b => rd s buf n (u32 (b + p.startBlock))) buf b fuel s
        mem n off j = blockReadLoop parent rd buf (u32 (b + p.startBlock)) fuel s mem n off j
  | 0, _, _, _, _, _ => rfl
  | fuel + 1, s, mem, n, off, j => by
    rw [blockReadLoop, blockReadLoop, u32_partition]
    simp only [blockReadLoop_mbrDevice rd buf b fuel]
    rfl

/-- **A read of a partition** is a read of the device it is on. -/
theorem blockRead_mbrDevice (s : σ) (mem : Mem) (buf n b : ℕ) :
    blockRead (mbrDevice parent p) s mem buf n b = blockRead parent s mem buf n (u32 (b + p.startBlock)) := by
  unfold blockRead
  cases hrd : parent.read with
  | none => simp only [mbrDevice, hrd, Option.map_none]
  | some rd =>
    have hpart : (mbrDevice parent p).read = some fun s buf n b => rd s buf n (u32 (b + p.startBlock)) := by
      rw [mbrDevice, hrd, Option.map_some]
    have hloop := @blockReadLoop_mbrDevice σ parent p rd buf b (n + 1) s mem n 0 0
    rw [hpart]
    dsimp only
    rw [hloop]
    rfl

theorem blockWriteLoop_mbrDevice (wr : WriteFn σ) (mem : Mem) (buf b : ℕ) :
    ∀ (fuel : ℕ) (s : σ) (n off j : ℕ),
      blockWriteLoop (mbrDevice parent p) (fun s mem buf n b => wr s mem buf n (u32 (b + p.startBlock))) mem
        buf b fuel s n off j = blockWriteLoop parent wr mem buf (u32 (b + p.startBlock)) fuel s n off j
  | 0, _, _, _, _ => rfl
  | fuel + 1, s, n, off, j => by
    rw [blockWriteLoop, blockWriteLoop, u32_partition]
    simp only [blockWriteLoop_mbrDevice wr mem buf b fuel]
    rfl

/-- **A write to a partition** is a write to the device it is on. -/
theorem blockWrite_mbrDevice (s : σ) (mem : Mem) (buf n b : ℕ) :
    blockWrite (mbrDevice parent p) s mem buf n b = blockWrite parent s mem buf n (u32 (b + p.startBlock)) := by
  unfold blockWrite
  cases hwr : parent.write with
  | none => simp only [mbrDevice, hwr, Option.map_none]
  | some wr =>
    have hpart : (mbrDevice parent p).write = some fun s mem buf n b =>
        wr s mem buf n (u32 (b + p.startBlock)) := by
      rw [mbrDevice, hwr, Option.map_some]
    rw [hpart]
    exact blockWriteLoop_mbrDevice wr mem buf b _ _ _ _ _

end Partition

/-! ## Requests to partitions -/

/-- A request for the `k` blocks of partition `i` from block `b` on. -/
inductive VolCall where
  | read (i : ℕ) (mem : Mem) (buf k b : ℕ)
  | write (i : ℕ) (mem : Mem) (buf k b : ℕ)

/-- What the caller sees: the result, and what is in the buffer. -/
inductive VolReply where
  | read (ret : ℕ) (bytes : List UInt8)
  | write (ret : ℕ)
deriving DecidableEq

/-- The partition that a request is for. -/
def VolCall.part : VolCall → ℕ
  | .read i .. | .write i .. => i

/-- `block_read` and `block_write` on the partitions of a device. -/
def partStep (dev : BlockDevice σ) (parts : List Partition) (st : σ × List VolReply) :
    VolCall → Option (σ × List VolReply)
  | .read i mem buf k b => parts[i]?.map fun p =>
    let r := blockRead (mbrDevice dev p) st.1 mem buf (k * dev.blockSize) b
    (r.2.2, st.2 ++ [.read r.1 (slice r.2.1 buf (k * dev.blockSize))])
  | .write i mem buf k b => parts[i]?.map fun p =>
    let r := blockWrite (mbrDevice dev p) st.1 mem buf (k * dev.blockSize) b
    (r.2, st.2 ++ [.write r.1])

/-- The same requests to stores of their own. -/
def volumeStep (bs : ℕ) (st : (ℕ → Mem) × List VolReply) : VolCall → Option ((ℕ → Mem) × List VolReply)
  | .read i _ _ k b => some (st.1, st.2 ++ [.read (k * bs) (slice (st.1 i) (b * bs) (k * bs))])
  | .write i mem buf k b =>
    some (Function.update st.1 i (patch (st.1 i) (b * bs) (slice mem buf (k * bs))), st.2 ++ [.write (k * bs)])

/-- The request is for blocks of its partition, and the number of bytes fits an `int`. -/
def VolCall.Legal (bs : ℕ) (parts : List Partition) : VolCall → Prop
  | .read i _ _ k b | .write i _ _ k b =>
    0 < k ∧ k * bs < 2 ^ 31 ∧ ∃ p, parts[i]? = some p ∧ b + k ≤ p.blocks

/-- The regions of the partitions. -/
def partRegions (bs : ℕ) (parts : List Partition) : List Region := parts.map (Partition.region bs)

/-- The partitions lie on a cached disk of `cap` bytes, and do not overlap. -/
structure PartitionsFit (bs cap : ℕ) (parts : List Partition) : Prop where
  apart : (partRegions bs parts).Pairwise Region.Apart
  slots : ∀ p ∈ parts, p.startBlock + p.blocks ≤ emptySlot
  fits : ∀ p ∈ parts, (p.startBlock + p.blocks) * bs ≤ cap

section Requests

variable {cd : CacheDev σ} {st : CacheState σ} {parts : List Partition} {vols : ℕ → Mem}

theorem PartitionsFit.cachedBlock {bs : ℕ} (h : PartitionsFit bs cap parts) {p : Partition} (hp : p ∈ parts)
    {b : ℕ} (hb : b < p.blocks) : CachedBlock bs cap (b + p.startBlock) :=
  p.cachedBlock (h.slots p hp) (h.fits p hp) hb

/-- The partitions hold the stores `vols`, behind a coherent cache; the rest of the disk is as in `c`. -/
structure Holds (cd : CacheDev σ) (inv : σ → Prop) (content : σ → Mem) (cap : ℕ) (parts : List Partition)
    (c : Mem) (st : CacheState σ) (vols : ℕ → Mem) : Prop where
  coherent : Coherent cd inv content cap st
  lays : Lays (partRegions cd.parent.blockSize parts) (content st.parent) vols
  rest : ∀ a, (∀ r ∈ partRegions cd.parent.blockSize parts, ¬ r.Covers a) → content st.parent a = c a

/-- **A request to a partition** is one to its store. -/
theorem partStep_spec (h : Serves cd.parent inv content cap)
    (hparts : PartitionsFit cd.parent.blockSize cap parts) {c : Mem}
    (hst : Holds cd inv content cap parts c st vols)
    {call : VolCall} (hcall : call.Legal cd.parent.blockSize parts) (replies : List VolReply) :
    ∃ st' vols' replies', partStep (cacheDevice cd) parts (st, replies) call = some (st', replies') ∧
      volumeStep cd.parent.blockSize (vols, replies) call = some (vols', replies') ∧
      Holds cd inv content cap parts c st' vols' := by
  obtain ⟨hco, hlays, hrest⟩ := hst
  have hregion (i : ℕ) (p : Partition) (hp : parts[i]? = some p) :
      (partRegions cd.parent.blockSize parts)[i]? = some (p.region cd.parent.blockSize) := by
    rw [partRegions, List.getElem?_map, hp, Option.map_some]
  have hfirst (p : Partition) (b k : ℕ) (hp : p ∈ parts) (hk : 0 < k) (hle : b + k ≤ p.blocks) :
      u32 (b + p.startBlock) = b + p.startBlock := by
    have := hparts.slots p hp
    unfold emptySlot at this
    exact u32_of_lt (by omega)
  have hblocks (p : Partition) (b k : ℕ) (hp : p ∈ parts) (hle : b + k ≤ p.blocks) :
      ∀ i < k, CachedBlock cd.parent.blockSize cap (b + p.startBlock + i) := fun i hi => by
    rw [Nat.add_right_comm]
    exact hparts.cachedBlock hp (by omega)
  have hbs : (cacheDevice cd).blockSize = cd.parent.blockSize := rfl
  cases call with
  | read i mem buf k b =>
    obtain ⟨hk, hn, p, hp, hle⟩ := hcall
    have hmem := List.mem_of_getElem? hp
    have hsize : b * cd.parent.blockSize + k * cd.parent.blockSize ≤
        (p.region cd.parent.blockSize).size := by
      rw [← Nat.add_mul]
      exact Nat.mul_le_mul_right _ hle
    obtain ⟨st', hr, hco', hc⟩ := blockRead_healthy (cacheDevice_reads h) hco mem buf hk
      (hblocks p b k hmem hle) hn
    rw [hbs, p.block_base, (hlays i _ (hregion i p hp)).slice_eq hsize, ← hfirst p b k hmem hk hle,
      ← blockRead_mbrDevice] at hr
    refine ⟨st', vols, _, ?_, rfl, hco', by rwa [hc], by rwa [hc]⟩
    rw [partStep, hp, Option.map_some, hbs, hr]
    dsimp only
    rw [slice_patch_slice]
  | write i mem buf k b =>
    obtain ⟨hk, hn, p, hp, hle⟩ := hcall
    have hmem := List.mem_of_getElem? hp
    have hsize : b * cd.parent.blockSize + (slice mem buf (k * cd.parent.blockSize)).length ≤
        (p.region cd.parent.blockSize).size := by
      rw [length_slice, ← Nat.add_mul]
      exact Nat.mul_le_mul_right _ hle
    obtain ⟨st', hr, hco', hc⟩ := blockWrite_healthy (cacheDevice_writes h) hco mem buf hk
      (hblocks p b k hmem hle)
    rw [hbs, p.block_base] at hc
    rw [hbs, ← hfirst p b k hmem hk hle, ← blockWrite_mbrDevice] at hr
    refine ⟨st', _, _, by rw [partStep, hp, Option.map_some, hbs, hr], rfl, hco', ?_, fun a ha => ?_⟩
    · rw [hc]
      exact hlays.patch hparts.apart (hregion i p hp) hsize
    · rw [hc]
      exact (patch_outside hsize (ha _ (List.mem_of_getElem? (hregion i p hp)))).trans (hrest a ha)

/-- The stores that the partitions of a disk with the contents `c` hold. -/
def partVols (bs : ℕ) (parts : List Partition) (c : Mem) (i : ℕ) : Mem :=
  match parts[i]? with
  | some p => window c (p.region bs).base
  | none => c

theorem lays_partVols (bs : ℕ) (parts : List Partition) (c : Mem) :
    Lays (partRegions bs parts) c (partVols bs parts c) := by
  intro i r hr
  obtain ⟨p, hp, rfl⟩ := Option.map_eq_some_iff.mp ((List.getElem?_map ..).symm.trans hr)
  rw [partVols, hp]
  exact Region.shows_window _ c

/-- **The partitions of a cached disk are volumes.** Any run of requests to the partitions of a device made
by `cache_init` has the replies of the same run on stores of their own, one for each partition; at its end
the partitions hold what the stores hold, and nothing else on the disk has changed. -/
theorem partitions_are_volumes {parent : BlockDevice σ} {s : σ} {mem : Mem} {start length : ℕ}
    (h : Serves parent inv content cap) (hs : inv s)
    (hinit : cacheInit parent s mem start length = some (cd, st))
    (hparts : PartitionsFit parent.blockSize cap parts) (calls : List VolCall)
    (hcalls : ∀ call ∈ calls, call.Legal parent.blockSize parts) :
    ∃ st' vols' replies, run (partStep (cacheDevice cd) parts) (st, []) calls = some (st', replies) ∧
      run (volumeStep parent.blockSize) (partVols parent.blockSize parts (content s), []) calls =
        some (vols', replies) ∧
      Lays (partRegions parent.blockSize parts) (content st'.parent) vols' ∧
      ∀ a, (∀ r ∈ partRegions parent.blockSize parts, ¬ r.Covers a) → content st'.parent a = content s a := by
  obtain ⟨rfl, rfl, hst⟩ := coherent_init content cap hs hinit
  have hstep : ∀ (u : CacheState σ × List VolReply) (t : (ℕ → Mem) × List VolReply) (call : VolCall),
      Holds cd inv content cap parts (content st.parent) u.1 t.1 ∧ u.2 = t.2 →
      call.Legal cd.parent.blockSize parts →
      ∃ u' t', partStep (cacheDevice cd) parts u call = some u' ∧
        volumeStep cd.parent.blockSize t call = some t' ∧
        Holds cd inv content cap parts (content st.parent) u'.1 t'.1 ∧ u'.2 = t'.2 := by
    rintro ⟨u, replies⟩ ⟨vols, _⟩ call ⟨hu, rfl⟩ hcall
    obtain ⟨u', vols', replies', hp, hv, hu'⟩ := partStep_spec h hparts hu hcall replies
    exact ⟨_, _, hp, hv, hu', rfl⟩
  have hinit : Holds cd inv content cap parts (content st.parent) st
      (partVols cd.parent.blockSize parts (content st.parent)) :=
    ⟨hst, lays_partVols _ _ _, fun _ _ => rfl⟩
  obtain ⟨u, t, hrun, hrun', ⟨-, hlays, hrest⟩, hrep⟩ :=
    run_rel hstep (s := (st, [])) (t := (partVols _ _ _, [])) ⟨hinit, rfl⟩ (along_of_forall hcalls _)
  exact ⟨u.1, t.1, t.2, by rw [hrun, ← hrep], hrun', hlays, hrest⟩

/-- Two partitions of two blocks: a write to the second, a read of the first and one of the second. -/
theorem partitions_are_volumes_storeDevice : ∃ cd st,
    cacheInit (storeDevice 8) (fun _ => 1) (fun _ => 0) 0x2000000 1024 = some (cd, st) ∧
    ∃ st' vols' replies,
      run (partStep (cacheDevice cd) [⟨0, 0xc, 1, 2⟩, ⟨1, 0xda, 4, 2⟩]) (st, [])
        [.write 1 (fun _ => 7) 0 1 0, .read 0 (fun _ => 0) 0x1000 2 0, .read 1 (fun _ => 0) 0x1000 1 0] =
          some (st', replies) ∧
      run (volumeStep 512) (partVols 512 [⟨0, 0xc, 1, 2⟩, ⟨1, 0xda, 4, 2⟩] fun _ => 1, [])
        [.write 1 (fun _ => 7) 0 1 0, .read 0 (fun _ => 0) 0x1000 2 0, .read 1 (fun _ => 0) 0x1000 1 0] =
          some (vols', replies) ∧
      Lays (partRegions 512 [⟨0, 0xc, 1, 2⟩, ⟨1, 0xda, 4, 2⟩]) st'.parent vols' ∧
      ∀ a, (∀ r ∈ partRegions 512 [⟨0, 0xc, 1, 2⟩, ⟨1, 0xda, 4, 2⟩], ¬ r.Covers a) → st'.parent a = 1 := by
  obtain ⟨cd, st, h⟩ : ∃ cd st, cacheInit (storeDevice 8) (fun _ => 1) (fun _ => 0) 0x2000000 1024 =
    some (cd, st) := ⟨_, _, rfl⟩
  refine ⟨cd, st, h, partitions_are_volumes (storeDevice_serves (by decide)) trivial h
    ⟨by decide, by decide, by decide⟩ _ ?_⟩
  simp [VolCall.Legal, storeDevice]

end Requests

end RpiBoot
