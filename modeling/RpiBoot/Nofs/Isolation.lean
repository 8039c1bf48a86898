import RpiBoot.Block.Healthy
import RpiBoot.Lib.Run
import RpiBoot.Libfs.Device
import RpiBoot.Mbr
import RpiBoot.Nofs.Model

/-!
# A nofs filesystem on a partition

Neither `block_write` nor `mbr_write` looks at the size of the partition. The only bound is that of
`nofs_get_next_bdev_block_num`, which compares the index of a block with the size of a block.

* `nofsStep_keeps`: what the calls keep of the state of the device.
* `Isolated`, `AcceptsBlocks`: no write leaves the partition, and its blocks are those accepted.
* **`partition_isolation`**: both hold when the partition has as many blocks as a block has bytes, and
  the second only then.
-/

namespace RpiBoot

open Runs Store

variable {σ : Type}

/-! ## Calls and the device -/

section Keeps

variable {fs : Fs σ} {I : σ → Prop} {ok : ℕ → Prop} {mark : ℕ}

/-- The blocks of the filesystem are those of the device; its lookups and the device keep `I`. -/
structure NofsKeeps (fs : Fs σ) (I : σ → Prop) : Prop where
  size_eq : fs.blockSize = fs.parent.blockSize
  reads : ReadsKeep fs.parent I
  writes : ∀ b < fs.parent.blockSize, WritesKeep fs.parent I b

/-- `nofs_get_next_bdev_block_num` accepts the indices below the size of a block. -/
theorem nofsGetNextBdevBlockNum_true (idx : ℕ) (io : FileIo σ) :
    nofsGetNextBdevBlockNum fs idx true () io =
      (if idx < fs.parent.blockSize then idx else noBlock, (), io) := by
  have hpos := fs.parent.blockSize_pos
  unfold nofsGetNextBdevBlockNum
  by_cases h : idx < fs.parent.blockSize
  · rw [if_neg (by omega), if_neg (by simp), if_pos h]
  · rw [if_pos ⟨hpos.ne', not_lt.mp h⟩, if_neg h]

theorem nofs_lookupsKeep (I : σ → Prop) :
    LookupsKeep (nofsGetNextBdevBlockNum fs) I (· < fs.parent.blockSize) := by
  refine ⟨fun idx add opq io hs => ?_, fun idx opq io _ hne => ?_⟩
  · unfold nofsGetNextBdevBlockNum
    split_ifs <;> exact hs
  · rw [nofsGetNextBdevBlockNum_true] at hne ⊢
    dsimp only at hne ⊢
    split_ifs at hne ⊢ with h
    · exact h
    · exact absurd rfl hne

theorem nofsScan_keeps (h : ReadsKeep fs.parent I) (buf blockNo : ℕ) :
    ∀ (fuel : ℕ) (mem : Mem) (s : σ) (r : Option ℕ × Mem × σ), I s →
      nofsScan fs buf blockNo fuel mem s = some r → I r.2.2
  | 0, _, _, _, _, hr => by cases hr
  | fuel + 1, mem, s, r, hs, hr => by
    rw [nofsScan] at hr
    split_ifs at hr with hlt
    · cases hrd : fs.parent.read with
      | none => simp [hrd] at hr
      | some rd =>
        have hkeep := h rd hrd s buf fs.parent.blockSize blockNo hs
        simp only [hrd] at hr
        split_ifs at hr with hz
        · obtain rfl := Option.some.inj hr
          exact hkeep
        · cases hfirst : firstEof (Store.patch mem buf (rd s buf fs.parent.blockSize blockNo).1.data) buf
              (toU32 (rd s buf fs.parent.blockSize blockNo).1.ret) with
          | some i =>
            rw [hfirst] at hr
            obtain rfl := Option.some.inj hr
            exact hkeep
          | none =>
            rw [hfirst] at hr
            exact nofsScan_keeps h buf blockNo fuel _ _ r hkeep hr
    · obtain rfl := Option.some.inj hr
      exact hs

theorem nofsFopen_keeps (h : NofsKeeps fs I) {fuel buf : ℕ} {mode : String} {mem : Mem} {s : σ}
    {r : Option Stream × Mem × σ} (hs : I s) (hr : nofsFopen fs fuel buf mode mem s = some r) :
    I r.2.2 := by
  have hread : I (readFresh fs.parent s fs.blockSize 0).2.2 := blockRead_keeps h.reads hs _ _ _ _
  have hwrite : ∀ s mem, I s → I (blockWrite fs.parent s mem 0 fs.blockSize 0).2 := fun s mem hs => by
    rw [h.size_eq]
    exact blockWrite_keeps (by decide) (h.writes 0 fs.parent.blockSize_pos) hs mem 0
  unfold nofsFopen at hr
  dsimp only at hr
  split_ifs at hr
  · obtain rfl := Option.some.inj hr
    exact hread
  · obtain ⟨t, ht, rfl⟩ := Option.map_eq_some_iff.mp hr
    exact nofsScan_keeps h.reads _ _ _ _ _ t hread ht
  · obtain rfl := Option.some.inj hr
    exact hread
  · obtain rfl := Option.some.inj hr
    exact hwrite _ _ hread
  · obtain rfl := Option.some.inj hr
    exact hwrite _ _ hread

theorem nofsFwrite_keeps (h : NofsKeeps fs I) (temp tempMark : ℕ → ℕ) (ptr n : ℕ) {io : FileIo σ}
    (hs : I io.dev) : I (nofsFwrite fs mark temp tempMark ptr n io).2.dev := by
  have hok : ∀ b, b < fs.parent.blockSize → b < 2 ^ 32 ∧ WritesKeep fs.parent I b := fun b hb => by
    have := fs.parent.blockSize_lt
    exact ⟨by omega, h.writes b hb⟩
  have hone : ∀ (temp : ℕ → ℕ) (ptr n : ℕ) (io : FileIo σ), I io.dev →
      I (fsFwrite (nofsGetNextBdevBlockNum fs) fs temp () ptr n io).2.dev := fun temp ptr n io hs =>
    fsFwrite_keeps (nofs_lookupsKeep I) h.reads h.size_eq hok () ptr n hs
  unfold nofsFwrite
  dsimp only
  split_ifs
  · exact hone _ _ _ _ (hone _ _ _ _ hs)
  · exact hone _ _ _ _ hs

/-- **A call keeps `I`.** -/
theorem nofsStep_keeps (h : NofsKeeps fs I) (st : NofsState σ) (call : NofsCall) (st' : NofsState σ)
    (hs : I st.dev) (hstep : nofsStep fs mark st call = some st') : I st'.dev := by
  cases call with
  | fopen fuel buf mode =>
    obtain ⟨r, hr, rfl⟩ := Option.map_eq_some_iff.mp hstep
    exact nofsFopen_keeps h hs hr
  | fseek file offset whence =>
    obtain ⟨stream, -, rfl⟩ := Option.map_eq_some_iff.mp hstep
    exact hs
  | fread file temp ptr size nmemb =>
    obtain ⟨stream, -, rfl⟩ := Option.map_eq_some_iff.mp hstep
    exact fsFread_keeps (nofs_lookupsKeep I) h.reads () _ _ hs
  | fwrite file temp tempMark data ptr size nmemb =>
    obtain ⟨stream, -, rfl⟩ := Option.map_eq_some_iff.mp hstep
    exact nofsFwrite_keeps h temp tempMark _ _ hs
  | fclose file =>
    obtain ⟨stream, -, rfl⟩ := Option.map_eq_some_iff.mp hstep
    exact hs

end Keeps

/-! ## Partitions -/

/-- No write of any run of calls on a nofs filesystem leaves the partition. -/
def Isolated (parent : BlockDevice σ) (p : Partition) : Prop :=
  ∀ (mark : ℕ) (mem : Mem) (s : σ) (calls : List NofsCall) (st : NofsState (σ × List WriteRequest)),
    run (nofsStep (nofsInit (mbrDevice parent.traced p)) mark) ⟨mem, (s, []), []⟩ calls = some st →
    ∀ w ∈ st.dev.2, w.Within parent.blockSize p.startBlock p.blocks

/-- For writing, the filesystem accepts just the indices of the blocks of the partition. -/
def AcceptsBlocks (parent : BlockDevice σ) (p : Partition) : Prop :=
  ∀ idx < 2 ^ 32, ∀ io : FileIo σ,
    (nofsGetNextBdevBlockNum (nofsInit (mbrDevice parent p)) idx true () io).1 ≠ noBlock ↔ idx < p.blocks

variable {parent : BlockDevice σ} {p : Partition}

/-- The comparison of `nofs_get_next_bdev_block_num`. -/
theorem acceptsBlocks_iff (hp : p.blocks < 2 ^ 32) (s : σ) :
    AcceptsBlocks parent p ↔ p.blocks = parent.blockSize := by
  have hlt := parent.blockSize_lt
  have hacc : ∀ idx (io : FileIo σ),
      (nofsGetNextBdevBlockNum (nofsInit (mbrDevice parent p)) idx true () io).1 ≠ noBlock ↔
        idx < parent.blockSize := fun idx io => by
    rw [nofsGetNextBdevBlockNum_true]
    change (if idx < parent.blockSize then idx else noBlock) ≠ noBlock ↔ _
    unfold noBlock
    split_ifs <;> omega
  unfold AcceptsBlocks
  simp only [hacc]
  constructor
  · intro h
    have io : FileIo σ := ⟨fun _ => 0, s, ⟨0, 0, 0, 0⟩⟩
    rcases Nat.lt_trichotomy p.blocks parent.blockSize with hlt | heq | hgt
    · exact absurd ((h p.blocks hp io).mp hlt) (Nat.lt_irrefl _)
    · exact heq
    · exact absurd ((h parent.blockSize (by omega) io).mpr hgt) (Nat.lt_irrefl _)
  · intro h
    rw [h]
    exact fun _ _ _ => Iff.rfl

/-- **The writes of a filesystem on a large partition** stay in it. -/
theorem isolated_of_le (hle : parent.blockSize ≤ p.blocks) (hfit : p.startBlock + p.blocks ≤ 2 ^ 32) :
    Isolated parent p := by
  intro mark mem s calls st hrun
  refine run_invariant' (I := fun st : NofsState (σ × List WriteRequest) =>
    ∀ w ∈ st.dev.2, w.Within parent.blockSize p.startBlock p.blocks) ?_ (by simp) hrun
  have hkeeps : NofsKeeps (nofsInit (mbrDevice parent.traced p)) fun d : σ × List WriteRequest =>
      ∀ w ∈ d.2, w.Within parent.blockSize p.startBlock p.blocks := by
    refine ⟨rfl, ?_, ?_⟩
    · rintro rd hrd s buf n b hs
      obtain ⟨rd', hrd', rfl⟩ := Option.map_eq_some_iff.mp hrd
      obtain ⟨rd₀, -, rfl⟩ := Option.map_eq_some_iff.mp hrd'
      exact hs
    · rintro b hb wr hwr s mem buf hs w hw
      obtain ⟨wr', hwr', rfl⟩ := Option.map_eq_some_iff.mp hwr
      obtain ⟨wr₀, -, rfl⟩ := Option.map_eq_some_iff.mp hwr'
      change b < parent.blockSize at hb
      rcases List.mem_append.mp hw with hw | hw
      · exact hs w hw
      · -- the request that is added now
        rw [List.mem_singleton.mp hw, WriteRequest.Within]
        have hmul := Nat.mul_le_mul_right parent.blockSize
          (show b + p.startBlock + 1 ≤ p.startBlock + p.blocks by omega)
        rw [Nat.succ_mul] at hmul
        rw [u32_of_lt (show b + p.startBlock < 2 ^ 32 by omega)]
        exact ⟨by dsimp only; omega, hmul⟩
  exact fun st call st' hs hstep => nofsStep_keeps hkeeps st call st' hs hstep

/-- A partition table with a partition of one block from block 8 on, and one of 512 from block 16 on. -/
def mbrVolume : Mem :=
  patch (patch (fun _ => 0) 0x1be [0, 0, 0, 0, 0xda, 0, 0, 0, 8, 0, 0, 0, 1, 0, 0, 0,
    0, 0, 0, 0, 0xda, 0, 0, 0, 16, 0, 0, 0, 0, 2, 0, 0]) 0x1fe [0x55, 0xaa]

theorem readMbr_mbrVolume : ∃ s, readMbr (storeDevice 1024) (fun _ _ s => s) mbrVolume =
    (0, [⟨0, 0xda, 8, 1⟩, ⟨1, 0xda, 16, 512⟩], s) := by
  have h₁ : (readMbr (storeDevice 1024) (fun _ _ s => s) mbrVolume).1 = 0 := by decide +kernel
  have h₂ : (readMbr (storeDevice 1024) (fun _ _ s => s) mbrVolume).2.1 =
      [⟨0, 0xda, 8, 1⟩, ⟨1, 0xda, 16, 512⟩] := by decide +kernel
  generalize readMbr (storeDevice 1024) (fun _ _ s => s) mbrVolume = r at *
  exact ⟨r.2.2, Prod.ext h₁ (Prod.ext h₂ rfl)⟩

/-- Writing 510 bytes to a new file on the partition of one block writes the block behind it. -/
theorem partition_isolation_broken :
    (∃ s, readMbr (storeDevice 1024) (fun _ _ s => s) mbrVolume =
      (0, [⟨0, 0xda, 8, 1⟩, ⟨1, 0xda, 16, 512⟩], s)) ∧
    ¬ Isolated (storeDevice 1024) ⟨0, 0xda, 8, 1⟩ ∧ ¬ AcceptsBlocks (storeDevice 1024) ⟨0, 0xda, 8, 1⟩ := by
  refine ⟨readMbr_mbrVolume, fun h => ?_, fun h => ?_⟩
  · have hwrite : (run (nofsStep (nofsInit (mbrDevice (storeDevice 1024).traced ⟨0, 0xda, 8, 1⟩)) 0)
        ⟨fun _ => 0, (mbrVolume, []), []⟩
        [.fopen 0 0 "w", .fwrite 0 (fun _ => 0x2000) (fun _ => 0x2000) [] 0x1000 1 510]).map
        (fun st => decide (⟨9, 512⟩ ∈ st.dev.2)) = some true := by decide +kernel
    obtain ⟨st, hrun, hw⟩ := Option.map_eq_some_iff.mp hwrite
    have hw := of_decide_eq_true hw
    exact absurd (h 0 _ _ _ st hrun ⟨9, 512⟩ hw) (by unfold WriteRequest.Within; decide)
  · exact absurd ((acceptsBlocks_iff (by decide) mbrVolume).mp h) (by decide)

/-- **Partition isolation.** On a partition of a table that `read_mbr` accepts, a nofs filesystem writes
within the partition and accepts just its blocks when it has as many blocks as a block has bytes
(and ends below block `2 ^ 32`), and only then. -/
theorem partition_isolation {register : BlockDevice σ → ℕ → σ → σ} {s : σ} {parts : List Partition}
    {s' : σ} (hmbr : readMbr parent register s = (0, parts, s')) (hp : p ∈ parts) :
    (p.blocks = parent.blockSize ∧ p.startBlock + p.blocks ≤ 2 ^ 32 →
      Isolated parent p ∧ AcceptsBlocks parent p) ∧
    (Isolated parent p ∧ AcceptsBlocks parent p → p.blocks = parent.blockSize) := by
  have hbounds : ∀ q ∈ (readMbr parent register s).2.1, q.startBlock < 2 ^ 32 ∧ q.blocks < 2 ^ 32 :=
    readMbr_lt
  rw [hmbr] at hbounds
  have hlt := (hbounds p hp).2
  exact ⟨fun h => ⟨isolated_of_le h.1.ge h.2, (acceptsBlocks_iff hlt s).mpr h.1⟩,
    fun h => (acceptsBlocks_iff hlt s).mp h.2⟩

/-- The second partition has as many blocks as a block has bytes. -/
theorem partition_isolation_second :
    ((512 : ℕ) = (storeDevice 1024).blockSize ∧ 16 + 512 ≤ 2 ^ 32 →
      Isolated (storeDevice 1024) ⟨1, 0xda, 16, 512⟩ ∧ AcceptsBlocks (storeDevice 1024) ⟨1, 0xda, 16, 512⟩) ∧
    (Isolated (storeDevice 1024) ⟨1, 0xda, 16, 512⟩ ∧ AcceptsBlocks (storeDevice 1024) ⟨1, 0xda, 16, 512⟩ →
      (512 : ℕ) = (storeDevice 1024).blockSize) := by
  obtain ⟨s, h⟩ := readMbr_mbrVolume
  have hp : (⟨1, 0xda, 16, 512⟩ : Partition) ∈ [⟨0, 0xda, 8, 1⟩, ⟨1, 0xda, 16, 512⟩] := by simp
  exact partition_isolation h hp

end RpiBoot
