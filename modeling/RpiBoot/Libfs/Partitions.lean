import Mathlib.Data.List.TakeWhile
import RpiBoot.Libfs.Mounts

/-!
# Partition tables that are refused

`read_mbr` looks at the entries one by one and registers each before it looks at the next one. When it
comes to an entry that does not lie on block boundaries it fails, and the partitions before it stay
registered.

* `EntryUsed`, `EntryAligned`, `tablePart`: what an entry of the table says.
* **`readMbrLoop_eq`**: the loop by these.
* `MbrAtomic`: a call that fails registers nothing; else all entries are offered to `register_fs`.
* **`mbr_atomic_iff`**: it holds unless a partition with a filesystem comes before a misaligned one.
-/

namespace RpiBoot

open Store

variable {σ : Type}

/-! ## The table -/

section Table

variable (block0 : Mem) (adjust i : ℕ)

/-- The type of an entry is not `0`. -/
def EntryUsed : Prop := block0 (0x1be + i * 0x10 + 4) ≠ 0

/-- Where the partition starts, in sectors of 512 bytes. -/
def tableStart : ℕ := le32 block0 (0x1be + i * 0x10 + 8)

/-- How many sectors it has. -/
def tableBlocks : ℕ := le32 block0 (0x1be + i * 0x10 + 12)

/-- Start and length are whole numbers of blocks of `adjust` sectors. -/
def EntryAligned : Prop := tableStart block0 i % adjust = 0 ∧ tableBlocks block0 i % adjust = 0

/-- The partition of an entry. -/
def tablePart : Partition :=
  ⟨i, (block0 (0x1be + i * 0x10 + 4)).toNat, tableStart block0 i / adjust, tableBlocks block0 i / adjust⟩

instance : Decidable (EntryUsed block0 i) := inferInstanceAs (Decidable (_ ≠ _))

instance : Decidable (EntryAligned block0 adjust i) := inferInstanceAs (Decidable (_ ∧ _))

/-- The partitions of the entries before the first one that is not aligned. -/
def partsBefore (is : List ℕ) : List Partition :=
  (is.takeWhile fun i => EntryAligned block0 adjust i).map (tablePart block0 adjust)

/-- The entries that have a type. -/
def usedEntries (is : List ℕ) : List ℕ := is.filter fun i => EntryUsed block0 i

end Table

/-- The partitions are handed to `register_fs`, one after another. -/
def offerAll (parent : BlockDevice σ) (register : BlockDevice σ → ℕ → σ → σ) (ps : List Partition) (s : σ) :
    σ :=
  ps.foldl (fun s p => register (mbrDevice parent p) p.partId s) s

section Loop

variable (parent : BlockDevice σ) (register : BlockDevice σ → ℕ → σ → σ) (block0 : Mem) (adjust : ℕ)

/-- One round of the loop of `read_mbr`. -/
theorem readMbrLoop_cons (i : ℕ) (is : List ℕ) (parts : List Partition) (s : σ) :
    readMbrLoop parent register block0 adjust (i :: is) parts s =
      if EntryUsed block0 i then
        if EntryAligned block0 adjust i then
          readMbrLoop parent register block0 adjust is (parts ++ [tablePart block0 adjust i])
            (register (mbrDevice parent (tablePart block0 adjust i)) (tablePart block0 adjust i).partId s)
        else (-1, parts, s)
      else readMbrLoop parent register block0 adjust is parts s := by
  rw [readMbrLoop]
  dsimp only
  by_cases hused : EntryUsed block0 i
  · have htype : block0 (0x1be + i * 0x10 + 4) ≠ 0 := hused
    rw [if_neg htype, if_pos hused]
    split_ifs with hstart hal hblocks hal hal
    · exact absurd hal.1 hstart
    · rfl
    · exact absurd hal.2 hblocks
    · rfl
    · rfl
    · exact absurd ⟨not_not.mp hstart, not_not.mp hblocks⟩ hal
  · have htype : block0 (0x1be + i * 0x10 + 4) = 0 := not_not.mp hused
    rw [if_pos htype, if_neg hused]

/-- **The loop of `read_mbr`**: the partitions before the first misaligned one are offered. -/
theorem readMbrLoop_eq (is : List ℕ) (parts : List Partition) (s : σ) :
    readMbrLoop parent register block0 adjust is parts s =
      (if ∀ i ∈ usedEntries block0 is, EntryAligned block0 adjust i then 0 else -1,
        parts ++ partsBefore block0 adjust (usedEntries block0 is),
        offerAll parent register (partsBefore block0 adjust (usedEntries block0 is)) s) := by
  induction is generalizing parts s with
  | nil => simp [readMbrLoop, usedEntries, partsBefore, offerAll]
  | cons i is ih =>
    rw [readMbrLoop_cons]
    by_cases hused : EntryUsed block0 i
    · have hentries : usedEntries block0 (i :: is) = i :: usedEntries block0 is :=
        List.filter_cons_of_pos (by simpa using hused)
      rw [if_pos hused, hentries]
      by_cases hal : EntryAligned block0 adjust i
      · have hbefore : partsBefore block0 adjust (i :: usedEntries block0 is) =
            tablePart block0 adjust i :: partsBefore block0 adjust (usedEntries block0 is) := by
          simp [partsBefore, hal]
        rw [if_pos hal, ih, hbefore, List.append_assoc, List.singleton_append, offerAll, offerAll,
          List.foldl_cons]
        simp only [List.forall_mem_cons, hal, true_and]
      · have hbefore : partsBefore block0 adjust (i :: usedEntries block0 is) = [] := by
          simp [partsBefore, hal]
        rw [if_neg hal, hbefore, List.append_nil, offerAll, List.foldl_nil]
        simp only [List.forall_mem_cons, hal, false_and, if_false]
    · have hentries : usedEntries block0 (i :: is) = usedEntries block0 is :=
        List.filter_cons_of_neg (by simpa using hused)
      rw [if_neg hused, ih, hentries]

end Loop

theorem partsBefore_of_aligned {block0 : Mem} {adjust : ℕ} {is : List ℕ}
    (h : ∀ i ∈ is, EntryAligned block0 adjust i) :
    partsBefore block0 adjust is = is.map (tablePart block0 adjust) := by
  rw [partsBefore, List.takeWhile_eq_self_iff.mpr fun i hi => decide_eq_true (h i hi)]

/-! ## Failures -/

/-- The master boot record that `read_mbr` has read. -/
def ValidRecord (ret : ℕ) (block0 : Mem) : Prop := i32 ret = 512 ∧ block0 0x1fe = 0x55 ∧ block0 0x1ff = 0xaa

/-- Every entry that has a type is among the partitions, and covers the bytes that the table says. -/
def Covers (blockSize : ℕ) (block0 : Mem) (ps : List Partition) : Prop :=
  ∀ i < 4, EntryUsed block0 i → ∃ p ∈ ps, p.partNo = i ∧
    p.partId = (block0 (0x1be + i * 0x10 + 4)).toNat ∧
    p.startBlock * blockSize = tableStart block0 i * 512 ∧ p.blocks * blockSize = tableBlocks block0 i * 512

/-- A call of `read_mbr` that fails registers no filesystem. Else it has offered its partitions, and these
are all of the table. -/
structure MbrAtomic (dev : BlockDevice σ) (s : σ × VfsEntries σ) : Prop where
  entries_eq : (readMbr dev.withVfs offerPart s).1 < 0 → (readMbr dev.withVfs offerPart s).2.2.2 = s.2
  state_eq : 0 ≤ (readMbr dev.withVfs offerPart s).1 → (readMbr dev.withVfs offerPart s).2.2 =
    offerAll dev.withVfs offerPart (readMbr dev.withVfs offerPart s).2.1 (readFresh dev.withVfs s 512 0).2.2
  covers : 0 ≤ (readMbr dev.withVfs offerPart s).1 →
    Covers dev.blockSize (readFresh dev.withVfs s 512 0).2.1 (readMbr dev.withVfs offerPart s).2.1

/-- When an entry of the table is not aligned, none of the partitions before it has a filesystem. -/
def NoneBeforeMisaligned (dev : BlockDevice σ) (s : σ × VfsEntries σ) : Prop :=
  let r := readFresh dev.withVfs s 512 0
  let adjust := dev.blockSize / 512
  ValidRecord r.1 r.2.1 → (∃ i ∈ usedEntries r.2.1 (List.range 4), ¬ EntryAligned r.2.1 adjust i) →
    ¬ PartMounted dev (partsBefore r.2.1 adjust (usedEntries r.2.1 (List.range 4))) r.2.2

/-- The table of a valid record is gone through; else the call fails and has read only. -/
theorem readMbr_cases (dev : BlockDevice σ) (register : BlockDevice σ → ℕ → σ → σ)
    (h : dev.blockSize % 512 = 0) (s : σ) :
    ValidRecord (readFresh dev s 512 0).1 (readFresh dev s 512 0).2.1 ∧
      readMbr dev register s = readMbrLoop dev register (readFresh dev s 512 0).2.1 (dev.blockSize / 512)
        (List.range 4) [] (readFresh dev s 512 0).2.2 ∨
    ¬ ValidRecord (readFresh dev s 512 0).1 (readFresh dev s 512 0).2.1 ∧
      (readMbr dev register s).1 < 0 ∧ (readMbr dev register s).2.2 = (readFresh dev s 512 0).2.2 := by
  have hpos := dev.blockSize_pos
  unfold readMbr ValidRecord
  generalize readFresh dev s 512 0 = r
  dsimp only
  split_ifs with hneg hret hsig hsmall hmult
  · exact Or.inr ⟨fun hv => by omega, hneg, rfl⟩
  · exact Or.inr ⟨fun hv => hret hv.1, Int.negSucc_lt_zero 0, rfl⟩
  · exact Or.inr ⟨fun hv => hsig.elim (fun hno => hno hv.2.1) fun hno => hno hv.2.2,
      Int.negSucc_lt_zero 0, rfl⟩
  · omega
  · exact absurd h hmult
  · exact Or.inl ⟨⟨not_not.mp hret, not_not.mp fun hno => hsig (Or.inl hno),
      not_not.mp fun hno => hsig (Or.inr hno)⟩, rfl⟩

/-- A whole number of blocks covers the sectors that it is made of. -/
theorem div_mul_blockSize {bs n : ℕ} (h : bs % 512 = 0) (hn : n % (bs / 512) = 0) :
    n / (bs / 512) * bs = n * 512 := by
  calc n / (bs / 512) * bs = n / (bs / 512) * (bs / 512 * 512) := by
        rw [Nat.div_mul_cancel (Nat.dvd_of_mod_eq_zero h)]
    _ = n * 512 := by rw [← Nat.mul_assoc, Nat.div_mul_cancel (Nat.dvd_of_mod_eq_zero hn)]

theorem covers_of_aligned {bs : ℕ} {block0 : Mem} (h : bs % 512 = 0)
    (hal : ∀ i ∈ usedEntries block0 (List.range 4), EntryAligned block0 (bs / 512) i) :
    Covers bs block0 (partsBefore block0 (bs / 512) (usedEntries block0 (List.range 4))) := by
  intro i hi hused
  have hmem : i ∈ usedEntries block0 (List.range 4) :=
    List.mem_filter.mpr ⟨List.mem_range.mpr hi, decide_eq_true hused⟩
  rw [partsBefore_of_aligned hal]
  exact ⟨_, List.mem_map_of_mem hmem, rfl, rfl, div_mul_blockSize h (hal i hmem).1,
    div_mul_blockSize h (hal i hmem).2⟩

/-- A call that fails has to leave the entries alone. -/
theorem mbrAtomic_of_neg_iff {dev : BlockDevice σ} {s : σ × VfsEntries σ}
    (hneg : (readMbr dev.withVfs offerPart s).1 < 0) :
    MbrAtomic dev s ↔ (readMbr dev.withVfs offerPart s).2.2.2 = s.2 :=
  ⟨fun h => h.entries_eq hneg, fun h => ⟨fun _ => h, fun hno => absurd hneg (not_lt.mpr hno),
    fun hno => absurd hneg (not_lt.mpr hno)⟩⟩

theorem wide_pos : 0 < 1024 := by decide

theorem wide_lt : 1024 < 2 ^ 31 := by decide

/-- A store of bytes as a device with blocks of two sectors. -/
def wideDevice : BlockDevice Mem where
  blockSize := 1024
  numBlocks := 4
  supportsMultipleBlockRead := false
  supportsMultipleBlockWrite := false
  read := some fun s _ n b => (⟨n, slice s (b * 1024) n⟩, s)
  write := none
  blockSize_pos := wide_pos
  blockSize_lt := wide_lt

/-- A table of two partitions of the id `0xda`, in the sectors 2 and 3, and 5 and 6. -/
def misalignedMemory : Mem :=
  patch (patch (fun _ => 0) 0x1c2 [0xda, 0, 0, 0, 2, 0, 0, 0, 2, 0, 0, 0, 0, 0, 0, 0,
    0xda, 0, 0, 0, 5, 0, 0, 0, 2, 0, 0, 0]) 0x1fe [0x55, 0xaa]

/-- The first partition is registered, and the second one makes the call fail. -/
theorem mbr_atomic_broken : wideDevice.blockSize % 512 = 0 ∧ ¬ MbrAtomic wideDevice (misalignedMemory, []) := by
  refine ⟨rfl, fun h => ?_⟩
  have hret : (readMbr wideDevice.withVfs offerPart (misalignedMemory, [])).1 = -1 := by decide +kernel
  have hlen : (readMbr wideDevice.withVfs offerPart (misalignedMemory, [])).2.2.2.length = 1 := by
    decide +kernel
  rw [h.entries_eq (by rw [hret]; decide)] at hlen
  exact absurd hlen (by decide)

/-- **All or nothing.** On every device whose blocks are made of sectors, `read_mbr` either fails and
registers nothing or offers all partitions of the table, if and only if no partition with a filesystem
comes before a misaligned one. -/
theorem mbr_atomic_iff {dev : BlockDevice σ} (h : dev.blockSize % 512 = 0) (s : σ × VfsEntries σ) :
    MbrAtomic dev s ↔ NoneBeforeMisaligned dev s := by
  have hread := readFresh_keeps dev s 512 0
  rcases readMbr_cases dev.withVfs offerPart h s with ⟨hvalid, hcall⟩ | ⟨hinvalid, hneg, hstate⟩
  · obtain ⟨found, added, hfound, hadded, -, hmounted⟩ :=
      readMbrLoop_entries dev (readFresh dev.withVfs s 512 0).2.1 (dev.blockSize / 512) (List.range 4) []
        (readFresh dev.withVfs s 512 0).2.2
    have hblock : dev.withVfs.blockSize = dev.blockSize := rfl
    rw [hblock] at hcall
    have hloop := hcall.trans (readMbrLoop_eq _ _ _ _ _ _ _)
    rw [← hcall] at hfound hadded
    rw [hloop, List.nil_append, List.nil_append] at hfound
    rw [hread] at hadded
    by_cases hal : ∀ i ∈ usedEntries (readFresh dev.withVfs s 512 0).2.1 (List.range 4),
        EntryAligned (readFresh dev.withVfs s 512 0).2.1 (dev.blockSize / 512) i
    · rw [if_pos hal] at hloop
      refine iff_of_true ⟨?_, ?_, ?_⟩ fun _ ⟨i, hi, hno⟩ => absurd (hal i hi) hno
      · rw [hloop]
        exact fun hno => absurd hno (lt_irrefl _)
      · rw [hloop]
        exact fun _ => rfl
      · rw [hloop]
        exact fun _ => covers_of_aligned h hal
    · rw [if_neg hal] at hloop
      have hret : (readMbr dev.withVfs offerPart s).1 = -1 := congrArg Prod.fst hloop
      have hsome : ∃ i ∈ usedEntries (readFresh dev.withVfs s 512 0).2.1 (List.range 4),
          ¬ EntryAligned (readFresh dev.withVfs s 512 0).2.1 (dev.blockSize / 512) i := by
        simpa only [not_forall, exists_prop] using hal
      dsimp only at hfound
      have hnone : NoneBeforeMisaligned dev s ↔ added = [] := by
        rw [← hfound] at hmounted
        rw [← not_not (a := added = []), ← ne_eq, hmounted]
        exact ⟨fun h => h hvalid hsome, fun h _ _ => h⟩
      rw [mbrAtomic_of_neg_iff (by rw [hret]; decide), hadded, hnone]
      exact List.append_left_eq_self
  · rw [mbrAtomic_of_neg_iff hneg]
    refine iff_of_true ?_ fun hvalid => absurd hvalid hinvalid
    rw [hstate, hread]

/-- On a device with blocks of one sector no partition is misaligned. -/
theorem mbr_atomic_iff_sector : MbrAtomic (storeDevice 4) (partitionedMemory, []) := by
  refine (mbr_atomic_iff (by decide) (partitionedMemory, [])).mpr ?_
  rintro - ⟨i, -, hi⟩
  exact absurd ⟨Nat.mod_one _, Nat.mod_one _⟩ hi

end RpiBoot
