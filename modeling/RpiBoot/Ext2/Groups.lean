import Mathlib.Algebra.Order.Floor.Div
import RpiBoot.Ext2.File
import RpiBoot.Lib.Bytes

/-!
# The number of groups of an ext2 volume

`ext2_init` counts the groups by the inodes and by the blocks, and wants the two to tally. It counts the
blocks from block `0` on, where the groups start at the first data block.

* `groupCount_eq`: the code's way to divide and round up.
* `ValidSuperblock`: what the superblock of a volume with a number of groups says.
* `Ext2Fs.ofTables`: a volume, by its superblock and descriptor table.
* `ext2Init_cases`: what `ext2_init` does with a superblock.
* **`ext2_groups_iff`**: a volume is accepted, with its number of groups, unless its blocks have 1 KiB and
  fill the last group.
-/

namespace RpiBoot

open Store Bytes

variable {σ : Type}

theorem groupCount_eq {per : ℕ} (h : 0 < per) (total : ℕ) : groupCount total per = total ⌈/⌉ per := by
  have hmod := Nat.mod_lt total h
  have hdiv := Nat.div_add_mod total per
  rw [groupCount, Nat.ceilDiv_eq_add_pred_div]
  split_ifs with hrem
  · refine (Nat.div_eq_of_lt_le ?_ ?_).symm
    · rw [Nat.add_mul, Nat.mul_comm]
      omega
    · rw [Nat.add_mul, Nat.add_mul, Nat.mul_comm]
      omega
  · refine (Nat.div_eq_of_lt_le ?_ ?_).symm
    · rw [Nat.mul_comm]
      omega
    · rw [Nat.add_mul, Nat.mul_comm]
      omega

/-- One block more takes one group more just when the groups have been full. -/
theorem ceilDiv_succ_eq_iff {per : ℕ} (h : 0 < per) (n : ℕ) :
    (n + 1) ⌈/⌉ per = n ⌈/⌉ per ↔ ¬ per ∣ n := by
  have hle : n ⌈/⌉ per ≤ (n + 1) ⌈/⌉ per :=
    (ceilDiv_le_iff_le_mul h).mpr (n.le_succ.trans ((ceilDiv_le_iff_le_mul h).mp le_rfl))
  have hn : n ≤ per * (n ⌈/⌉ per) := (ceilDiv_le_iff_le_mul h).mp le_rfl
  constructor
  · rintro heq ⟨q, rfl⟩
    have hq : per * q ⌈/⌉ per = q := smul_ceilDiv h q
    rw [hq] at heq
    have := (ceilDiv_le_iff_le_mul h).mp heq.le
    omega
  · intro hdvd
    refine le_antisymm ((ceilDiv_le_iff_le_mul h).mpr ?_) hle
    exact Nat.lt_of_le_of_ne hn fun heq => hdvd ⟨_, heq⟩

/-- The superblock of a volume with `groups` groups. The blocks of the groups start at the first data
block. -/
structure ValidSuperblock (sb : Mem) (groups : ℕ) : Prop where
  magic : le16 sb 56 = 0xef53
  blockSize_lt : 1024 * 2 ^ le32 sb 24 < 2 ^ 32
  firstDataBlock_eq : le32 sb 20 = if le32 sb 24 = 0 then 1 else 0
  firstDataBlock_le : le32 sb 20 ≤ le32 sb 4
  blocksPerGroup_pos : 0 < le32 sb 32
  inodesPerGroup_pos : 0 < le32 sb 40
  groups_eq : groups = (le32 sb 4 - le32 sb 20) ⌈/⌉ le32 sb 32
  totalInodes_eq : le32 sb 0 = groups * le32 sb 40

/-- The size of the descriptor table in memory, in whole blocks. -/
def Ext2Fs.bgdtSize (fs : Ext2Fs σ) : ℕ :=
  let size := u32 (fs.totalGroups * 32)
  if size % fs.b.blockSize ≠ 0 then u32 ((size / fs.b.blockSize + 1) * fs.b.blockSize) else size

/-- The block of the device from which the descriptor table is read. -/
def Ext2Fs.bgdtSector (fs : Ext2Fs σ) : ℕ := getSectorNum fs (if fs.b.blockSize = 1024 then 2 else 1)

/-- The volume of a superblock and a descriptor table. -/
def Ext2Fs.ofTables (parent : BlockDevice σ) (sb bgdt : Mem) : Ext2Fs σ :=
  { Ext2Fs.ofSuperblock parent sb with bgdt := bgdt }

/-- What `ext2_init` does with the superblock that it has read. -/
theorem ext2Init_cases {parent : BlockDevice σ} {s s₁ : σ} {sb : Mem}
    (hr : readFresh parent s 1024 (1024 / parent.blockSize) = (1024, sb, s₁)) :
    (le16 sb 56 ≠ 0xef53 ∧ ext2Init parent s = (.error (-1), s₁)) ∨
    (le16 sb 56 = 0xef53 ∧ groupCount (le32 sb 0) (le32 sb 40) ≠ groupCount (le32 sb 4) (le32 sb 32) ∧
      ext2Init parent s = (.error (-1), s₁)) ∨
    (le16 sb 56 = 0xef53 ∧ groupCount (le32 sb 0) (le32 sb 40) = groupCount (le32 sb 4) (le32 sb 32) ∧
      ∃ n bgdt s', readFresh parent s₁ (Ext2Fs.ofSuperblock parent sb).bgdtSize
          (Ext2Fs.ofSuperblock parent sb).bgdtSector = (n, bgdt, s') ∧
        ext2Init parent s = (.ok (Ext2Fs.ofTables parent sb bgdt), s')) := by
  have hret : i32 1024 = 1024 := i32_of_lt (by decide)
  unfold ext2Init
  rw [hr]
  dsimp only
  rw [hret, if_neg (by decide), if_neg (by decide)]
  by_cases hmagic : le16 sb 56 = 0xef53
  · refine Or.inr ?_
    rw [if_neg (not_not.mpr hmagic)]
    by_cases hcount : groupCount (le32 sb 0) (le32 sb 40) = groupCount (le32 sb 4) (le32 sb 32)
    · exact Or.inr ⟨hmagic, hcount, _, _, _, rfl, if_neg (not_not.mpr hcount)⟩
    · exact Or.inl ⟨hmagic, hcount, if_pos hcount⟩
  · exact Or.inl ⟨hmagic, if_pos hmagic⟩

/-- A volume with blocks of 1 KiB, in groups of 8192 blocks and 16 inodes, of which there are 16. -/
def groupVolume (totalBlocks : ℕ) : Mem :=
  patch (fun _ => 0) 1024 ([16, totalBlocks, 0, 0, 0, 1, 0, 0, 8192, 8192, 16].flatMap (toBytes 4) ++
    List.replicate 12 0 ++ [0x53, 0xef])

/-- A volume of one group, and of two by the number of its blocks. -/
theorem ext2_groups_differ : ∃ sb s₁,
    readFresh (storeDevice 16386) (groupVolume 8193) 1024 (1024 / 512) = (1024, sb, s₁) ∧
      ValidSuperblock sb 1 ∧
      ¬ ∃ fs s', ext2Init (storeDevice 16386) (groupVolume 8193) = (.ok fs, s') ∧ fs.totalGroups = 1 := by
  refine ⟨_, _, Prod.ext (by decide +kernel) rfl, ⟨by decide +kernel, by decide +kernel,
    by decide +kernel, by decide +kernel, by decide +kernel, by decide +kernel, by decide +kernel,
    by decide +kernel⟩, ?_⟩
  rintro ⟨fs, s', h, -⟩
  have hnone : (ext2Init (storeDevice 16386) (groupVolume 8193)).1.toOption.isSome = false := by
    decide +kernel
  rw [h] at hnone
  cases hnone

/-- **The number of groups.** A valid superblock is accepted, with its number of groups, if and only if the
blocks do not have 1 KiB, or those behind the first do not fill the groups. -/
theorem ext2_groups_iff {parent : BlockDevice σ} {s s₁ : σ} {sb : Mem} {groups : ℕ}
    (hr : readFresh parent s 1024 (1024 / parent.blockSize) = (1024, sb, s₁))
    (hv : ValidSuperblock sb groups) :
    (∃ fs s', ext2Init parent s = (.ok fs, s') ∧ fs.totalGroups = groups) ↔
      (le32 sb 24 = 0 → ¬ le32 sb 32 ∣ le32 sb 4 - 1) := by
  have hinodes : groupCount (le32 sb 0) (le32 sb 40) = groups := by
    rw [groupCount_eq hv.inodesPerGroup_pos, hv.totalInodes_eq, Nat.mul_comm]
    exact smul_ceilDiv hv.inodesPerGroup_pos groups
  have hblocks : groupCount (le32 sb 4) (le32 sb 32) = groups ↔
      (le32 sb 24 = 0 → ¬ le32 sb 32 ∣ le32 sb 4 - 1) := by
    have hfirst := hv.firstDataBlock_eq
    have hle := hv.firstDataBlock_le
    rw [groupCount_eq hv.blocksPerGroup_pos, hv.groups_eq]
    by_cases hsize : le32 sb 24 = 0
    · rw [if_pos hsize] at hfirst
      obtain ⟨n, hn⟩ : ∃ n, le32 sb 4 = n + 1 := ⟨le32 sb 4 - 1, by omega⟩
      rw [hfirst, hn, Nat.add_sub_cancel, ceilDiv_succ_eq_iff hv.blocksPerGroup_pos]
      exact ⟨fun h _ => h, fun h => h hsize⟩
    · rw [if_neg hsize] at hfirst
      rw [hfirst, Nat.sub_zero]
      exact iff_of_true rfl fun h => absurd h hsize
  rw [← hblocks]
  obtain ⟨hmagic, -⟩ | ⟨-, hcount, h⟩ | ⟨-, hcount, n, bgdt, s', -, h⟩ := ext2Init_cases hr
  · exact absurd hv.magic hmagic
  · rw [hinodes] at hcount
    refine iff_of_false ?_ hcount.symm
    rintro ⟨fs, s', hok, -⟩
    cases h.symm.trans hok
  · rw [hinodes] at hcount
    exact iff_of_true ⟨_, _, h, hinodes⟩ hcount.symm

/-- A volume with blocks left in the last group. -/
theorem ext2_groups_iff_small :
    ∃ fs s', ext2Init (storeDevice 64) (groupVolume 32) = (.ok fs, s') ∧ fs.totalGroups = 1 := by
  obtain ⟨sb, s₁, hr, hv, hblocks⟩ : ∃ sb s₁,
      readFresh (storeDevice 64) (groupVolume 32) 1024 (1024 / 512) = (1024, sb, s₁) ∧ ValidSuperblock sb 1 ∧
        ¬ le32 sb 32 ∣ le32 sb 4 - 1 :=
    ⟨_, _, Prod.ext (by decide +kernel) rfl, ⟨by decide +kernel, by decide +kernel, by decide +kernel,
      by decide +kernel, by decide +kernel, by decide +kernel, by decide +kernel, by decide +kernel⟩,
      by decide +kernel⟩
  exact (ext2_groups_iff hr hv).mpr fun _ => hblocks

end RpiBoot
