import RpiBoot.Ext2.DirBounds
import RpiBoot.Ext2.Groups

/-!
# What a superblock can do to `ext2_init` and `ext2_read_inode`

The number of groups, the size of a block and the size of an inode go into divisions and bounds as they
are, and the inode numbers of directory entries are looked up as they are.

* `ext2InitChecked`, `inodePlaceChecked`: the code with its divisions; `none` is a division by zero.
* `InodeGiven`: the inode numbers of the root directory, and of the entries of directories.
* `InodeSafe`: an inode is looked up in the tables, and copied from within its block.
* `InodesFit`: what a superblock has to say for that.
* **`ext2_superblock_safe_iff`**: `ext2_init` and the lookups are safe just on the superblocks that are
  rejected before a division by zero, and those whose inodes fit.
-/

namespace RpiBoot

open Store

variable {σ : Type}

/-! ## Divisions -/

/-- The number of groups, with the division. -/
def groupCountChecked (total per : ℕ) : Option ℕ :=
  (checkedDiv total per).map fun _ => groupCount total per

/-- `ext2_init(parent, fs)`; `none` is a division by zero. -/
def ext2InitChecked (parent : BlockDevice σ) (s : σ) : Option (Except ℤ (Ext2Fs σ) × σ) :=
  let r := readFresh parent s 1024 (1024 / parent.blockSize)
  let ret := i32 r.1
  if ret < 0 then some (.error ret, r.2.2)
  else if ret ≠ 1024 then some (.error (-1), r.2.2)
  else
    let sb := r.2.1
    if le16 sb 56 ≠ 0xef53 then some (.error (-1), r.2.2)
    else
      let fs := Ext2Fs.ofSuperblock parent sb
      (groupCountChecked fs.totalInodes fs.inodesPerGroup).bind fun iCalcVal =>
        (groupCountChecked fs.totalBlocks fs.blocksPerGroup).bind fun bCalcVal =>
          if iCalcVal ≠ bCalcVal then some (.error (-1), r.2.2)
          else (checkedDiv (u32 (fs.totalGroups * 32)) fs.b.blockSize).map fun _ =>
            let t := readFresh parent r.2.2 fs.bgdtSize fs.bgdtSector
            (.ok (Ext2Fs.ofTables parent sb t.2.1), t.2.2)

section Inodes

variable (fs : Ext2Fs σ)

/-- The place of inode `inodeIdx`, with the divisions on the way to it. -/
def inodePlaceChecked (inodeIdx : ℕ) : Option (ℕ × ℕ) :=
  (checkedDiv (sub32 inodeIdx 1) fs.inodesPerGroup).bind fun _ =>
    (checkedDiv fs.b.blockSize fs.inodeSize).bind fun inodesPerBlock =>
      (checkedDiv (sub32 inodeIdx 1 % fs.inodesPerGroup) inodesPerBlock).map fun _ =>
        inodePlace fs inodeIdx

/-- `ext2_read_inode` divides by no zero, finds the group in the descriptor table and copies the inode
from within its block. -/
structure InodeSafe (inodeIdx : ℕ) : Prop where
  divides : (inodePlaceChecked fs inodeIdx).isSome
  group_lt : sub32 inodeIdx 1 / fs.inodesPerGroup < fs.totalGroups
  bgdt_le : 32 * (sub32 inodeIdx 1 / fs.inodesPerGroup) + 32 ≤ fs.bgdtSize
  copy_le : (inodePlace fs inodeIdx).2 + 128 ≤ fs.b.blockSize

/-- The slot of inode `n` in its block of the inode table. -/
def Ext2Fs.slot (n : ℕ) : ℕ := (n - 1) % fs.inodesPerGroup % (fs.b.blockSize / fs.inodeSize)

/-- The number of groups that the descriptor table in memory has. -/
def Ext2Fs.tableGroups : ℕ := min fs.totalGroups (fs.bgdtSize / 32)

/-- Inode `n` is one of those that the tables have, and if inodes are too small, what is copied of this one
still lies in the block. -/
structure InodeFits (n : ℕ) : Prop where
  number_le : n ≤ fs.tableGroups * fs.inodesPerGroup
  slot_le : fs.inodeSize < 128 → fs.slot n * fs.inodeSize + 128 ≤ fs.b.blockSize

variable (read : ℕ → ℕ → ℕ × Mem) (typed : Bool)

/-- The flag `is_dir` of the entry in use at `ptr`. -/
def entryIsDir (block : Mem) (ptr : ℕ) : Bool :=
  if typed then block (ptr + 7) == 2
  else (fs.mode read (le32 block ptr)).any fun mode => mode &&& 0x2000 != 0

/-- The inode numbers that `ext2_read_inode` is given on a volume, with the flags of their entries: that
of the root directory, and those of the entries in the directories. -/
inductive InodeGiven (s : σ) : ℕ → Bool → Prop where
  | root : InodeGiven s (dirInode none) true
  | entry {dir inode idx block ptr} : InodeGiven s dir true → fs.inode read dir = some inode →
    idx < fs.fileBlocks inode →
    fs.block read (getBlockNoFromInode fs s inode idx).1 = some block →
    EntryLeads block (fs.blockLimit inode idx) 0 ptr → le16 block (ptr + 4) ≠ 0 → le32 block ptr ≠ 0 →
    ext2Name typed block ptr ∉ specialNames →
    InodeGiven s (le32 block ptr) (entryIsDir fs read typed block ptr)

/-- The inodes fit their blocks, and the numbers that are given have inodes. -/
structure InodesFit (s : σ) : Prop where
  size_ne : fs.inodeSize ≠ 0
  size_le : fs.inodeSize ≤ fs.b.blockSize
  given : ∀ n isDir, InodeGiven fs read typed s n isDir → InodeFits fs n

end Inodes

/-- `ext2_init` divides by no zero, and the inodes of a volume that it accepts are safe. `t` is a state in
which directories are read. -/
def Ext2InitSafe (parent : BlockDevice σ) (read : ℕ → ℕ → ℕ × Mem) (sb : Mem) (s t : σ) : Prop :=
  ∃ r, ext2InitChecked parent s = some r ∧ ∀ fs, r.1 = .ok fs →
    ∀ n isDir, InodeGiven fs read (typeFlagsUsed sb) t n isDir → InodeSafe fs n

variable {fs : Ext2Fs σ} {read : ℕ → ℕ → ℕ × Mem} {typed : Bool} {s t : σ}

/-! ## The numbers that are given -/

theorem InodeGiven.pos {n : ℕ} {isDir : Bool} (h : InodeGiven fs read typed s n isDir) : 0 < n := by
  cases h with
  | root => exact two_pos
  | entry _ _ _ _ _ _ hne _ => exact Nat.pos_of_ne_zero hne

theorem InodeGiven.lt {n : ℕ} {isDir : Bool} (h : InodeGiven fs read typed s n isDir) : n < 2 ^ 32 := by
  cases h with
  | root => exact (by decide : 2 < 2 ^ 32)
  | entry => exact le32_lt _ _

/-- The entry in use at `ptr`, as it is taken in. -/
theorem entryDirent_ok {block : Mem} {ptr : ℕ} {e : Dirent} (h : entryDirent fs read typed block ptr = .ok e)
    (hname : e.name ∉ specialNames) : ext2Name typed block ptr ∉ specialNames ∧
      e.opq = le32 block ptr ∧ e.isDir = entryIsDir fs read typed block ptr := by
  unfold entryDirent at h
  split_ifs at h with hbounds hspecial htyped
  · obtain rfl := Except.ok.inj h
    exact absurd hspecial hname
  · obtain rfl := Except.ok.inj h
    exact ⟨hspecial, rfl, (if_pos htyped).symm⟩
  · cases hmode : fs.mode read (le32 block ptr) with
    | none =>
      rw [hmode] at h
      cases h
    | some mode =>
      rw [hmode] at h
      obtain rfl := Except.ok.inj h
      refine ⟨hspecial, rfl, ?_⟩
      rw [entryIsDir, if_neg htyped, hmode]
      rfl

/-- The entries that are taken in from a block lie where its lengths lead. -/
theorem mem_blockDirents {block : Mem} {limit : ℕ} (hlimit : limit ≤ 2 ^ 31) {e : Dirent} :
    ∀ {fuel ptr : ℕ} {ds : List Dirent}, blockDirents fs read typed block limit fuel ptr = .ok ds →
      e ∈ ds → ∃ p, EntryLeads block limit ptr p ∧ le16 block (p + 4) ≠ 0 ∧ le32 block p ≠ 0 ∧
        entryDirent fs read typed block p = .ok e := by
  intro fuel
  induction fuel with
  | zero =>
    intro ptr ds h he
    rw [blockDirents] at h
    split_ifs at h
    obtain rfl := Except.ok.inj h
    exact absurd he List.not_mem_nil
  | succ fuel ih =>
    intro ptr ds h he
    rw [blockDirents] at h
    split_ifs at h with hlt hheader hsize hused
    · obtain rfl := Except.ok.inj h
      exact absurd he List.not_mem_nil
    · obtain ⟨p, hp, hin⟩ := ih h he
      rw [u32_of_lt (by have := le16_lt block (ptr + 4); omega)] at hp
      exact ⟨p, .next hlt hsize hp, hin⟩
    · cases hentry : entryDirent fs read typed block ptr with
      | error => rw [hentry] at h; cases h
      | ok d =>
        cases hrest : blockDirents fs read typed block limit fuel (u32 (ptr + le16 block (ptr + 4))) with
        | error => rw [hentry, hrest] at h; cases h
        | ok ds' =>
          rw [hentry, hrest] at h
          obtain rfl := Except.ok.inj h
          rcases List.mem_cons.mp he with rfl | he
          · exact ⟨ptr, .here hlt, hsize, hused, hentry⟩
          · obtain ⟨p, hp, hin⟩ := ih hrest he
            rw [u32_of_lt (by have := le16_lt block (ptr + 4); omega)] at hp
            exact ⟨p, .next hlt hsize hp, hin⟩
    · obtain rfl := Except.ok.inj h
      exact absurd he List.not_mem_nil

/-- The entries that are taken in from a directory lie in its blocks. -/
theorem mem_dirDirents {inode : Ext2Inode} {blockNo : ℕ → ℕ} {e : Dirent} :
    ∀ {n idx : ℕ} {ds : List Dirent}, dirDirents fs read typed inode blockNo n idx = .ok ds → e ∈ ds →
      ∃ i < n, ∃ block ds', fs.block read (blockNo (idx + i)) = some block ∧ e ∈ ds' ∧
        blockDirents fs read typed block (fs.blockLimit inode (idx + i))
          (fs.blockLimit inode (idx + i)) 0 = .ok ds' := by
  intro n
  induction n with
  | zero =>
    intro idx ds h he
    obtain rfl := Except.ok.inj h
    exact absurd he List.not_mem_nil
  | succ n ih =>
    intro idx ds h he
    rw [dirDirents] at h
    cases hblock : fs.block read (blockNo idx) with
    | none => rw [hblock] at h; cases h
    | some block =>
      rw [hblock] at h
      dsimp only at h
      cases hfirst : blockDirents fs read typed block (fs.blockLimit inode idx) (fs.blockLimit inode idx)
          0 with
      | error => rw [hfirst] at h; cases h
      | ok ds₁ =>
        cases hrest : dirDirents fs read typed inode blockNo n (idx + 1) with
        | error => rw [hfirst, hrest] at h; cases h
        | ok ds₂ =>
          rw [hfirst, hrest] at h
          obtain rfl := Except.ok.inj h
          rcases List.mem_append.mp he with he | he
          · exact ⟨0, n.succ_pos, block, ds₁, hblock, he, hfirst⟩
          · obtain ⟨i, hi, hin⟩ := ih hrest he
            rw [Nat.add_right_comm, Nat.add_assoc] at hin
            exact ⟨i + 1, Nat.succ_lt_succ hi, hin⟩

/-- **The entries that `ext2_read_dir` lists** for a directory have inode numbers that are given. -/
theorem InodeGiven.of_listed (hpos : 0 < fs.b.blockSize) (hbs : fs.b.blockSize ≤ 2 ^ 31) {d : Option Dirent}
    (hd : InodeGiven fs read typed s (dirInode d) true) {ds : List Dirent}
    (h : ext2Dirents fs read typed s d = .ok ds) {e : Dirent} (he : e ∈ ds)
    (hname : e.name ∉ specialNames) : InodeGiven fs read typed s e.opq e.isDir := by
  unfold ext2Dirents at h
  cases hinode : fs.inode read (dirInode d) with
  | none => rw [hinode] at h; cases h
  | some inode =>
    rw [hinode] at h
    obtain ⟨i, hi, block, ds', hblock, he', hds'⟩ := mem_dirDirents h he
    rw [Nat.zero_add] at hblock hds'
    obtain ⟨p, hp, hsize, hused, hentry⟩ := mem_blockDirents ((blockLimit_le inode hpos i).trans hbs) hds' he'
    obtain ⟨hname', hopq, hdir⟩ := entryDirent_ok hentry hname
    rw [hopq, hdir]
    exact .entry hd hinode hi hblock hp hsize hused hname'

/-! ## One inode -/

theorem inodePlaceChecked_isSome {n : ℕ} : (inodePlaceChecked fs n).isSome ↔
    fs.inodesPerGroup ≠ 0 ∧ fs.inodeSize ≠ 0 ∧ fs.inodeSize ≤ fs.b.blockSize := by
  have hdiv : ∀ {m : ℕ}, m ≠ 0 → (fs.b.blockSize / m ≠ 0 ↔ m ≤ fs.b.blockSize) := fun hm => by
    rw [ne_eq, Nat.div_eq_zero_iff_lt (Nat.pos_of_ne_zero hm), not_lt]
  simp only [inodePlaceChecked, Option.isSome_iff_exists, Option.bind_eq_some_iff,
    Option.map_eq_some_iff, checkedDiv_eq_some]
  constructor
  · rintro ⟨_, _, ⟨hgroup, -⟩, _, ⟨hsize, rfl⟩, _, ⟨hblock, -⟩, -⟩
    exact ⟨hgroup, hsize, (hdiv hsize).mp hblock⟩
  · rintro ⟨hgroup, hsize, hle⟩
    exact ⟨_, _, ⟨hgroup, rfl⟩, _, ⟨hsize, rfl⟩, _, ⟨(hdiv hsize).mpr hle, rfl⟩, rfl⟩

/-- The slots of inodes of 128 bytes or more end in the block. -/
theorem slot_le_of_size {n : ℕ} (hsize : 128 ≤ fs.inodeSize) (hle : fs.inodeSize ≤ fs.b.blockSize) :
    fs.slot n * fs.inodeSize + 128 ≤ fs.b.blockSize := by
  have hslot : fs.slot n < fs.b.blockSize / fs.inodeSize :=
    Nat.mod_lt _ (Nat.div_pos hle (by omega))
  have hmul := Nat.mul_le_mul_right fs.inodeSize (Nat.succ_le_of_lt hslot)
  have hdiv := Nat.div_mul_le_self fs.b.blockSize fs.inodeSize
  rw [Nat.succ_mul] at hmul
  omega

/-- **One inode number.** -/
theorem inodeSafe_iff {n : ℕ} (hpos : 0 < n) (hlt : n < 2 ^ 32) (hgroup : fs.inodesPerGroup ≠ 0) :
    InodeSafe fs n ↔ fs.inodeSize ≠ 0 ∧ fs.inodeSize ≤ fs.b.blockSize ∧ InodeFits fs n := by
  have hsub : sub32 n 1 = n - 1 := sub32_of_le hpos hlt
  have hslot : (inodePlace fs n).2 = fs.slot n * fs.inodeSize := by
    rw [inodePlace, hsub]
    rfl
  have hnumber : n ≤ fs.tableGroups * fs.inodesPerGroup ↔ (n - 1) / fs.inodesPerGroup < fs.totalGroups ∧
      32 * ((n - 1) / fs.inodesPerGroup) + 32 ≤ fs.bgdtSize := by
    have hdiv : (n - 1) / fs.inodesPerGroup < fs.tableGroups ↔ n - 1 < fs.tableGroups * fs.inodesPerGroup :=
      Nat.div_lt_iff_lt_mul (Nat.pos_of_ne_zero hgroup)
    rw [Ext2Fs.tableGroups] at hdiv ⊢
    omega
  constructor
  · rintro ⟨hdiv, hgroups, htable, hcopy⟩
    obtain ⟨-, hsize, hle⟩ := inodePlaceChecked_isSome.mp hdiv
    rw [hsub] at hgroups htable
    rw [hslot] at hcopy
    exact ⟨hsize, hle, hnumber.mpr ⟨hgroups, htable⟩, fun _ => hcopy⟩
  · rintro ⟨hsize, hle, hn, hcopy⟩
    obtain ⟨hgroups, htable⟩ := hnumber.mp hn
    refine ⟨inodePlaceChecked_isSome.mpr ⟨hgroup, hsize, hle⟩, ?_, ?_, ?_⟩
    · rwa [hsub]
    · rwa [hsub]
    · rw [hslot]
      rcases Nat.lt_or_ge fs.inodeSize 128 with hsmall | hlarge
      · exact hcopy hsmall
      · exact slot_le_of_size hlarge hle

/-! ## Superblocks -/

/-- **The inodes of a volume.** -/
theorem inodesSafe_iff (hgroup : fs.inodesPerGroup ≠ 0) :
    (∀ n isDir, InodeGiven fs read typed t n isDir → InodeSafe fs n) ↔ InodesFit fs read typed t := by
  constructor
  · intro hsafe
    have hiff := fun n isDir (hn : InodeGiven fs read typed t n isDir) =>
      (inodeSafe_iff hn.pos hn.lt hgroup).mp (hsafe n isDir hn)
    -- the root directory is looked up on every volume
    obtain ⟨hne, hle, -⟩ := hiff _ _ .root
    exact ⟨hne, hle, fun n isDir hn => (hiff n isDir hn).2.2⟩
  · intro hfit n isDir hn
    exact (inodeSafe_iff hn.pos hn.lt hgroup).mpr ⟨hfit.size_ne, hfit.size_le, hfit.given n isDir hn⟩

theorem groupCountChecked_zero (total : ℕ) : groupCountChecked total 0 = none := rfl

theorem groupCountChecked_of_ne {total per : ℕ} (h : per ≠ 0) :
    groupCountChecked total per = some (groupCount total per) := by
  rw [groupCountChecked, checkedDiv, if_neg h]
  rfl

/-- A superblock that gives no number of inodes in a group. -/
def noInodesSuperblock : Mem := patch (fun _ => 0) 1080 [0x53, 0xef]

/-- `ext2_init` divides by the number of inodes in a group, which is `0`. -/
theorem ext2_init_divides_by_zero : ∃ sb s₁,
    readFresh (storeDevice 4) noInodesSuperblock 1024 (1024 / 512) = (1024, sb, s₁) ∧
      ext2InitChecked (storeDevice 4) noInodesSuperblock = none ∧
      ¬ Ext2InitSafe (storeDevice 4) (readAt (storeDevice 4) noInodesSuperblock) sb noInodesSuperblock
        noInodesSuperblock := by
  have hnone : ext2InitChecked (storeDevice 4) noInodesSuperblock = none :=
    Option.isNone_iff_eq_none.mp (by decide +kernel)
  refine ⟨_, _, Prod.ext (by decide +kernel) rfl, hnone, ?_⟩
  rintro ⟨r, hr, -⟩
  cases hnone.symm.trans hr

/-- **The safety of `ext2_init`.** For every superblock and every descriptor table, whatever the blocks of
the volume are: `ext2_init` divides by no zero, and the inodes of a volume that it accepts are safe, if and
only if the superblock is rejected before a division by zero, or its inodes fit. -/
theorem ext2_superblock_safe_iff {parent : BlockDevice σ} {s₁ s₂ : σ} {sb bgdt : Mem} {n : ℕ}
    (hr : readFresh parent s 1024 (1024 / parent.blockSize) = (1024, sb, s₁))
    (hbgdt : readFresh parent s₁ (Ext2Fs.ofSuperblock parent sb).bgdtSize
      (Ext2Fs.ofSuperblock parent sb).bgdtSector = (n, bgdt, s₂)) :
    Ext2InitSafe parent read sb s t ↔ le16 sb 56 ≠ 0xef53 ∨ le32 sb 40 ≠ 0 ∧ le32 sb 32 ≠ 0 ∧
      (groupCount (le32 sb 0) (le32 sb 40) ≠ groupCount (le32 sb 4) (le32 sb 32) ∨
        u32 (1024 <<< le32 sb 24) ≠ 0 ∧
          InodesFit (Ext2Fs.ofTables parent sb bgdt) read (typeFlagsUsed sb) t) := by
  have hret : i32 1024 = 1024 := i32_of_lt (by decide)
  unfold Ext2InitSafe ext2InitChecked
  rw [hr]
  dsimp only
  rw [hret, if_neg (by decide), if_neg (by decide), hbgdt]
  by_cases hmagic : le16 sb 56 = 0xef53
  swap
  · rw [if_pos hmagic]
    exact iff_of_true ⟨_, rfl, nofun⟩ (Or.inl hmagic)
  rw [if_neg (not_not.mpr hmagic), or_iff_right (not_not.mpr hmagic)]
  dsimp only [Ext2Fs.ofSuperblock]
  by_cases hinodes : le32 sb 40 = 0
  · rw [hinodes, groupCountChecked_zero]
    exact iff_of_false (fun ⟨_, h, _⟩ => nomatch h) fun h => h.1 rfl
  rw [groupCountChecked_of_ne hinodes, and_iff_right hinodes]
  by_cases hblocks : le32 sb 32 = 0
  · rw [hblocks, groupCountChecked_zero]
    exact iff_of_false (fun ⟨_, h, _⟩ => nomatch h) fun h => h.1 rfl
  rw [groupCountChecked_of_ne hblocks, and_iff_right hblocks]
  dsimp only [Option.bind_some]
  by_cases hcount : groupCount (le32 sb 0) (le32 sb 40) = groupCount (le32 sb 4) (le32 sb 32)
  swap
  · rw [if_pos hcount]
    exact iff_of_true ⟨_, rfl, nofun⟩ (Or.inl hcount)
  rw [if_neg (not_not.mpr hcount), or_iff_right (not_not.mpr hcount), ← inodesSafe_iff hinodes]
  by_cases hsize : u32 (1024 <<< le32 sb 24) = 0
  · rw [hsize]
    exact iff_of_false (fun ⟨_, h, _⟩ => nomatch h) fun h => h.1 rfl
  · rw [checkedDiv, if_neg hsize, and_iff_right hsize]
    constructor
    · rintro ⟨r, hr, hsafe⟩
      obtain rfl := Option.some.inj hr
      exact hsafe _ rfl
    · intro hsafe
      refine ⟨_, rfl, fun fs hfs => ?_⟩
      obtain rfl := Except.ok.inj hfs
      exact hsafe

/-- On the volume with the file `a`, its inode number is given, and that of the root directory. -/
theorem fileDirVolume_given {n : ℕ} {isDir : Bool} (h : InodeGiven (dirFs fileDirVolume)
    (readAt (storeDevice 64) fileDirVolume) false fileDirVolume n isDir) :
    n ≤ 12 ∧ (isDir = true → n = 2) := by
  induction h with
  | root => exact ⟨by decide, fun _ => rfl⟩
  | @entry dir inode idx block ptr _ hinode hidx hblock hptr _ _ _ ih =>
    obtain rfl := ih.2 rfl
    have hblocks : ((dirFs fileDirVolume).inode (readAt (storeDevice 64) fileDirVolume) 2).map
        (dirFs fileDirVolume).fileBlocks = some 1 := by decide +kernel
    have hentry : ((dirFs fileDirVolume).inode (readAt (storeDevice 64) fileDirVolume) 2).bind (fun inode =>
        ((dirFs fileDirVolume).block (readAt (storeDevice 64) fileDirVolume)
          (getBlockNoFromInode (dirFs fileDirVolume) fileDirVolume inode 0).1).map fun block =>
            ((dirFs fileDirVolume).blockLimit inode 0, le16 block 4, le32 block 0,
              entryIsDir (dirFs fileDirVolume) (readAt (storeDevice 64) fileDirVolume) false block 0)) =
        some (1024, 1024, 12, false) := by decide +kernel
    rw [hinode] at hblocks hentry
    have hone : (dirFs fileDirVolume).fileBlocks inode = 1 := Option.some.inj hblocks
    obtain rfl : idx = 0 := by omega
    rw [Option.bind_some, hblock] at hentry
    simp only [Option.map_some, Option.some.injEq, Prod.mk.injEq] at hentry
    obtain ⟨hlimit, hlength, hnumber, hdir⟩ := hentry
    -- the entry fills the block
    obtain ⟨-, rfl | ⟨-, hnext⟩⟩ := entryLeads_iff.mp hptr
    · rw [hnumber, hdir]
      exact ⟨le_rfl, fun h => nomatch h⟩
    · have hlt := (entryLeads_iff.mp hnext).1
      rw [hlimit, Nat.zero_add, hlength] at hlt
      exact absurd hlt (by decide)

/-- The volume with the file `a`. -/
theorem ext2_superblock_safe_iff_file : ∃ sb s₁,
    readFresh (storeDevice 64) fileDirVolume 1024 (1024 / 512) = (1024, sb, s₁) ∧
      Ext2InitSafe (storeDevice 64) (readAt (storeDevice 64) fileDirVolume) sb fileDirVolume
        fileDirVolume := by
  obtain ⟨sb, s₁, hr, hinodes, hblocks, hsize, htyped⟩ : ∃ sb s₁,
      readFresh (storeDevice 64) fileDirVolume 1024 (1024 / 512) = (1024, sb, s₁) ∧ le32 sb 40 ≠ 0 ∧
        le32 sb 32 ≠ 0 ∧ u32 (1024 <<< le32 sb 24) ≠ 0 ∧ typeFlagsUsed sb = false :=
    ⟨_, _, Prod.ext (by decide +kernel) rfl, by decide +kernel, by decide +kernel, by decide +kernel,
      by decide +kernel⟩
  obtain ⟨s', hinit⟩ := dirFs_init
    (by decide +kernel : (ext2Init (storeDevice 64) fileDirVolume).1.toOption.isSome)
  refine ⟨sb, s₁, hr, ?_⟩
  obtain ⟨-, h⟩ | ⟨-, -, h⟩ | ⟨-, -, n, bgdt, s'', hbgdt, h⟩ := ext2Init_cases hr
  · cases h.symm.trans hinit
  · cases h.symm.trans hinit
  · refine (ext2_superblock_safe_iff hr hbgdt).mpr (Or.inr ⟨hinodes, hblocks, Or.inr ⟨hsize, ?_⟩⟩)
    have hfs : Ext2Fs.ofTables (storeDevice 64) sb bgdt = dirFs fileDirVolume :=
      Except.ok.inj (congrArg Prod.fst (h.symm.trans hinit))
    have hlarge : (dirFs fileDirVolume).inodeSize = 128 := by decide +kernel
    have hcount : (dirFs fileDirVolume).tableGroups * (dirFs fileDirVolume).inodesPerGroup = 16 := by
      decide +kernel
    rw [hfs, htyped]
    refine ⟨by rw [hlarge]; decide, by rw [hlarge]; decide +kernel, fun n isDir hn => ⟨?_, fun hsmall => ?_⟩⟩
    · rw [hcount]
      exact (fileDirVolume_given hn).1.trans (by decide)
    · rw [hlarge] at hsmall
      exact absurd hsmall (by decide)

end RpiBoot
