import RpiBoot.Block.Healthy
import RpiBoot.Libfs.Device
import RpiBoot.Ramdisk

/-!
# What `register_fs` registers

`register_fs` goes by `dev->fs`, which a device with a partition table does not have: the filesystems of
its partitions are registered, and the result is `-1`.

* `BlockDevice.withVfs`, `vfsRegister`: a device whose state carries the list of `vfs_register`.
* `Added`: an entry for a filesystem on the device has been added.
* `registerPart_entries`, `readMbr_entries`: what the calls add.
* **`register_fs_iff`**: the result says whether an entry has been added, unless a partition is
  registered and nothing is found on the whole device.
-/

namespace RpiBoot

open Store

variable {σ : Type}

/-! ## The list of the VFS -/

/-- The entries of the VFS, by the devices that their filesystems live on. -/
abbrev VfsEntries (σ : Type) := List (BlockDevice σ)

/-- The device, with the list beside its state. -/
def BlockDevice.withVfs (dev : BlockDevice σ) : BlockDevice (σ × VfsEntries σ) :=
  { dev with
    read := dev.read.map fun rd s buf n b => ((rd s.1 buf n b).1, (rd s.1 buf n b).2, s.2)
    write := dev.write.map fun wr s mem buf n b =>
      ((wr s.1 mem buf n b).1, (wr s.1 mem buf n b).2, s.2) }

/-- The device without the list. -/
def BlockDevice.ofVfs (dev : BlockDevice (σ × VfsEntries σ)) : BlockDevice σ :=
  { dev with
    read := dev.read.map fun rd s buf n b => ((rd (s, []) buf n b).1, (rd (s, []) buf n b).2.1)
    write := dev.write.map fun wr s mem buf n b =>
      ((wr (s, []) mem buf n b).1, (wr (s, []) mem buf n b).2.1) }

/-- `fs->parent`. -/
def MountedFs.parent : MountedFs σ → BlockDevice σ
  | .fat fs => fs.b.parent
  | .ext2 fs => fs.b.parent
  | .nofs fs => fs.parent

/-- `vfs_register(fs)`: `vfs_add` puts the entry before the others. -/
def vfsRegister (fs : MountedFs (σ × VfsEntries σ)) (s : σ × VfsEntries σ) : σ × VfsEntries σ :=
  (s.1, fs.parent.ofVfs :: s.2)

/-- `register_fs`, with the list of the VFS. -/
def registerFsVfs (dev : BlockDevice σ) (partId : ℕ) (s : σ × VfsEntries σ) : ℤ × (σ × VfsEntries σ) :=
  registerFs vfsRegister dev.withVfs partId s

/-- The device is `dev`, or a partition of it. -/
def OnDevice (dev e : BlockDevice σ) : Prop := e = dev ∨ ∃ p, e = mbrDevice dev p

/-- An entry for a filesystem on the device has been added to the list. -/
def Added (dev : BlockDevice σ) (entries entries' : VfsEntries σ) : Prop :=
  ∃ added, entries' = added ++ entries ∧ ∃ e ∈ added, OnDevice dev e

@[simp] theorem ofVfs_withVfs (dev : BlockDevice σ) : dev.withVfs.ofVfs = dev := by
  rcases dev with ⟨bs, nb, mr, mw, _ | rd, _ | wr, h₁, h₂⟩ <;> rfl

@[simp] theorem mbrDevice_withVfs (dev : BlockDevice σ) (p : Partition) :
    mbrDevice dev.withVfs p = (mbrDevice dev p).withVfs := by
  rcases dev with ⟨bs, nb, mr, mw, _ | rd, _ | wr, h₁, h₂⟩ <;> rfl

theorem withVfs_readsKeep (dev : BlockDevice σ) (entries : VfsEntries σ) :
    ReadsKeep dev.withVfs fun s => s.2 = entries := by
  intro rd hrd s buf n b hs
  obtain ⟨rd', -, rfl⟩ := Option.map_eq_some_iff.mp hrd
  exact hs

theorem readFresh_keeps (dev : BlockDevice σ) (s : σ × VfsEntries σ) (n b : ℕ) :
    (readFresh dev.withVfs s n b).2.2.2 = s.2 :=
  blockRead_keeps (withVfs_readsKeep dev s.2) rfl _ _ _ _

/-! ## The drivers -/

/-- A filesystem that has been found is on the device; the list has not changed. -/
structure FindsOn (dev : BlockDevice σ) (entries : VfsEntries σ)
    (r : Option (MountedFs (σ × VfsEntries σ)) × (σ × VfsEntries σ)) : Prop where
  parent : ∀ fs ∈ r.1, fs.parent = dev.withVfs
  entries : r.2.2 = entries

theorem FindsOn.notFound {dev : BlockDevice σ} {entries : VfsEntries σ} {s : σ × VfsEntries σ}
    (h : s.2 = entries) : FindsOn dev entries (none, s) := ⟨nofun, h⟩

theorem tryFat_findsOn (dev : BlockDevice σ) (s : σ × VfsEntries σ) :
    FindsOn dev s.2 (tryFat dev.withVfs s) := by
  have hread := readFresh_keeps dev s 512 0
  unfold tryFat fatInit
  simp only
  split_ifs
  · exact .notFound hread
  · exact .notFound hread
  · exact .notFound hread
  · refine ⟨fun fs hfs => ?_, hread⟩
    obtain rfl := Option.some.inj hfs
    rfl

theorem tryExt2_findsOn (dev : BlockDevice σ) (s : σ × VfsEntries σ) :
    FindsOn dev s.2 (tryExt2 dev.withVfs s) := by
  have hread (s : σ × VfsEntries σ) (n b : ℕ) := readFresh_keeps dev s n b
  unfold tryExt2 ext2Init
  simp only
  split_ifs
  · exact .notFound (hread _ _ _)
  · exact .notFound (hread _ _ _)
  · exact .notFound (hread _ _ _)
  · exact .notFound (hread _ _ _)
  all_goals
    refine ⟨fun fs hfs => ?_, (hread _ _ _).trans (hread _ _ _)⟩
    obtain rfl := Option.some.inj hfs
    rfl

theorem partFs_findsOn (dev : BlockDevice σ) (partId : ℕ) (s : σ × VfsEntries σ) :
    FindsOn dev s.2 (partFs dev.withVfs partId s) := by
  unfold partFs
  split_ifs
  · exact tryFat_findsOn dev s
  · exact tryExt2_findsOn dev s
  · refine ⟨fun fs hfs => ?_, rfl⟩
    obtain rfl := Option.some.inj hfs
    rfl
  · exact .notFound rfl

/-- The last lines of `register_fs`: the result and the list say the same. -/
theorem FindsOn.registerFound {dev : BlockDevice σ} {entries : VfsEntries σ}
    {r : Option (MountedFs (σ × VfsEntries σ)) × (σ × VfsEntries σ)} (h : FindsOn dev entries r) :
    ((registerFound vfsRegister r).1 = 0 ↔ r.1.isSome) ∧
      (registerFound vfsRegister r).2.2 = (if r.1.isSome then [dev] else []) ++ entries := by
  rcases r with ⟨_ | fs, s⟩
  · exact ⟨by simp [RpiBoot.registerFound], h.entries⟩
  · have hparent := h.parent fs rfl
    have hentries : s.2 = entries := h.entries
    simp [RpiBoot.registerFound, vfsRegister, hparent, hentries]

theorem registerPart_entries (dev : BlockDevice σ) (partId : ℕ) (s : σ × VfsEntries σ) :
    ((registerPart vfsRegister dev.withVfs partId s).1 = 0 ↔ (partFs dev.withVfs partId s).1.isSome) ∧
      (registerPart vfsRegister dev.withVfs partId s).2.2 =
        (if (partFs dev.withVfs partId s).1.isSome then [dev] else []) ++ s.2 :=
  (partFs_findsOn dev partId s).registerFound

/-! ## Partitions -/

/-- What `read_mbr` does with a partition. -/
def offerPart (dev : BlockDevice (σ × VfsEntries σ)) (partId : ℕ) (s : σ × VfsEntries σ) :
    σ × VfsEntries σ :=
  (registerPart vfsRegister dev partId s).2

/-- One of the partitions has a filesystem when it is its turn. -/
def PartMounted (dev : BlockDevice σ) : List Partition → σ × VfsEntries σ → Prop
  | [], _ => False
  | p :: ps, s => (partFs (mbrDevice dev p).withVfs p.partId s).1.isSome = true ∨
      PartMounted dev ps (offerPart (mbrDevice dev p).withVfs p.partId s)

/-- The entries that are added by the loop of `read_mbr`. -/
theorem readMbrLoop_entries (dev : BlockDevice σ) (block0 : Mem) (adjust : ℕ) (is : List ℕ)
    (parts : List Partition) (s : σ × VfsEntries σ) :
    ∃ found added, (readMbrLoop dev.withVfs offerPart block0 adjust is parts s).2.1 = parts ++ found ∧
      (readMbrLoop dev.withVfs offerPart block0 adjust is parts s).2.2.2 = added ++ s.2 ∧
      (∀ e ∈ added, OnDevice dev e) ∧ (added ≠ [] ↔ PartMounted dev found s) := by
  induction is generalizing parts s with
  | nil => exact ⟨[], [], by simp [readMbrLoop], rfl, by simp, by simp [PartMounted]⟩
  | cons i is ih =>
    rw [readMbrLoop]
    simp only
    split_ifs
    · exact ih parts s
    · exact ⟨[], [], by simp, rfl, by simp, by simp [PartMounted]⟩
    · exact ⟨[], [], by simp, rfl, by simp, by simp [PartMounted]⟩
    · generalize hp : Partition.mk i (block0 (0x1be + i * 0x10 + 4)).toNat
        (le32 block0 (0x1be + i * 0x10 + 8) / adjust) (le32 block0 (0x1be + i * 0x10 + 12) / adjust) = p
      have hid : (block0 (0x1be + i * 0x10 + 4)).toNat = p.partId := by rw [← hp]
      obtain ⟨found, added, hfound, hadded, hon, hmounted⟩ :=
        ih (parts ++ [p]) (offerPart (mbrDevice dev p).withVfs p.partId s)
      obtain ⟨-, hpart⟩ := registerPart_entries (mbrDevice dev p) p.partId s
      refine ⟨p :: found, added ++ if (partFs (mbrDevice dev p).withVfs p.partId s).1.isSome
        then [mbrDevice dev p] else [], ?_, ?_, ?_, ?_⟩
      · rw [mbrDevice_withVfs, hid, hfound, List.append_assoc, List.singleton_append]
      · rw [mbrDevice_withVfs, hid, hadded, offerPart, hpart, List.append_assoc]
      · intro e he
        rcases List.mem_append.mp he with he | he
        · exact hon e he
        · split_ifs at he
          · exact Or.inr ⟨p, List.mem_singleton.mp he⟩
          · exact absurd he List.not_mem_nil
      · rw [PartMounted, ← hmounted]
        split_ifs with h <;> simp [h]

/-- **The entries that `read_mbr` adds** are those of the partitions with a filesystem. -/
theorem readMbr_entries (dev : BlockDevice σ) (s : σ × VfsEntries σ) :
    ∃ added, (readMbr dev.withVfs offerPart s).2.2.2 = added ++ s.2 ∧ (∀ e ∈ added, OnDevice dev e) ∧
      (added ≠ [] ↔ PartMounted dev (readMbr dev.withVfs offerPart s).2.1
        (readFresh dev.withVfs s 512 0).2.2) := by
  have hread := readFresh_keeps dev s 512 0
  unfold readMbr
  simp only
  split_ifs
  · exact ⟨[], hread, by simp, by simp [PartMounted]⟩
  · exact ⟨[], hread, by simp, by simp [PartMounted]⟩
  · exact ⟨[], hread, by simp, by simp [PartMounted]⟩
  · exact ⟨[], hread, by simp, by simp [PartMounted]⟩
  · exact ⟨[], hread, by simp, by simp [PartMounted]⟩
  · obtain ⟨found, added, hfound, hadded, hon, hmounted⟩ :=
      readMbrLoop_entries dev (readFresh dev.withVfs s 512 0).2.1 (dev.withVfs.blockSize / 512)
        (List.range 4) [] (readFresh dev.withVfs s 512 0).2.2
    rw [List.nil_append] at hfound
    exact ⟨added, by rw [hadded, hread], hon, by rw [hfound, hmounted]⟩

/-! ## Whole devices -/

/-- FAT or ext2 is found on the whole device. -/
def WholeMounted (dev : BlockDevice σ) (s : σ × VfsEntries σ) : Prop :=
  (tryFat dev.withVfs s).1.isSome = true ∨
    (tryExt2 dev.withVfs (tryFat dev.withVfs s).2).1.isSome = true

/-- No partition is registered in vain: where `register_fs` looks for a partition table and comes to a
partition with a filesystem, `read_mbr` fails after it and the whole device has a filesystem too. -/
def Accounted (dev : BlockDevice σ) (partId : ℕ) (s : σ × VfsEntries σ) : Prop :=
  partId = 0 →
    PartMounted dev (readMbr dev.withVfs offerPart s).2.1 (readFresh dev.withVfs s 512 0).2.2 →
    (readMbr dev.withVfs offerPart s).1 ≠ 0 ∧ WholeMounted dev (readMbr dev.withVfs offerPart s).2.2

/-- The search on a whole device. -/
theorem searchFs_findsOn (dev : BlockDevice σ) (s : σ × VfsEntries σ) :
    FindsOn dev (readMbr dev.withVfs offerPart s).2.2.2 (searchFs offerPart dev.withVfs s) ∧
    ((searchFs offerPart dev.withVfs s).1.isSome ↔ (readMbr dev.withVfs offerPart s).1 ≠ 0 ∧
      WholeMounted dev (readMbr dev.withVfs offerPart s).2.2) := by
  unfold searchFs WholeMounted
  generalize readMbr dev.withVfs offerPart s = r
  have hfat := tryFat_findsOn dev r.2.2
  simp only
  split_ifs with hmbr
  · exact ⟨.notFound rfl, by simp [hmbr]⟩
  · rcases hw : tryFat dev.withVfs r.2.2 with ⟨_ | fs, s'⟩
    · rw [hw] at hfat
      have hext := tryExt2_findsOn dev s'
      rw [show s'.2 = r.2.2.2 from hfat.entries] at hext
      exact ⟨hext, by simp [hmbr]⟩
    · rw [hw] at hfat
      exact ⟨hfat, by simp [hmbr]⟩

/-- **What a call adds**: entries on the device; the result says whether there are any just when no
partition is registered in vain. -/
theorem registerFs_entries (dev : BlockDevice σ) (partId : ℕ) (s : σ × VfsEntries σ) :
    ∃ added, (registerFsVfs dev partId s).2.2 = added ++ s.2 ∧ (∀ e ∈ added, OnDevice dev e) ∧
      (((registerFsVfs dev partId s).1 = 0 ↔ added ≠ []) ↔ Accounted dev partId s) := by
  by_cases hid : partId = 0
  · obtain ⟨added, hadded, hon, hmounted⟩ := readMbr_entries dev s
    obtain ⟨hfinds, hwhole⟩ := searchFs_findsOn dev s
    obtain ⟨hret, hentries⟩ := hfinds.registerFound
    have hcall : registerFsVfs dev partId s = registerFound vfsRegister (searchFs offerPart dev.withVfs s) :=
      if_pos hid
    rw [hcall, hentries, hret]
    refine ⟨(if (searchFs offerPart dev.withVfs s).1.isSome then [dev] else []) ++ added, ?_,
      fun e he => ?_, ?_⟩
    · rw [hadded, List.append_assoc]
    · rcases List.mem_append.mp he with he | he
      · split_ifs at he
        · exact Or.inl (List.mem_singleton.mp he)
        · exact absurd he List.not_mem_nil
      · exact hon e he
    · simp only [Accounted, hid, forall_const, ← hwhole, ← hmounted]
      split_ifs with h <;> simp [h]
  · obtain ⟨hret, hentries⟩ := registerPart_entries dev partId s
    have hcall : registerFsVfs dev partId s = registerPart vfsRegister dev.withVfs partId s := if_neg hid
    rw [hcall, hret]
    refine ⟨_, hentries, fun e he => ?_, ?_⟩
    · split_ifs at he
      · exact Or.inl (List.mem_singleton.mp he)
      · exact absurd he List.not_mem_nil
    · refine iff_of_true ?_ fun h => absurd h hid
      split_ifs with h <;> simp [h]

theorem added_iff {dev : BlockDevice σ} {entries added : VfsEntries σ} (h : ∀ e ∈ added, OnDevice dev e) :
    Added dev entries (added ++ entries) ↔ added ≠ [] := by
  constructor
  · rintro ⟨added', heq, e, he, -⟩ rfl
    obtain rfl : [] = added' := List.append_cancel_right heq
    exact absurd he List.not_mem_nil
  · intro hne
    obtain ⟨e, he⟩ := List.exists_mem_of_ne_nil added hne
    exact ⟨added, rfl, e, he, h e he⟩

/-- A partition table with one partition of the id `0xda`, in the second of four blocks. -/
def partitionedMemory : Mem :=
  patch (patch (fun _ => 0) 0x1c2 [0xda, 0, 0, 0, 1, 0, 0, 0, 1, 0, 0, 0]) 0x1fe [0x55, 0xaa]

/-- The partition is registered, and `register_fs` returns `-1`. -/
theorem register_fs_broken :
    ¬ ((registerFsVfs (storeDevice 4) 0 (partitionedMemory, [])).1 = 0 ↔
      Added (storeDevice 4) [] (registerFsVfs (storeDevice 4) 0 (partitionedMemory, [])).2.2) := by
  obtain ⟨added, hadded, hon, -⟩ := registerFs_entries (storeDevice 4) 0 (partitionedMemory, [])
  have hret : (registerFsVfs (storeDevice 4) 0 (partitionedMemory, [])).1 = -1 := by decide +kernel
  have hlen : (registerFsVfs (storeDevice 4) 0 (partitionedMemory, [])).2.2.length = 1 := by decide +kernel
  have hne : added ≠ [] := by
    rintro rfl
    rw [hadded] at hlen
    exact absurd hlen (by decide)
  rw [hret, hadded, added_iff hon]
  exact fun h => absurd (h.mpr hne) (by decide)

/-- A ramdisk as a device without the list. -/
theorem ramdiskDevice_eq (rdev : RamdiskDev) :
    (ramdiskDevice rdev : BlockDevice (Mem × VfsEntries Mem)) =
      (ramdiskDevice rdev : BlockDevice (Mem × VfsEntries Mem)).ofVfs.withVfs := rfl

/-- **Registering filesystems.** For every device and partition id, `register_fs` returns `0` if and only
if an entry for a filesystem on the device has been added, just when no partition is registered in vain.
Then, when `ramdisk_init` fails and frees its device, no entry is left behind. -/
theorem register_fs_iff :
    (∀ (dev : BlockDevice σ) (partId : ℕ) (s : σ × VfsEntries σ),
      ((registerFsVfs dev partId s).1 = 0 ↔ Added dev s.2 (registerFsVfs dev partId s).2.2) ↔
        Accounted dev partId s) ∧
    ∀ (chunks : Chunks) (address size fsType : ℕ) (s : Mem × VfsEntries Mem),
      Accounted (ramdiskDevice ⟨0, 0⟩ : BlockDevice (Mem × VfsEntries Mem)).ofVfs fsType s →
      ∀ r ∈ ramdiskInit vfsRegister chunks address size fsType s, r.1 ≠ 0 → r.2.2.2.2 = s.2 := by
  constructor
  · intro dev partId s
    obtain ⟨added, hadded, hon, hiff⟩ := registerFs_entries dev partId s
    rw [hadded, added_iff hon]
    exact hiff
  · intro chunks address size fsType s hacc r hr hret
    obtain ⟨g, -, rfl⟩ := Option.map_eq_some_iff.mp hr
    by_cases hg : g.1 = 0
    · rw [if_pos hg]
    · rw [if_neg hg] at hret ⊢
      obtain ⟨added, hadded, hon, hiff⟩ :=
        registerFs_entries (ramdiskDevice ⟨0, 0⟩ : BlockDevice (Mem × VfsEntries Mem)).ofVfs fsType s
      have hempty : added = [] := not_not.mp (mt (hiff.mpr hacc).mpr hret)
      rw [hempty] at hadded
      exact hadded

end RpiBoot
