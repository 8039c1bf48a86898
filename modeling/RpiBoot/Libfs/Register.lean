import RpiBoot.Ext2.Model
import RpiBoot.Fat.Model
import RpiBoot.Mbr
import RpiBoot.Nofs.Model

/-!
# Registering filesystems (`register_fs` of `libfs.c`)

* `MountedFs`: what a filesystem driver has made of a device, `dev->fs`.
* `registerPart`: a partition id that stands for a filesystem.
* `registerFs`: the same, and the search for a partition table and then for any filesystem.
-/

namespace RpiBoot

/-- A filesystem on a device. -/
inductive MountedFs (σ : Type) where
  | fat (fs : FatFs σ)
  | ext2 (fs : Ext2Fs σ)
  | nofs (fs : Fs σ)

variable {σ : Type}

/-- `fat_init(dev, &dev->fs)`: the filesystem, if there is one. -/
def tryFat (dev : BlockDevice σ) (s : σ) : Option (MountedFs σ) × σ :=
  match fatInit dev s with
  | (.ok fs, s) => (some (.fat fs), s)
  | (.error _, s) => (none, s)

/-- `ext2_init(dev, &dev->fs)`: the filesystem, if there is one. -/
def tryExt2 (dev : BlockDevice σ) (s : σ) : Option (MountedFs σ) × σ :=
  match ext2Init dev s with
  | (.ok fs, s) => (some (.ext2 fs), s)
  | (.error _, s) => (none, s)

/-- The partition ids of FAT filesystems. -/
def fatPartIds : List ℕ := [1, 4, 6, 0xb, 0xc, 0xe, 0x11, 0x14, 0x1b, 0x1c, 0x1e]

/-- The driver for a partition id other than `0`. -/
def partFs (dev : BlockDevice σ) (partId : ℕ) (s : σ) : Option (MountedFs σ) × σ :=
  if partId ∈ fatPartIds then tryFat dev s
  else if partId = 0x83 then tryExt2 dev s
  else if partId = 0xda then (some (.nofs (nofsInit dev)), s)
  else (none, s)

/-- The filesystem that `register_fs` finds on a device that it has to search; none if there is a
partition table, of which the partitions are registered by themselves. -/
def searchFs (register : BlockDevice σ → ℕ → σ → σ) (dev : BlockDevice σ) (s : σ) :
    Option (MountedFs σ) × σ :=
  let r := readMbr dev register s
  if r.1 = 0 then (none, r.2.2)
  else match tryFat dev r.2.2 with
    | (some fs, s) => (some fs, s)
    | (none, s) => tryExt2 dev s

section Register

/- What `vfs_register` does to the state. -/
variable (vfsRegister : MountedFs σ → σ → σ)

/-- The last lines of `register_fs`. -/
def registerFound : Option (MountedFs σ) × σ → ℤ × σ
  | (some fs, s) => (0, vfsRegister fs s)
  | (none, s) => (-1, s)

/-- `register_fs(dev, part_id)` of a partition; its id is not `0`. -/
def registerPart (dev : BlockDevice σ) (partId : ℕ) (s : σ) : ℤ × σ :=
  registerFound vfsRegister (partFs dev partId s)

/-- `register_fs(dev, part_id)` of a device without a filesystem. -/
def registerFs (dev : BlockDevice σ) (partId : ℕ) (s : σ) : ℤ × σ :=
  if partId = 0 then
    registerFound vfsRegister
      (searchFs (fun dev partId s => (registerPart vfsRegister dev partId s).2) dev s)
  else registerPart vfsRegister dev partId s

end Register

end RpiBoot
