import RpiBoot.Slashes

/-!
# The boot configuration (`main.c`, `vfs.c`)

`libfs_init` registers the filesystems it finds. `find_and_run_config` then looks for a configuration
file, on the default device first and on every device of the list after that, and hands its contents to
the parser.

* `VfsTable.vfsAdd`, `VfsTable.vfsRegister`: what is kept of a filesystem.
* `findConfig`: the search of `find_and_run_config`.
* `findAndRunConfig`: the whole function.
-/

namespace RpiBoot

variable {φ ω ι : Type}

/-- `boot_cfg_names`: `/boot/rpi_boot.cfg`, `/boot/rpi-boot.cfg` and `/boot/grub/grub.cfg`. -/
def bootCfgNames : List (List UInt8) :=
  [[0x2f, 0x62, 0x6f, 0x6f, 0x74, 0x2f, 0x72, 0x70, 0x69, 0x5f, 0x62, 0x6f, 0x6f, 0x74, 0x2e, 0x63, 0x66, 0x67],
    [0x2f, 0x62, 0x6f, 0x6f, 0x74, 0x2f, 0x72, 0x70, 0x69, 0x2d, 0x62, 0x6f, 0x6f, 0x74, 0x2e, 0x63, 0x66, 0x67],
    [0x2f, 0x62, 0x6f, 0x6f, 0x74, 0x2f, 0x67, 0x72, 0x75, 0x62, 0x2f, 0x67, 0x72, 0x75, 0x62, 0x2e, 0x63, 0x66,
      0x67]]

/-! ## Registered filesystems -/

/-- `MAX_DEV_NAMES`. -/
def maxDevNames : ℕ := 256

/-- The variables of `vfs.c`: the list, the default entry, and `device_names` up to the null pointer. -/
structure VfsTable (φ : Type) extends VfsState φ where
  deviceNames : List (List UInt8)

namespace VfsTable

/-- The variables before anything is registered. -/
def empty : VfsTable φ := ⟨⟨[], none⟩, []⟩

/-- `vfs_add(ve)`. -/
def vfsAdd (t : VfsTable φ) (ve : VfsEntry φ) : VfsTable φ where
  first := ve :: t.first
  dflt := t.dflt
  deviceNames :=
    if t.deviceNames.length < maxDevNames - 1 then t.deviceNames ++ [ve.deviceName] else t.deviceNames

/-- `vfs_register(fs)`; there is no entry to add when `fs` or `fs->parent` is a null pointer. -/
def vfsRegister (t : VfsTable φ) : Option (VfsEntry φ) → ℤ × VfsTable φ
  | none => (-1, t)
  | some ve =>
    let t := t.vfsAdd ve
    (0, if t.dflt.isNone then { t with dflt := some ve } else t)

/-- The variables after the filesystems have been registered, one after another. -/
def registerAll (regs : List (VfsEntry φ)) : VfsTable φ :=
  regs.foldl (fun t ve => (t.vfsRegister (some ve)).2) empty

end VfsTable

/-! ## The search -/

/-- A loop of `find_and_run_config` over file names: the name found and the open file. -/
def findCfg (fopen : List UInt8 → ω → Option (Option ι × ω)) :
    List (List UInt8) → ω → Option (Option (List UInt8 × ι) × ω)
  | [], w => some (none, w)
  | fname :: fnames, w => (fopen fname w).bind fun r =>
    match r.1 with
    | some f => some (some (fname, f), r.2)
    | none => findCfg fopen fnames r.2

/-- `new_str`: the file on a device. -/
def devicePath (dev fname : List UInt8) : List UInt8 := openParen :: (dev ++ closeParen :: fname)

/-- The loop of `find_and_run_config` over the devices. -/
def findOnDevices (fopen : List UInt8 → ω → Option (Option ι × ω)) :
    List (List UInt8) → ω → Option (Option (List UInt8 × ι) × ω)
  | [], w => some (none, w)
  | dev :: devs, w => (findCfg fopen (bootCfgNames.map (devicePath dev)) w).bind fun r =>
    match r.1 with
    | some f => some (some f, r.2)
    | none => findOnDevices fopen devs r.2

/-- The search of `find_and_run_config`; `none` is a read behind the end of a path. -/
def findConfig (ops : FsOps φ ω ι) (t : VfsTable φ) (w : ω) : Option (Option (List UInt8 × ι) × ω) :=
  let fopen := fun path => vfsFopen ops t.toVfsState (some path) "r"
  (findCfg fopen bootCfgNames w).bind fun r =>
    match r.1 with
    | some f => some (some f, r.2)
    | none => findOnDevices fopen t.deviceNames r.2

/-- The calls on an open file that the loader makes to read its configuration. -/
structure FileOps (φ ω ι : Type) extends FsOps φ ω ι where
  fsize : ι → ω → ℤ
  fread : ι → (ptr size nmemb : ℕ) → Mem × ω → ℕ × (Mem × ω)
  fclose : ι → ω → ω

/-- `find_and_run_config`; `buf` is what `malloc` returns, and `cfgParse` is `multiboot_cfg_parse`. -/
def findAndRunConfig (ops : FileOps φ ω ι) (t : VfsTable φ) (buf : ℕ) (cfgParse : ℕ → Mem × ω → Mem × ω)
    (mem : Mem) (w : ω) : Option (Mem × ω) :=
  (findConfig ops.toFsOps t w).map fun r =>
    match r.1 with
    | none => (mem, r.2)
    | some (_, f) =>
      let flen := ops.fsize f r.2
      -- null terminate
      let mem := Function.update mem (buf + flen).toNat 0
      let r := ops.fread f buf 1 (toU32 flen) (mem, r.2)
      cfgParse buf (r.2.1, ops.fclose f r.2.2)

end RpiBoot
