import RpiBoot.Lib.Run
import RpiBoot.Libfs.Register
import RpiBoot.Memchunk.Model

/-!
# Ramdisks (`ramdisk.c`)

A ramdisk is a device that serves requests from memory, by the address and the size that its structure
holds. `ramdisk_init` clears the structure and sets neither of them. The state of the device is memory
and the state `ν` of the rest; the caller's buffer lies elsewhere, and is word aligned: nothing looks at
its address before `quick_memcpy`, which loads and stores whole words.

* `ramdiskRead`, `ramdiskWrite`, `ramdiskInit`: the functions of `ramdisk.c`.
* `Serviced`: a request is served from the memory that the ramdisk was asked for.
* `Coincides`: what is at the blocks counted from address `0` is what is in the ramdisk.
* **`ramdisk_service_iff`**: the first just when the second, along any run.
-/

namespace RpiBoot

open Store Runs

variable {ν : Type}

/-- The fields that `struct ramdisk_dev` adds to the block device. -/
structure RamdiskDev where
  address : ℕ
  size : ℕ

/-- The number of bytes of a request that lie before the end of the ramdisk. -/
def RamdiskDev.clamp (rdev : RamdiskDev) (startAddress bufSize : ℕ) : ℕ :=
  let ramdiskEnd := u32 (rdev.address + rdev.size)
  if bufSize > sub32 ramdiskEnd startAddress then sub32 ramdiskEnd startAddress else bufSize

/-- The number of bytes that are copied: `quick_memcpy` copies 16 at least. -/
def ramdiskCopy (startAddress bufSize : ℕ) : ℕ :=
  if startAddress % 16 = 0 ∧ bufSize % 16 = 0 then max bufSize 16 else bufSize

/-- `ramdisk_read(dev, buf, buf_size, block_no)`. -/
def ramdiskRead (rdev : RamdiskDev) : ReadFn (Mem × ν) := fun s _ bufSize blockNo =>
  let startAddress := u32 (rdev.address + u32 (512 * blockNo))
  let bufSize := rdev.clamp startAddress bufSize
  (⟨i32 bufSize, slice s.1 startAddress (ramdiskCopy startAddress bufSize)⟩, s)

/-- `ramdisk_write(dev, buf, buf_size, block_no)`. -/
def ramdiskWrite (rdev : RamdiskDev) : WriteFn (Mem × ν) := fun s mem buf bufSize blockNo =>
  let startAddress := u32 (rdev.address + u32 (512 * blockNo))
  let bufSize := rdev.clamp startAddress bufSize
  (⟨i32 bufSize, ramdiskCopy startAddress bufSize⟩,
    (patch s.1 startAddress (slice mem buf (ramdiskCopy startAddress bufSize)), s.2))

/-- The block device of a ramdisk. -/
def ramdiskDevice (rdev : RamdiskDev) : BlockDevice (Mem × ν) where
  blockSize := 512
  numBlocks := 0
  supportsMultipleBlockRead := true
  supportsMultipleBlockWrite := true
  read := some (ramdiskRead rdev)
  write := some (ramdiskWrite rdev)
  blockSize_pos := sector_pos
  blockSize_lt := sector_lt

/-- `ramdisk_init(address, size, fs_type, name)`: the result and the device; a device that is not
registered is freed. `none` is a search for memory that does not end. -/
def ramdiskInit (vfsRegister : MountedFs (Mem × ν) → Mem × ν → Mem × ν) (chunks : Chunks)
    (address size fsType : ℕ) (s : Mem × ν) :
    Option (ℤ × Option (BlockDevice (Mem × ν)) × Chunks × (Mem × ν)) :=
  (if address = 0 then chunkGetAnyChunk chunks size else some (address, chunks)).map fun r =>
    if r.1 = 0 then (-1, none, r.2, s)
    else
      -- the structure is cleared; neither the address nor the size is put in
      let rdev : RamdiskDev := ⟨0, 0⟩
      let ret := registerFs vfsRegister (ramdiskDevice rdev) fsType s
      (ret.1, if ret.1 ≠ 0 then none else some (ramdiskDevice rdev), r.2, ret.2)

/-! ## Requests -/

/-- A request to the device: for a number of bytes from a block on, into or from the caller's buffer. -/
inductive RamdiskCall where
  | read (buf n block : ℕ)
  | write (mem : Mem) (buf n block : ℕ)

/-- The request lies within a ramdisk of the given size. -/
def RamdiskCall.Inside (size : ℕ) : RamdiskCall → Prop
  | .read _ n block => 512 * block + n ≤ size
  | .write _ _ n block => 512 * block + n ≤ size

def ramdiskStep (dev : BlockDevice (Mem × ν)) (s : Mem × ν) : RamdiskCall → Option (Mem × ν)
  | .read buf n block => dev.read.map fun rd => (rd s buf n block).2
  | .write mem buf n block => dev.write.map fun wr => (wr s mem buf n block).2

/-- The request is served from the memory at `address`. -/
def Serviced (dev : BlockDevice (Mem × ν)) (address : ℕ) (s : Mem × ν) : RamdiskCall → Prop
  | .read buf n block => ∃ rd, dev.read = some rd ∧ (rd s buf n block).1.ret = i32 n ∧
      (rd s buf n block).1.data.take n = slice s.1 (address + 512 * block) n ∧
      (rd s buf n block).2 = s
  | .write mem buf n block => ∃ wr, dev.write = some wr ∧ (wr s mem buf n block).1.ret = i32 n ∧
      (wr s mem buf n block).2 = (patch s.1 (address + 512 * block) (slice mem buf n), s.2)

/-- What a request finds at the blocks counted from address `0` is what it should find in the ramdisk at
`address`. A read of any bytes is not of block `0`, and the blocks have the same contents. What a write
has to write is there already at both places, and repeats itself where these overlap; a write of no
bytes copies 16. -/
def Coincides (address : ℕ) (s : Mem × ν) : RamdiskCall → Prop
  | .read _ n block =>
    n = 0 ∨ 0 < block ∧ slice s.1 (512 * block) n = slice s.1 (address + 512 * block) n
  | .write mem buf n block =>
    n = 0 ∧ slice s.1 (512 * block) 16 = slice mem buf 16 ∨
    0 < n ∧ 0 < block ∧ ∀ i < n, (i < address → s.1 (512 * block + i) = mem (buf + i)) ∧
      (n ≤ i + address → s.1 (address + 512 * block + i) = mem (buf + i)) ∧
      (address ≤ i → mem (buf + i) = mem (buf + (i - address)))

/-! ## The device that is registered -/

/-- Whatever the request of `ramdisk_init` was, its device is that of a cleared structure. -/
theorem ramdiskInit_device {vfsRegister : MountedFs (Mem × ν) → Mem × ν → Mem × ν}
    {chunks chunks' : Chunks} {address size fsType : ℕ} {s s' : Mem × ν} {ret : ℤ}
    {dev : BlockDevice (Mem × ν)}
    (h : ramdiskInit vfsRegister chunks address size fsType s = some (ret, some dev, chunks', s')) :
    dev = ramdiskDevice ⟨0, 0⟩ := by
  obtain ⟨r, -, hr⟩ := Option.map_eq_some_iff.mp h
  split_ifs at hr
  · cases hr
  · dsimp only at hr
    split_ifs at hr
    · cases hr
    · cases hr
      rfl

/-- Nothing of block `0` is before the end of a cleared ramdisk, and all of what follows is. -/
theorem clamp_zero {n block : ℕ} (h : 512 * block + n < 2 ^ 32) :
    RamdiskDev.clamp ⟨0, 0⟩ (512 * block) n = if block = 0 then 0 else n := by
  have hend : u32 (0 + 0) = 0 := rfl
  have hsub : sub32 0 (512 * block) = if block = 0 then 0 else 2 ^ 32 - 512 * block := by
    unfold sub32 u32
    split_ifs <;> omega
  simp only [RamdiskDev.clamp, hend, hsub]
  split_ifs <;> omega

theorem ramdiskRead_zero {n block : ℕ} (h : 512 * block + n < 2 ^ 32) (s : Mem × ν) (buf : ℕ) :
    ramdiskRead ⟨0, 0⟩ s buf n block =
      (⟨i32 (if block = 0 then 0 else n), slice s.1 (512 * block)
        (ramdiskCopy (512 * block) (if block = 0 then 0 else n))⟩, s) := by
  have hstart : u32 (0 + u32 (512 * block)) = 512 * block := by
    rw [Nat.zero_add, u32_u32, u32_of_lt (by omega)]
  simp only [ramdiskRead, hstart, clamp_zero h]

theorem ramdiskWrite_zero {n block : ℕ} (h : 512 * block + n < 2 ^ 32) (s : Mem × ν) (mem : Mem)
    (buf : ℕ) :
    ramdiskWrite ⟨0, 0⟩ s mem buf n block =
      (⟨i32 (if block = 0 then 0 else n), ramdiskCopy (512 * block) (if block = 0 then 0 else n)⟩,
        (patch s.1 (512 * block) (slice mem buf
          (ramdiskCopy (512 * block) (if block = 0 then 0 else n))), s.2)) := by
  have hstart : u32 (0 + u32 (512 * block)) = 512 * block := by
    rw [Nat.zero_add, u32_u32, u32_of_lt (by omega)]
  simp only [ramdiskWrite, hstart, clamp_zero h]

theorem ramdiskCopy_block (block n : ℕ) : ramdiskCopy (512 * block) n = if n = 0 then 16 else n := by
  unfold ramdiskCopy
  split_ifs <;> omega

/-- A count that is not the count of a request. -/
theorem i32_zero_ne {n : ℕ} (h₀ : 0 < n) (h : n < 2 ^ 32) : i32 0 ≠ i32 n := by
  unfold i32
  rw [u32_of_lt h]
  split_ifs <;> simp <;> omega

/-- **One request.** -/
theorem serviced_iff {address size : ℕ} (ha : 0 < address) (hsize : size < 2 ^ 32) {s : Mem × ν}
    {o : RamdiskCall} (ho : o.Inside size) :
    Serviced (ramdiskDevice ⟨0, 0⟩) address s o ↔ Coincides address s o := by
  cases o with
  | read buf n block =>
    have h : 512 * block + n < 2 ^ 32 := Nat.lt_of_le_of_lt ho hsize
    simp only [Serviced, ramdiskDevice, Option.some.injEq, exists_eq_left', Coincides]
    rw [ramdiskRead_zero h, ramdiskCopy_block]
    rcases Nat.eq_zero_or_pos n with rfl | hn
    · simp
    · rcases Nat.eq_zero_or_pos block with rfl | hb
      · have hne := i32_zero_ne hn (by omega)
        simp [hne, hn.ne']
      · simp [hb, hb.ne', hn.ne', take_slice]
  | write mem buf n block =>
    have h : 512 * block + n < 2 ^ 32 := Nat.lt_of_le_of_lt ho hsize
    simp only [Serviced, ramdiskDevice, Option.some.injEq, exists_eq_left', Coincides]
    rw [ramdiskWrite_zero h, ramdiskCopy_block]
    rcases Nat.eq_zero_or_pos n with rfl | hn
    · -- 16 bytes are written where none should be
      have hfix : patch s.1 (512 * block) (slice mem buf 16) = s.1 ↔
          slice s.1 (512 * block) 16 = slice mem buf 16 := by
        constructor
        · intro heq
          have := slice_patch_slice s.1 mem (512 * block) buf 16
          rwa [heq] at this
        · intro heq
          rw [← heq, patch_slice]
      simp [Prod.ext_iff, hfix]
    · rcases Nat.eq_zero_or_pos block with rfl | hb
      · have hne := i32_zero_ne hn (by omega)
        simp [hne, hn.ne']
      · simp [hb, hb.ne', hn, hn.ne', patch_slice_eq_patch_slice_iff ha]

/-- A ramdisk of 1024 bytes at 1 MiB, of which the second block is full of `1`; other memory is `0`. -/
def ramdiskMemory : Mem := patch (fun _ => 0) 0x100200 (List.replicate 512 1)

/-- Block 1 of the ramdisk is read as what is at address 512. -/
theorem ramdisk_service_broken : ∃ dev chunks s,
    ramdiskInit (fun _ s => s) Chunks.init 0x100000 1024 0xda (ramdiskMemory, ()) =
      some (0, some dev, chunks, s) ∧
    ¬ Serviced dev 0x100000 s (.read 0x200000 512 1) := by
  refine ⟨_, _, _, rfl, fun h => ?_⟩
  have hin : (RamdiskCall.read 0x200000 512 1).Inside 1024 := (by decide : 512 * 1 + 512 ≤ 1024)
  rcases (serviced_iff (by decide) (by decide) hin).mp h with h | ⟨-, h⟩
  · exact absurd h (by decide)
  · exact absurd (slice_eq_iff.mp h 0 (by decide)) (by decide)

/-- **The ramdisk service.** Along every run of requests to the device that `ramdisk_init` registers, each
request within the ramdisk is served from its memory if and only if the memory at the block counted from
address `0` coincides with it. -/
theorem ramdisk_service_iff {vfsRegister : MountedFs (Mem × ν) → Mem × ν → Mem × ν}
    {chunks chunks' : Chunks} {address size fsType : ℕ} {s s' : Mem × ν}
    {dev : BlockDevice (Mem × ν)} (ha : 0 < address) (hsize : size < 2 ^ 32)
    (hinit : ramdiskInit vfsRegister chunks address size fsType s = some (0, some dev, chunks', s'))
    {calls : List RamdiskCall} (hcalls : ∀ o ∈ calls, o.Inside size) :
    Along (ramdiskStep dev) (Serviced dev address) s' calls ↔
      Along (ramdiskStep dev) (Coincides address) s' calls := by
  obtain rfl := ramdiskInit_device hinit
  clear hinit
  induction calls generalizing s' with
  | nil => exact Iff.rfl
  | cons o calls ih =>
    have ho := serviced_iff ha hsize (s := s') (hcalls o List.mem_cons_self)
    have ih := fun t => @ih t fun o' ho' => hcalls o' (List.mem_cons_of_mem o ho')
    simp only [Along, ho, ih]

/-- Reads of both blocks, and writes to them between. -/
def ramdiskCalls : List RamdiskCall :=
  [.read 0x200000 512 1, .write ramdiskMemory 0x100200 512 0, .read 0x200000 1024 0,
    .write ramdiskMemory 0x300000 512 1, .read 0x200000 512 1]

/-- A ramdisk with a block of ones behind a block of zeros. -/
theorem ramdisk_service_iff_calls : ∃ dev chunks s,
    ramdiskInit (fun _ s => s) Chunks.init 0x100000 1024 0xda (ramdiskMemory, ()) =
      some (0, some dev, chunks, s) ∧
    (Along (ramdiskStep dev) (Serviced dev 0x100000) s ramdiskCalls ↔
      Along (ramdiskStep dev) (Coincides 0x100000) s ramdiskCalls) := by
  obtain ⟨dev, chunks, s, h⟩ : ∃ dev chunks s,
      ramdiskInit (fun _ s => s) Chunks.init 0x100000 1024 0xda (ramdiskMemory, ()) =
        some (0, some dev, chunks, s) := ⟨_, _, _, rfl⟩
  refine ⟨dev, chunks, s, h, ramdisk_service_iff (by decide) (by decide) h ?_⟩
  simp only [ramdiskCalls, List.forall_mem_cons, RamdiskCall.Inside]
  exact ⟨by decide, by decide, by decide, by decide, by decide, fun o ho => absurd ho List.not_mem_nil⟩

end RpiBoot
