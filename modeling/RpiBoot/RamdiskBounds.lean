import RpiBoot.Lib.Footprint
import RpiBoot.Ramdisk

/-!
# What a ramdisk reads and writes

The end of the ramdisk minus the start of a request is taken modulo `2 ^ 32`, and `quick_memcpy` copies
16 bytes where it should copy none.

* `ReadBounded`, `WriteBounded`: a request stays in the ramdisk and in the caller's buffer, and its
  result counts the bytes.
* `RequestInside`: the request starts in the ramdisk, or there is nothing to copy and no quick copy.
* **`ramdisk_bounded_iff`**: the first two just when the third.
-/

namespace RpiBoot

open Store

variable {ν : Type}

/-- The memory of the ramdisk. -/
def RamdiskDev.memory (rdev : RamdiskDev) : Set ℕ := Set.Ico rdev.address (rdev.address + rdev.size)

/-- A read of `n` bytes from block `b` on reads the ramdisk alone and puts `n` bytes at most into the
buffer. Its result is the number of bytes, and `0` from the end of the ramdisk on. -/
structure ReadBounded (rdev : RamdiskDev) (x : ν) (buf n b : ℕ) : Prop where
  memory : ReadsOnly rdev.memory fun mem => (ramdiskRead rdev (mem, x) buf n b).1
  length_le : ∀ mem, (ramdiskRead rdev (mem, x) buf n b).1.data.length ≤ n
  ret_eq : ∀ mem, (ramdiskRead rdev (mem, x) buf n b).1.ret =
    (ramdiskRead rdev (mem, x) buf n b).1.data.length
  ret_zero : rdev.size ≤ 512 * b → ∀ mem, (ramdiskRead rdev (mem, x) buf n b).1.ret = 0

/-- A write of `n` bytes from block `b` on writes to the ramdisk alone, and takes `n` bytes at most from
the buffer in `src`. -/
structure WriteBounded (rdev : RamdiskDev) (x : ν) (src : Mem) (buf n b : ℕ) : Prop where
  memory : WritesOnly rdev.memory fun mem => (ramdiskWrite rdev (mem, x) src buf n b).2.1
  reach_le : ∀ mem, (ramdiskWrite rdev (mem, x) src buf n b).1.reach ≤ n
  ret_eq : ∀ mem, (ramdiskWrite rdev (mem, x) src buf n b).1.ret =
    (ramdiskWrite rdev (mem, x) src buf n b).1.reach
  ret_zero : rdev.size ≤ 512 * b → ∀ mem, (ramdiskWrite rdev (mem, x) src buf n b).1.ret = 0

/-- The request is for some bytes and starts in the ramdisk, which has fewer of them than `2 ^ 31`; or
there are no bytes between its start and its end, modulo `2 ^ 32`, and no quick copies. -/
def RequestInside (rdev : RamdiskDev) (n b : ℕ) : Prop :=
  n ≠ 0 ∧ 512 * b < rdev.size ∧ min n (rdev.size - 512 * b) < 2 ^ 31 ∨
    rdev.address % 16 ≠ 0 ∧ (n = 0 ∨ u32 (512 * b) = rdev.size)

/-! ## The request -/

/-- Where a request starts. -/
def RamdiskDev.startAddress (rdev : RamdiskDev) (b : ℕ) : ℕ := u32 (rdev.address + u32 (512 * b))

/-- How many bytes of it are counted. -/
def RamdiskDev.count (rdev : RamdiskDev) (n b : ℕ) : ℕ := rdev.clamp (rdev.startAddress b) n

/-- How many bytes of it are copied. -/
def RamdiskDev.copied (rdev : RamdiskDev) (n b : ℕ) : ℕ :=
  ramdiskCopy (rdev.startAddress b) (rdev.count n b)

variable {rdev : RamdiskDev} {n b : ℕ}

theorem ramdiskRead_eq (mem : Mem) (x : ν) (buf : ℕ) : ramdiskRead rdev (mem, x) buf n b =
    (⟨i32 (rdev.count n b), slice mem (rdev.startAddress b) (rdev.copied n b)⟩, (mem, x)) := rfl

theorem ramdiskWrite_eq (mem src : Mem) (x : ν) (buf : ℕ) : ramdiskWrite rdev (mem, x) src buf n b =
    (⟨i32 (rdev.count n b), rdev.copied n b⟩,
      (patch mem (rdev.startAddress b) (slice src buf (rdev.copied n b)), x)) := rfl

instance nontrivialUInt8 : Nontrivial UInt8 := ⟨0, 1, by decide⟩

/-- The range of a request is in the ramdisk and in the buffer, and its count is right. -/
structure RangeBounded (rdev : RamdiskDev) (n b : ℕ) : Prop where
  subset : Set.Ico (rdev.startAddress b) (rdev.startAddress b + rdev.copied n b) ⊆ rdev.memory
  copied_le : rdev.copied n b ≤ n
  count_eq : i32 (rdev.count n b) = rdev.copied n b
  count_zero : rdev.size ≤ 512 * b → i32 (rdev.count n b) = 0

theorem readBounded_iff (x : ν) (buf : ℕ) : ReadBounded rdev x buf n b ↔ RangeBounded rdev n b := by
  have hreads : (ReadsOnly rdev.memory fun mem => (ramdiskRead rdev (mem, x) buf n b).1) ↔
      Set.Ico (rdev.startAddress b) (rdev.startAddress b + rdev.copied n b) ⊆ rdev.memory := by
    rw [← readsOnly_slice_iff (α := UInt8)]
    simp only [ReadsOnly, ramdiskRead_eq, ReadReply.mk.injEq, true_and]
  constructor
  · rintro ⟨hmem, hle, hret, hzero⟩
    have hle := hle fun _ => 0
    have hret := hret fun _ => 0
    rw [ramdiskRead_eq, length_slice] at hle hret
    exact ⟨hreads.mp hmem, hle, hret, fun h => hzero h fun _ => 0⟩
  · rintro ⟨hmem, hle, hret, hzero⟩
    refine ⟨hreads.mpr hmem, fun mem => ?_, fun mem => ?_, fun h mem => hzero h⟩
    · rwa [ramdiskRead_eq, length_slice]
    · rwa [ramdiskRead_eq, length_slice]

theorem writeBounded_iff (x : ν) (src : Mem) (buf : ℕ) :
    WriteBounded rdev x src buf n b ↔ RangeBounded rdev n b := by
  have hwrites : (WritesOnly rdev.memory fun mem => (ramdiskWrite rdev (mem, x) src buf n b).2.1) ↔
      Set.Ico (rdev.startAddress b) (rdev.startAddress b + rdev.copied n b) ⊆ rdev.memory := by
    have h := writesOnly_patch_iff (P := rdev.memory) (a := rdev.startAddress b)
      (l := slice src buf (rdev.copied n b))
    rw [length_slice] at h
    simpa only [ramdiskWrite_eq] using h
  constructor
  · rintro ⟨hmem, hle, hret, hzero⟩
    have hle := hle fun _ => 0
    have hret := hret fun _ => 0
    rw [ramdiskWrite_eq] at hle hret
    exact ⟨hwrites.mp hmem, hle, hret, fun h => hzero h fun _ => 0⟩
  · rintro ⟨hmem, hle, hret, hzero⟩
    refine ⟨hwrites.mpr hmem, fun mem => ?_, fun mem => ?_, fun h mem => hzero h⟩
    · rwa [ramdiskWrite_eq]
    · rwa [ramdiskWrite_eq]

/-! ## Where it lies -/

theorem u32_block_mod (b : ℕ) : u32 (512 * b) % 16 = 0 := by
  unfold u32
  omega

theorem startAddress_mod : rdev.startAddress b % 16 = rdev.address % 16 := by
  have h := u32_block_mod b
  unfold RamdiskDev.startAddress
  rw [u32]
  omega

/-- What is left of the ramdisk, modulo `2 ^ 32`. -/
theorem count_eq (hsize : rdev.size < 2 ^ 32) : rdev.count n b =
    min n (if u32 (512 * b) ≤ rdev.size then rdev.size - u32 (512 * b)
      else 2 ^ 32 + rdev.size - u32 (512 * b)) := by
  have hlt := u32_lt (512 * b)
  have hleft : sub32 (u32 (rdev.address + rdev.size)) (rdev.startAddress b) =
      if u32 (512 * b) ≤ rdev.size then rdev.size - u32 (512 * b)
      else 2 ^ 32 + rdev.size - u32 (512 * b) := by
    unfold RamdiskDev.startAddress
    generalize u32 (512 * b) = d at *
    unfold sub32 u32
    split_ifs <;> omega
  unfold RamdiskDev.count RamdiskDev.clamp
  dsimp only
  rw [hleft]
  split_ifs <;> omega

/-- Nothing is counted at the end, or when nothing is asked for. -/
theorem count_eq_zero_iff (hsize : rdev.size < 2 ^ 32) :
    rdev.count n b = 0 ↔ n = 0 ∨ u32 (512 * b) = rdev.size := by
  have hlt := u32_lt (512 * b)
  rw [count_eq hsize]
  split_ifs <;> omega

/-- What is copied is what is counted, but for a quick copy of nothing. -/
theorem copied_eq : rdev.copied n b =
    if rdev.address % 16 = 0 ∧ rdev.count n b = 0 then 16 else rdev.count n b := by
  unfold RamdiskDev.copied ramdiskCopy
  rw [startAddress_mod]
  split_ifs <;> omega

theorem i32_eq_self_iff {k : ℕ} (h : k < 2 ^ 32) : i32 k = k ↔ k < 2 ^ 31 := by
  unfold i32
  rw [u32_of_lt h]
  split_ifs <;> omega

/-- A request for some bytes that starts in the ramdisk. -/
theorem rangeBounded_of_lt (hend : rdev.address + rdev.size ≤ 2 ^ 32) (hsize : rdev.size < 2 ^ 32) (hn : n ≠ 0)
    (hstart : 512 * b < rdev.size) (hsmall : min n (rdev.size - 512 * b) < 2 ^ 31) : RangeBounded rdev n b := by
  have hblock : u32 (512 * b) = 512 * b := u32_of_lt (by omega)
  have hat : rdev.startAddress b = rdev.address + 512 * b := by
    rw [RamdiskDev.startAddress, hblock, u32_of_lt (by omega)]
  have hcount : rdev.count n b = min n (rdev.size - 512 * b) := by
    rw [count_eq hsize, hblock, if_pos hstart.le]
  have hcopied : rdev.copied n b = min n (rdev.size - 512 * b) := by
    rw [copied_eq, if_neg (by omega), hcount]
  refine ⟨?_, ?_, ?_, fun hpast => absurd hstart (not_lt.mpr hpast)⟩
  · rw [hat, hcopied]
    exact Set.Ico_subset_Ico (by omega) (by omega)
  · rw [hcopied]
    exact min_le_left _ _
  · rw [hcopied, hcount, i32_of_lt hsmall]

/-- A request of which nothing is counted, and nothing is copied. -/
theorem rangeBounded_of_count_eq_zero (hal : rdev.address % 16 ≠ 0) (hcount : rdev.count n b = 0) :
    RangeBounded rdev n b := by
  have hcopied : rdev.copied n b = 0 := by
    rw [copied_eq, if_neg fun h => hal h.1, hcount]
  refine ⟨?_, ?_, ?_, fun _ => ?_⟩
  · rw [hcopied, Nat.add_zero, Set.Ico_self]
    exact Set.empty_subset _
  · rw [hcopied]
    exact Nat.zero_le n
  · rw [hcount, hcopied]
    rfl
  · rw [hcount]
    rfl

/-- **The range of a request.** -/
theorem rangeBounded_iff (hend : rdev.address + rdev.size ≤ 2 ^ 32) (hsize : rdev.size < 2 ^ 32)
    (hn : n < 2 ^ 32) : RangeBounded rdev n b ↔ RequestInside rdev n b := by
  have hcount := count_eq (n := n) (b := b) hsize
  have hzero := count_eq_zero_iff (n := n) (b := b) hsize
  have hlt : rdev.count n b < 2 ^ 32 := by
    rw [hcount]
    exact (min_le_left _ _).trans_lt hn
  constructor
  · rintro ⟨-, -, hret, hpast⟩
    rw [copied_eq] at hret
    split_ifs at hret with hquick
    · -- 16 bytes are copied and none is counted
      rw [hquick.2] at hret
      exact absurd hret (by decide)
    · have hsmall := (i32_eq_self_iff hlt).mp hret
      rcases Nat.eq_zero_or_pos (rdev.count n b) with h0 | hpos
      · exact Or.inr ⟨fun hal => hquick ⟨hal, h0⟩, hzero.mp h0⟩
      · have hstart : 512 * b < rdev.size := by
          by_contra hge
          have := hpast (not_lt.mp hge)
          omega
        have hblock : u32 (512 * b) = 512 * b := u32_of_lt (by omega)
        rw [hblock, if_pos hstart.le] at hcount
        exact Or.inl ⟨by omega, hstart, hcount ▸ hsmall⟩
  · rintro (⟨hn0, hstart, hsmall⟩ | ⟨hal, hnone⟩)
    · exact rangeBounded_of_lt hend hsize hn0 hstart hsmall
    · exact rangeBounded_of_count_eq_zero hal (hzero.mpr hnone)

/-- A read of 512 bytes from block 2 of a ramdisk of two blocks is one of the 16 bytes behind it. -/
theorem ramdisk_read_past_end :
    ¬ ReadBounded ⟨0x100000, 1024⟩ () 0x200000 512 2 := by
  rw [readBounded_iff, rangeBounded_iff (by decide) (by decide) (by decide), RequestInside]
  decide

/-- **The bounds of a ramdisk.** A read or a write stays in the ramdisk and in the caller's buffer and
returns the number of its bytes if and only if it is for some bytes and starts in the ramdisk, or copies
none. -/
theorem ramdisk_bounded_iff (hend : rdev.address + rdev.size ≤ 2 ^ 32)
    (hsize : rdev.size < 2 ^ 32) (hn : n < 2 ^ 32) (x : ν) (src : Mem) (buf : ℕ) :
    (ReadBounded rdev x buf n b ↔ RequestInside rdev n b) ∧
      (WriteBounded rdev x src buf n b ↔ RequestInside rdev n b) :=
  ⟨(readBounded_iff x buf).trans (rangeBounded_iff hend hsize hn),
    (writeBounded_iff x src buf).trans (rangeBounded_iff hend hsize hn)⟩

/-- The second block of the same ramdisk. -/
theorem ramdisk_bounded_iff_second : ReadBounded ⟨0x100000, 1024⟩ () 0x200000 512 1 ∧
    WriteBounded ⟨0x100000, 1024⟩ () (fun _ => 0) 0x200000 512 1 := by
  have hinside : RequestInside ⟨0x100000, 1024⟩ 512 1 := by
    rw [RequestInside]
    decide
  have h : (ReadBounded ⟨0x100000, 1024⟩ () 0x200000 512 1 ↔ RequestInside ⟨0x100000, 1024⟩ 512 1) ∧
      (WriteBounded ⟨0x100000, 1024⟩ () (fun _ => 0) 0x200000 512 1 ↔
        RequestInside ⟨0x100000, 1024⟩ 512 1) :=
    ramdisk_bounded_iff (by decide) (by decide) (by decide) () (fun _ => 0) 0x200000
  exact ⟨h.1.mpr hinside, h.2.mpr hinside⟩

end RpiBoot
