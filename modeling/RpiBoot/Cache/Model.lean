import Mathlib.Data.Nat.Bitwise
import RpiBoot.Block.Model

/-!
# The block cache (`block_cache.c`)

A write-through, direct-mapped cache in front of a parent device. A cache is a block device itself;
its state holds the tags, the memory from `cache_start` on and the state of the parent.

* `cacheInit`: the number of lines is rounded down to a power of two.
* `cacheRead`, `cacheWrite`: the two driver functions; `cacheUpdate` is the loop of the latter.
* `cacheUpdate_line_of_hit`, `cacheUpdate_line_of_miss`: what the loop leaves in a line.
-/

namespace RpiBoot

open Store

variable {σ : Type}

/-- `struct cache_dev`, without the array of tags. -/
structure CacheDev (σ : Type) where
  parent : BlockDevice σ
  cacheStart : ℕ
  cacheEntries : ℕ
  cacheMask : ℕ
  entries_eq : ∃ k, k < 31 ∧ cacheEntries = 2 ^ k
  mask_eq : cacheMask = cacheEntries - 1

/-- The mutable part of a cache: `cached_blocks`, the memory from `cache_start` on, the parent. -/
structure CacheState (σ : Type) where
  cachedBlocks : ℕ → ℕ
  lines : Mem
  parent : σ

/-- The tag of an empty slot. -/
def emptySlot : ℕ := 0xffffffff

/-- `while(cache_entries >>= 1) lg2++` for a positive `int`. -/
def lg2Loop : ℕ → ℕ → ℕ → ℕ
  | 0, _, lg2 => lg2
  | fuel + 1, n, lg2 => if n / 2 = 0 then lg2 else lg2Loop fuel (n / 2) (lg2 + 1)

theorem lg2Loop_lt {fuel n lg2 k : ℕ} (hn : n < 2 ^ k) (hk : 0 < k) :
    lg2Loop fuel n lg2 < lg2 + k := by
  induction fuel generalizing n lg2 k with
  | zero => simpa [lg2Loop] using hk
  | succ fuel ih =>
    rw [lg2Loop]
    split_ifs with h
    · omega
    · obtain ⟨k, rfl⟩ : ∃ m, k = m + 1 := ⟨k - 1, by omega⟩
      rw [pow_succ] at hn
      have hk0 : 0 < k := by
        rcases Nat.eq_zero_or_pos k with rfl | hk0
        · omega
        · exact hk0
      have hlt : lg2Loop fuel (n / 2) (lg2 + 1) < lg2 + 1 + k := ih (by omega) hk0
      omega

/-- `cache_init(parent, dev, cache_start, cache_length)`, where `mem` is the memory from
`cache_start` on and the allocations succeed. A number of lines that is negative as an `int` sends
the shift loop round for ever, so no device is made. -/
def cacheInit (parent : BlockDevice σ) (s : σ) (mem : Mem) (cacheStart cacheLength : ℕ) :
    Option (CacheDev σ × CacheState σ) :=
  let cacheEntries := i32 (cacheLength / parent.blockSize)
  if h : 0 < cacheEntries then
    let lg2 := lg2Loop 31 cacheEntries.toNat 0
    some (⟨parent, cacheStart, 1 <<< lg2, 1 <<< lg2 - 1,
      ⟨lg2, by
        have hlt : cacheEntries.toNat < 2 ^ 31 := by
          have := i32_lt (cacheLength / parent.blockSize)
          omega
        exact (lg2Loop_lt hlt (by decide)).trans_eq (Nat.zero_add 31), Nat.one_shiftLeft lg2⟩, rfl⟩,
      ⟨fun _ => emptySlot, mem, s⟩)
  else none

/-- `cache_idx(dev, block_no)`. -/
def cacheIdx (cd : CacheDev σ) (blockNo : ℕ) : ℕ := blockNo &&& cd.cacheMask

/-- `cache_read(dev, buf, buf_size, starting_block)`. -/
def cacheRead (cd : CacheDev σ) (rd : ReadFn σ) : ReadFn (CacheState σ) :=
  fun s buf bufSize startingBlock =>
    if bufSize > cd.parent.blockSize then
      let r := rd s.parent buf bufSize startingBlock
      (r.1, { s with parent := r.2 })
    else
      let idx := cacheIdx cd startingBlock
      let cacheBuf := cd.parent.blockSize * idx
      let m : ℕ × CacheState σ :=
        if s.cachedBlocks idx ≠ startingBlock then
          let r := rd s.parent (cd.cacheStart + cacheBuf) bufSize startingBlock
          -- only a whole block is cached
          let tag := if r.1.ret = i32 cd.parent.blockSize then startingBlock else emptySlot
          (toU32 r.1.ret,
            ⟨Function.update s.cachedBlocks idx tag, patch s.lines cacheBuf r.1.data, r.2⟩)
        else (bufSize, s)
      (⟨i32 m.1, slice m.2.lines cacheBuf (copyCount buf (cd.cacheStart + cacheBuf) m.1)⟩, m.2)

/-- The first `k` rounds of the update loop of `cache_write`. -/
def cacheUpdate (cd : CacheDev σ) (tags : ℕ → ℕ) (mem : Mem) (buf startingBlock : ℕ) :
    ℕ → Mem → Mem
  | 0, lines => lines
  | i + 1, lines =>
    let lines' := cacheUpdate cd tags mem buf startingBlock i lines
    let idx := cacheIdx cd (u32 (startingBlock + i))
    if tags idx = u32 (startingBlock + i) then
      patch lines' (idx * cd.parent.blockSize)
        (slice mem (buf + i * cd.parent.blockSize) cd.parent.blockSize)
    else lines'

/-- How far into the caller's buffer these rounds read. -/
def updateReach (cd : CacheDev σ) (tags : ℕ → ℕ) (startingBlock : ℕ) : ℕ → ℕ
  | 0 => 0
  | i + 1 =>
    if tags (cacheIdx cd (u32 (startingBlock + i))) = u32 (startingBlock + i) then
      (i + 1) * cd.parent.blockSize
    else updateReach cd tags startingBlock i

/-- `cache_write(dev, buf, buf_size, starting_block)`. -/
def cacheWrite (cd : CacheDev σ) (wr : WriteFn σ) : WriteFn (CacheState σ) :=
  fun s mem buf bufSize startingBlock =>
    if bufSize % cd.parent.blockSize ≠ 0 then (⟨-1, 0⟩, s)
    else
      let r := wr s.parent mem buf bufSize startingBlock
      let bufSize' := toU32 r.1.ret
      let blockCount := (i32 (bufSize' / cd.parent.blockSize)).toNat
      (⟨i32 bufSize', max r.1.reach (updateReach cd s.cachedBlocks startingBlock blockCount)⟩,
        ⟨s.cachedBlocks, cacheUpdate cd s.cachedBlocks mem buf startingBlock blockCount s.lines, r.2⟩)

/-- The device that `cache_init` makes. -/
def cacheDevice (cd : CacheDev σ) : BlockDevice (CacheState σ) where
  blockSize := cd.parent.blockSize
  numBlocks := cd.parent.numBlocks
  supportsMultipleBlockRead := cd.parent.supportsMultipleBlockRead
  supportsMultipleBlockWrite := cd.parent.supportsMultipleBlockWrite
  read := cd.parent.read.map (cacheRead cd)
  write := cd.parent.write.map (cacheWrite cd)
  blockSize_pos := cd.parent.blockSize_pos
  blockSize_lt := cd.parent.blockSize_lt

/-! ## Slots -/

variable (cd : CacheDev σ)

theorem cacheIdx_eq (b : ℕ) : cacheIdx cd b = b % cd.cacheEntries := by
  obtain ⟨k, -, hk⟩ := cd.entries_eq
  rw [cacheIdx, cd.mask_eq, hk, Nat.and_two_pow_sub_one_eq_mod]

/-- The lines of two slots do not overlap. -/
theorem line_disjoint {i j : ℕ} (h : i ≠ j) :
    cd.parent.blockSize * i + cd.parent.blockSize ≤ cd.parent.blockSize * j ∨
      cd.parent.blockSize * j + cd.parent.blockSize ≤ cd.parent.blockSize * i := by
  rcases Nat.lt_or_gt_of_ne h with h | h
  · exact Or.inl (by rw [← Nat.mul_succ]; exact Nat.mul_le_mul_left _ h)
  · exact Or.inr (by rw [← Nat.mul_succ]; exact Nat.mul_le_mul_left _ h)

/-! ## The paths of `cache_read` -/

variable {cd} {rd : ReadFn σ} {st : CacheState σ} {buf n b : ℕ}

theorem cacheRead_of_gt (hn : cd.parent.blockSize < n) :
    cacheRead cd rd st buf n b = ((rd st.parent buf n b).1, { st with parent := (rd st.parent buf n b).2 }) :=
  if_pos hn

theorem cacheRead_hit (hn : n ≤ cd.parent.blockSize) (h : st.cachedBlocks (cacheIdx cd b) = b) :
    cacheRead cd rd st buf n b = (⟨i32 n, slice st.lines (cd.parent.blockSize * cacheIdx cd b)
      (copyCount buf (cd.cacheStart + cd.parent.blockSize * cacheIdx cd b) n)⟩, st) := by
  rw [cacheRead, if_neg (by omega)]
  simp only [ne_eq, h, not_true, if_false]

theorem cacheRead_miss {ret : ℤ} {data : List UInt8} {s' : σ} (hn : n ≤ cd.parent.blockSize)
    (h : st.cachedBlocks (cacheIdx cd b) ≠ b)
    (hr : rd st.parent (cd.cacheStart + cd.parent.blockSize * cacheIdx cd b) n b =
      (⟨ret, data⟩, s')) :
    cacheRead cd rd st buf n b =
      (⟨i32 (toU32 ret), slice (patch st.lines (cd.parent.blockSize * cacheIdx cd b) data)
          (cd.parent.blockSize * cacheIdx cd b)
          (copyCount buf (cd.cacheStart + cd.parent.blockSize * cacheIdx cd b) (toU32 ret))⟩,
        ⟨Function.update st.cachedBlocks (cacheIdx cd b)
            (if ret = i32 cd.parent.blockSize then b else emptySlot),
          patch st.lines (cd.parent.blockSize * cacheIdx cd b) data, s'⟩) := by
  rw [cacheRead, if_neg (by omega)]
  simp only [ne_eq, h, not_false_iff, if_true, hr]

/-! ## The update loop -/

variable {tags : ℕ → ℕ} {mem lines : Mem}

/-- A line whose block is none of those written. -/
theorem cacheUpdate_line_of_miss {idx : ℕ} :
    ∀ k, (∀ i < k, tags idx = u32 (b + i) → cacheIdx cd (u32 (b + i)) ≠ idx) →
      slice (cacheUpdate cd tags mem buf b k lines) (cd.parent.blockSize * idx) cd.parent.blockSize =
        slice lines (cd.parent.blockSize * idx) cd.parent.blockSize
  | 0, _ => rfl
  | k + 1, h => by
    have ih := cacheUpdate_line_of_miss k fun i hi => h i (by omega)
    rw [cacheUpdate]
    split_ifs with ht
    · have hne : idx ≠ cacheIdx cd (u32 (b + k)) := fun he =>
        h k (Nat.lt_succ_self k) (by rw [he]; exact ht) he.symm
      have hd := line_disjoint cd hne
      rw [slice_patch_of_disjoint (by rw [length_slice, Nat.mul_comm _ cd.parent.blockSize]; omega),
        ih]
    · exact ih

/-- A line whose block is the `j`-th of those written. -/
theorem cacheUpdate_line_of_hit {idx j : ℕ} (hidx : cacheIdx cd (u32 (b + j)) = idx)
    (ht : tags idx = u32 (b + j)) :
    ∀ k, k ≤ 2 ^ 32 → j < k →
      slice (cacheUpdate cd tags mem buf b k lines) (cd.parent.blockSize * idx) cd.parent.blockSize =
        slice mem (buf + j * cd.parent.blockSize) cd.parent.blockSize
  | 0, _, h => absurd h (Nat.not_lt_zero j)
  | k + 1, hk, h => by
    rcases Nat.lt_succ_iff_lt_or_eq.mp h with hj | rfl
    · have ih := cacheUpdate_line_of_hit hidx ht k (by omega) hj
      rw [cacheUpdate]
      split_ifs with ht'
      · -- a second write to the same slot would need two block numbers to be equal
        have hne : idx ≠ cacheIdx cd (u32 (b + k)) := fun he => by
          rw [← he, ht] at ht'
          unfold u32 at ht'
          omega
        have hd := line_disjoint cd hne
        rw [slice_patch_of_disjoint
          (by rw [length_slice, Nat.mul_comm _ cd.parent.blockSize]; omega), ih]
      · exact ih
    · rw [cacheUpdate, hidx, if_pos ht, Nat.mul_comm idx]
      have := slice_patch (cacheUpdate cd tags mem buf b j lines) (cd.parent.blockSize * idx)
        (slice mem (buf + j * cd.parent.blockSize) cd.parent.blockSize)
      rwa [length_slice] at this

theorem updateReach_le_iff :
    ∀ k, updateReach cd tags b k ≤ n ↔ ∀ i < k, tags (cacheIdx cd (u32 (b + i))) = u32 (b + i) →
      (i + 1) * cd.parent.blockSize ≤ n
  | 0 => by simp [updateReach]
  | k + 1 => by
    have ih := updateReach_le_iff k
    rw [updateReach]
    split_ifs with ht
    · refine ⟨fun h i hi _ => le_trans (Nat.mul_le_mul_right _ (by omega)) h, fun h =>
        h k (Nat.lt_succ_self k) ht⟩
    · rw [ih]
      refine ⟨fun h i hi hti => ?_, fun h i hi => h i (by omega)⟩
      rcases Nat.lt_succ_iff_lt_or_eq.mp hi with hi | rfl
      · exact h i hi hti
      · exact absurd hti ht

end RpiBoot
