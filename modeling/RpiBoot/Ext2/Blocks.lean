import Mathlib.Tactic.IntervalCases
import RpiBoot.Block.Fallible
import RpiBoot.Ext2.Model

/-!
# The block tree of an ext2 file

The pointer of block `idx` of a file is found by way of up to three pointer blocks. `0` at any level
is a hole. `get_block_no_from_inode` does not look for it: it takes `0` for a block like any other.

* `Ext2Inode.path`: the root pointer and the indices on the way to block `idx`.
* `Mapping`, `follow`: what the tree says of a block, when some reads of pointer blocks may fail.
* `walk`: the way without regard to holes; **`getBlockNoFromInode_eq`**: it is what the code does.
* **`walk_spec`**: the two agree off the holes, and where a pointer block could not be read the walk
  ends at `0`.
-/

namespace RpiBoot

open Store

variable {σ : Type}

/-- The root pointer of block `idx`, and the indices into the pointer blocks on the way to it. `p`
pointers make a block. -/
def Ext2Inode.path (i : Ext2Inode) (p idx : ℕ) : ℕ × List ℕ :=
  if h : idx < 12 then (i.db ⟨idx, h⟩, [])
  else if idx - 12 < p then (i.sibp, [idx - 12])
  else if idx - 12 - p < p * p then (i.dibp, [(idx - 12 - p) / p, (idx - 12 - p) % p])
  else
    let j := idx - 12 - p - p * p
    (i.tibp, [j / (p * p), j % (p * p) / p, j % (p * p) % p])

/-- What the tree says of a block of a file. -/
inductive Mapping where
  | hole
  | unreadable
  | block (b : ℕ)
deriving DecidableEq

section Tree

variable (fs : Ext2Fs σ) (c : Mem)

/-- Follow the pointers of a volume with contents `c`; the state says which reads fail. -/
def follow : σ → List ℕ → ℕ → Mapping
  | _, [], ptr => if ptr = 0 then .hole else .block ptr
  | s, i :: is, ptr =>
    if ptr = 0 then .hole
    else
      match readBlock fs s ptr with
      | (none, _) => .unreadable
      | (some _, s) => follow s is (le32 c (ptr * fs.b.blockSize + 4 * i))

/-- Follow the pointers that are read, `0` as well; a read that fails gives `0`. -/
def walk : σ → List ℕ → ℕ → ℕ × σ
  | s, [], ptr => (ptr, s)
  | s, i :: is, ptr => withBlock fs s ptr fun buf s => walk s is (pointerAt buf i)

/-- The pointers on a way lie in the volume. -/
def PointersIn : List ℕ → ℕ → Prop
  | [], ptr => ptr < fs.totalBlocks
  | i :: is, ptr => ptr < fs.totalBlocks ∧
      (ptr ≠ 0 → PointersIn is (le32 c (ptr * fs.b.blockSize + 4 * i)))

/-- The number of device blocks of a block. -/
def Ext2Fs.sectorsPerBlock : ℕ := fs.b.blockSize / fs.b.parent.blockSize

/-- The device block `d` belongs to the volume. -/
def Ext2Fs.OnVolume (d : ℕ) : Prop :=
  d * fs.b.parent.blockSize + fs.b.parent.blockSize ≤ fs.totalBlocks * fs.b.blockSize

/-- Block `b` of the volume lies on the device blocks `sound`. -/
structure Ext2Fs.Sound (sound : ℕ → Prop) (b : ℕ) : Prop where
  lt_total : b < fs.totalBlocks
  sectors : ∀ j < fs.sectorsPerBlock, sound (getSectorNum fs b + j)

/-- The block sizes of ext2, and what `ext2_init` makes of the number of pointers in a block. -/
structure Ext2Fs.FanOut : Prop where
  blockSize_eq : ∃ e ≤ 6, fs.b.blockSize = 1024 <<< e
  pointers_eq : fs.pointersPerIndirectBlock = fs.b.blockSize / 4
  pointers2_eq : fs.pointersPerIndirectBlock2 =
    u32 (fs.pointersPerIndirectBlock * fs.pointersPerIndirectBlock)
  pointers3_eq : fs.pointersPerIndirectBlock3 =
    u32 (fs.pointersPerIndirectBlock2 * fs.pointersPerIndirectBlock)

/-- The geometry of a volume of at most 4 GiB, with the values that `ext2_init` computes. -/
structure Ext2Fs.Volume : Prop where
  blockSize_eq : ∃ e ≤ 6, fs.b.blockSize = 1024 <<< e
  parent_dvd : fs.b.parent.blockSize ∣ fs.b.blockSize
  pointers_eq : fs.pointersPerIndirectBlock = fs.b.blockSize / 4
  pointers2_eq : fs.pointersPerIndirectBlock2 =
    u32 (fs.pointersPerIndirectBlock * fs.pointersPerIndirectBlock)
  pointers3_eq : fs.pointersPerIndirectBlock3 =
    u32 (fs.pointersPerIndirectBlock2 * fs.pointersPerIndirectBlock)
  total_le : fs.totalBlocks * fs.b.blockSize ≤ 2 ^ 32

end Tree

variable {fs : Ext2Fs σ} {inv : σ → Prop} {content : σ → Mem}

/-! ## Geometry -/

theorem Ext2Fs.Volume.fanOut (hv : fs.Volume) : fs.FanOut :=
  ⟨hv.blockSize_eq, hv.pointers_eq, hv.pointers2_eq, hv.pointers3_eq⟩

/-- What `ext2_init` computes. -/
theorem ext2Init_ok {parent : BlockDevice σ} {s s' : σ} (h : ext2Init parent s = (.ok fs, s')) :
    fs.b.parent = parent ∧ (∃ e, fs.b.blockSize = u32 (1024 <<< e)) ∧
      ((∃ e ≤ 6, fs.b.blockSize = 1024 <<< e) → fs.FanOut) := by
  unfold ext2Init at h
  dsimp only at h
  split_ifs at h
  all_goals first
    | cases h; done
    | obtain rfl := Except.ok.inj (congrArg Prod.fst h)
      exact ⟨rfl, ⟨_, rfl⟩, fun hsize => ⟨hsize, rfl, rfl, rfl⟩⟩

/-- The block sizes that fit 32 bits are powers of two. -/
theorem u32_shiftLeft_cases (e : ℕ) : u32 (1024 <<< e) = 0 ∨ ∃ j ≤ 31, u32 (1024 <<< e) = 2 ^ j := by
  have hpow : 1024 <<< e = 2 ^ (10 + e) := by rw [Nat.shiftLeft_eq, Nat.pow_add]
  rw [hpow, u32]
  rcases Nat.lt_or_ge 31 (10 + e) with h | h
  · exact Or.inl (Nat.mod_eq_zero_of_dvd (Nat.pow_dvd_pow 2 h))
  · exact Or.inr ⟨10 + e, h, Nat.mod_eq_of_lt (Nat.pow_lt_pow_right (by decide) (by omega))⟩

theorem blockSize_le {parent : BlockDevice σ} {s s' : σ} (h : ext2Init parent s = (.ok fs, s')) :
    fs.b.blockSize ≤ 2 ^ 31 := by
  obtain ⟨-, ⟨e, he⟩, -⟩ := ext2Init_ok h
  rw [he]
  obtain h0 | ⟨j, hj, hpow⟩ := u32_shiftLeft_cases e
  · rw [h0]
    exact Nat.zero_le _
  · rw [hpow]
    exact Nat.pow_le_pow_right two_pos hj

theorem Ext2Fs.FanOut.size_cases (hv : fs.FanOut) :
    fs.b.blockSize ∈ [1024, 2048, 4096, 8192, 16384, 32768, 65536] := by
  obtain ⟨e, he, hb⟩ := hv.blockSize_eq
  rw [hb]
  interval_cases e <;> decide

theorem Ext2Fs.FanOut.size_bounds (hv : fs.FanOut) :
    1024 ≤ fs.b.blockSize ∧ fs.b.blockSize ≤ 65536 ∧
      fs.b.blockSize = 4 * fs.pointersPerIndirectBlock := by
  have hp := hv.pointers_eq
  have hs := hv.size_cases
  simp only [List.mem_cons, List.not_mem_nil, or_false] at hs
  omega

/-- The squares and cubes, where a file of less than 4 GiB needs them. -/
theorem Ext2Fs.FanOut.pointers_spec (hv : fs.FanOut) {idx : ℕ} (hidx : idx * fs.b.blockSize < 2 ^ 32) :
    fs.pointersPerIndirectBlock2 = fs.pointersPerIndirectBlock * fs.pointersPerIndirectBlock ∧
    (¬ idx - 12 - fs.pointersPerIndirectBlock < fs.pointersPerIndirectBlock2 →
      idx - 12 - fs.pointersPerIndirectBlock - fs.pointersPerIndirectBlock2 <
        fs.pointersPerIndirectBlock3 ∧
      fs.pointersPerIndirectBlock3 = fs.pointersPerIndirectBlock2 * fs.pointersPerIndirectBlock) := by
  have hs := hv.size_cases
  have hp := hv.pointers_eq
  have h₂ := hv.pointers2_eq
  have h₃ := hv.pointers3_eq
  simp only [List.mem_cons, List.not_mem_nil, or_false] at hs
  rcases hs with hs | hs | hs | hs | hs | hs | hs <;>
  · rw [hs] at hp hidx
    rw [hp] at h₂ h₃ ⊢
    rw [h₂] at h₃ ⊢
    rw [h₃]
    simp only [u32]
    omega

theorem Ext2Fs.Volume.size_bounds (hv : fs.Volume) :
    1024 ≤ fs.b.blockSize ∧ fs.b.blockSize ≤ 65536 ∧
      fs.b.blockSize = 4 * fs.pointersPerIndirectBlock :=
  hv.fanOut.size_bounds

/-- A filesystem block is a whole number of device blocks. -/
theorem Ext2Fs.Volume.sectorsPerBlock_spec (hv : fs.Volume) :
    0 < fs.sectorsPerBlock ∧ fs.b.blockSize = fs.sectorsPerBlock * fs.b.parent.blockSize := by
  have hk := Nat.div_mul_cancel hv.parent_dvd
  have hbs := hv.size_bounds
  refine ⟨Nat.pos_of_ne_zero fun h => ?_, hk.symm⟩
  rw [Ext2Fs.sectorsPerBlock] at h
  rw [h, Nat.zero_mul] at hk
  omega

/-- **The device blocks of a block of the volume.** -/
theorem Ext2Fs.Volume.getSectorNum_spec (hv : fs.Volume) {b : ℕ} (hb : b < fs.totalBlocks) :
    getSectorNum fs b = b * fs.sectorsPerBlock ∧ getSectorNum fs b ≠ noBlock ∧
      ∀ j < fs.sectorsPerBlock, fs.OnVolume (getSectorNum fs b + j) := by
  obtain ⟨hpos, hk⟩ := hv.sectorsPerBlock_spec
  generalize fs.sectorsPerBlock = k at *
  have hbs := hv.size_bounds
  have hle := Nat.mul_le_mul_right fs.b.blockSize (Nat.succ_le_of_lt hb)
  have htot := hv.total_le
  rw [Nat.succ_mul] at hle
  have hbk : b * fs.b.blockSize = b * k * fs.b.parent.blockSize := by rw [hk, Nat.mul_assoc]
  have hsec : getSectorNum fs b = b * k := by
    rw [getSectorNum, u32_of_lt (by omega), hbk, Nat.mul_div_cancel _ fs.b.parent.blockSize_pos]
  rw [hsec]
  refine ⟨rfl, fun hno => ?_, fun j hj => ?_⟩
  · -- the block behind `noBlock` would end behind 4 GiB
    have h₁ : (b * k + k) * fs.b.parent.blockSize ≤ 2 ^ 32 := by rw [Nat.add_mul, ← hbk, ← hk]; omega
    have hp := fs.b.parent.blockSize_pos
    rcases Nat.lt_or_ge 1 fs.b.parent.blockSize with h2 | h2
    · have := Nat.mul_le_mul (show b * k + k ≥ 2 ^ 32 by unfold noBlock at hno; omega) h2
      omega
    · rw [show fs.b.parent.blockSize = 1 by omega, Nat.mul_one] at hk h₁
      unfold noBlock at hno
      omega
  · have := Nat.mul_le_mul_right fs.b.parent.blockSize (show j + 1 ≤ k by omega)
    rw [Nat.add_mul, Nat.one_mul] at this
    rw [Ext2Fs.OnVolume, Nat.add_mul]
    omega

/-- The place of a block on the device. -/
theorem Ext2Fs.Volume.getSectorNum_mul (hv : fs.Volume) {b : ℕ} (hb : b < fs.totalBlocks) :
    getSectorNum fs b * fs.b.parent.blockSize = b * fs.b.blockSize := by
  rw [(hv.getSectorNum_spec hb).1, Nat.mul_assoc, ← hv.sectorsPerBlock_spec.2]

/-- The indices on a way are indices into a block. -/
theorem Ext2Inode.path_lt (hv : fs.FanOut) (i : Ext2Inode) {idx : ℕ}
    (hidx : idx * fs.b.blockSize < 2 ^ 32) :
    ∀ j ∈ (i.path fs.pointersPerIndirectBlock idx).2, j < fs.pointersPerIndirectBlock := by
  obtain ⟨h₂, h₃⟩ := hv.pointers_spec hidx
  have hp : 0 < fs.pointersPerIndirectBlock := by have := hv.size_bounds; omega
  have hpp : 0 < fs.pointersPerIndirectBlock * fs.pointersPerIndirectBlock := Nat.mul_pos hp hp
  rw [h₂] at h₃
  intro j hj
  unfold Ext2Inode.path at hj
  split_ifs at hj with ha hb hc
  · cases hj
  · rw [List.mem_singleton.mp hj]; exact hb
  · simp only [List.mem_cons, List.not_mem_nil, or_false] at hj
    rcases hj with rfl | rfl
    · exact Nat.div_lt_of_lt_mul hc
    · exact Nat.mod_lt _ hp
  · obtain ⟨hlt, heq⟩ := h₃ hc
    rw [heq] at hlt
    simp only [List.mem_cons, List.not_mem_nil, or_false] at hj
    rcases hj with rfl | rfl | rfl
    · exact Nat.div_lt_of_lt_mul hlt
    · exact Nat.div_lt_of_lt_mul (Nat.mod_lt _ hpp)
    · exact Nat.mod_lt _ hp

/-- **`get_block_no_from_inode` walks the tree.** -/
theorem getBlockNoFromInode_eq (hv : fs.FanOut) (s : σ) (i : Ext2Inode) {idx : ℕ}
    (hidx : idx * fs.b.blockSize < 2 ^ 32) :
    getBlockNoFromInode fs s i idx = walk fs s (i.path fs.pointersPerIndirectBlock idx).2
      (i.path fs.pointersPerIndirectBlock idx).1 := by
  obtain ⟨h₂, h₃⟩ := hv.pointers_spec hidx
  unfold getBlockNoFromInode Ext2Inode.path
  rw [h₂] at h₃ ⊢
  dsimp only
  split_ifs with ha hb hc hd
  · rfl
  · rfl
  · rfl
  · rfl
  · exact absurd (h₃ hc).1 hd

/-! ## Reading pointer blocks -/

/-- A read of any block changes nothing on the device. -/
theorem readBlock_frame (hf : FallibleReads fs.b.parent inv content fs.OnVolume) {s : σ} (hs : inv s)
    (b : ℕ) : inv (readBlock fs s b).2 ∧ content (readBlock fs s b).2 = content s := by
  obtain ⟨count, mem', s', hr, -, hi, hc⟩ :=
    blockRead_frame hf hs (fun _ => 0) 0 fs.b.blockSize (getSectorNum fs b)
  rw [readBlock, readFresh, hr]
  split_ifs <;> exact ⟨hi, hc⟩

/-- A block of the volume is read as it is, unless the read fails. -/
theorem readBlock_spec (hf : FallibleReads fs.b.parent inv content fs.OnVolume) (hv : fs.Volume)
    {s : σ} (hs : inv s) {b : ℕ} (hb : b < fs.totalBlocks) {buf : Mem} {s' : σ}
    (h : readBlock fs s b = (some buf, s')) :
    slice buf 0 fs.b.blockSize = slice (content s) (b * fs.b.blockSize) fs.b.blockSize := by
  obtain ⟨hk, hsize⟩ := hv.sectorsPerBlock_spec
  have hlt := hv.size_bounds
  obtain ⟨count, mem', s₁, hr, -, -, hres⟩ := blockRead_fallible hf hs (fun _ => 0) 0 hk
    (hv.getSectorNum_spec hb).2.2 (by omega)
  rw [← hsize, hv.getSectorNum_mul hb] at hres
  rw [← hsize] at hr
  rw [readBlock, readFresh, hr] at h
  rcases hres with hneg | ⟨-, rfl⟩
  · rw [if_pos hneg] at h
    cases h
  · split_ifs at h
    · cases h
    · obtain rfl : patch (fun _ => 0) 0 (slice (content s) (b * fs.b.blockSize) fs.b.blockSize) = buf :=
        Option.some.inj (congrArg Prod.fst h)
      exact slice_patch_slice _ _ _ _ _

/-- A block that can always be read. -/
theorem readBlock_sound {sound : ℕ → Prop} (h : HealthyReads fs.b.parent inv content sound)
    (hv : fs.Volume) {s : σ} (hs : inv s) {b : ℕ} (hb : fs.Sound sound b) :
    ∃ buf s', readBlock fs s b = (some buf, s') := by
  obtain ⟨hk, hsize⟩ := hv.sectorsPerBlock_spec
  have hlt := hv.size_bounds
  obtain ⟨s', hr, -, -⟩ := blockRead_healthy h hs (fun _ => 0) 0 hk hb.sectors (by omega)
  rw [← hsize] at hr
  have hpos : ¬ i32 fs.b.blockSize < 0 := by rw [i32_of_lt (by omega)]; omega
  rw [readBlock, readFresh, hr, if_neg hpos]
  exact ⟨_, s', rfl⟩

theorem pointerAt_eq (hv : fs.Volume) {buf c : Mem} {b i : ℕ}
    (h : slice buf 0 fs.b.blockSize = slice c (b * fs.b.blockSize) fs.b.blockSize)
    (hi : i < fs.pointersPerIndirectBlock) :
    pointerAt buf i = le32 c (b * fs.b.blockSize + 4 * i) := by
  have hsize := hv.size_bounds
  rw [pointerAt, ← le32_congr h (by omega), Nat.zero_add]

/-! ## Walks -/

/-- A walk changes nothing on the device. -/
theorem walk_frame (hf : FallibleReads fs.b.parent inv content fs.OnVolume) :
    ∀ (is : List ℕ) (s : σ) (ptr : ℕ), inv s →
      inv (walk fs s is ptr).2 ∧ content (walk fs s is ptr).2 = content s
  | [], _, _, hs => ⟨hs, rfl⟩
  | i :: is, s, ptr, hs => by
    obtain ⟨hi, hc⟩ := readBlock_frame hf hs ptr
    rw [walk, withBlock]
    rcases hr : readBlock fs s ptr with ⟨_ | buf, s'⟩
    · rw [hr] at hi hc
      exact ⟨hi, hc⟩
    · rw [hr] at hi hc
      obtain ⟨hi', hc'⟩ := walk_frame hf is s' (pointerAt buf i) hi
      exact ⟨hi', hc'.trans hc⟩

/-- **The walk and the tree.** Off the holes, the walk ends at the mapped block, or at `0` when a pointer
block could not be read. -/
theorem walk_spec (hf : FallibleReads fs.b.parent inv content fs.OnVolume) (hv : fs.Volume) {c : Mem} :
    ∀ (is : List ℕ) (s : σ) (ptr : ℕ), inv s → content s = c →
      (∀ i ∈ is, i < fs.pointersPerIndirectBlock) → PointersIn fs c is ptr →
      follow fs c s is ptr = .hole ∨
      follow fs c s is ptr = .unreadable ∧ (walk fs s is ptr).1 = 0 ∨
      follow fs c s is ptr = .block (walk fs s is ptr).1
  | [], _, ptr, _, _, _, _ => by
    rw [follow]
    split_ifs
    · exact Or.inl rfl
    · exact Or.inr (Or.inr rfl)
  | i :: is, s, ptr, hs, hc, hlt, hin => by
    rw [follow]
    split_ifs with hptr
    · exact Or.inl rfl
    · obtain ⟨hi', hc'⟩ := readBlock_frame hf hs ptr
      rw [walk, withBlock]
      rcases hr : readBlock fs s ptr with ⟨_ | buf, s'⟩
      · exact Or.inr (Or.inl ⟨rfl, rfl⟩)
      · rw [hr] at hi' hc'
        have hbuf := readBlock_spec hf hv hs hin.1 hr
        rw [hc] at hbuf
        dsimp only
        rw [pointerAt_eq hv hbuf (hlt i List.mem_cons_self)]
        exact walk_spec hf hv is s' _ hi' (hc'.trans hc)
          (fun j hj => hlt j (List.mem_cons_of_mem _ hj)) (hin.2 hptr)

end RpiBoot
