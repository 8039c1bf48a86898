import RpiBoot.Ext2.Bytes
import RpiBoot.Lib.PointerTree

/-!
# The blocks of an ext2 file, in order

An inode points to twelve blocks, and to the roots of three trees of pointer blocks of one, two and
three levels. The pointers of a block are on the device from `block_no * block_size` on. The code looks
for them at that number modulo `2 ^ 32`.

* `Ext2Fs.pointer`: the pointers in a block; `Ext2Fs.pointerFound`: where the code looks for them.
* `Ext2Inode.leaves`: the blocks of a file, from left to right. `Ext2Inode.pointerBlocks`: the pointer
  blocks on the way to one of them.
* `walk_healthy`, `getElem?_leaves_path`: where the code ends, and where the way to block `idx` does.
* `descend_fillHigh`: a way through a block behind 4 GiB ends as these bytes say.
* **`ext2_block_leaf_iff`**: `get_block_no_from_inode` returns leaf number `idx`, whatever lies behind
  the first 4 GiB, if and only if no pointer block on the way does.
-/

namespace RpiBoot

open Store PointerTree

variable {σ : Type}

section Tree

variable (fs : Ext2Fs σ) (c : Mem)

/-- Pointer `j` in block `b`. -/
def Ext2Fs.pointer (b j : ℕ) : ℕ := le32 c (b * fs.b.blockSize + 4 * j)

/-- What the code takes for pointer `j` in block `b`. -/
def Ext2Fs.pointerFound (b j : ℕ) : ℕ := le32 c (u32 (b * fs.b.blockSize) + 4 * j)

/-- The blocks of a file, in order. -/
def Ext2Inode.leaves (i : Ext2Inode) : List ℕ :=
  let p := fs.b.blockSize / 4
  List.ofFn i.db ++
    (PointerTree.leaves (fs.pointer c) p 1 i.sibp ++
      (PointerTree.leaves (fs.pointer c) p 2 i.dibp ++
        PointerTree.leaves (fs.pointer c) p 3 i.tibp))

/-- The pointer blocks on the way to block `idx`. -/
def Ext2Inode.pointerBlocks (i : Ext2Inode) (idx : ℕ) : List ℕ :=
  visited (fs.pointer c) (i.path fs.pointersPerIndirectBlock idx).2
    (i.path fs.pointersPerIndirectBlock idx).1

/-- The blocks that the code takes for them. -/
def Ext2Inode.blocksFound (i : Ext2Inode) (idx : ℕ) : List ℕ :=
  visited (fs.pointerFound c) (i.path fs.pointersPerIndirectBlock idx).2
    (i.path fs.pointersPerIndirectBlock idx).1

end Tree

variable {fs : Ext2Fs σ} {inv : σ → Prop} {content : σ → Mem} {good : ℕ → Prop} {s : σ} {c c' : Mem}

/-! ## Where the code ends -/

/-- A walk over blocks that can be read ends where the pointers it finds lead. -/
theorem walk_healthy (h : HealthyReads fs.b.parent inv content good) (hv : fs.FanOut)
    (hdvd : fs.b.parent.blockSize ∣ fs.b.blockSize) (hpow : fs.b.blockSize ∣ 2 ^ 32) {is : List ℕ}
    (hs : inv s) {ptr : ℕ} (hlt : ∀ i ∈ is, i < fs.pointersPerIndirectBlock)
    (hgood : ∀ b ∈ visited (fs.pointerFound (content s)) is ptr, ∀ j < fs.sectorsPerBlock,
      good (getSectorNum fs b + j)) :
    (walk fs s is ptr).1 = descend (fs.pointerFound (content s)) is ptr := by
  have hsize := hv.size_bounds
  induction is generalizing s ptr with
  | nil => rfl
  | cons i is ih =>
    obtain ⟨buf, s', hr, hi, hc, hbytes⟩ := readBlock_healthy h hdvd hpow (by omega) hs
      (hgood ptr List.mem_cons_self)
    have hlti := hlt i List.mem_cons_self
    have hpointer : pointerAt buf i = fs.pointerFound (content s) ptr i := by
      rw [pointerAt, Ext2Fs.pointerFound, ← le32_congr hbytes (by omega), Nat.zero_add]
    rw [walk, withBlock, hr, descend, ← hpointer, ← hc]
    rw [← hc] at hpointer
    refine ih hi (fun j hj => hlt j (List.mem_cons_of_mem _ hj)) fun b hb => ?_
    rw [hc] at hb hpointer
    refine hgood b (List.mem_cons_of_mem _ ?_)
    rwa [← hpointer]

/-- The bytes behind 4 GiB are never found. -/
theorem pointerFound_agreeLow (hpow : fs.b.blockSize ∣ 2 ^ 32) (hagree : AgreeLow c c') {b j : ℕ}
    (hj : 4 * j + 4 ≤ fs.b.blockSize) : fs.pointerFound c b j = fs.pointerFound c' b j := by
  have hle := u32_mul_add_le hpow b
  exact (hagree.le32_eq (by omega)).symm

/-- The pointers of a block below 4 GiB are found. -/
theorem pointerFound_of_le (hpow : fs.b.blockSize ∣ 2 ^ 32) {b : ℕ}
    (hlow : b * fs.b.blockSize + fs.b.blockSize ≤ 2 ^ 32) (j : ℕ) :
    fs.pointerFound c b j = fs.pointer c b j := by
  rw [Ext2Fs.pointerFound, (u32_mul_eq_iff hpow b).mpr hlow, Ext2Fs.pointer]

theorem pointer_agreeLow (hagree : AgreeLow c c') {b j : ℕ}
    (hlow : b * fs.b.blockSize + fs.b.blockSize ≤ 2 ^ 32) (hj : 4 * j + 4 ≤ fs.b.blockSize) :
    fs.pointer c b j = fs.pointer c' b j :=
  (hagree.le32_eq (by omega)).symm

/-! ## Where the way ends -/

variable (c) in
/-- **The way to a block leads to its leaf.** -/
theorem getElem?_leaves_path (hv : fs.FanOut) (i : Ext2Inode) {idx : ℕ}
    (hidx : idx * fs.b.blockSize < 2 ^ 32) :
    (i.leaves fs c)[idx]? = some (descend (fs.pointer c)
      (i.path fs.pointersPerIndirectBlock idx).2 (i.path fs.pointersPerIndirectBlock idx).1) := by
  obtain ⟨h₂, h₃⟩ := hv.pointers_spec hidx
  have hlt := i.path_lt hv hidx
  rw [h₂] at h₃
  unfold Ext2Inode.leaves
  dsimp only
  rw [← hv.pointers_eq]
  generalize fs.pointersPerIndirectBlock = p at *
  unfold Ext2Inode.path at hlt ⊢
  by_cases h12 : idx < 12
  · rw [dif_pos h12, List.getElem?_append_left (by rw [List.length_ofFn]; exact h12), List.getElem?_ofFn,
      dif_pos h12]
    rfl
  rw [dif_neg h12] at hlt ⊢
  rw [List.getElem?_append_right (by rw [List.length_ofFn]; omega), List.length_ofFn]
  by_cases hp : idx - 12 < p
  · rw [if_pos hp] at hlt ⊢
    rw [List.getElem?_append_left (by rw [length_leaves, Nat.pow_one]; exact hp)]
    have hleaf := getElem?_leaves (fs.pointer c) hlt i.sibp
    rwa [place_one] at hleaf
  rw [if_neg hp] at hlt ⊢
  rw [List.getElem?_append_right (by rw [length_leaves, Nat.pow_one]; omega), length_leaves, Nat.pow_one]
  by_cases hpp : idx - 12 - p < p * p
  · rw [if_pos hpp] at hlt ⊢
    rw [List.getElem?_append_left (by rw [length_leaves, Nat.pow_two]; exact hpp)]
    have hleaf := getElem?_leaves (fs.pointer c) hlt i.dibp
    rwa [place_two] at hleaf
  rw [if_neg hpp] at hlt ⊢
  rw [List.getElem?_append_right (by rw [length_leaves, Nat.pow_two]; omega), length_leaves, Nat.pow_two]
  have hleaf := getElem?_leaves (fs.pointer c) hlt i.tibp
  rwa [place_three] at hleaf

/-- Pointers of four equal bytes lead to themselves, behind 4 GiB. -/
theorem descend_high (hsize : 1024 ≤ fs.b.blockSize) {x : UInt8} (hx : x ≠ 0) (is : List ℕ) :
    descend (fs.pointer (fillHigh c x)) is (x.toNat * 0x1010101) = x.toNat * 0x1010101 := by
  have hpos : 0 < x.toNat := Nat.pos_of_ne_zero fun h0 => hx (UInt8.toNat_inj.mp h0)
  have hmul := Nat.mul_le_mul (show 0x1010101 ≤ x.toNat * 0x1010101 by omega) hsize
  induction is with
  | nil => rfl
  | cons i is ih => rw [descend, Ext2Fs.pointer, le32_fillHigh c x (by omega), ih]

/-- **A way through a block behind 4 GiB** ends as the bytes there say. -/
theorem descend_fillHigh (hsize : 1024 ≤ fs.b.blockSize) (hpow : fs.b.blockSize ∣ 2 ^ 32) {x : UInt8}
    (hx : x ≠ 0) {is : List ℕ} {ptr : ℕ} (hlt : ∀ i ∈ is, 4 * i + 4 ≤ fs.b.blockSize)
    (hhigh : ∃ b ∈ visited (fs.pointer c) is ptr, ¬ b * fs.b.blockSize + fs.b.blockSize ≤ 2 ^ 32) :
    descend (fs.pointer (fillHigh c x)) is ptr = x.toNat * 0x1010101 := by
  induction is generalizing ptr with
  | nil =>
    obtain ⟨b, hb, -⟩ := hhigh
    cases hb
  | cons i is ih =>
    have hi := hlt i List.mem_cons_self
    rw [descend]
    by_cases hlow : ptr * fs.b.blockSize + fs.b.blockSize ≤ 2 ^ 32
    · -- the block is further down
      rw [← pointer_agreeLow (agreeLow_fillHigh c x) hlow hi]
      refine ih (fun j hj => hlt j (List.mem_cons_of_mem _ hj)) ?_
      obtain ⟨b, hb, hbhigh⟩ := hhigh
      obtain rfl | hrest := List.mem_cons.mp hb
      · exact absurd hlow hbhigh
      · exact ⟨b, hrest, hbhigh⟩
    · have hplace := le_mul_of_high hpow hlow
      rw [Ext2Fs.pointer, le32_fillHigh c x (by omega), descend_high hsize hx]

/-! ## The blocks of a file -/

/-- What the code returns is found below 4 GiB. -/
theorem getBlockNoFromInode_healthy (h : HealthyReads fs.b.parent inv content good) (hv : fs.FanOut)
    (hdvd : fs.b.parent.blockSize ∣ fs.b.blockSize) (hpow : fs.b.blockSize ∣ 2 ^ 32) (hs : inv s)
    (i : Ext2Inode) {idx : ℕ} (hidx : idx * fs.b.blockSize < 2 ^ 32) (hagree : AgreeLow c (content s))
    (hread : ∀ b ∈ i.blocksFound fs c idx, ∀ j < fs.sectorsPerBlock, good (getSectorNum fs b + j)) :
    (getBlockNoFromInode fs s i idx).1 = descend (fs.pointerFound c)
      (i.path fs.pointersPerIndirectBlock idx).2 (i.path fs.pointersPerIndirectBlock idx).1 := by
  have hsize := hv.size_bounds
  have hlt := i.path_lt hv hidx
  have hsame : ∀ b ∈ visited (fs.pointerFound c) (i.path fs.pointersPerIndirectBlock idx).2
      (i.path fs.pointersPerIndirectBlock idx).1, ∀ j ∈ (i.path fs.pointersPerIndirectBlock idx).2,
      fs.pointerFound c b j = fs.pointerFound (content s) b j := fun b _ j hj => by
    have hj' := hlt j hj
    exact pointerFound_agreeLow hpow hagree (by omega)
  obtain ⟨hvisited, hdescend⟩ := way_congr hsame
  rw [getBlockNoFromInode_eq hv s i hidx, hdescend]
  refine walk_healthy h hv hdvd hpow hs hlt ?_
  rwa [← hvisited]

/-- A way through blocks below 4 GiB ends where the code ends. -/
theorem descend_of_low (hv : fs.FanOut) (hpow : fs.b.blockSize ∣ 2 ^ 32) {is : List ℕ} {ptr : ℕ}
    (hlt : ∀ i ∈ is, i < fs.pointersPerIndirectBlock) (hagree : AgreeLow c c')
    (hlow : ∀ b ∈ visited (fs.pointer c) is ptr, b * fs.b.blockSize + fs.b.blockSize ≤ 2 ^ 32) :
    descend (fs.pointer c') is ptr = descend (fs.pointerFound c) is ptr := by
  have hsize := hv.size_bounds
  have hcontents : ∀ b ∈ visited (fs.pointer c) is ptr, ∀ j ∈ is, fs.pointer c b j = fs.pointer c' b j :=
    fun b hb j hj => by
      have hj' := hlt j hj
      exact pointer_agreeLow hagree (hlow b hb) (by omega)
  have hfound : ∀ b ∈ visited (fs.pointer c) is ptr, ∀ j ∈ is, fs.pointer c b j = fs.pointerFound c b j :=
    fun b hb j _ => (pointerFound_of_le hpow (hlow b hb) j).symm
  rw [← (way_congr hcontents).2, (way_congr hfound).2]

/-- A volume of 8 GiB with a pointer in its block `2 ^ 20`, and an inode that points to that block. -/
def farVolume : Mem := patch largeVolume (2 ^ 32) [7, 0, 0, 0]

def farInode : Ext2Inode where
  size := 13 * 4096
  db := fun _ => 0
  sibp := 2 ^ 20
  dibp := 0
  tibp := 0

/-- The code takes the pointer from block `0`. -/
theorem ext2_block_leaf_wraps :
    ∃ fs s', ext2Init (storeDevice (2 ^ 24)) farVolume = (.ok fs, s') ∧ fs.b.blockSize = 1024 * 2 ^ 2 ∧
      farInode.sibp < fs.totalBlocks ∧ (farInode.leaves fs farVolume)[12]? = some 7 ∧
      (getBlockNoFromInode fs farVolume farInode 12).1 = 0 := by
  obtain ⟨fs, s', hinit, hfs⟩ : ∃ fs s', ext2Init (storeDevice (2 ^ 24)) farVolume = (.ok fs, s') ∧
      (fs.b.blockSize, fs.totalBlocks, farInode.path fs.pointersPerIndirectBlock 12,
        (getBlockNoFromInode fs farVolume farInode 12).1) = (4096, 2 ^ 21, (2 ^ 20, [0]), 0) :=
    exists_ext2Init (by decide +kernel)
  simp only [Prod.mk.injEq] at hfs
  obtain ⟨hbs, htotal, hpath, hblock⟩ := hfs
  obtain ⟨-, -, hfan⟩ := ext2Init_ok hinit
  refine ⟨fs, s', hinit, hbs, by rw [htotal]; decide, ?_, hblock⟩
  rw [getElem?_leaves_path farVolume (hfan ⟨2, by decide, hbs⟩) farInode (by rw [hbs]; decide), hpath]
  simp only [descend, Ext2Fs.pointer, hbs]
  decide +kernel

/-- **The blocks of a file.** Of all volumes with the first 4 GiB of `c`, `get_block_no_from_inode` returns
leaf number `idx`, if and only if the pointer blocks on the way to it end at or below 4 GiB. The blocks that
it looks into can be read. -/
theorem ext2_block_leaf_iff {parent : BlockDevice σ} {s₀ s₁ : σ}
    (h : HealthyReads parent inv content good) (hany : ∀ c, ∃ s, inv s ∧ content s = c)
    (hinit : ext2Init parent s₀ = (.ok fs, s₁)) {k : ℕ} (hk : k ≤ 6)
    (hsize : fs.b.blockSize = 1024 * 2 ^ k) (hdvd : parent.blockSize ∣ fs.b.blockSize) (i : Ext2Inode)
    {idx : ℕ} (hidx : idx * fs.b.blockSize < 2 ^ 32) (c : Mem)
    (hread : ∀ b ∈ i.blocksFound fs c idx, ∀ j < fs.sectorsPerBlock, good (getSectorNum fs b + j)) :
    (∀ s, inv s → AgreeLow c (content s) →
      (i.leaves fs (content s))[idx]? = some (getBlockNoFromInode fs s i idx).1) ↔
    ∀ b ∈ i.pointerBlocks fs c idx, b * fs.b.blockSize + fs.b.blockSize ≤ 2 ^ 32 := by
  obtain ⟨rfl, -, hfan⟩ := ext2Init_ok hinit
  have hv := hfan ⟨k, hk, by rw [hsize, Nat.shiftLeft_eq]⟩
  have hbounds := hv.size_bounds
  have hpow := blockSize_dvd hinit (by omega)
  have hlt := i.path_lt hv hidx
  have hcode : ∀ s, inv s → AgreeLow c (content s) → (getBlockNoFromInode fs s i idx).1 =
      descend (fs.pointerFound c) (i.path fs.pointersPerIndirectBlock idx).2
        (i.path fs.pointersPerIndirectBlock idx).1 :=
    fun s hs hagree => getBlockNoFromInode_healthy h hv hdvd hpow hs i hidx hagree hread
  constructor
  · intro hleaf
    by_contra hno
    push Not at hno
    obtain ⟨b, hb, hhigh⟩ := hno
    -- what the code returns does not depend on the bytes behind 4 GiB, and the leaf does
    have hfilled : ∀ x : UInt8, x ≠ 0 → x.toNat * 0x1010101 = descend (fs.pointerFound c)
        (i.path fs.pointersPerIndirectBlock idx).2 (i.path fs.pointersPerIndirectBlock idx).1 := by
      intro x hx
      obtain ⟨s, hs, hcs⟩ := hany (fillHigh c x)
      have hagree : AgreeLow c (content s) := hcs ▸ agreeLow_fillHigh c x
      have hend := hleaf s hs hagree
      rw [hcode s hs hagree, hcs, getElem?_leaves_path _ hv i hidx, descend_fillHigh (by omega) hpow hx
        (fun j hj => by have := hlt j hj; omega) ⟨b, hb, by omega⟩] at hend
      exact Option.some.inj hend
    have hsame := (hfilled 1 (by decide)).trans (hfilled 2 (by decide)).symm
    exact absurd hsame (by decide)
  · intro hlow s hs hagree
    rw [hcode s hs hagree, getElem?_leaves_path _ hv i hidx, descend_of_low hv hpow hlt hagree hlow]

/-- The inode with the descriptor table for its doubly indirect block. -/
def holeDeepInode : Ext2Inode := { holeInode with dibp := 2 }

/-- Block 270 of its file is found by way of blocks 2 and 3. -/
theorem ext2_block_leaf_iff_hole : ∃ fs s₁, ext2Init (storeDevice 64) holeVolume = (.ok fs, s₁) ∧
    holeDeepInode.pointerBlocks fs holeVolume 270 = [2, 3] ∧
    ∀ s, AgreeLow holeVolume s → (holeDeepInode.leaves fs s)[270]? =
      some (getBlockNoFromInode fs s holeDeepInode 270).1 := by
  obtain ⟨fs, s₁, hinit, hfs⟩ : ∃ fs s', ext2Init (storeDevice 64) holeVolume = (.ok fs, s') ∧
      (fs.b.blockSize, fs.sectorsPerBlock, fs.b.parent.blockSize,
        holeDeepInode.path fs.pointersPerIndirectBlock 270) = (1024, 2, 512, (2, [0, 2])) :=
    exists_ext2Init (by decide +kernel)
  simp only [Prod.mk.injEq] at hfs
  obtain ⟨hbs, hk, hparent, hpath⟩ := hfs
  have hblocks : holeDeepInode.pointerBlocks fs holeVolume 270 = [2, 3] := by
    simp only [Ext2Inode.pointerBlocks, hpath, visited, Ext2Fs.pointer, hbs]
    decide +kernel
  have hfound : holeDeepInode.blocksFound fs holeVolume 270 = [2, 3] := by
    simp only [Ext2Inode.blocksFound, hpath, visited, Ext2Fs.pointerFound, hbs]
    decide +kernel
  refine ⟨fs, s₁, hinit, hblocks, fun s hagree => (ext2_block_leaf_iff
    (storeDevice_serves (by decide)).healthyReads (fun c => ⟨c, trivial, rfl⟩) hinit (Nat.zero_le 6) hbs
    (by rw [hbs]; decide) holeDeepInode (by rw [hbs]; decide) holeVolume ?_).mpr ?_ s trivial hagree⟩
  · rw [hfound, hk]
    simp only [getSectorNum, hbs, hparent]
    decide
  · rw [hblocks, hbs]
    decide

end RpiBoot
