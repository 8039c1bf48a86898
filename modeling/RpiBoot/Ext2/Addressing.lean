import RpiBoot.Ext2.File

/-!
# The sectors of ext2 blocks

`get_sector_num` multiplies the number of a block by the block size, in 32 bits, before it divides by
the size of a device block.

* `getSectorNum_eq_iff`: for which blocks the product does not wrap.
* **`ext2_addressing_iff`**: every block of a volume has its own sectors if and only if the volume takes
  4 GiB at most, or the blocks of the device are bytes.
-/

namespace RpiBoot

open Store

variable {σ : Type} {fs : Ext2Fs σ}

/-- Every block whose sector number fits 32 bits is looked up at its sector, and two blocks never at
the same one. -/
structure Ext2Fs.AddressesExactly (fs : Ext2Fs σ) : Prop where
  exact : ∀ b < fs.totalBlocks, b * fs.sectorsPerBlock < 2 ^ 32 →
    getSectorNum fs b = b * fs.sectorsPerBlock
  injective : ∀ b < fs.totalBlocks, ∀ b' < fs.totalBlocks, b * fs.sectorsPerBlock < 2 ^ 32 →
    b' * fs.sectorsPerBlock < 2 ^ 32 → getSectorNum fs b = getSectorNum fs b' → b = b'

theorem u32_shiftLeft_dvd {e : ℕ} (hne : u32 (1024 <<< e) ≠ 0) : u32 (1024 <<< e) ∣ 2 ^ 32 := by
  obtain h0 | ⟨j, hj, hpow⟩ := u32_shiftLeft_cases e
  · exact absurd h0 hne
  · rw [hpow]
    exact Nat.pow_dvd_pow 2 (by omega)

theorem blockSize_dvd {parent : BlockDevice σ} {s s' : σ} (h : ext2Init parent s = (.ok fs, s'))
    (hne : fs.b.blockSize ≠ 0) : fs.b.blockSize ∣ 2 ^ 32 := by
  obtain ⟨-, ⟨e, he⟩, -⟩ := ext2Init_ok h
  rw [he] at hne ⊢
  exact u32_shiftLeft_dvd hne

/-- **The blocks that are looked up at their sectors.** -/
theorem getSectorNum_eq_iff (hdvd : fs.b.parent.blockSize ∣ fs.b.blockSize) (b : ℕ) :
    getSectorNum fs b = b * fs.sectorsPerBlock ↔ b * fs.b.blockSize < 2 ^ 32 := by
  have hpos := fs.b.parent.blockSize_pos
  obtain ⟨k, hk⟩ := hdvd
  have hspb : fs.sectorsPerBlock = k := by
    rw [Ext2Fs.sectorsPerBlock, hk, Nat.mul_div_cancel_left k hpos]
  have hprod : b * fs.b.blockSize = fs.b.parent.blockSize * (b * k) := by rw [hk]; ring
  rw [getSectorNum, hspb, hprod]
  constructor
  · intro h
    -- the quotient of a wrapped product is too small
    have hlt := u32_lt (fs.b.parent.blockSize * (b * k))
    have hmul := Nat.mul_div_le (u32 (fs.b.parent.blockSize * (b * k))) fs.b.parent.blockSize
    rw [h] at hmul
    omega
  · intro h
    rw [u32_of_lt h, Nat.mul_div_cancel_left _ hpos]

/-- The superblock of a volume of `2 ^ 21` blocks of 4 KiB. -/
def largeVolume : Mem :=
  patch (fun _ => 0) 1024 ([0, 0, 1, 0, 0, 0, 0x20, 0] ++ List.replicate 16 0 ++ [2, 0, 0, 0] ++
    List.replicate 4 0 ++ [0, 0x80, 0, 0] ++ List.replicate 4 0 ++ [0, 4, 0, 0] ++ List.replicate 12 0 ++
    [0x53, 0xef])

/-- Block `2 ^ 20` is looked up where block `0` is. -/
theorem ext2_addressing_wraps :
    ∃ fs s', ext2Init (storeDevice (2 ^ 24)) largeVolume = (.ok fs, s') ∧ fs.b.blockSize = 4096 ∧
      2 ^ 20 < fs.totalBlocks ∧ 2 ^ 20 * fs.sectorsPerBlock = 2 ^ 23 ∧ getSectorNum fs (2 ^ 20) = 0 ∧
      ¬ fs.AddressesExactly := by
  obtain ⟨fs, s', hinit, hfs⟩ : ∃ fs s', ext2Init (storeDevice (2 ^ 24)) largeVolume = (.ok fs, s') ∧
      (fs.b.blockSize, fs.totalBlocks, fs.sectorsPerBlock, getSectorNum fs (2 ^ 20)) =
        (4096, 2 ^ 21, 8, 0) := exists_ext2Init (by decide +kernel)
  simp only [Prod.mk.injEq] at hfs
  obtain ⟨hbs, htotal, hk, hsector⟩ := hfs
  refine ⟨fs, s', hinit, hbs, by rw [htotal]; decide, by rw [hk]; rfl, hsector, fun hexact => ?_⟩
  have := hexact.exact (2 ^ 20) (by rw [htotal]; decide) (by rw [hk]; decide)
  rw [hsector, hk] at this
  exact absurd this (by decide)

/-- **Addressing.** Every block of a volume has its own sectors, as far as sector numbers go, if and only
if the volume takes 4 GiB at most, or the blocks of the device are bytes. -/
theorem ext2_addressing_iff {parent : BlockDevice σ} {s s' : σ} (h : ext2Init parent s = (.ok fs, s'))
    (hne : fs.b.blockSize ≠ 0) (hdvd : parent.blockSize ∣ fs.b.blockSize) :
    fs.AddressesExactly ↔ parent.blockSize = 1 ∨ fs.totalBlocks * fs.b.blockSize ≤ 2 ^ 32 := by
  obtain ⟨q, hq⟩ := blockSize_dvd h hne
  obtain ⟨rfl, -, -⟩ := ext2Init_ok h
  have hpos := fs.b.parent.blockSize_pos
  have hk : fs.b.blockSize = fs.b.parent.blockSize * fs.sectorsPerBlock :=
    (Nat.mul_div_cancel' hdvd).symm
  have hkpos : 0 < fs.sectorsPerBlock := Nat.pos_of_ne_zero fun h0 => hne (by rw [hk, h0, Nat.mul_zero])
  constructor
  · intro hexact
    by_contra hno
    obtain ⟨hone, hlarge⟩ := not_or.mp hno
    -- the block behind the first 4 GiB
    have hqlt : q < fs.totalBlocks := by
      by_contra hle
      have := Nat.mul_le_mul_right fs.b.blockSize (not_lt.mp hle)
      rw [Nat.mul_comm q, ← hq] at this
      exact hlarge this
    have hsector : fs.b.parent.blockSize * (q * fs.sectorsPerBlock) = 2 ^ 32 := by
      rw [hq, hk]
      ring
    have hfit : q * fs.sectorsPerBlock < 2 ^ 32 := by
      have := Nat.mul_le_mul_right (q * fs.sectorsPerBlock) (show 2 ≤ fs.b.parent.blockSize by omega)
      omega
    have hlt := (getSectorNum_eq_iff hdvd q).mp (hexact.exact q hqlt hfit)
    rw [Nat.mul_comm, ← hq] at hlt
    exact lt_irrefl _ hlt
  · intro hcond
    have hexact : ∀ b < fs.totalBlocks, b * fs.sectorsPerBlock < 2 ^ 32 →
        getSectorNum fs b = b * fs.sectorsPerBlock := by
      intro b hb hfit
      refine (getSectorNum_eq_iff hdvd b).mpr ?_
      rcases hcond with hone | hsmall
      · rwa [hk, hone, Nat.one_mul]
      · exact (Nat.mul_lt_mul_of_pos_right hb (Nat.pos_of_ne_zero hne)).trans_le hsmall
    refine ⟨hexact, fun b hb b' hb' hfit hfit' heq => ?_⟩
    rw [hexact b hb hfit, hexact b' hb' hfit'] at heq
    exact Nat.eq_of_mul_eq_mul_right hkpos heq

/-- A small volume. -/
theorem ext2_addressing_iff_hole :
    ∃ fs s', ext2Init (storeDevice 64) holeVolume = (.ok fs, s') ∧ fs.AddressesExactly := by
  obtain ⟨fs, s', hinit, hfs⟩ := holeVolume_init
  obtain ⟨hbs, htotal⟩ := Prod.mk.inj hfs
  refine ⟨fs, s', hinit, (ext2_addressing_iff hinit ?_ ?_).mpr (Or.inr ?_)⟩
  · rw [hbs]; decide
  · rw [hbs]; decide
  · rw [hbs, htotal]; decide

end RpiBoot
