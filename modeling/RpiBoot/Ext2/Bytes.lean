import RpiBoot.Ext2.Addressing
import RpiBoot.Ext2.Steady

/-!
# The bytes of ext2 blocks

Block `b` of a volume takes the bytes of the device from `b * block_size` on. `read_block` looks for it
at that number modulo `2 ^ 32`.

* `u32_mul_add_le`, `u32_mul_eq_iff`: where a block is looked for.
* **`readBlock_healthy`**: `read_block` delivers the bytes from there on.
* `block_healthy`: so do the reads of a device with steady contents.
* `AgreeLow`, `fillHigh`: contents that differ behind the first 4 GiB only.
-/

namespace RpiBoot

open Store

variable {σ : Type} {fs : Ext2Fs σ} {inv : σ → Prop} {content : σ → Mem} {good : ℕ → Prop} {s : σ}

/-! ## Where a block is looked for -/

theorem u32_mul_add_le {bs : ℕ} (h : bs ∣ 2 ^ 32) (b : ℕ) : u32 (b * bs) + bs ≤ 2 ^ 32 := by
  obtain ⟨q, hq⟩ := h
  have hpos : 0 < q := Nat.pos_of_ne_zero fun h0 => by
    rw [h0, Nat.mul_zero] at hq
    exact absurd hq (by decide)
  have hlt := Nat.mul_le_mul_right bs (Nat.succ_le_of_lt (Nat.mod_lt b hpos))
  rw [Nat.succ_mul] at hlt
  rw [u32, hq, Nat.mul_comm bs q, Nat.mul_mod_mul_right]
  exact hlt

/-- A block is looked for in its place if it ends at or below 4 GiB. -/
theorem u32_mul_eq_iff {bs : ℕ} (h : bs ∣ 2 ^ 32) (b : ℕ) :
    u32 (b * bs) = b * bs ↔ b * bs + bs ≤ 2 ^ 32 := by
  have hle := u32_mul_add_le h b
  have hpos : 0 < bs := Nat.pos_of_dvd_of_pos h (by decide)
  exact ⟨fun heq => heq ▸ hle, fun hlow => u32_of_lt (by omega)⟩

theorem le_mul_of_high {bs b : ℕ} (h : bs ∣ 2 ^ 32) (hhigh : ¬ b * bs + bs ≤ 2 ^ 32) :
    2 ^ 32 ≤ b * bs := by
  by_contra hlt
  have hle := u32_mul_add_le h b
  rw [u32_of_lt (by omega)] at hle
  exact hhigh hle

/-- The sectors of a block hold the bytes from its wrapped place on. -/
theorem getSectorNum_mul_parent (hdvd : fs.b.parent.blockSize ∣ fs.b.blockSize)
    (hpow : fs.b.blockSize ∣ 2 ^ 32) (b : ℕ) :
    getSectorNum fs b * fs.b.parent.blockSize = u32 (b * fs.b.blockSize) := by
  have hmul : fs.b.parent.blockSize ∣ u32 (b * fs.b.blockSize) :=
    (Nat.dvd_mod_iff (hdvd.trans hpow)).mpr (hdvd.mul_left b)
  rw [getSectorNum, Nat.div_mul_cancel hmul]

/-! ## Reading a block -/

/-- **A block of a healthy device** is read from its wrapped place. -/
theorem readBlock_healthy (h : HealthyReads fs.b.parent inv content good)
    (hdvd : fs.b.parent.blockSize ∣ fs.b.blockSize) (hpow : fs.b.blockSize ∣ 2 ^ 32)
    (hlt : fs.b.blockSize < 2 ^ 31) (hs : inv s) {b : ℕ}
    (hgood : ∀ j < fs.sectorsPerBlock, good (getSectorNum fs b + j)) :
    ∃ buf s', readBlock fs s b = (some buf, s') ∧ inv s' ∧ content s' = content s ∧
      slice buf 0 fs.b.blockSize = slice (content s) (u32 (b * fs.b.blockSize)) fs.b.blockSize := by
  obtain ⟨buf, s', hr, hbytes, hi, hc⟩ :=
    readFresh_blocks h hs (Nat.pos_of_dvd_of_pos hpow (by decide)) hdvd hlt hgood
  rw [getSectorNum_mul_parent hdvd hpow] at hbytes
  have hcount : ¬ i32 fs.b.blockSize < 0 := by rw [i32_of_lt (by omega)]; omega
  refine ⟨buf, s', ?_, hi, hc, hbytes⟩
  rw [readBlock, hr, if_neg hcount]

/-- What steady reads deliver of a block are its bytes on the device, if it ends at or below 4 GiB. -/
theorem block_healthy {inv' : σ → Prop} {read : ℕ → ℕ → ℕ × Mem}
    (hsteady : SteadyReads fs.b.parent inv' read) (hs' : inv' s)
    (h : HealthyReads fs.b.parent inv content good) (hdvd : fs.b.parent.blockSize ∣ fs.b.blockSize)
    (hpow : fs.b.blockSize ∣ 2 ^ 32) (hlt : fs.b.blockSize < 2 ^ 31) (hs : inv s) {b : ℕ}
    (hgood : ∀ j < fs.sectorsPerBlock, good (getSectorNum fs b + j))
    (hlow : b * fs.b.blockSize + fs.b.blockSize ≤ 2 ^ 32) :
    ∃ block, fs.block read b = some block ∧
      slice block 0 fs.b.blockSize = slice (content s) (b * fs.b.blockSize) fs.b.blockSize := by
  obtain ⟨block, s₁, hr, -, -, hbytes⟩ := readBlock_healthy h hdvd hpow hlt hs hgood
  obtain ⟨s₂, hr', -⟩ := readBlock_steady hsteady hs' b
  rw [(u32_mul_eq_iff hpow b).mpr hlow] at hbytes
  exact ⟨block, (congrArg Prod.fst (hr'.symm.trans hr)), hbytes⟩

/-! ## Contents that differ behind the first 4 GiB -/

/-- The same bytes below 4 GiB. -/
def AgreeLow (c c' : Mem) : Prop := ∀ a < 2 ^ 32, c' a = c a

/-- All bytes from 4 GiB on are `x`. -/
def fillHigh (c : Mem) (x : UInt8) : Mem := fun a => if a < 2 ^ 32 then c a else x

theorem agreeLow_fillHigh (c : Mem) (x : UInt8) : AgreeLow c (fillHigh c x) := fun _ ha => if_pos ha

theorem AgreeLow.le32_eq {c c' : Mem} (h : AgreeLow c c') {a : ℕ} (ha : a + 4 ≤ 2 ^ 32) :
    le32 c' a = le32 c a := by
  rw [le32, le32, le16, le16, le16, le16, h a (by omega), h (a + 1) (by omega), h (a + 2) (by omega),
    h (a + 2 + 1) (by omega)]

theorem le32_fillHigh (c : Mem) (x : UInt8) {a : ℕ} (ha : 2 ^ 32 ≤ a) :
    le32 (fillHigh c x) a = x.toNat * 0x1010101 := by
  have hbyte : ∀ i, fillHigh c x (a + i) = x := fun i => if_neg (by omega)
  have h₀ := hbyte 0
  rw [Nat.add_zero] at h₀
  rw [le32, le16, le16, Nat.add_assoc a 2 1, h₀, hbyte 1, hbyte 2, hbyte (2 + 1)]
  omega

end RpiBoot
