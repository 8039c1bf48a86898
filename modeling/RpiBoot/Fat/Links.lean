import RpiBoot.Block.Steady
import RpiBoot.Fat.Directory

/-!
# The links of a FAT volume

On a device with steady contents the cluster that follows another is a function of its number, whatever
the table holds and whether it can be read. `read` is what the reads of the device deliver.

* `fatEntryValue`: the link of a cluster; **`getNextFatEntry_steady`**: `get_next_fat_entry` returns it.
-/

namespace RpiBoot

variable {σ : Type}

/-- The link of a cluster: its entry in the table, the bad mark when this cannot be read, and `0` on
FAT12. -/
def fatEntryValue (fs : FatFs σ) (read : ℕ → ℕ → ℕ × Mem) (c : ℕ) : ℕ :=
  match fs.fatType with
  | .fat16 =>
    let r := read 512 (u32 (fs.firstFatSector + u32 (c * 2) / fs.bytesPerSector))
    let v := le16 r.2 (u32 (c * 2) % fs.bytesPerSector)
    if i32 r.1 < 0 then 0x0ffffff7 else if v ≥ 0xfff7 then v ||| 0x0fff0000 else v
  | .fat32 =>
    let r := read 512 (u32 (fs.firstFatSector + u32 (c * 4) / fs.bytesPerSector))
    if i32 r.1 < 0 then 0x0ffffff7
    else le32 r.2 (u32 (c * 4) % fs.bytesPerSector) &&& 0x0fffffff
  | .fat12 => 0

variable {inv : σ → Prop} {read : ℕ → ℕ → ℕ × Mem} {fs : FatFs σ}

/-- **`get_next_fat_entry` returns the link.** -/
theorem getNextFatEntry_steady (h : SteadyReads fs.b.parent inv read) {s : σ} (hs : inv s) (c : ℕ) :
    ∃ s', getNextFatEntry fs s c = (fatEntryValue fs read c, s') ∧ inv s' := by
  unfold getNextFatEntry fatEntryValue readFatSector
  cases fs.fatType with
  | fat12 => exact ⟨s, rfl, hs⟩
  | fat16 =>
    dsimp only
    obtain ⟨s', hr, hi⟩ := h s 512 (u32 (fs.firstFatSector + u32 (c * 2) / fs.bytesPerSector)) hs
    rw [hr]
    exact ⟨s', by dsimp only; split_ifs <;> rfl, hi⟩
  | fat32 =>
    dsimp only
    obtain ⟨s', hr, hi⟩ := h s 512 (u32 (fs.firstFatSector + u32 (c * 4) / fs.bytesPerSector)) hs
    rw [hr]
    exact ⟨s', by dsimp only; split_ifs <;> rfl, hi⟩

end RpiBoot
