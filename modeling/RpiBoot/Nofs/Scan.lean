import Mathlib.Data.List.Find
import RpiBoot.Nofs.Persistence

/-!
# Opening a nofs file for appending

`nofs_fopen` looks for the first end-of-file byte block by block. The number of the block never
changes, so only block 0 is looked at, again and again while it holds no such byte.

* `appendPos`: where the file ends, from the contents of the whole device.
* `nofsScan_round`, `nofsScan_endless`: a round of the scan, and the scan where block 0 has no end-of-file
  byte.
* **`nofsFopen_append_iff`**: the file is opened at its end just when this lies in block 0.
-/

namespace RpiBoot

open Store

variable {σ : Type} {dev : BlockDevice σ} {inv : σ → Prop} {content : σ → Mem} {good : ℕ → Prop}

/-- A device whose blocks, as many as it says it has, can all be read. -/
structure KnownBlocks (dev : BlockDevice σ) (inv : σ → Prop) (content : σ → Mem) (good : ℕ → Prop) :
    Prop where
  reads : HealthyReads dev inv content good
  known : dev.numBlocks ≠ 0
  all_good : ∀ b < dev.numBlocks, good b

/-- Block 0 starts with the byte order mark. -/
def HasBom (dev : BlockDevice σ) (c : Mem) : Prop := 3 ≤ dev.blockSize ∧ slice c 0 3 = utfBom

/-- The offset of the first end-of-file byte among the first `n`, or the length of the byte order
mark. -/
def appendPos (c : Mem) (n : ℕ) : ℕ := ((List.range n).find? fun i => c i = eof).getD 3

/-! ## The first byte found -/

/-- What is found among `m` numbers is found among more. -/
theorem find_range_mono {p : ℕ → Bool} {m n i : ℕ} (hmn : m ≤ n) (h : (List.range m).find? p = some i) :
    (List.range n).find? p = some i := by
  rw [List.find?_range_eq_some, List.mem_range] at h ⊢
  exact ⟨h.1, by omega, h.2.2⟩

/-- The scan of a buffer that holds a slice of a store. -/
theorem firstEof_patch_slice (mem c : Mem) (buf a n : ℕ) :
    firstEof (patch mem buf (slice c a n)) buf n = (List.range n).find? fun i => c (a + i) = eof := by
  apply List.find?_congr
  intro i hi
  have hlt := List.mem_range.mp hi
  rw [patch_apply_add _ _ _ (by rwa [length_slice]), getElem_slice]

/-! ## The scan -/

section Scan

variable {s : σ} {b : ℕ} (buf fuel : ℕ) (mem : Mem)

/-- One round of the scan on a block that can be read. -/
theorem nofsScan_round (h : HealthyReads dev inv content good) (hs : inv s) (hb : good b)
    (hlt : b < dev.numBlocks) :
    ∃ mem' s', inv s' ∧ content s' = content s ∧
      (∀ a, a < buf ∨ buf + dev.blockSize ≤ a → mem' a = mem a) ∧
      nofsScan (nofsInit dev) buf b (fuel + 1) mem s =
        ((List.range dev.blockSize).find? fun i => content s (b * dev.blockSize + i) = eof).elim
          (nofsScan (nofsInit dev) buf b fuel mem' s')
          fun i => some (some (b * dev.blockSize + i), mem', s') := by
  obtain ⟨rd, hrd, hlaw⟩ := h.exists_read
  have hbs := dev.blockSize_lt
  obtain ⟨s', hr, hi, hc⟩ := hlaw s buf 1 b hs one_pos
    (fun i hi => by rwa [show b + i = b by omega]) (by rwa [Nat.one_mul])
  rw [Nat.one_mul] at hr
  refine ⟨patch mem buf (slice (content s) (b * dev.blockSize) dev.blockSize), s', hi, hc,
    fun a ha => patch_apply_of_notMem _ _ _ (by rwa [length_slice]), ?_⟩
  have hne : dev.blockSize ≠ 0 := dev.blockSize_pos.ne'
  have hret : toU32 (dev.blockSize : ℕ) = dev.blockSize := toU32_natCast (by omega)
  rw [nofsScan]
  simp only [nofsInit, hlt, if_true, hrd, hr, hret, hne, if_false, firstEof_patch_slice]
  cases (List.range dev.blockSize).find? fun i => content s (b * dev.blockSize + i) = eof <;> rfl

/-- Without an end-of-file byte in the block, the scan goes round and round. -/
theorem nofsScan_endless (h : HealthyReads dev inv content good) (hb : good b) (hlt : b < dev.numBlocks)
    {c : Mem} (hno : (List.range dev.blockSize).find? (fun i => c (b * dev.blockSize + i) = eof) = none) :
    ∀ (fuel : ℕ) (mem : Mem) (s : σ), inv s → content s = c →
      nofsScan (nofsInit dev) buf b fuel mem s = none
  | 0, _, _, _, _ => rfl
  | fuel + 1, mem, s, hs, hc => by
    obtain ⟨mem', s', hs', hc', -, hround⟩ := nofsScan_round buf fuel mem h hs hb hlt
    rw [hround, hc, hno]
    exact nofsScan_endless h hb hlt hno fuel mem' s' hs' (hc'.trans hc)

end Scan

/-! ## Opening -/

section Open

variable {mode : String} {s : σ}

/-- The first block, read to look for the byte order mark. -/
theorem nofsFopen_append (h : KnownBlocks dev inv content good)
    (hmode : fsInterpretMode mode &&& vfsModeAppend ≠ 0) (hs : inv s)
    (hbom : HasBom dev (content s)) (fuel buf : ℕ) (mem : Mem) :
    ∃ s', inv s' ∧ content s' = content s ∧
      nofsFopen (nofsInit dev) fuel buf mode mem s =
        (nofsScan (nofsInit dev) buf 0 fuel mem s').map fun r =>
          (some ⟨(r.1.getD 3 : ℕ), fsInterpretMode mode, (r.1.getD 3 : ℕ), 0⟩, r.2.1, r.2.2) := by
  have hgood := h.all_good 0 (Nat.pos_of_ne_zero h.known)
  obtain ⟨block0, s', hr, hblock, hi, hc⟩ := readFresh_healthy h.reads hs hgood
  have hbom' : slice block0 0 3 = utfBom := by
    rw [← hbom.2, slice_eq_iff]
    intro i hi
    have hle := hbom.1
    have := slice_eq_iff.mp hblock i (by omega)
    rwa [Nat.zero_mul] at this
  exact ⟨s', hi, hc, (nofsFopen_of_bom hr hbom').trans (if_pos ⟨hmode, h.known⟩)⟩

/-- Without an end-of-file byte in block 0, the call does not return. -/
theorem nofsFopen_endless (h : KnownBlocks dev inv content good)
    (hmode : fsInterpretMode mode &&& vfsModeAppend ≠ 0) (hs : inv s) (hbom : HasBom dev (content s))
    (hno : (List.range dev.blockSize).find? (fun i => content s (0 * dev.blockSize + i) = eof) = none)
    (fuel buf : ℕ) (mem : Mem) : nofsFopen (nofsInit dev) fuel buf mode mem s = none := by
  have hpos := Nat.pos_of_ne_zero h.known
  obtain ⟨s₁, hs₁, hc₁, hscan⟩ := nofsFopen_append h hmode hs hbom fuel buf mem
  rw [hscan, nofsScan_endless buf h.reads (h.all_good 0 hpos) hpos hno fuel mem s₁ hs₁ hc₁, Option.map_none]

/-- The call returns a file, and the position of the file is the end of the file on the device. -/
def OpensAtEnd (dev : BlockDevice σ) (c : Mem) (buf : ℕ) (mode : String) (mem : Mem) (s : σ) : Prop :=
  ∃ fuel file mem' s', nofsFopen (nofsInit dev) fuel buf mode mem s = some (some file, mem', s') ∧
    file.pos = appendPos c (dev.numBlocks * dev.blockSize)

/-- **When a nofs file is opened at its end.** In an append mode, on a device that starts with the byte
order mark, just when block 0 holds an end-of-file byte. -/
theorem nofsFopen_append_iff (h : KnownBlocks dev inv content good)
    (hmode : fsInterpretMode mode &&& vfsModeAppend ≠ 0) (hs : inv s) (hbom : HasBom dev (content s))
    (buf : ℕ) (mem : Mem) :
    OpensAtEnd dev (content s) buf mode mem s ↔ ∃ i < dev.blockSize, content s i = eof := by
  have hpos := Nat.pos_of_ne_zero h.known
  have hgood := h.all_good 0 hpos
  cases hfind : (List.range dev.blockSize).find? fun i => content s (0 * dev.blockSize + i) = eof with
  | none =>
    have hno : ¬ ∃ i < dev.blockSize, content s i = eof := by
      rintro ⟨i, hi, heof⟩
      have := List.find?_range_eq_none.mp hfind i hi
      simp [heof] at this
    refine iff_of_false ?_ hno
    rintro ⟨fuel, file, mem', s', hopen, -⟩
    rw [nofsFopen_endless h hmode hs hbom hfind] at hopen
    cases hopen
  | some i =>
    have hi := List.find?_range_eq_some.mp hfind
    rw [List.mem_range] at hi
    refine iff_of_true ?_ ⟨i, hi.2.1, by simpa using hi.1⟩
    obtain ⟨s₁, hs₁, hc₁, hscan⟩ := nofsFopen_append h hmode hs hbom 1 buf mem
    obtain ⟨mem₂, s₂, hs₂, hc₂, -, hround⟩ := nofsScan_round buf 0 mem h.reads hs₁ hgood hpos
    rw [hc₁, hfind] at hround
    rw [hround] at hscan
    refine ⟨1, _, mem₂, s₂, hscan, ?_⟩
    -- the first byte of block 0 is the first of the device
    have hmono := find_range_mono (Nat.le_mul_of_pos_left dev.blockSize hpos) hfind
    simp only [Nat.zero_mul, Nat.zero_add] at hmono
    simp [appendPos, hmono]

end Open

/-! ## Examples -/

/-- Two blocks: a byte order mark, and an end-of-file byte at offset `i`. -/
def bomVolume (i : ℕ) : Mem := patch (patch (fun _ => 0) 0 utfBom) i [eof]

theorem storeDevice_knownBlocks :
    KnownBlocks (storeDevice 2) (fun _ => True) (fun c => c) fun b => b * 512 + 512 ≤ 2 * 512 :=
  ⟨(storeDevice_serves (by decide)).healthyReads, by decide, by decide⟩

theorem hasBom_bomVolume {i : ℕ} (hi : 3 ≤ i) : HasBom (storeDevice 2) (bomVolume i) := by
  refine ⟨by decide, ?_⟩
  rw [bomVolume, slice_patch_of_disjoint (Or.inl (by omega))]
  exact slice_patch _ _ utfBom

/-- A file that ends at offset 5. -/
theorem nofsFopen_append_five :
    OpensAtEnd (storeDevice 2) (bomVolume 5) 0x1000 "a+" (fun _ => 0) (bomVolume 5) ↔
      ∃ i < 512, bomVolume 5 i = eof :=
  nofsFopen_append_iff storeDevice_knownBlocks (by decide) trivial (hasBom_bomVolume (by decide)) _ _

/-- A file that ends in block 1 is never opened. -/
theorem nofsFopen_append_broken :
    HasBom (storeDevice 2) (bomVolume 600) ∧
      appendPos (bomVolume 600) ((storeDevice 2).numBlocks * (storeDevice 2).blockSize) = 600 ∧
      (∀ fuel, nofsFopen (nofsInit (storeDevice 2)) fuel 0x1000 "a+" (fun _ => 0) (bomVolume 600) = none) ∧
      ¬ OpensAtEnd (storeDevice 2) (bomVolume 600) 0x1000 "a+" (fun _ => 0) (bomVolume 600) := by
  have hnone : ∀ fuel, nofsFopen (nofsInit (storeDevice 2)) fuel 0x1000 "a+" (fun _ => 0)
      (bomVolume 600) = none := fun fuel =>
    nofsFopen_endless storeDevice_knownBlocks (by decide) trivial (hasBom_bomVolume (by decide))
      (by decide +kernel) fuel _ _
  refine ⟨hasBom_bomVolume (by decide), by decide +kernel, hnone, ?_⟩
  rintro ⟨fuel, file, mem', s', hopen, -⟩
  rw [hnone] at hopen
  cases hopen

end RpiBoot
