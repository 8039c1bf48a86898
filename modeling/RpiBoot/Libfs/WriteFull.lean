import RpiBoot.Libfs.Write

/-!
# Writes that are not refused

* `fsFwrite_congr`: a write looks up the blocks of its range, and no others.
* `fsFwrite_mode`: it leaves the mode of the file.
* **`WriteSetup.full`**: where all blocks that hold a byte of the range are mapped, a write returns the
  number of bytes asked for, and changes memory just in its buffers, and up to 16 bytes behind them.
-/

namespace RpiBoot

open Store

variable {σ ο : Type} {fs : Fs σ} {temp : ℕ → ℕ} {r : Span} {getNext getNext' : GetNext σ ο}

/-! ## Lookups -/

theorem fsFwriteLoop_congr {first : ℕ} (h : ∀ idx opq io, first ≤ idx → idx ≤ r.lastFBlockIdx →
      getNext idx true opq io = getNext' idx true opq io) :
    ∀ (fuel cur save : ℕ) (total : ℤ) (opq : ο) (io : FileIo σ), first ≤ cur →
      fsFwriteLoop getNext fs temp r fuel cur save total opq io =
        fsFwriteLoop getNext' fs temp r fuel cur save total opq io := by
  intro fuel
  induction fuel with
  | zero => exact fun _ _ _ _ _ _ => rfl
  | succ fuel ih =>
    intro cur save total opq io hcur
    have hnext := fun save total opq io => ih (cur + 1) save total opq io (Nat.le_succ_of_le hcur)
    rw [fsFwriteLoop, fsFwriteLoop]
    by_cases hlast : cur ≤ r.lastFBlockIdx
    · simp only [if_pos hlast, h cur opq io hcur hlast, hnext]
    · rw [if_neg hlast, if_neg hlast]

/-- **Two filesystems that find the same blocks** in the range write the same. -/
theorem fsFwrite_congr {opq : ο} {ptr n : ℕ} {io : FileIo σ}
    (h : ∀ idx opq' io', idx ≤ (span fs.blockSize (toU32 (writePos io.file)) n).lastFBlockIdx →
      getNext idx true opq' io' = getNext' idx true opq' io') :
    fsFwrite getNext fs temp opq ptr n io = fsFwrite getNext' fs temp opq ptr n io :=
  fsFwriteLoop_congr (fun idx opq' io' _ hlast => h idx opq' io' hlast) _ _ _ _ _ _ le_rfl

theorem fsFwriteLoop_mode
    (hkeep : ∀ idx opq io, (getNext idx true opq io).2.2.file.mode = io.file.mode) :
    ∀ (fuel cur save : ℕ) (total : ℤ) (opq : ο) (io : FileIo σ),
      (fsFwriteLoop getNext fs temp r fuel cur save total opq io).2.file.mode = io.file.mode := by
  intro fuel
  induction fuel with
  | zero => exact fun _ _ _ _ _ => rfl
  | succ fuel ih =>
    intro cur save total opq io
    have hmode := hkeep cur opq io
    rw [fsFwriteLoop]
    dsimp only
    split_ifs
    · exact hmode
    · exact hmode
    · exact (ih _ _ _ _ _).trans hmode
    · exact hmode
    · exact hmode
    · exact (ih _ _ _ _ _).trans hmode
    · rfl

/-- A write leaves the mode, when the lookups do. -/
theorem fsFwrite_mode
    (hkeep : ∀ idx opq io, (getNext idx true opq io).2.2.file.mode = io.file.mode) {opq : ο} {ptr n : ℕ}
    {io : FileIo σ} : (fsFwrite getNext fs temp opq ptr n io).2.file.mode = io.file.mode :=
  fsFwriteLoop_mode hkeep _ _ _ _ _ _

/-! ## The number of bytes, and memory -/

/-- An address that is not in a buffer of block `i` of the file, nor in the 16 bytes behind one. -/
def OffBuffers (temp : ℕ → ℕ) (bs a : ℕ) : Prop := ∀ i, a < temp i ∨ temp i + bs + 16 ≤ a

variable {inv : σ → Prop} {content : σ → Mem} {good : ℕ → Prop} {k : ℕ} {bm : ℕ → Option ℕ}
  {J : ℕ → ο → Mem → Prop} {ptr pos n cur p m : ℕ} {opq : ο} {io : FileIo σ}

/-- Loading a block changes memory in its buffer. -/
theorem loaded_apply {c m₀ : Mem} {i a : ℕ} (ha : OffBuffers temp fs.blockSize a) :
    loaded fs bm temp c m₀ i a = m₀ a := by
  have hoff := ha i
  unfold loaded
  cases bm i with
  | none => rfl
  | some b => exact patch_apply_of_notMem _ _ _ (by rw [length_slice]; omega)

/-- So does the first round. -/
theorem memAt_apply {c m₀ : Mem} {a : ℕ} (hbs : 0 < fs.blockSize) (htemp : TempApart temp fs.blockSize ptr n)
    (hcur : cur ≤ (pos + n) / fs.blockSize) (ha : OffBuffers temp fs.blockSize a) :
    memAt fs bm temp c m₀ ptr pos cur a = m₀ a := by
  unfold memAt
  split_ifs with h
  · have ht := htemp (pos / fs.blockSize)
    have hoff := ha (pos / fs.blockSize)
    have hlt := Nat.mod_lt pos hbs
    have hn := first_round_le h.1 hcur
    rw [qmemcpy_of_pos _ (by omega) (by omega), patch_apply_of_notMem _ _ _ (by rw [length_slice]; omega),
      loaded_apply ha]
  · rfl

/-- What the last round puts behind the range depends on memory behind the caller's bytes alone, where this
is not in the buffers. -/
theorem tailBytes_congr {c c' m₀ m₁ : Mem} (hbs : 0 < fs.blockSize) (htemp : TempApart temp fs.blockSize ptr n)
    (hoff : ∀ a, ptr + n ≤ a → a < ptr + n + 16 → OffBuffers temp fs.blockSize a ∧ m₀ a = m₁ a) :
    tailBytes fs bm temp c m₀ ptr pos n = tailBytes fs bm temp c' m₁ ptr pos n := by
  unfold tailBytes
  dsimp only
  cases bm ((pos + n) / fs.blockSize) with
  | none => rfl
  | some b =>
    dsimp only
    congr 2
    have hcount : copyCount (temp ((pos + n) / fs.blockSize) + (pos + n) % fs.blockSize) (ptr + n) 0 ≤ 16 := by
      unfold copyCount
      split_ifs <;> omega
    refine slice_congr fun i hi => ?_
    obtain ⟨ha, hm⟩ := hoff (ptr + n + i) (by omega) (by omega)
    rw [loaded_apply ha, loaded_apply ha, memAt_apply hbs htemp le_rfl ha, memAt_apply hbs htemp le_rfl ha, hm]

/-- **One round** on a mapped block. -/
theorem fsFwriteLoop_mapped (hfm : FileMap fs good k bm)
    (h : HealthyReads fs.parent inv content good) (hw : HealthyWrites fs.parent inv content good)
    (hl : Lookup getNext inv content true J bm) (hstable : Stable fs J bm)
    (htemp : TempApart temp fs.blockSize ptr n) (hr : Round fs.blockSize pos n cur p m)
    {b : ℕ} (hb : bm cur = some b) (hi : inv io.dev) (hJ : J cur opq (content io.dev)) (fuel : ℕ) :
    ∃ opq' io', fsFwriteLoop getNext fs temp (span fs.blockSize pos n) (fuel + 1) cur (ptr + (p - pos))
        ((p - pos : ℕ) : ℤ) opq io =
      fsFwriteLoop getNext fs temp (span fs.blockSize pos n) fuel (cur + 1) (ptr + (p + m - pos))
        ((p + m - pos : ℕ) : ℤ) opq' io' ∧
      inv io'.dev ∧ J (cur + 1) opq' (content io'.dev) ∧
      ∀ a, OffBuffers temp fs.blockSize a → io'.mem a = io.mem a := by
  have hp := hr.pos_le
  have hblock := hr.block_le
  have hend := hr.le_block
  have hstop := hr.le_stop
  obtain ⟨opq', io₁, hg, hJ', hmem, hi₁, hc₁, -, -⟩ := hl cur opq io hi hJ
  rw [hb, Option.getD_some] at hg
  by_cases hwhole : p - cur * fs.blockSize = 0 ∧ m = fs.blockSize
  · obtain ⟨s₂, hloop, hi₂, hc₂⟩ := fsFwriteLoop_whole temp fuel hfm hw hr hb hg hi₁ hwhole
    refine ⟨opq', _, hloop, hi₂, ?_, fun a _ => congrFun hmem a⟩
    change J (cur + 1) opq' (content s₂)
    rw [hc₂, hc₁]
    exact hstable _ _ _ _ _ _ 0 hJ' hb (by rw [length_slice]; omega)
  · -- the bytes copied into the buffer, at most 16 of them when there is nothing to transfer
    obtain ⟨mem₁, hmem₁⟩ : ∃ mem₁, mem₁ = patch io₁.mem (temp cur)
      (slice (content io₁.dev) (b * fs.parent.blockSize) fs.blockSize) := ⟨_, rfl⟩
    obtain ⟨l, hcopy, hlen⟩ : ∃ l, qmemcpy mem₁ (temp cur + (p - cur * fs.blockSize)) (ptr + (p - pos)) m =
        patch mem₁ (temp cur + (p - cur * fs.blockSize)) l ∧ l.length ≤ max m 16 := by
      rcases Nat.eq_zero_or_pos m with rfl | hm
      · refine ⟨_, qmemcpy_zero _ _ _, ?_⟩
        rw [length_slice, copyCount]
        split_ifs <;> omega
      · have ht := htemp cur
        exact ⟨_, qmemcpy_of_pos mem₁ hm (by omega), by rw [length_slice]; omega⟩
    obtain ⟨s₂, hloop, hi₂, hc₂⟩ :=
      fsFwriteLoop_partial fuel hfm h hw hr hb hg hi₁ hwhole hmem₁ hcopy
    refine ⟨opq', _, hloop, hi₂, ?_, fun a ha => ?_⟩
    · change J (cur + 1) opq' (content s₂)
      rw [hc₂, hc₁]
      exact hstable _ _ _ _ _ _ _ hJ' hb (by rw [List.length_take]; omega)
    · have hoff := ha cur
      change patch mem₁ (temp cur + (p - cur * fs.blockSize)) l a = io.mem a
      rw [patch_apply_of_notMem _ _ _ (by omega), hmem₁,
        patch_apply_of_notMem _ _ _ (by rw [length_slice]; omega), hmem]

/-- The rounds from `cur` to the last. -/
theorem fsFwriteLoop_full (hfm : FileMap fs good k bm)
    (h : HealthyReads fs.parent inv content good) (hw : HealthyWrites fs.parent inv content good)
    (hl : Lookup getNext inv content true J bm) (hstable : Stable fs J bm)
    (htemp : TempApart temp fs.blockSize ptr n) (hn : pos + n < 2 ^ 31)
    (hmap : ∀ p, pos ≤ p → p < pos + n → bm (p / fs.blockSize) ≠ none) :
    ∀ fuel cur opq io, cur + fuel = (pos + n) / fs.blockSize + 1 → pos / fs.blockSize ≤ cur →
      inv io.dev → J cur opq (content io.dev) →
      ∃ io', fsFwriteLoop getNext fs temp (span fs.blockSize pos n) fuel cur
          (ptr + (reach fs.blockSize pos (pos + n) cur - pos))
          ((reach fs.blockSize pos (pos + n) cur - pos : ℕ) : ℤ) opq io = (n, io') ∧
        ∀ a, OffBuffers temp fs.blockSize a → io'.mem a = io.mem a := by
  have hbs := hfm.size_pos
  intro fuel
  induction fuel with
  | zero =>
    intro cur opq io hf _ _ _
    refine ⟨io, ?_, fun _ _ => rfl⟩
    rw [fsFwriteLoop, show cur = (pos + n) / fs.blockSize + 1 by omega, reach_last hbs,
      Nat.add_sub_cancel_left, toU32_natCast (by omega)]
  | succ fuel ih =>
    intro cur opq io hf h₁ hi hJ
    have h₂ : cur ≤ (pos + n) / fs.blockSize := by omega
    obtain ⟨p, m, hr⟩ := exists_round hbs hn (hfm.size_lt.trans (by decide)) h₁ h₂
    have hp := hr.pos_le
    have hstop := hr.le_stop
    rw [hr.start_eq]
    cases hb : bm cur with
    | none =>
      -- a block that holds no byte of the range
      have hm : m = 0 := by
        by_contra hpos
        refine hmap p hp (by omega) ?_
        have hd : p / fs.blockSize = cur := by
          have := hr.block_le
          have := hr.le_block
          exact Nat.div_eq_of_lt_le (by omega) (by rw [Nat.add_mul]; omega)
        rw [hd, hb]
      subst hm
      obtain ⟨-, hpe, -⟩ := hr.of_empty hbs h₁
      obtain ⟨opq', io₁, hg, -, hmem, -⟩ := hl cur opq io hi hJ
      rw [hb, Option.getD_none] at hg
      refine ⟨io₁, ?_, fun a _ => congrFun hmem a⟩
      rw [fsFwriteLoop, if_pos hr.cur_le]
      simp only [hg, if_true, hpe, Nat.add_sub_cancel_left, toU32_natCast (show n < 2 ^ 32 by omega)]
    | some b =>
      obtain ⟨opq', io₁, hloop, hi₁, hJ₁, hmem₁⟩ :=
        fsFwriteLoop_mapped hfm h hw hl hstable htemp hr hb hi hJ fuel
      obtain ⟨io', hrest, hmem'⟩ := ih (cur + 1) opq' io₁ (by omega) (by omega) hi₁ hJ₁
      rw [hr.stop_eq] at hrest
      exact ⟨io', hloop.trans hrest, fun a ha => (hmem' a ha).trans (hmem₁ a ha)⟩

/-- **A write to mapped blocks.** -/
theorem WriteSetup.full (hs : WriteSetup fs inv content good k bm getNext J temp ptr pos n opq io)
    (hmap : ∀ p, pos ≤ p → p < pos + n → bm (p / fs.blockSize) ≠ none) :
    ∃ io', fsFwrite getNext fs temp opq ptr n io = (n, io') ∧
      WriteDone fs inv content bm temp (content io.dev) io.mem ptr pos n io.file.len io' ∧
      ∀ a, OffBuffers temp fs.blockSize a → io'.mem a = io.mem a := by
  have hn := hs.range
  have hfirst : reach fs.blockSize pos (pos + n) (pos / fs.blockSize) = pos :=
    reach_first (Nat.le_add_right _ _)
  have hdiv : pos / fs.blockSize ≤ (pos + n) / fs.blockSize :=
    Nat.div_le_div_right (Nat.le_add_right _ _)
  obtain ⟨io', hloop, hmem⟩ := fsFwriteLoop_full hs.fileMap hs.reads hs.writes hs.lookup hs.stable hs.apart
    hn hmap ((pos + n) / fs.blockSize + 1 - pos / fs.blockSize) (pos / fs.blockSize) opq
    { io with file := { io.file with pos := writePos io.file } } (by omega) le_rfl hs.dev_inv hs.start
  rw [hfirst, Nat.sub_self] at hloop
  have hwrite : fsFwrite getNext fs temp opq ptr n io = (n, io') := by
    rw [← hloop]
    simp only [fsFwrite, hs.pos_eq, toU32_natCast (show pos < 2 ^ 32 by omega), span,
      u32_of_lt (show pos + n < 2 ^ 32 by omega), Nat.add_zero, Nat.cast_zero]
  have hdone := hs.done (by rw [hwrite])
  rw [hwrite] at hdone
  exact ⟨io', hwrite, hdone, hmem⟩

end RpiBoot
