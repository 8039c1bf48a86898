import RpiBoot.Streams.Cursor

/-!
# A block that cannot be read

`block_read` returns a negative number when it fails, and `fs_fread` ends at that block. Where the block
was to be read whole, the negative number is added to the bytes counted so far. Where a part of it was
wanted, the number is compared as an unsigned one, and the part is counted as if it had been read.

* `fsFreadBytes`: what `block_read` returns in a round.
* `FailsAt`: the first block that cannot be read.
* `fsFreadRound_ok_spec`, `fsFreadRound_fails`: a round whose block is read, and one whose block is not.
* **`fsFread_failure_iff`**: the bytes before the block are counted, and no others, exactly when nothing of
  it is wanted.
-/

namespace RpiBoot

variable {σ ο : Type}

/-- What `block_read` returns in a round, where the filesystem finds a block. -/
def fsFreadBytes (getNext : GetNext σ ο) (fs : Fs σ) (temp : ℕ → ℕ) (r : Span) (st : FreadState σ ο) :
    Option ℕ :=
  let off := r.offsets fs.blockSize st.curBlock
  let segmentLength := sub32 off.2 off.1
  let g := getNext st.curBlock false st.opq st.io
  let buf := if off.1 = 0 ∧ segmentLength = fs.blockSize then st.saveBuf else temp st.curBlock
  if g.1 = noBlock then none
  else some (blockRead fs.parent g.2.2.dev g.2.2.mem buf fs.blockSize g.1).1

/-- A read of `n` bytes at `pos` reads the blocks before `f`, and `block_read` returns a negative number
for block `f`. -/
structure FailsAt (getNext : GetNext σ ο) (fs : Fs σ) (temp : ℕ → ℕ) (opq : ο) (ptr pos n : ℕ)
    (io : FileIo σ) (f : ℕ) : Prop where
  first_le : pos / fs.blockSize ≤ f
  le_last : f ≤ (span fs.blockSize pos n).lastFBlockIdx
  before : ∀ i, pos / fs.blockSize ≤ i → i < f →
    fsFreadBytes getNext fs temp (span fs.blockSize pos n)
      (fsFreadAt getNext fs temp opq ptr pos n io i) = some fs.blockSize
  fails : ∃ count, fsFreadBytes getNext fs temp (span fs.blockSize pos n)
    (fsFreadAt getNext fs temp opq ptr pos n io f) = some count ∧ i32 count < 0

/-- A read that starts at `pos` returns the number of bytes before block `f`, and has moved the position
by it. -/
def CountsBefore (bs pos f : ℕ) (r : ℕ × FileIo σ) : Prop :=
  r.1 = f * bs - pos ∧ r.2.file.pos = (pos + (f * bs - pos) : ℕ)

variable {getNext : GetNext σ ο} {fs : Fs σ} {temp : ℕ → ℕ} {r : Span} {st : FreadState σ ο}

/-! ## One round -/

/-- A segment of a block that has been read is cut by nothing. -/
theorem cutSegment_of_le {start last bytes : ℕ} (h : last ≤ bytes) :
    cutSegment start last bytes = last - start := by
  unfold cutSegment
  dsimp only
  split_ifs <;> omega

theorem Span.offsets_le (r : Span) {bs : ℕ} (h : r.lastFBlockOffset ≤ bs) (cur : ℕ) :
    (r.offsets bs cur).2 ≤ bs := by
  unfold Span.offsets
  dsimp only
  split_ifs
  · exact h
  · exact le_rfl

/-- **A round whose block is read** moves on by its segment. -/
theorem fsFreadRound_ok_spec (hkeep : KeepsPlace getNext) (hbs : fs.blockSize < 2 ^ 31)
    (hlast : r.lastFBlockOffset ≤ fs.blockSize)
    (h : fsFreadBytes getNext fs temp r st = some fs.blockSize) :
    ∃ st', fsFreadRound getNext fs temp r st = .ok st' ∧ st'.curBlock = st.curBlock + 1 ∧
      st'.totalBytesRead = st.totalBytesRead + ((r.offsets fs.blockSize st.curBlock).2 -
        (r.offsets fs.blockSize st.curBlock).1 : ℕ) ∧
      st'.io.file.pos = st.io.file.pos + ((r.offsets fs.blockSize st.curBlock).2 -
        (r.offsets fs.blockSize st.curBlock).1 : ℕ) := by
  have hle := r.offsets_le hlast st.curBlock
  have hpos := (hkeep st.curBlock false st.opq st.io).1
  unfold fsFreadBytes at h
  unfold fsFreadRound
  dsimp only at h ⊢
  by_cases hno : (getNext st.curBlock false st.opq st.io).1 = noBlock
  · rw [if_pos hno] at h
    cases h
  rw [if_neg hno] at h ⊢
  have hcount := Option.some.inj h
  by_cases hwhole : (r.offsets fs.blockSize st.curBlock).1 = 0 ∧
      sub32 (r.offsets fs.blockSize st.curBlock).2 (r.offsets fs.blockSize st.curBlock).1 = fs.blockSize
  · rw [if_pos hwhole] at hcount ⊢
    have hseg : (r.offsets fs.blockSize st.curBlock).2 - (r.offsets fs.blockSize st.curBlock).1 =
        fs.blockSize := by
      rw [← sub32_of_le (by omega) (by omega), hwhole.2]
    rw [hcount, if_neg (not_not.mpr rfl), i32_of_lt hbs, hseg]
    refine ⟨_, rfl, rfl, rfl, ?_⟩
    simp only [FileIo.advance, hpos]
  · rw [if_neg hwhole] at hcount ⊢
    rw [hcount, if_neg (not_not.mpr rfl), cutSegment_of_le hle]
    refine ⟨_, rfl, rfl, rfl, ?_⟩
    simp only [FileIo.advance, hpos]

/-- **A round whose block cannot be read** counts `k` bytes of it, which is no bytes just when its segment
is empty. -/
theorem fsFreadRound_fails (hkeep : KeepsPlace getNext) (hbs₀ : 0 < fs.blockSize)
    (hbs : fs.blockSize < 2 ^ 31) (hlast : r.lastFBlockOffset ≤ fs.blockSize) {count : ℕ}
    (h : fsFreadBytes getNext fs temp r st = some count) (hneg : i32 count < 0) :
    ∃ (k : ℤ) (io' : FileIo σ),
      fsFreadRound getNext fs temp r st = .error (toU32 (st.totalBytesRead + k), io') ∧
      io'.file.pos = st.io.file.pos + k ∧ -2 ^ 31 ≤ k ∧ k < 2 ^ 31 ∧
      (k = 0 ↔ (r.offsets fs.blockSize st.curBlock).2 ≤ (r.offsets fs.blockSize st.curBlock).1) := by
  have hle := r.offsets_le hlast st.curBlock
  have hpos := (hkeep st.curBlock false st.opq st.io).1
  have hbig : 2 ^ 31 ≤ count := by
    by_contra hsmall
    rw [i32_of_lt (by omega)] at hneg
    omega
  have hlow := le_i32 count
  unfold fsFreadBytes at h
  unfold fsFreadRound
  dsimp only at h ⊢
  by_cases hno : (getNext st.curBlock false st.opq st.io).1 = noBlock
  · rw [if_pos hno] at h
    cases h
  rw [if_neg hno] at h ⊢
  have hcount := Option.some.inj h
  by_cases hwhole : (r.offsets fs.blockSize st.curBlock).1 = 0 ∧
      sub32 (r.offsets fs.blockSize st.curBlock).2 (r.offsets fs.blockSize st.curBlock).1 = fs.blockSize
  · -- the negative number itself is counted
    rw [if_pos hwhole] at hcount ⊢
    have hseg : (r.offsets fs.blockSize st.curBlock).2 - (r.offsets fs.blockSize st.curBlock).1 =
        fs.blockSize := by
      rw [← sub32_of_le (by omega) (by omega), hwhole.2]
    rw [hcount, if_pos (by omega)]
    refine ⟨i32 count, _, rfl, ?_, hlow, by omega, by omega⟩
    simp only [FileIo.advance, hpos]
  · -- as an unsigned number it cuts nothing off the segment
    rw [if_neg hwhole] at hcount ⊢
    rw [hcount, if_pos (by omega), cutSegment_of_le (by omega)]
    refine ⟨_, _, rfl, ?_, by omega, by omega, by omega⟩
    simp only [FileIo.advance, hpos]

/-! ## The whole read -/

variable {opq : ο} {ptr pos n f : ℕ} {io : FileIo σ}

theorem span_lastFBlockOffset_le (hbs : 0 < fs.blockSize) :
    (span fs.blockSize pos n).lastFBlockOffset ≤ fs.blockSize :=
  (Nat.mod_lt _ hbs).le

/-- The segment of a block before the last. -/
theorem segment_before {i : ℕ} (hbs : 0 < fs.blockSize) (h₁ : pos / fs.blockSize ≤ i)
    (h₂ : i < (span fs.blockSize pos n).lastFBlockIdx) :
    i * fs.blockSize - pos + (((span fs.blockSize pos n).offsets fs.blockSize i).2 -
      ((span fs.blockSize pos n).offsets fs.blockSize i).1) = (i + 1) * fs.blockSize - pos := by
  have hd := Nat.div_add_mod' pos fs.blockSize
  have hlt := Nat.mod_lt pos hbs
  rw [Nat.add_mul, Nat.one_mul]
  simp only [Span.offsets, if_neg (Nat.ne_of_lt h₂)]
  by_cases hi : i = (span fs.blockSize pos n).firstFBlockIdx
  · rw [if_pos hi]
    obtain rfl : i = pos / fs.blockSize := hi
    simp only [span]
    omega
  · rw [if_neg hi]
    have hle := Nat.mul_le_mul_right fs.blockSize (Nat.lt_of_le_of_ne h₁ (Ne.symm hi))
    rw [Nat.succ_mul] at hle
    omega

/-- **The rounds up to the block that cannot be read.** -/
theorem FailsAt.reaches (hf : FailsAt getNext fs temp opq ptr pos n io f) (hkeep : KeepsPlace getNext)
    (hbs₀ : 0 < fs.blockSize) (hbs : fs.blockSize < 2 ^ 31) (hpos : io.file.pos = pos)
    (hp : pos < 2 ^ 31) :
    ∃ st, st = fsFreadAt getNext fs temp opq ptr pos n io f ∧ st.curBlock = f ∧
      st.totalBytesRead = (f * fs.blockSize - pos : ℕ) ∧
      st.io.file.pos = (pos + (f * fs.blockSize - pos) : ℕ) ∧
      fsFread getNext fs temp opq ptr n io = fsFreadLoop getNext fs temp (span fs.blockSize pos n)
        ((span fs.blockSize pos n).lastFBlockIdx + 1 - f) st := by
  suffices hall : ∀ i, pos / fs.blockSize ≤ i → i ≤ f →
      ∃ st, st = fsFreadAt getNext fs temp opq ptr pos n io i ∧ st.curBlock = i ∧
        st.totalBytesRead = (i * fs.blockSize - pos : ℕ) ∧
        st.io.file.pos = (pos + (i * fs.blockSize - pos) : ℕ) ∧
        fsFread getNext fs temp opq ptr n io = fsFreadLoop getNext fs temp (span fs.blockSize pos n)
          ((span fs.blockSize pos n).lastFBlockIdx + 1 - i) st from hall f hf.first_le le_rfl
  intro i hi
  induction i, hi using Nat.le_induction with
  | base =>
    intro _
    have hzero : pos / fs.blockSize * fs.blockSize - pos = 0 :=
      Nat.sub_eq_zero_of_le (Nat.div_mul_le_self _ _)
    refine ⟨⟨pos / fs.blockSize, ptr, 0, opq, io⟩, ?_, rfl, ?_, ?_, ?_⟩
    · rw [fsFreadAt, Nat.sub_self, Function.iterate_zero_apply]
    · rw [hzero, Nat.cast_zero]
    · rw [hzero, Nat.add_zero]
      exact hpos
    · rw [fsFread, hpos, toU32_natCast (by omega)]
      rfl
  | succ i hi ih =>
    intro hle
    obtain ⟨st, hst, hcur, htotal, hplace, hloop⟩ := ih (by omega)
    have hlast := hf.le_last
    have hread := hf.before i hi (by omega)
    rw [← hst] at hread
    obtain ⟨st', hround, hcur', htotal', hplace'⟩ :=
      fsFreadRound_ok_spec hkeep hbs (span_lastFBlockOffset_le hbs₀) hread
    have hseg := segment_before (n := n) hbs₀ hi (by omega)
    rw [hcur] at hcur' htotal' hplace'
    refine ⟨st', ?_, hcur', ?_, ?_, ?_⟩
    · rw [hst] at hround
      exact (fsFreadAt_succ hi hround).symm
    · rw [htotal', htotal, ← hseg, Nat.cast_add]
    · rw [hplace', hplace, ← hseg, ← Nat.add_assoc]
      push_cast
      rfl
    · rw [hloop, show (span fs.blockSize pos n).lastFBlockIdx + 1 - i =
        (span fs.blockSize pos n).lastFBlockIdx + 1 - (i + 1) + 1 by omega, fsFreadLoop,
        if_pos (by rw [hcur]; omega), hround]

/-- What such a read counts. -/
theorem FailsAt.counts_iff (hf : FailsAt getNext fs temp opq ptr pos n io f)
    (hkeep : KeepsPlace getNext) (hbs₀ : 0 < fs.blockSize) (hbs : fs.blockSize < 2 ^ 31)
    (hpos : io.file.pos = pos) (hp : pos < 2 ^ 31) :
    CountsBefore fs.blockSize pos f (fsFread getNext fs temp opq ptr n io) ↔
      ((span fs.blockSize pos n).offsets fs.blockSize f).2 ≤
        ((span fs.blockSize pos n).offsets fs.blockSize f).1 := by
  obtain ⟨st, hst, hcur, htotal, hplace, hloop⟩ := hf.reaches hkeep hbs₀ hbs hpos hp
  obtain ⟨count, hcount, hneg⟩ := hf.fails
  rw [← hst] at hcount
  obtain ⟨k, io', hround, hplace', hk₁, hk₂, hzero⟩ :=
    fsFreadRound_fails hkeep hbs₀ hbs (span_lastFBlockOffset_le hbs₀) hcount hneg
  have hlast := hf.le_last
  -- the bytes before the block are fewer than fit the address space
  have hfew : f * fs.blockSize < 2 ^ 32 := by
    have h₁ := Nat.mul_le_mul_right fs.blockSize hlast
    have h₂ : (span fs.blockSize pos n).lastFBlockIdx * fs.blockSize ≤ u32 (pos + n) :=
      Nat.div_mul_le_self _ _
    have h₃ := u32_lt (pos + n)
    omega
  have hresult : fsFread getNext fs temp opq ptr n io = (toU32 (st.totalBytesRead + k), io') := by
    rw [hloop, show (span fs.blockSize pos n).lastFBlockIdx + 1 - f =
      (span fs.blockSize pos n).lastFBlockIdx - f + 1 by omega, fsFreadLoop,
      if_pos (by rw [hcur]; omega), hround]
  rw [hcur] at hzero
  rw [hresult, CountsBefore, ← hzero, hplace', hplace, htotal]
  constructor
  · rintro ⟨-, hmoved⟩
    omega
  · rintro rfl
    rw [add_zero, add_zero, toU32_natCast (by omega)]
    exact ⟨rfl, rfl⟩

/-- **A block that cannot be read.** Where `block_read` returns a negative number for block `f`, after it
has read the blocks before it, `fs_fread` returns the number of bytes before block `f`, and moves the
position by it, if and only if the last offset of that block is not behind its first. -/
theorem fsFread_failure_iff (hf : FailsAt getNext fs temp opq ptr pos n io f)
    (hkeep : KeepsPlace getNext) (hbs₀ : 0 < fs.blockSize) (hbs : fs.blockSize < 2 ^ 31)
    (hpos : io.file.pos = pos) (hp : pos < 2 ^ 31) :
    CountsBefore fs.blockSize pos f (fsFread getNext fs temp opq ptr n io) ↔
      ((span fs.blockSize pos n).offsets fs.blockSize f).2 ≤
        ((span fs.blockSize pos n).offsets fs.blockSize f).1 :=
  hf.counts_iff hkeep hbs₀ hbs hpos hp

/-! ## A read that counts a failure -/

/-- A device of zeros on which block 1 cannot be read. -/
def scratchedDevice : BlockDevice Unit where
  blockSize := 512
  numBlocks := 4
  supportsMultipleBlockRead := false
  supportsMultipleBlockWrite := false
  read := some fun s _ n b => (if b = 1 then ⟨-1, []⟩ else ⟨n, List.replicate n 0⟩, s)
  write := none
  blockSize_pos := sector_pos
  blockSize_lt := sector_lt

/-- The blocks of the file are those of the device. -/
def scratchedFs : Fs Unit := ⟨scratchedDevice, 512⟩

def scratchedNext : GetNext Unit Unit := fun i _ opq io => (i, opq, io)

def scratchedIo : FileIo Unit := ⟨fun _ => 0, (), ⟨0, vfsModeR, 2048, 0⟩⟩

theorem scratchedNext_keepsPlace : KeepsPlace scratchedNext := fun _ _ _ _ => ⟨rfl, rfl⟩

/-- Block 1 is the second of a read of 1024 bytes, and of one of 512 bytes, which wants nothing of it. -/
theorem scratched_failsAt {n : ℕ} (hn : n = 512 ∨ n = 1024) :
    FailsAt scratchedNext scratchedFs (fun _ => 0x20000) () 0x10000 0 n scratchedIo 1 := by
  rcases hn with rfl | rfl
  all_goals
    refine ⟨by decide, by decide, fun i _ hi => ?_, 2 ^ 32 - 1, by decide, by decide⟩
    obtain rfl : i = 0 := by omega
    decide

/-- A read of 1024 bytes returns 511. -/
theorem fsFread_failure_broken :
    ¬ ∀ (σ ο : Type) (getNext : GetNext σ ο) (fs : Fs σ) (temp : ℕ → ℕ) (opq : ο) (ptr pos n : ℕ)
      (io : FileIo σ) (f : ℕ), KeepsPlace getNext → 0 < fs.blockSize → fs.blockSize < 2 ^ 31 →
      io.file.pos = pos → pos < 2 ^ 31 → FailsAt getNext fs temp opq ptr pos n io f →
      CountsBefore fs.blockSize pos f (fsFread getNext fs temp opq ptr n io) := by
  intro h
  have hf := scratched_failsAt (Or.inr (rfl : 1024 = 1024))
  have hcounts := h _ _ _ _ _ _ _ _ _ _ _ scratchedNext_keepsPlace (by decide) (by decide) rfl (by decide) hf
  rw [hf.counts_iff scratchedNext_keepsPlace (by decide) (by decide) rfl (by decide)] at hcounts
  exact absurd hcounts (by decide)

/-- A read of 512 bytes wants nothing of the block. -/
theorem fsFread_failure_sector :
    CountsBefore 512 0 1 (fsFread scratchedNext scratchedFs (fun _ => 0x20000) () 0x10000 512 scratchedIo) ↔
      ((span 512 0 512).offsets 512 1).2 ≤ ((span 512 0 512).offsets 512 1).1 :=
  fsFread_failure_iff (scratched_failsAt (Or.inl rfl)) scratchedNext_keepsPlace (by decide) (by decide) rfl
    (by decide)

end RpiBoot
