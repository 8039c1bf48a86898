import RpiBoot.Libfs.Write

/-!
# The frame of a read

A read whose range ends on a block boundary, or is empty, makes a last round with nothing to transfer.
The round still loads its block, and copies `0` bytes of it behind the caller's buffer; `qmemcpy` moves
16 bytes instead when both addresses are multiples of 16.

* `ReadSlice`: the bytes of the range are delivered, and nothing is written outside the caller's buffer.
* `readMemAt`: memory at the start of a round.
* **`ReadSetup.mem`**: what a read leaves in memory.
* **`fsFread_slice_iff`**: a read writes nothing else, whatever memory holds, when its last round
  transfers something, or finds no 16 bytes to spoil.
-/

namespace RpiBoot

open Store

variable {σ ο : Type}

section Frame

variable (fs : Fs σ) (temp : ℕ → ℕ) (pos n : ℕ)

/-- The addresses in the buffers that a read allocates: one for the last block, and one for the first
when the range starts inside it. -/
def Scratch (a : ℕ) : Prop :=
  (pos % fs.blockSize ≠ 0 ∧ temp (pos / fs.blockSize) ≤ a ∧ a < temp (pos / fs.blockSize) + fs.blockSize) ∨
    temp ((pos + n) / fs.blockSize) ≤ a ∧ a < temp ((pos + n) / fs.blockSize) + fs.blockSize

instance (a : ℕ) : Decidable (Scratch fs temp pos n a) := by
  unfold Scratch; infer_instance

/-- Where the last round starts to copy from, when it has nothing to transfer. -/
def tailSource : ℕ := temp ((pos + n) / fs.blockSize) + (pos + n) % fs.blockSize

/-- The last round transfers something, or copies nothing in its place, or onto itself, or into the
buffers that the read has allocated. -/
def TailHarmless (ptr : ℕ) : Prop :=
  ((pos + n) % fs.blockSize ≠ 0 ∧ n ≠ 0) ∨ ¬ Aligned16 (ptr + n) (tailSource fs temp pos n) 0 ∨
    tailSource fs temp pos n = ptr + n ∨ ∀ i < 16, Scratch fs temp pos n (ptr + n + i)

/-- **The outcome of a read** of `n` bytes at `pos` of a file on a device that holds `c`, with memory
`m₀` before it. -/
structure ReadSlice (bm : ℕ → Option ℕ) (c m₀ : Mem) (ptr : ℕ) (r : ℕ × FileIo σ) : Prop where
  count : r.1 = n
  delivered : slice r.2.mem ptr n = slice (fileBytes fs bm c) pos n
  pos_eq : r.2.file.pos = (pos + n : ℕ)
  frame : ∀ a, a < ptr ∨ ptr + n ≤ a → ¬ Scratch fs temp pos n a → r.2.mem a = m₀ a

variable (bm : ℕ → Option ℕ) (c m₀ : Mem) (ptr : ℕ)

/-- Memory where a first round that starts inside a block has left the block in its buffer. -/
def readBase (cur : ℕ) : Mem :=
  if pos / fs.blockSize < cur ∧ pos % fs.blockSize ≠ 0 then
    patch m₀ (temp (pos / fs.blockSize))
      (slice (fileBytes fs bm c) (pos / fs.blockSize * fs.blockSize) fs.blockSize)
  else m₀

/-- Memory at the start of round `cur`, when the rounds before it have delivered their bytes. -/
def readMemBefore (cur : ℕ) : Mem :=
  patch (readBase fs temp pos bm c m₀ cur) ptr
    (slice (fileBytes fs bm c) pos (reach fs.blockSize pos (pos + n) cur - pos))

/-- Memory with the last block loaded. -/
def readLoaded : Mem :=
  patch (readMemBefore fs temp pos n bm c m₀ ptr ((pos + n) / fs.blockSize))
    (temp ((pos + n) / fs.blockSize))
    (slice (fileBytes fs bm c) ((pos + n) / fs.blockSize * fs.blockSize) fs.blockSize)

/-- Memory at the start of round `cur`, also behind the last, which always copies from its buffer. -/
def readMemAt (cur : ℕ) : Mem :=
  let last := (pos + n) / fs.blockSize
  let p := reach fs.blockSize pos (pos + n) last
  if cur ≤ last then readMemBefore fs temp pos n bm c m₀ ptr cur
  else
    qmemcpy (readLoaded fs temp pos n bm c m₀ ptr) (ptr + (p - pos))
      (temp last + (p - last * fs.blockSize)) (pos + n - p)

end Frame

/-- A read of `n` bytes at `pos` on a healthy device, where all blocks up to the one that holds
`pos + n` are mapped, to a buffer apart from those that `malloc` returns. -/
structure ReadSetup (fs : Fs σ) (inv : σ → Prop) (content : σ → Mem) (good : ℕ → Prop) (k : ℕ)
    (bm : ℕ → Option ℕ) (getNext : GetNext σ ο) (J : ℕ → ο → Mem → Prop) (temp : ℕ → ℕ)
    (ptr pos n : ℕ) (opq : ο) (io : FileIo σ) : Prop where
  fileMap : FileMap fs good k bm
  reads : HealthyReads fs.parent inv content good
  lookup : Lookup getNext inv content false J bm
  apart : TempApart temp fs.blockSize ptr n
  range : pos + n < 2 ^ 31
  mapped : ∀ i ≤ (pos + n) / fs.blockSize, bm i ≠ none
  dev_inv : inv io.dev
  start : J (pos / fs.blockSize) opq (content io.dev)
  pos_eq : io.file.pos = pos

variable {fs : Fs σ} {inv : σ → Prop} {content : σ → Mem} {good : ℕ → Prop} {k : ℕ}
  {bm : ℕ → Option ℕ} {getNext : GetNext σ ο} {J : ℕ → ο → Mem → Prop} {temp : ℕ → ℕ}
  {c m₀ : Mem} {ptr pos n cur p m : ℕ} {len : ℤ} {opq opq' : ο} {io io₁ : FileIo σ}
  {st st' : FreadState σ ο}

/-! ## Rounds -/

/-- A block of the device is a block of the file. -/
theorem slice_block_eq {b : ℕ} (hb : bm cur = some b) :
    slice c (b * fs.parent.blockSize) fs.blockSize =
      slice (fileBytes fs bm c) (cur * fs.blockSize) fs.blockSize := by
  have h := slice_fileBytes (c := c) hb (Nat.le_refl _) (Nat.le_refl (cur * fs.blockSize + fs.blockSize))
  rwa [Nat.sub_self, Nat.add_zero] at h

/-- What a round leaves in memory. -/
theorem fsFreadRound_mem (hfm : FileMap fs good k bm) (h : HealthyReads fs.parent inv content good)
    (hr : Round fs.blockSize pos n st.curBlock p m) {b : ℕ} (hb : bm st.curBlock = some b)
    (hg : getNext st.curBlock false st.opq st.io = (b, opq', io₁))
    (hsame : SameFile inv content st.io io₁) (hat : ReadAt fs inv content bm c ptr pos n len st)
    (hround : fsFreadRound getNext fs temp (span fs.blockSize pos n) st = .ok st') :
    st'.io.mem =
      if p - st.curBlock * fs.blockSize = 0 ∧ m = fs.blockSize then
        patch st.io.mem (ptr + (p - pos)) (slice (fileBytes fs bm c) p m)
      else
        qmemcpy (patch st.io.mem (temp st.curBlock)
            (slice (fileBytes fs bm c) (st.curBlock * fs.blockSize) fs.blockSize))
          (ptr + (p - pos)) (temp st.curBlock + (p - st.curBlock * fs.blockSize)) m := by
  have hsave := hat.save_eq
  rw [hr.start_eq] at hsave
  have hc : content io₁.dev = c := hsame.dev_content.trans hat.dev_content
  have hp := hr.block_le
  unfold fsFreadRound at hround
  simp only [hr.offsets_eq, hg, hr.segment_eq, if_neg (hfm.mapped _ b hb).1] at hround
  split_ifs at hround ⊢ with hwhole
  · obtain ⟨s', hread, -, -⟩ := hfm.blockRead h hsame.dev_inv io₁.mem st.saveBuf hb
    rw [hread] at hround
    obtain rfl := Except.ok.inj hround
    rw [hwhole.2, show p = st.curBlock * fs.blockSize by omega, ← slice_block_eq hb, ← hc,
      ← hsame.mem_eq, show st.curBlock * fs.blockSize - pos = p - pos by omega, ← hsave]
    rfl
  · obtain ⟨s', hread, -, -⟩ := hfm.blockRead h hsame.dev_inv io₁.mem (temp st.curBlock) hb
    rw [hread] at hround
    simp only [hr.cutSegment_eq] at hround
    obtain rfl := Except.ok.inj hround
    rw [← slice_block_eq hb, ← hc, ← hsame.mem_eq, ← hsave]
    rfl

/-- A round before the last delivers its bytes behind the others. -/
theorem readMemBefore_succ (hbs : 0 < fs.blockSize) (htemp : TempApart temp fs.blockSize ptr n)
    (hr : Round fs.blockSize pos n cur p m) (h₁ : pos / fs.blockSize ≤ cur)
    (h₂ : cur < (pos + n) / fs.blockSize) :
    (if p - cur * fs.blockSize = 0 ∧ m = fs.blockSize then
        patch (readMemBefore fs temp pos n bm c m₀ ptr cur) (ptr + (p - pos))
          (slice (fileBytes fs bm c) p m)
      else
        qmemcpy (patch (readMemBefore fs temp pos n bm c m₀ ptr cur) (temp cur)
            (slice (fileBytes fs bm c) (cur * fs.blockSize) fs.blockSize))
          (ptr + (p - pos)) (temp cur + (p - cur * fs.blockSize)) m) =
      readMemBefore fs temp pos n bm c m₀ ptr (cur + 1) := by
  have hp := hr.pos_le
  have hd := Nat.div_add_mod' pos fs.blockSize
  have hend := hr.stop_of_lt hbs h₁ h₂
  rw [readMemBefore, readMemBefore, hr.start_eq, hr.stop_eq]
  rcases hr.start_cases hbs h₁ with ⟨rfl, rfl⟩ | ⟨hlt, hpc⟩
  · -- the first round
    have hbase : readBase fs temp p bm c m₀ (p / fs.blockSize) = m₀ := by rw [readBase, if_neg (by omega)]
    have hnew : p + m - p = m := Nat.add_sub_cancel_left p m
    rw [hbase, hnew, Nat.sub_self, slice_zero, patch_nil, Nat.add_zero]
    by_cases hz : p % fs.blockSize = 0
    · rw [if_pos (by omega), readBase, if_neg (by omega)]
    · have ht := htemp (p / fs.blockSize)
      have hstop := hr.le_stop
      have hm : 0 < m := by
        have := Nat.mod_lt p hbs
        omega
      have hapart : ptr + m ≤ temp (p / fs.blockSize) + (p - p / fs.blockSize * fs.blockSize) ∨
          temp (p / fs.blockSize) + (p - p / fs.blockSize * fs.blockSize) + m ≤ ptr := by omega
      rw [if_neg (by omega), readBase, if_pos (by omega), qmemcpy_of_pos _ hm hapart,
        slice_patch_of_subset (by omega) (by rw [length_slice]; omega), Nat.add_sub_cancel_left,
        drop_slice, take_slice, min_eq_left (by omega)]
      congr 2
      omega
  · -- a block in the middle
    have hbase : readBase fs temp pos bm c m₀ (cur + 1) = readBase fs temp pos bm c m₀ cur := by
      unfold readBase
      congr 1
      exact propext (and_congr_left fun _ => iff_of_true (by omega) hlt)
    rw [if_pos (by omega), hbase, show p + m - pos = (p - pos) + m by omega, slice_add, patch_append,
      length_slice, Nat.add_sub_cancel' hp]

/-- **One round** keeps memory as `readMemAt` says. -/
theorem readMemAt_succ (hfm : FileMap fs good k bm) (h : HealthyReads fs.parent inv content good)
    (htemp : TempApart temp fs.blockSize ptr n) (hn : pos + n < 2 ^ 31)
    (h₁ : pos / fs.blockSize ≤ st.curBlock) (hnone : bm st.curBlock ≠ none)
    (hlook : LookupAt getNext fs inv content bm st)
    (hat : ReadAt fs inv content bm c ptr pos n len st)
    (hround : fsFreadRound getNext fs temp (span fs.blockSize pos n) st = .ok st')
    (h₂ : st.curBlock ≤ (pos + n) / fs.blockSize)
    (hmem : st.io.mem = readMemAt fs temp pos n bm c m₀ ptr st.curBlock) :
    st'.io.mem = readMemAt fs temp pos n bm c m₀ ptr (st.curBlock + 1) := by
  have hbs := hfm.size_pos
  obtain ⟨p, m, hr⟩ := exists_round hbs hn (hfm.size_lt.trans (by decide)) h₁ h₂
  obtain ⟨b, opq', io₁, hg, hsame, hb⟩ := hlook
  have hb := hb.resolve_right fun hnot => hnone hnot.1
  rw [fsFreadRound_mem hfm h hr hb hg hsame hat hround, hmem, readMemAt, if_pos h₂]
  rcases Nat.lt_or_eq_of_le h₂ with hlt | heq
  · rw [readMemBefore_succ hbs htemp hr h₁ hlt, readMemAt, if_pos (Nat.succ_le_of_lt hlt)]
  · -- the last round ends inside its block
    have hlast := hr.stop_eq
    rw [heq, reach_last hbs] at hlast
    have hd := Nat.div_add_mod' (pos + n) fs.blockSize
    have hmod := Nat.mod_lt (pos + n) hbs
    have hstart := hr.start_eq
    have hblock := hr.block_le
    rw [heq] at hstart hblock ⊢
    rw [if_neg (by omega), readMemAt, if_neg (by omega), hstart, readLoaded, hlast, Nat.add_sub_cancel_left]

/-! ## The whole read -/

/-- **What a read leaves in memory.** -/
theorem ReadSetup.mem (hs : ReadSetup fs inv content good k bm getNext J temp ptr pos n opq io) :
    ∃ io', fsFread getNext fs temp opq ptr n io = (n, io') ∧
      ReadDone fs inv content bm (content io.dev) ptr pos n io.file.len io' ∧
      io'.mem = readMemAt fs temp pos n bm (content io.dev) io.mem ptr
        ((pos + n) / fs.blockSize + 1) := by
  have hn := hs.range
  have hdiv : pos / fs.blockSize ≤ (pos + n) / fs.blockSize :=
    Nat.div_le_div_right (Nat.le_add_right _ _)
  have hfirst : io.mem = readMemAt fs temp pos n bm (content io.dev) io.mem ptr (pos / fs.blockSize) := by
    rw [readMemAt, if_pos hdiv, readMemBefore, readBase, if_neg (by omega),
      reach_first (Nat.le_add_right _ _), Nat.sub_self, slice_zero, patch_nil]
  rw [fsFread_eq hn hs.pos_eq]
  exact fsFreadLoop_spec
    (J := fun st => (J st.curBlock st.opq (content io.dev) ∧ pos / fs.blockSize ≤ st.curBlock) ∧
      (st.curBlock ≤ (pos + n) / fs.blockSize + 1 →
        st.io.mem = readMemAt fs temp pos n bm (content io.dev) io.mem ptr st.curBlock))
    hs.fileMap hs.reads hs.apart hn
    (fun q _ hq => hs.mapped _ (Nat.div_le_div_right (show q ≤ pos + n by omega)))
    (fun st hJ _ _ hat => hs.lookup.lookupAt hJ.1.1 hat)
    (fun st st' hJ hat hround => by
      obtain ⟨⟨hJ, h₁⟩, hmem⟩ := hJ
      have hcur := (fsFreadRound_ok hround).1
      refine ⟨⟨hs.lookup.next hJ hat hround, by omega⟩, fun hle => ?_⟩
      have h₂ : st.curBlock ≤ (pos + n) / fs.blockSize := by omega
      rw [hcur]
      exact readMemAt_succ hs.fileMap hs.reads hs.apart hn h₁ (hs.mapped _ h₂)
        (hs.lookup.lookupAt hJ hat) hat hround h₂ (hmem (by omega)))
    (fun st hJ hlast => by rw [← hlast]; exact hJ.2 hlast.le)
    (fun st ret _ _ hle hnone _ => absurd hnone (hs.mapped _ hle))
    ((pos + n) / fs.blockSize + 1 - pos / fs.blockSize) ⟨pos / fs.blockSize, ptr, 0, opq, io⟩
    (by dsimp only; omega) le_rfl ⟨⟨hs.start, le_rfl⟩, fun _ => hfirst⟩ (readAt_first hs.dev_inv hs.pos_eq)

/-! ## What is written outside the caller's buffer -/

/-- Before the last copy, nothing is. -/
theorem readLoaded_outside {a : ℕ} (ha : a < ptr ∨ ptr + n ≤ a) (hs : ¬ Scratch fs temp pos n a) :
    readLoaded fs temp pos n bm c m₀ ptr a = m₀ a := by
  have hreach := reach_le fs.blockSize pos (pos + n) ((pos + n) / fs.blockSize)
  unfold Scratch at hs
  rw [readLoaded, patch_apply_of_notMem _ _ _ (by rw [length_slice]; omega), readMemBefore,
    patch_apply_of_notMem _ _ _ (by rw [length_slice]; omega), readBase]
  split_ifs with hfirst
  · exact patch_apply_of_notMem _ _ _ (by rw [length_slice]; omega)
  · rfl

/-- A byte of the loaded memory is that of the memory before, or does not depend on it. -/
theorem readLoaded_congr {m₁ : Mem} {a : ℕ} (h : m₀ a = m₁ a) :
    readLoaded fs temp pos n bm c m₀ ptr a = readLoaded fs temp pos n bm c m₁ ptr a := by
  refine patch_apply_congr _ _ _ _ (patch_apply_congr _ _ _ _ ?_)
  unfold readBase
  split_ifs
  · exact patch_apply_congr _ _ _ _ h
  · exact h

/-- The memory behind a read whose last round transfers something. -/
theorem readMemAt_outside (hbs : 0 < fs.blockSize) (hlt : fs.blockSize < 2 ^ 32)
    (htemp : TempApart temp fs.blockSize ptr n) (hn : pos + n < 2 ^ 31)
    (hfull : (pos + n) % fs.blockSize ≠ 0 ∧ n ≠ 0) {a : ℕ} (ha : a < ptr ∨ ptr + n ≤ a)
    (hs : ¬ Scratch fs temp pos n a) :
    readMemAt fs temp pos n bm c m₀ ptr ((pos + n) / fs.blockSize + 1) a = m₀ a := by
  obtain ⟨p, m, hr⟩ := exists_round hbs hn hlt
    (Nat.div_le_div_right (Nat.le_add_right pos n)) le_rfl
  have hp := hr.pos_le
  have hb₁ := hr.block_le
  have hb₂ := hr.le_block
  have hlast := hr.stop_eq
  rw [reach_last hbs] at hlast
  have hm : 0 < m := by
    by_contra hzero
    obtain rfl : m = 0 := by omega
    obtain ⟨-, -, hempty⟩ := hr.of_empty hbs (Nat.div_le_div_right (Nat.le_add_right pos n))
    omega
  have ht := htemp ((pos + n) / fs.blockSize)
  have hapart : ptr + (p - pos) + m ≤
        temp ((pos + n) / fs.blockSize) + (p - (pos + n) / fs.blockSize * fs.blockSize) ∨
      temp ((pos + n) / fs.blockSize) + (p - (pos + n) / fs.blockSize * fs.blockSize) + m ≤
        ptr + (p - pos) := by omega
  have hlen : pos + n - p = m := by omega
  simp only [readMemAt, hr.start_eq, if_neg (Nat.not_succ_le_self _), hlen]
  rw [qmemcpy_of_pos _ hm hapart, patch_apply_of_notMem _ _ _ (by rw [length_slice]; omega),
    readLoaded_outside ha hs]

/-- The memory behind a read whose last round has nothing to transfer. -/
theorem readMemAt_tail (hbs : 0 < fs.blockSize) (hlt : fs.blockSize < 2 ^ 32) (hn : pos + n < 2 ^ 31)
    (hempty : (pos + n) % fs.blockSize = 0 ∨ n = 0) :
    readMemAt fs temp pos n bm c m₀ ptr ((pos + n) / fs.blockSize + 1) =
      patch (readLoaded fs temp pos n bm c m₀ ptr) (ptr + n)
        (slice (readLoaded fs temp pos n bm c m₀ ptr) (tailSource fs temp pos n)
          (copyCount (ptr + n) (tailSource fs temp pos n) 0)) := by
  obtain ⟨p, m, hr⟩ := exists_round hbs hn hlt
    (Nat.div_le_div_right (Nat.le_add_right pos n)) le_rfl
  have hlast := hr.stop_eq
  rw [reach_last hbs] at hlast
  have hd := Nat.div_add_mod' (pos + n) fs.blockSize
  have hm : m = 0 := by
    by_contra hpos
    exact hr.of_pos (Nat.pos_of_ne_zero hpos) rfl hempty
  subst hm
  obtain rfl : p = pos + n := by omega
  have hsource : temp ((pos + n) / fs.blockSize) + (pos + n - (pos + n) / fs.blockSize * fs.blockSize) =
      tailSource fs temp pos n := by unfold tailSource; omega
  simp only [readMemAt, hr.start_eq, if_neg (Nat.not_succ_le_self _), hsource, Nat.sub_self,
    Nat.add_sub_cancel_left, qmemcpy_zero]

/-- A copy of length `0` that writes outside the buffers copies 16 bytes. -/
theorem copyCount_of_not_harmless (h : ¬ TailHarmless fs temp pos n ptr) :
    copyCount (ptr + n) (tailSource fs temp pos n) 0 = 16 := by
  have ha : Aligned16 (ptr + n) (tailSource fs temp pos n) 0 := by
    by_contra ha
    exact h (Or.inr (Or.inl ha))
  exact if_pos ⟨ha, rfl⟩

/-- **The frame of a read**, for one content of memory. -/
theorem readMemAt_frame (hbs : 0 < fs.blockSize) (hlt : fs.blockSize < 2 ^ 32)
    (htemp : TempApart temp fs.blockSize ptr n) (hn : pos + n < 2 ^ 31)
    (h : TailHarmless fs temp pos n ptr) {a : ℕ} (ha : a < ptr ∨ ptr + n ≤ a)
    (hs : ¬ Scratch fs temp pos n a) :
    readMemAt fs temp pos n bm c m₀ ptr ((pos + n) / fs.blockSize + 1) a = m₀ a := by
  by_cases hfull : (pos + n) % fs.blockSize ≠ 0 ∧ n ≠ 0
  · exact readMemAt_outside hbs hlt htemp hn hfull ha hs
  · rw [readMemAt_tail hbs hlt hn (by omega)]
    rcases h with h | haligned | hsame | hscratch
    · exact absurd h hfull
    · rw [copyCount, if_neg fun h => haligned h.1, slice_zero, patch_nil, readLoaded_outside ha hs]
    · rw [hsame, patch_slice, readLoaded_outside ha hs]
    · have hcount : copyCount (ptr + n) (tailSource fs temp pos n) 0 ≤ 16 := by
        unfold copyCount; split_ifs <;> omega
      rw [patch_apply_of_notMem, readLoaded_outside ha hs]
      rw [length_slice]
      by_contra hin
      apply hs
      have := hscratch (a - (ptr + n)) (by omega)
      rwa [Nat.add_sub_cancel' (by omega)] at this

/-- In any case nothing is written from 16 bytes behind the caller's buffer on. -/
theorem readMemAt_beyond (hbs : 0 < fs.blockSize) (hlt : fs.blockSize < 2 ^ 32)
    (htemp : TempApart temp fs.blockSize ptr n) (hn : pos + n < 2 ^ 31) {a : ℕ}
    (ha : a < ptr ∨ ptr + n + 16 ≤ a) (hs : ¬ Scratch fs temp pos n a) :
    readMemAt fs temp pos n bm c m₀ ptr ((pos + n) / fs.blockSize + 1) a = m₀ a := by
  by_cases hfull : (pos + n) % fs.blockSize ≠ 0 ∧ n ≠ 0
  · exact readMemAt_outside hbs hlt htemp hn hfull (by omega) hs
  · have hcount : copyCount (ptr + n) (tailSource fs temp pos n) 0 ≤ 16 := by
      unfold copyCount; split_ifs <;> omega
    rw [readMemAt_tail hbs hlt hn (by omega), patch_apply_of_notMem _ _ _ (by rw [length_slice]; omega),
      readLoaded_outside (by omega) hs]

/-- In the other case some memory is spoilt. -/
theorem exists_spoilt (hbs : 0 < fs.blockSize) (hlt : fs.blockSize < 2 ^ 32) (hn : pos + n < 2 ^ 31)
    (h : ¬ TailHarmless fs temp pos n ptr) (bm : ℕ → Option ℕ) (c : Mem) :
    ∃ m₀ a, (a < ptr ∨ ptr + n ≤ a) ∧ ¬ Scratch fs temp pos n a ∧
      readMemAt fs temp pos n bm c m₀ ptr ((pos + n) / fs.blockSize + 1) a ≠ m₀ a := by
  have hcount := copyCount_of_not_harmless h
  simp only [TailHarmless, not_or, not_forall] at h
  obtain ⟨hempty, -, hne, i, hi, hs⟩ := h
  -- the source of the byte does not hold what is overwritten
  obtain ⟨x, hx⟩ : ∃ x, readLoaded fs temp pos n bm c (fun _ => 0) ptr (tailSource fs temp pos n + i) = x :=
    ⟨_, rfl⟩
  obtain ⟨m₀, hm₀⟩ : ∃ m₀ : Mem, m₀ = Function.update (fun _ => 0) (ptr + n + i) (x + 1) := ⟨_, rfl⟩
  refine ⟨m₀, ptr + n + i, by omega, hs, ?_⟩
  have hsource : readLoaded fs temp pos n bm c m₀ ptr (tailSource fs temp pos n + i) = x := by
    rw [← hx]
    refine readLoaded_congr ?_
    rw [hm₀, Function.update_of_ne (by omega)]
  rw [readMemAt_tail hbs hlt hn (by omega), hcount,
    patch_apply_add _ _ _ (by rw [length_slice]; exact hi), getElem_slice, hsource, hm₀,
    Function.update_self]
  intro hx
  have := congrArg UInt8.toNat hx
  rw [UInt8.toNat_add, UInt8.toNat_one] at this
  omega

/-- What a read delivers and leaves, in terms of its memory. -/
theorem ReadSetup.slice_iff_frame
    (hs : ReadSetup fs inv content good k bm getNext J temp ptr pos n opq io) :
    ReadSlice fs temp pos n bm (content io.dev) io.mem ptr (fsFread getNext fs temp opq ptr n io) ↔
      ∀ a, a < ptr ∨ ptr + n ≤ a → ¬ Scratch fs temp pos n a →
        readMemAt fs temp pos n bm (content io.dev) io.mem ptr ((pos + n) / fs.blockSize + 1) a =
          io.mem a := by
  obtain ⟨io', hread, hdone, hmem⟩ := hs.mem
  rw [hread, ← hmem]
  exact ⟨fun h => h.frame, fun h => ⟨rfl, hdone.delivered, hdone.pos_eq, h⟩⟩

/-- The setup does not depend on memory. -/
theorem ReadSetup.withMem (hs : ReadSetup fs inv content good k bm getNext J temp ptr pos n opq io)
    (mem : Mem) :
    ReadSetup fs inv content good k bm getNext J temp ptr pos n opq { io with mem := mem } :=
  ⟨hs.fileMap, hs.reads, hs.lookup, hs.apart, hs.range, hs.mapped, hs.dev_inv, hs.start, hs.pos_eq⟩

/-- **When a read writes nothing else.** A read delivers its slice of the file, and writes nothing outside
the caller's buffer whatever memory holds, if and only if its last round is harmless. -/
theorem fsFread_slice_iff (hs : ReadSetup fs inv content good k bm getNext J temp ptr pos n opq io) :
    (∀ mem, ReadSlice fs temp pos n bm (content io.dev) mem ptr
      (fsFread getNext fs temp opq ptr n { io with mem := mem })) ↔ TailHarmless fs temp pos n ptr := by
  have hbs := hs.fileMap.size_pos
  have hlt : fs.blockSize < 2 ^ 32 := hs.fileMap.size_lt.trans (by decide)
  constructor
  · intro h
    by_contra hspoilt
    obtain ⟨m₀, a, ha, hout, hne⟩ := exists_spoilt hbs hlt hs.range hspoilt bm (content io.dev)
    exact hne ((hs.withMem m₀).slice_iff_frame.mp (h m₀) a ha hout)
  · intro h mem
    exact (hs.withMem mem).slice_iff_frame.mpr fun a ha hout =>
      readMemAt_frame hbs hlt hs.apart hs.range h ha hout

/-! ## A read that spoils memory -/

/-- Reading `n` bytes of the first seven blocks of the device to `0x10000`; a temporary buffer would be
at `0x20000`. -/
theorem flat_readSetup {n : ℕ} (hn : n < 7 * 512) :
    ReadSetup flatFs (fun _ => True) (fun c => c) (fun b => b * 512 + 512 ≤ 8 * 512) 1
      flatMap flatNext (fun _ _ _ => True) (fun _ => 0x20000) 0x10000 0 n () flatIo where
  fileMap := flat_setup.fileMap
  reads := flat_setup.reads
  lookup := fun _ _ io _ _ => ⟨(), io, rfl, trivial, rfl, trivial, rfl, rfl, rfl⟩
  apart := fun _ => Or.inr (show 0x10000 + n ≤ 0x20000 by omega)
  range := by omega
  mapped := fun i hi => by
    have : i < 8 := by
      change i ≤ (0 + n) / 512 at hi
      omega
    rw [flatMap, if_pos this]
    exact Option.some_ne_none i
  dev_inv := trivial
  start := trivial
  pos_eq := rfl

/-- Reading one block writes the first 16 bytes of the next behind the buffer. -/
theorem fsFread_slice_broken :
    ¬ ∀ (σ ο : Type) (fs : Fs σ) (inv : σ → Prop) (content : σ → Mem) (good : ℕ → Prop) (k : ℕ)
      (bm : ℕ → Option ℕ) (getNext : GetNext σ ο) (J : ℕ → ο → Mem → Prop) (temp : ℕ → ℕ)
      (ptr pos n : ℕ) (opq : ο) (io : FileIo σ),
      ReadSetup fs inv content good k bm getNext J temp ptr pos n opq io →
      ReadSlice fs temp pos n bm (content io.dev) io.mem ptr
        (fsFread getNext fs temp opq ptr n io) := by
  intro h
  have hs : ReadSetup _ _ _ _ _ _ _ _ _ _ _ 512 _ _ := flat_readSetup (n := 512) (by decide)
  have hframe := hs.slice_iff_frame.mp (h _ _ _ _ _ _ _ _ _ _ _ _ _ _ _ _ hs) 0x10200
    (Or.inr (by decide)) (by unfold Scratch; decide)
  rw [readMemAt_tail (by decide) (by decide) (by decide) (Or.inl (by decide))] at hframe
  exact absurd hframe (by decide +kernel)

/-- Reading 100 bytes is harmless. -/
theorem fsFread_slice_hundred :
    (∀ mem, ReadSlice flatFs (fun _ => 0x20000) 0 100 flatMap (fun _ => 0) mem 0x10000
      (fsFread flatNext flatFs (fun _ => 0x20000) () 0x10000 100 { flatIo with mem := mem })) ↔
      TailHarmless flatFs (fun _ => 0x20000) 0 100 0x10000 :=
  fsFread_slice_iff (flat_readSetup (by decide))

end RpiBoot
