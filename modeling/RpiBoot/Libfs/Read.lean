import RpiBoot.Libfs.Span

/-!
# Reading a range of a file

* `fsFreadRound_mapped`, `fsFreadRound_empty`: a round delivers its bytes of the file; one that
  transfers nothing changes nothing that counts.
* **`fsFreadLoop_spec`**: the rule of the loop, with an invariant of the lookups.
* **`fsFread_spec`**: `fs_fread` delivers the bytes of the file, when every block that holds one of
  them is mapped; `fsFread_flags`: the flags it leaves.
* **`fsFread_spec_at`**: the same, where the map depends on the state in which a block is looked up
  (`fsFreadAt`).
-/

namespace RpiBoot

open Store

variable {σ ο : Type} {fs : Fs σ} {inv : σ → Prop} {content : σ → Mem} {good : ℕ → Prop} {k : ℕ}
  {bm : ℕ → Option ℕ}

/-- A filesystem block of the file read to a buffer. -/
theorem FileMap.blockRead (hfm : FileMap fs good k bm) (h : HealthyReads fs.parent inv content good)
    {s : σ} (hs : inv s) (mem : Mem) (buf : ℕ) {i b : ℕ} (hb : bm i = some b) :
    ∃ s', RpiBoot.blockRead fs.parent s mem buf fs.blockSize b = (fs.blockSize,
      patch mem buf (slice (content s) (b * fs.parent.blockSize) fs.blockSize), s') ∧
      inv s' ∧ content s' = content s := by
  have hlt := hfm.size_lt
  rw [hfm.size_eq] at hlt ⊢
  exact blockRead_healthy h hs mem buf hfm.k_pos (hfm.mapped i b hb).2 hlt

/-- A read of block `b`, whatever it returns, changes only the buffer. -/
def FrameRead (fs : Fs σ) (inv : σ → Prop) (content : σ → Mem) (b : ℕ) : Prop :=
  ∀ s mem buf, inv s → ∃ count mem' s', blockRead fs.parent s mem buf fs.blockSize b = (count, mem', s') ∧
    (∀ a, a < buf ∨ buf + fs.blockSize ≤ a → mem' a = mem a) ∧ inv s' ∧ content s' = content s

/-- A lookup changes neither the memory nor the contents of the device, nor where the file stands. -/
structure SameFile (inv : σ → Prop) (content : σ → Mem) (io io' : FileIo σ) : Prop where
  mem_eq : io'.mem = io.mem
  dev_inv : inv io'.dev
  dev_content : content io'.dev = content io.dev
  pos_eq : io'.file.pos = io.file.pos
  len_eq : io'.file.len = io.file.len

/-- The lookup of the current block finds it as the map `bm` says; where `bm` says nothing, it refuses,
or finds a block that is harmless to read. -/
def LookupAt (getNext : GetNext σ ο) (fs : Fs σ) (inv : σ → Prop) (content : σ → Mem)
    (bm : ℕ → Option ℕ) (st : FreadState σ ο) : Prop :=
  ∃ b opq' io', getNext st.curBlock false st.opq st.io = (b, opq', io') ∧
    SameFile inv content st.io io' ∧
    (bm st.curBlock = some b ∨ bm st.curBlock = none ∧ (b = noBlock ∨ FrameRead fs inv content b))

section Rounds

variable (fs inv content bm) (c : Mem) (ptr pos n : ℕ) (len : ℤ)

/-- The state of a read at the start of a round. -/
structure ReadAt (st : FreadState σ ο) : Prop where
  dev_inv : inv st.io.dev
  dev_content : content st.io.dev = c
  pos_eq : st.io.file.pos = reach fs.blockSize pos (pos + n) st.curBlock
  len_eq : st.io.file.len = len
  save_eq : st.saveBuf = ptr + (reach fs.blockSize pos (pos + n) st.curBlock - pos)
  total_eq : st.totalBytesRead = (reach fs.blockSize pos (pos + n) st.curBlock - pos : ℕ)
  delivered : slice st.io.mem ptr (reach fs.blockSize pos (pos + n) st.curBlock - pos) =
    slice (fileBytes fs bm c) pos (reach fs.blockSize pos (pos + n) st.curBlock - pos)

/-- The outcome of a read. -/
structure ReadDone (io : FileIo σ) : Prop where
  dev_inv : inv io.dev
  dev_content : content io.dev = c
  pos_eq : io.file.pos = (pos + n : ℕ)
  len_eq : io.file.len = len
  delivered : slice io.mem ptr n = slice (fileBytes fs bm c) pos n

end Rounds

variable {c : Mem} {ptr pos n cur : ℕ} {len : ℤ} {io : FileIo σ} {st : FreadState σ ο}

/-- Once the end of the range is reached, the read is done. -/
theorem ReadAt.done (hat : ReadAt fs inv content bm c ptr pos n len st)
    (hstop : reach fs.blockSize pos (pos + n) st.curBlock = pos + n) (hn : n < 2 ^ 32) :
    toU32 st.totalBytesRead = n ∧ ReadDone fs inv content bm c ptr pos n len st.io := by
  have hp := hat.pos_eq
  have ht := hat.total_eq
  have hd := hat.delivered
  rw [hstop, Nat.add_sub_cancel_left] at hd ht
  exact ⟨by rw [ht, toU32_natCast hn], hat.dev_inv, hat.dev_content, by rw [hp, hstop],
    hat.len_eq, hd⟩

/-- A lookup leaves the read where it is. -/
theorem ReadAt.lookup (hat : ReadAt fs inv content bm c ptr pos n len st)
    (hsame : SameFile inv content st.io io) : ReadAt fs inv content bm c ptr pos n len { st with io } :=
  ⟨hsame.dev_inv, hsame.dev_content.trans hat.dev_content, hsame.pos_eq.trans hat.pos_eq,
    hsame.len_eq.trans hat.len_eq, hat.save_eq, hat.total_eq, by rw [hsame.mem_eq]; exact hat.delivered⟩

/-- A slice of a block of the device is a slice of the file. -/
theorem slice_fileBytes {b p m : ℕ} (hb : bm cur = some b) (hc : cur * fs.blockSize ≤ p)
    (hm : p + m ≤ cur * fs.blockSize + fs.blockSize) :
    slice c (b * fs.parent.blockSize + (p - cur * fs.blockSize)) m =
      slice (fileBytes fs bm c) p m :=
  slice_congr fun i hi => by
    rw [fileBytes, fileByte_eq hb (by omega) (by omega)]
    congr 1; omega

/-- The bytes of a round are delivered behind the others, and the variables of the loop move on. -/
theorem ReadAt.deliver {p m : ℕ} {mem : Mem} {s : σ} (opq' : ο)
    (hat : ReadAt fs inv content bm c ptr pos n len st)
    (hr : Round fs.blockSize pos n st.curBlock p m) (hi : inv s) (hc : content s = c)
    (hmem : slice mem ptr (p - pos) = slice st.io.mem ptr (p - pos))
    (hnew : slice mem (ptr + (p - pos)) m = slice (fileBytes fs bm c) p m) :
    ReadAt fs inv content bm c ptr pos n len (⟨st.curBlock + 1, st.saveBuf + m,
      st.totalBytesRead + m, opq', ({ st.io with mem := mem, dev := s }).advance m⟩) := by
  have hp := hr.pos_le
  obtain ⟨-, -, hpos, hlen, hsave, htotal, hd⟩ := hat
  rw [hr.start_eq] at hpos hsave htotal hd
  refine ⟨hi, hc, ?_, hlen, ?_, ?_, ?_⟩
  · rw [FileIo.advance, hpos, hr.stop_eq, Nat.cast_add]
  · rw [hsave, hr.stop_eq]; dsimp only; omega
  · rw [htotal, hr.stop_eq]; dsimp only; omega
  · rw [hr.stop_eq, show p + m - pos = (p - pos) + m by omega]
    simp only [FileIo.advance]
    rw [slice_add, slice_add, hmem, hd, hnew, Nat.add_sub_cancel' hp]

variable {getNext : GetNext σ ο} {temp : ℕ → ℕ} {opq' : ο} {io₁ : FileIo σ} {b : ℕ}

/-- A round goes on to the next block, with what the lookup has left in `opaque`. -/
theorem fsFreadRound_ok {r : Span} {st' : FreadState σ ο}
    (h : fsFreadRound getNext fs temp r st = .ok st') : st'.curBlock = st.curBlock + 1 ∧
      st'.opq = (getNext st.curBlock false st.opq st.io).2.1 := by
  unfold fsFreadRound at h
  dsimp only at h
  split_ifs at h
  all_goals
    obtain rfl := Except.ok.inj h
    exact ⟨rfl, rfl⟩

/-- **A round on a block that is mapped.** -/
theorem fsFreadRound_mapped (hfm : FileMap fs good k bm) (h : HealthyReads fs.parent inv content good)
    (htemp : TempApart temp fs.blockSize ptr n) (hn : pos + n < 2 ^ 31)
    (h₁ : pos / fs.blockSize ≤ st.curBlock) (h₂ : st.curBlock ≤ (pos + n) / fs.blockSize)
    (hb : bm st.curBlock = some b) (hg : getNext st.curBlock false st.opq st.io = (b, opq', io₁))
    (hsame : SameFile inv content st.io io₁) (hat : ReadAt fs inv content bm c ptr pos n len st) :
    ∃ st', fsFreadRound getNext fs temp (span fs.blockSize pos n) st = .ok st' ∧
      ReadAt fs inv content bm c ptr pos n len st' := by
  have hlt := hfm.size_lt
  obtain ⟨p, m, hr⟩ := exists_round hfm.size_pos hn (by omega) h₁ h₂
  have hp₁ := hr.pos_le
  have hp₂ := hr.block_le
  have hq₁ := hr.le_block
  have hq₂ := hr.le_stop
  have hsave := hat.save_eq
  rw [hr.start_eq] at hsave
  have hat₁ := hat.lookup hsame
  have hc₁ := hat₁.dev_content
  unfold fsFreadRound
  simp only [hr.offsets_eq, hg, hr.segment_eq, if_neg (hfm.mapped _ b hb).1]
  by_cases hwhole : p - st.curBlock * fs.blockSize = 0 ∧ m = fs.blockSize
  · -- a whole block goes straight to the caller's buffer
    obtain ⟨s', hread, hi, hc⟩ := hfm.blockRead h hsame.dev_inv io₁.mem st.saveBuf hb
    rw [if_pos hwhole, hread]
    obtain ⟨hoff, rfl⟩ := hwhole
    simp only [ne_eq, not_true, if_false, i32_of_lt hlt]
    refine ⟨_, rfl, hat₁.deliver _ hr hi (hc.trans hc₁) (slice_patch_of_disjoint (by omega)) ?_⟩
    rw [hsave, slice_patch_slice, ← slice_fileBytes hb hp₂ hq₁, hoff, Nat.add_zero]
    exact congrArg (fun c => slice c _ _) hc₁
  · -- a part of a block goes through the temporary buffer
    obtain ⟨s', hread, hi, hc⟩ := hfm.blockRead h hsame.dev_inv io₁.mem (temp st.curBlock) hb
    rw [if_neg hwhole, hread]
    simp only [ne_eq, not_true, if_false, hr.cutSegment_eq]
    have ht := htemp st.curBlock
    have htmp : slice (patch io₁.mem (temp st.curBlock)
        (slice (content io₁.dev) (b * fs.parent.blockSize) fs.blockSize))
        (temp st.curBlock + (p - st.curBlock * fs.blockSize)) m =
        slice (fileBytes fs bm c) p m := by
      rw [slice_patch_of_subset (by omega) (by rw [length_slice]; omega), show content io₁.dev = c from hc₁,
        Nat.add_sub_cancel_left, drop_slice, take_slice, ← slice_fileBytes hb hp₂ (by omega),
        min_eq_left (by omega)]
    have hout : slice (patch io₁.mem (temp st.curBlock)
        (slice (content io₁.dev) (b * fs.parent.blockSize) fs.blockSize)) ptr (p - pos) =
        slice io₁.mem ptr (p - pos) :=
      slice_patch_of_disjoint (by rw [length_slice]; omega)
    refine ⟨_, rfl, hat₁.deliver _ hr hi (hc.trans hc₁) ?_ ?_⟩
    · rcases Nat.eq_zero_or_pos m with rfl | hm0
      · rw [qmemcpy_zero, slice_patch_of_disjoint (by omega), hout]
      · rw [qmemcpy_of_pos _ hm0 (by omega), slice_patch_of_disjoint (by omega), hout]
    · rw [hsave]
      rcases Nat.eq_zero_or_pos m with rfl | hm0
      · rfl
      · rw [qmemcpy_of_pos _ hm0 (by omega), slice_patch_slice, htmp]

/-- **A round that transfers nothing**, on a block that is harmless to read. -/
theorem fsFreadRound_empty (hbs : 0 < fs.blockSize) {p : ℕ}
    (hr : Round fs.blockSize pos n st.curBlock p 0) (htemp : TempApart temp fs.blockSize ptr n)
    (hstop : reach fs.blockSize pos (pos + n) st.curBlock = pos + n) (hn : n < 2 ^ 32)
    (hg : getNext st.curBlock false st.opq st.io = (b, opq', io₁))
    (hsame : SameFile inv content st.io io₁) (hb : b = noBlock ∨ FrameRead fs inv content b)
    (hat : ReadAt fs inv content bm c ptr pos n len st) :
    (∃ st', fsFreadRound getNext fs temp (span fs.blockSize pos n) st = .ok st' ∧
      ReadAt fs inv content bm c ptr pos n len st') ∨
    ∃ io', fsFreadRound getNext fs temp (span fs.blockSize pos n) st = .error (n, io') ∧
      ReadDone fs inv content bm c ptr pos n len io' := by
  have hat₁ := hat.lookup hsame
  have hseg : ∀ count, cutSegment (p - st.curBlock * fs.blockSize)
      (p + 0 - st.curBlock * fs.blockSize) count = 0 := fun count => by
    simp only [cutSegment]
    split_ifs <;> omega
  unfold fsFreadRound
  simp only [hr.offsets_eq, hg, hr.segment_eq]
  by_cases hno : b = noBlock
  · right
    obtain ⟨ht, hdone⟩ := hat₁.done hstop hn
    exact ⟨io₁, by rw [if_pos hno]; exact congrArg (fun t => Except.error (t, io₁)) ht, hdone⟩
  · obtain ⟨count, mem, s', hread, hframe, hi, hc⟩ := hb.resolve_left hno io₁.dev io₁.mem
      (temp st.curBlock) hsame.dev_inv
    have hsave := hat.save_eq
    rw [hr.start_eq] at hsave hstop
    have hp := hr.pos_le
    have ht := htemp st.curBlock
    have hmem : slice (patch mem st.saveBuf (slice mem
        (temp st.curBlock + (p - st.curBlock * fs.blockSize))
        (copyCount st.saveBuf (temp st.curBlock + (p - st.curBlock * fs.blockSize)) 0))) ptr (p - pos) =
        slice io₁.mem ptr (p - pos) := by
      rw [slice_patch_of_disjoint (by omega)]
      exact slice_congr fun i hi => hframe _ (by omega)
    have hat₂ := hat₁.deliver opq' hr hi (hc.trans hat₁.dev_content) hmem rfl
    rw [if_neg hno, if_neg (by omega), hread]
    simp only [hseg, qmemcpy_zero]
    split_ifs with hcount
    · right
      obtain ⟨ht, hdone⟩ := hat₂.done (by rw [hr.stop_eq, hstop]; rfl) hn
      exact ⟨_, congrArg (fun t => Except.error (t, _)) ht, hdone⟩
    · exact Or.inl ⟨_, rfl, hat₂⟩

/-- A round delivers its bytes, when the block that holds them is mapped. -/
theorem fsFreadRound_spec (hfm : FileMap fs good k bm) (h : HealthyReads fs.parent inv content good)
    (htemp : TempApart temp fs.blockSize ptr n) (hn : pos + n < 2 ^ 31)
    (hmap : ∀ p, pos ≤ p → p < pos + n → bm (p / fs.blockSize) ≠ none)
    (h₁ : pos / fs.blockSize ≤ st.curBlock) (h₂ : st.curBlock ≤ (pos + n) / fs.blockSize)
    (hlook : LookupAt getNext fs inv content bm st)
    (hat : ReadAt fs inv content bm c ptr pos n len st) :
    (∃ st', fsFreadRound getNext fs temp (span fs.blockSize pos n) st = .ok st' ∧
      ReadAt fs inv content bm c ptr pos n len st') ∨
    bm st.curBlock = none ∧
    ∃ io', fsFreadRound getNext fs temp (span fs.blockSize pos n) st = .error (n, io') ∧
      ReadDone fs inv content bm c ptr pos n len io' := by
  have hbs := hfm.size_pos
  obtain ⟨b, opq', io₁, hg, hsame, hb | ⟨hnone, hb⟩⟩ := hlook
  · exact Or.inl (fsFreadRound_mapped hfm h htemp hn h₁ h₂ hb hg hsame hat)
  · obtain ⟨p, m, hr⟩ := exists_round hbs hn (hfm.size_lt.trans (by decide)) h₁ h₂
    rcases Nat.eq_zero_or_pos m with rfl | hm
    · have hstop : reach fs.blockSize pos (pos + n) st.curBlock = pos + n :=
        hr.start_eq.trans (hr.of_empty hbs h₁).2.1
      exact (fsFreadRound_empty hbs hr htemp hstop (by omega) hg hsame hb hat).imp_right fun h => ⟨hnone, h⟩
    · -- a round with bytes to transfer is on a mapped block
      have hp := hr.block_le
      have hq := hr.le_block
      have hd : p / fs.blockSize = st.curBlock :=
        Nat.div_eq_of_lt_le hp (by rw [Nat.add_mul]; omega)
      have hs := hr.le_stop
      exact absurd (by rw [hd]; exact hnone) (hmap p hr.pos_le (by omega))

/-- **The rule of the loop.** The lookups have an invariant `J`; `Q` holds where the loop ends, behind the
last block or at a block that is not mapped. -/
theorem fsFreadLoop_spec {J : FreadState σ ο → Prop} {Q : FileIo σ → Prop} (hfm : FileMap fs good k bm)
    (h : HealthyReads fs.parent inv content good) (htemp : TempApart temp fs.blockSize ptr n)
    (hn : pos + n < 2 ^ 31) (hmap : ∀ p, pos ≤ p → p < pos + n → bm (p / fs.blockSize) ≠ none)
    (hlook : ∀ st, J st → pos / fs.blockSize ≤ st.curBlock → st.curBlock ≤ (pos + n) / fs.blockSize →
      ReadAt fs inv content bm c ptr pos n len st → LookupAt getNext fs inv content bm st)
    (hnext : ∀ st st', J st → ReadAt fs inv content bm c ptr pos n len st →
      fsFreadRound getNext fs temp (span fs.blockSize pos n) st = .ok st' → J st')
    (hend : ∀ st, J st → st.curBlock = (pos + n) / fs.blockSize + 1 → Q st.io)
    (hstop : ∀ st ret, J st → ReadAt fs inv content bm c ptr pos n len st →
      st.curBlock ≤ (pos + n) / fs.blockSize → bm st.curBlock = none →
      fsFreadRound getNext fs temp (span fs.blockSize pos n) st = .error ret → Q ret.2) :
    ∀ fuel st, st.curBlock + fuel = (pos + n) / fs.blockSize + 1 →
      pos / fs.blockSize ≤ st.curBlock → J st → ReadAt fs inv content bm c ptr pos n len st →
      ∃ io', fsFreadLoop getNext fs temp (span fs.blockSize pos n) fuel st = (n, io') ∧
        ReadDone fs inv content bm c ptr pos n len io' ∧ Q io' := by
  have hbs := hfm.size_pos
  intro fuel
  induction fuel with
  | zero =>
    intro st hf _ hJ hat
    have hlast : reach fs.blockSize pos (pos + n) st.curBlock = pos + n := by
      rw [show st.curBlock = (pos + n) / fs.blockSize + 1 by omega, reach_last hbs]
    obtain ⟨ht, hdone⟩ := hat.done hlast (by omega)
    exact ⟨st.io, by rw [fsFreadLoop, ht], hdone, hend st hJ (by omega)⟩
  | succ fuel ih =>
    intro st hf h₁ hJ hat
    have h₂ : st.curBlock ≤ (pos + n) / fs.blockSize := by omega
    have hlast : st.curBlock ≤ (span fs.blockSize pos n).lastFBlockIdx := by
      simpa only [span, u32_of_lt (show pos + n < 2 ^ 32 by omega)] using h₂
    rw [fsFreadLoop, if_pos hlast]
    obtain ⟨st', hround, hat'⟩ | ⟨hnone, io', hround, hdone⟩ :=
      fsFreadRound_spec hfm h htemp hn hmap h₁ h₂ (hlook st hJ h₁ h₂ hat) hat
    · have hcur := (fsFreadRound_ok hround).1
      rw [hround]
      exact ih st' (by omega) (by omega) (hnext st st' hJ hat hround) hat'
    · have hQ := hstop st _ hJ hat h₂ hnone hround
      rw [hround]
      exact ⟨io', rfl, hdone, hQ⟩

/-- The state before the first round. -/
theorem readAt_first {opq : ο} (hs : inv io.dev) (hpos : io.file.pos = pos) :
    ReadAt fs inv content bm (content io.dev) ptr pos n io.file.len
      ⟨pos / fs.blockSize, ptr, 0, opq, io⟩ := by
  have hfirst : reach fs.blockSize pos (pos + n) (pos / fs.blockSize) = pos :=
    reach_first (Nat.le_add_right _ _)
  refine ⟨hs, rfl, ?_, rfl, ?_, ?_, ?_⟩ <;> dsimp only <;> rw [hfirst]
  · exact hpos
  · rw [Nat.sub_self, Nat.add_zero]
  · rw [Nat.sub_self, Nat.cast_zero]
  · rw [Nat.sub_self, slice_zero, slice_zero]

theorem fsFread_eq {opq : ο} (hn : pos + n < 2 ^ 31) (hpos : io.file.pos = pos) :
    fsFread getNext fs temp opq ptr n io = fsFreadLoop getNext fs temp (span fs.blockSize pos n)
      ((pos + n) / fs.blockSize + 1 - pos / fs.blockSize) ⟨pos / fs.blockSize, ptr, 0, opq, io⟩ := by
  rw [fsFread, hpos, toU32_natCast (by omega)]
  simp only [span, u32_of_lt (show pos + n < 2 ^ 32 by omega)]

/-- A block before the last holds a byte of the range. -/
theorem mapped_of_lt (hbs : 0 < fs.blockSize)
    (hmap : ∀ p, pos ≤ p → p < pos + n → bm (p / fs.blockSize) ≠ none)
    (h₁ : pos / fs.blockSize ≤ cur) (h₂ : cur < (pos + n) / fs.blockSize) : bm cur ≠ none := by
  have hm₁ := Nat.mul_le_mul_right fs.blockSize h₁
  have hm₂ := Nat.mul_le_mul_right fs.blockSize (show cur + 1 ≤ (pos + n) / fs.blockSize from h₂)
  have hp : pos < pos / fs.blockSize * fs.blockSize + fs.blockSize := Nat.lt_div_mul_add hbs
  have hs := Nat.div_mul_le_self (pos + n) fs.blockSize
  rw [Nat.add_mul, Nat.one_mul] at hm₂
  have hd : max pos (cur * fs.blockSize) / fs.blockSize = cur :=
    Nat.div_eq_of_lt_le (le_max_right _ _) (by rw [Nat.add_mul, Nat.one_mul]; omega)
  have := hmap (max pos (cur * fs.blockSize)) (le_max_left _ _) (by omega)
  rwa [hd] at this

section Lookups

variable {J : ℕ → ο → Mem → Prop}

theorem Lookup.lookupAt (hl : Lookup getNext inv content false J bm)
    (hJ : J st.curBlock st.opq c) (hat : ReadAt fs inv content bm c ptr pos n len st) :
    LookupAt getNext fs inv content bm st := by
  obtain ⟨opq', io', hg, -, hmem, hi, hc, hp, hlen⟩ :=
    hl st.curBlock st.opq st.io hat.dev_inv (by rwa [hat.dev_content])
  refine ⟨_, opq', io', hg, ⟨hmem, hi, hc, hp, hlen⟩, ?_⟩
  cases bm st.curBlock with
  | some b => exact Or.inl rfl
  | none => exact Or.inr ⟨rfl, Or.inl rfl⟩

theorem Lookup.next {r : Span} {st' : FreadState σ ο} (hl : Lookup getNext inv content false J bm)
    (hJ : J st.curBlock st.opq c) (hat : ReadAt fs inv content bm c ptr pos n len st)
    (hround : fsFreadRound getNext fs temp r st = .ok st') : J st'.curBlock st'.opq c := by
  obtain ⟨opq', io', hg, hJ', -⟩ :=
    hl st.curBlock st.opq st.io hat.dev_inv (by rwa [hat.dev_content])
  obtain ⟨hcur, hopq⟩ := fsFreadRound_ok hround
  rw [hg] at hopq
  rw [hcur, hopq, ← hat.dev_content]
  exact hJ'

/-- **Reading a range of a file**, where every block that holds a byte of the range is mapped, and
looked up as the map says while `J` holds. -/
theorem fsFread_spec (hfm : FileMap fs good k bm)
    (h : HealthyReads fs.parent inv content good) (hl : Lookup getNext inv content false J bm)
    (htemp : TempApart temp fs.blockSize ptr n) (hn : pos + n < 2 ^ 31)
    (hmap : ∀ p, pos ≤ p → p < pos + n → bm (p / fs.blockSize) ≠ none) {opq : ο}
    (hs : inv io.dev) (hJ : J (pos / fs.blockSize) opq (content io.dev)) (hpos : io.file.pos = pos) :
    ∃ io', fsFread getNext fs temp opq ptr n io = (n, io') ∧
      ReadDone fs inv content bm (content io.dev) ptr pos n io.file.len io' := by
  have hdiv : pos / fs.blockSize ≤ (pos + n) / fs.blockSize :=
    Nat.div_le_div_right (Nat.le_add_right _ _)
  rw [fsFread_eq hn hpos]
  obtain ⟨io', hloop, hdone, -⟩ := fsFreadLoop_spec (Q := fun _ => True)
    (J := fun st => J st.curBlock st.opq (content io.dev)) hfm h htemp hn hmap
    (fun st hJ _ _ hat => hl.lookupAt hJ hat) (fun st st' hJ hat hround => hl.next hJ hat hround)
    (fun _ _ _ => trivial) (fun _ _ _ _ _ _ _ => trivial)
    ((pos + n) / fs.blockSize + 1 - pos / fs.blockSize) ⟨pos / fs.blockSize, ptr, 0, opq, io⟩
    (by dsimp only; omega) le_rfl hJ (readAt_first hs hpos)
  exact ⟨io', hloop, hdone⟩

/-- A round leaves the flags as its lookup does. -/
theorem fsFreadRound_flags (r : Span) :
    (∀ st', fsFreadRound getNext fs temp r st = .ok st' → st'.io.file.flags =
      (getNext st.curBlock false st.opq st.io).2.2.file.flags) ∧
    ∀ ret, fsFreadRound getNext fs temp r st = .error ret → ret.2.file.flags =
      (getNext st.curBlock false st.opq st.io).2.2.file.flags := by
  unfold fsFreadRound
  dsimp only
  split_ifs
  all_goals
    refine ⟨fun _ h => ?_, fun _ h => ?_⟩
    all_goals cases h
    rfl

/-- The flags behind such a read, where just the lookups of blocks that are not mapped raise one: it
looks up no such block but the last. -/
theorem fsFread_flags {flag : ℕ} (hfm : FileMap fs good k bm)
    (h : HealthyReads fs.parent inv content good) (hl : Lookup getNext inv content false J bm)
    (hflags : ∀ idx opq io, inv io.dev → J idx opq (content io.dev) →
      (getNext idx false opq io).2.2.file.flags =
        if bm idx = none then io.file.flags ||| flag else io.file.flags)
    (htemp : TempApart temp fs.blockSize ptr n) (hn : pos + n < 2 ^ 31)
    (hmap : ∀ p, pos ≤ p → p < pos + n → bm (p / fs.blockSize) ≠ none) {opq : ο}
    (hs : inv io.dev) (hJ : J (pos / fs.blockSize) opq (content io.dev)) (hpos : io.file.pos = pos) :
    (fsFread getNext fs temp opq ptr n io).2.file.flags =
      if bm ((pos + n) / fs.blockSize) = none then io.file.flags ||| flag else io.file.flags := by
  have hdiv : pos / fs.blockSize ≤ (pos + n) / fs.blockSize :=
    Nat.div_le_div_right (Nat.le_add_right _ _)
  -- the flags behind a lookup
  have hlookup : ∀ st : FreadState σ ο, J st.curBlock st.opq (content io.dev) →
      st.io.file.flags = io.file.flags →
      ReadAt fs inv content bm (content io.dev) ptr pos n io.file.len st →
      (getNext st.curBlock false st.opq st.io).2.2.file.flags =
        if bm st.curBlock = none then io.file.flags ||| flag else io.file.flags := by
    intro st hJ hf hat
    rw [← hat.dev_content] at hJ
    rw [hflags _ _ _ hat.dev_inv hJ, hf]
  rw [fsFread_eq hn hpos]
  suffices hrun : ∃ io', fsFreadLoop getNext fs temp (span fs.blockSize pos n)
      ((pos + n) / fs.blockSize + 1 - pos / fs.blockSize) ⟨pos / fs.blockSize, ptr, 0, opq, io⟩ = (n, io') ∧
      ReadDone fs inv content bm (content io.dev) ptr pos n io.file.len io' ∧ io'.file.flags =
        if bm ((pos + n) / fs.blockSize) = none then io.file.flags ||| flag else io.file.flags by
    obtain ⟨io', hloop, -, hQ⟩ := hrun
    rw [hloop, hQ]
  refine fsFreadLoop_spec
    (J := fun st => (J st.curBlock st.opq (content io.dev) ∧ pos / fs.blockSize ≤ st.curBlock) ∧
      (st.curBlock ≤ (pos + n) / fs.blockSize → st.io.file.flags = io.file.flags) ∧
      (st.curBlock = (pos + n) / fs.blockSize + 1 → st.io.file.flags =
        if bm ((pos + n) / fs.blockSize) = none then io.file.flags ||| flag else io.file.flags))
    (Q := fun io' => io'.file.flags =
      if bm ((pos + n) / fs.blockSize) = none then io.file.flags ||| flag else io.file.flags)
    hfm h htemp hn hmap (fun st hJ _ _ hat => hl.lookupAt hJ.1.1 hat) ?_ (fun st hJ => hJ.2.2) ?_
    _ _ (by dsimp only; omega) le_rfl
    ⟨⟨hJ, le_rfl⟩, fun _ => rfl, fun h => by dsimp only at h; omega⟩ (readAt_first hs hpos)
  · rintro st st' ⟨⟨hJ, h₁⟩, hkept, -⟩ hat hround
    have hcur := (fsFreadRound_ok hround).1
    have hflag := (fsFreadRound_flags _).1 _ hround
    refine ⟨⟨hl.next hJ hat hround, by omega⟩, fun h₂ => ?_, fun h₂ => ?_⟩
    · rw [hflag, hlookup st hJ (hkept (by omega)) hat, if_neg (mapped_of_lt hfm.size_pos hmap h₁ (by omega))]
    · have hlast : st.curBlock = (pos + n) / fs.blockSize := by omega
      rw [hflag, hlookup st hJ (hkept (by omega)) hat, hlast]
  · rintro st ret ⟨⟨hJ, h₁⟩, hkept, -⟩ hat h₂ hnone hround
    have hlast : st.curBlock = (pos + n) / fs.blockSize := by
      by_contra hne
      exact mapped_of_lt hfm.size_pos hmap h₁ (by omega) hnone
    rw [(fsFreadRound_flags _).2 _ hround, hlookup st hJ (hkept h₂) hat, hlast]

end Lookups

/-! ## The states in which blocks are looked up -/

/-- The state after a round, also when it returns. -/
def fsFreadNext (getNext : GetNext σ ο) (fs : Fs σ) (temp : ℕ → ℕ) (r : Span) (st : FreadState σ ο) :
    FreadState σ ο :=
  match fsFreadRound getNext fs temp r st with
  | .ok st' => st'
  | .error ret => { st with io := ret.2 }

/-- The state in which a read of `n` bytes at `pos` looks block `idx` up. -/
def fsFreadAt (getNext : GetNext σ ο) (fs : Fs σ) (temp : ℕ → ℕ) (opq : ο) (ptr pos n : ℕ)
    (io : FileIo σ) (idx : ℕ) : FreadState σ ο :=
  Nat.iterate (fsFreadNext getNext fs temp (span fs.blockSize pos n)) (idx - pos / fs.blockSize)
    ⟨pos / fs.blockSize, ptr, 0, opq, io⟩

theorem fsFreadAt_succ {opq : ο} {idx : ℕ} {st' : FreadState σ ο} (h : pos / fs.blockSize ≤ idx)
    (hround : fsFreadRound getNext fs temp (span fs.blockSize pos n)
      (fsFreadAt getNext fs temp opq ptr pos n io idx) = .ok st') :
    fsFreadAt getNext fs temp opq ptr pos n io (idx + 1) = st' := by
  rw [fsFreadAt, Nat.sub_add_comm h, Function.iterate_succ_apply']
  change fsFreadNext getNext fs temp _ (fsFreadAt getNext fs temp opq ptr pos n io idx) = st'
  rw [fsFreadNext, hround]

/-- **Reading a range of a file**, where the map may depend on the states in which the blocks are
looked up. -/
theorem fsFread_spec_at {J : FreadState σ ο → Prop} (hfm : FileMap fs good k bm)
    (h : HealthyReads fs.parent inv content good) (htemp : TempApart temp fs.blockSize ptr n)
    (hn : pos + n < 2 ^ 31) (hmap : ∀ p, pos ≤ p → p < pos + n → bm (p / fs.blockSize) ≠ none) {opq : ο}
    (hlook : ∀ st, J st → st = fsFreadAt getNext fs temp opq ptr pos n io st.curBlock →
      pos / fs.blockSize ≤ st.curBlock → st.curBlock ≤ (pos + n) / fs.blockSize →
      ReadAt fs inv content bm (content io.dev) ptr pos n io.file.len st →
      LookupAt getNext fs inv content bm st)
    (hnext : ∀ st st', J st →
      ReadAt fs inv content bm (content io.dev) ptr pos n io.file.len st →
      fsFreadRound getNext fs temp (span fs.blockSize pos n) st = .ok st' → J st')
    (hs : inv io.dev) (hJ : J ⟨pos / fs.blockSize, ptr, 0, opq, io⟩) (hpos : io.file.pos = pos) :
    (∃ io', fsFread getNext fs temp opq ptr n io = (n, io') ∧
      ReadDone fs inv content bm (content io.dev) ptr pos n io.file.len io') ∧
    ∀ p, pos ≤ p → p < pos + n →
      ReadAt fs inv content bm (content io.dev) ptr pos n io.file.len
        (fsFreadAt getNext fs temp opq ptr pos n io (p / fs.blockSize)) := by
  have hbs := hfm.size_pos
  have hdiv : pos / fs.blockSize ≤ (pos + n) / fs.blockSize :=
    Nat.div_le_div_right (Nat.le_add_right _ _)
  have hfirst : fsFreadAt getNext fs temp opq ptr pos n io (pos / fs.blockSize) =
      ⟨pos / fs.blockSize, ptr, 0, opq, io⟩ := by
    rw [fsFreadAt, Nat.sub_self, Function.iterate_zero_apply]
  have hstep : ∀ st st', (J st ∧ pos / fs.blockSize ≤ st.curBlock ∧
        st = fsFreadAt getNext fs temp opq ptr pos n io st.curBlock) →
      ReadAt fs inv content bm (content io.dev) ptr pos n io.file.len st →
      fsFreadRound getNext fs temp (span fs.blockSize pos n) st = .ok st' →
      J st' ∧ pos / fs.blockSize ≤ st'.curBlock ∧
        st' = fsFreadAt getNext fs temp opq ptr pos n io st'.curBlock := by
    rintro st st' ⟨hJ, hle, hst⟩ hat hround
    have hcur := (fsFreadRound_ok hround).1
    refine ⟨hnext st st' hJ hat hround, by omega, ?_⟩
    rw [hcur]
    rw [hst] at hround
    exact (fsFreadAt_succ hle hround).symm
  refine ⟨?_, fun p hp hp' => ?_⟩
  · rw [fsFread_eq hn hpos]
    obtain ⟨io', hloop, hdone, -⟩ := fsFreadLoop_spec (Q := fun _ => True) hfm h htemp hn hmap
      (fun st hJ => hlook st hJ.1 hJ.2.2) hstep (fun _ _ _ => trivial) (fun _ _ _ _ _ _ _ => trivial)
      ((pos + n) / fs.blockSize + 1 - pos / fs.blockSize) ⟨pos / fs.blockSize, ptr, 0, opq, io⟩
      (by dsimp only; omega) le_rfl ⟨hJ, le_rfl, hfirst.symm⟩ (readAt_first hs hpos)
    exact ⟨io', hloop, hdone⟩
  · -- every round before the one that holds `p` goes on to the next
    have hrounds : ∀ idx, pos / fs.blockSize ≤ idx → idx ≤ p / fs.blockSize →
        (J (fsFreadAt getNext fs temp opq ptr pos n io idx) ∧
          (fsFreadAt getNext fs temp opq ptr pos n io idx).curBlock = idx) ∧
        ReadAt fs inv content bm (content io.dev) ptr pos n io.file.len
          (fsFreadAt getNext fs temp opq ptr pos n io idx) := by
      intro idx hidx
      induction idx, hidx using Nat.le_induction with
      | base =>
        intro _
        rw [hfirst]
        exact ⟨⟨hJ, rfl⟩, readAt_first hs hpos⟩
      | succ idx hidx ih =>
        intro hlast
        obtain ⟨⟨hJ', hcur⟩, hat⟩ := ih (by omega)
        have hpdiv := Nat.div_le_div_right (c := fs.blockSize) hp'.le
        have hmapped : bm idx ≠ none := mapped_of_lt hbs hmap hidx (by omega)
        have hself : fsFreadAt getNext fs temp opq ptr pos n io idx =
            fsFreadAt getNext fs temp opq ptr pos n io
              (fsFreadAt getNext fs temp opq ptr pos n io idx).curBlock := by rw [hcur]
        have hle₁ : pos / fs.blockSize ≤ (fsFreadAt getNext fs temp opq ptr pos n io idx).curBlock := by
          omega
        have hle₂ : (fsFreadAt getNext fs temp opq ptr pos n io idx).curBlock ≤
            (pos + n) / fs.blockSize := by omega
        obtain ⟨st', hround, hat'⟩ | ⟨hnone, -⟩ := fsFreadRound_spec hfm h htemp hn hmap hle₁ hle₂
          (hlook _ hJ' hself hle₁ hle₂ hat) hat
        · rw [fsFreadAt_succ hidx hround]
          exact ⟨⟨hnext _ _ hJ' hat hround, by rw [(fsFreadRound_ok hround).1, hcur]⟩, hat'⟩
        · exact absurd (by rwa [hcur] at hnone) hmapped
    exact (hrounds _ (Nat.div_le_div_right hp) le_rfl).2

end RpiBoot
