import RpiBoot.Libfs.Read

/-!
# Writing a range of a file

A call that ends on a block boundary makes a last round with nothing to transfer. The round still
loads the next block, copies `0` bytes into it and stores it; `qmemcpy` moves 16 bytes instead when
both addresses are multiples of 16.

* `WriteFrame`: the bytes of the range are the caller's, all others are as before.
* `tailBytes`: what the last round puts into the block behind the range.
* `fsFwriteLoop_round`, `fsFwriteLoop_emptyRound`: what one round changes.
* **`fsFwrite_frame_iff`**: the frame holds when the last round puts back what was there.
-/

namespace RpiBoot

open Store

variable {σ ο : Type}

/-! ## The frame of a write -/

/-- Of the bytes `[pos, pos + n)` of a file, all mapped, the first `m` are the caller's; everything else
on the device is as in `c₀`. -/
structure Written (fs : Fs σ) (bm : ℕ → Option ℕ) (c₀ m₀ : Mem) (ptr pos m : ℕ) (c : Mem) : Prop where
  mapped : ∀ i < m, bm ((pos + i) / fs.blockSize) ≠ none
  inside : ∀ i < m, c (fileByte fs bm (pos + i)) = m₀ (ptr + i)
  outside : ∀ a, (∀ i < m, fileByte fs bm (pos + i) ≠ a) → c a = c₀ a

/-- **The frame of a write** of `n` bytes at `pos` to a file of length `len`. -/
structure WriteFrame (fs : Fs σ) (bm : ℕ → Option ℕ) (content : σ → Mem) (c₀ m₀ : Mem)
    (ptr pos n : ℕ) (len : ℤ) (io : FileIo σ) : Prop where
  inside : ∀ i < n, content io.dev (fileByte fs bm (pos + i)) = m₀ (ptr + i)
  outside : ∀ a, (∀ i < n, fileByte fs bm (pos + i) ≠ a) → content io.dev a = c₀ a
  pos_eq : io.file.pos = pos + n
  len_eq : io.file.len = max len (pos + n)

/-- The blocks of a file do not overlap on the device. -/
def Injective (bm : ℕ → Option ℕ) (k : ℕ) : Prop :=
  ∀ i j b b', bm i = some b → bm j = some b' → i ≠ j → b + k ≤ b' ∨ b' + k ≤ b

variable {fs : Fs σ} {inv : σ → Prop} {content : σ → Mem} {good : ℕ → Prop} {k : ℕ}
  {bm : ℕ → Option ℕ} {c c₀ m₀ : Mem} {ptr pos n cur : ℕ}

/-- Distinct mapped bytes lie at distinct addresses. -/
theorem fileByte_injective (hfm : FileMap fs good k bm) (hinj : Injective bm k) {p q : ℕ}
    (hp : bm (p / fs.blockSize) ≠ none) (hq : bm (q / fs.blockSize) ≠ none)
    (h : fileByte fs bm p = fileByte fs bm q) : p = q := by
  obtain ⟨b, hb⟩ := Option.ne_none_iff_exists'.mp hp
  obtain ⟨b', hb'⟩ := Option.ne_none_iff_exists'.mp hq
  have hdp := Nat.div_add_mod' p fs.blockSize
  have hdq := Nat.div_add_mod' q fs.blockSize
  have hlp := Nat.mod_lt p hfm.size_pos
  have hlq := Nat.mod_lt q hfm.size_pos
  rw [fileByte, fileByte, hb, hb', Option.getD_some, Option.getD_some] at h
  by_cases hij : p / fs.blockSize = q / fs.blockSize
  · rw [hij] at hb hdp
    obtain rfl : b = b' := Option.some.inj (hb.symm.trans hb')
    omega
  · have hsize := hfm.size_eq
    rcases hinj _ _ _ _ hb hb' hij with hlt | hlt
    · have := Nat.mul_le_mul_right fs.parent.blockSize hlt
      rw [Nat.add_mul] at this
      omega
    · have := Nat.mul_le_mul_right fs.parent.blockSize hlt
      rw [Nat.add_mul] at this
      omega

/-- An address in a mapped block holds a byte of the file. -/
theorem fileByte_add {b j : ℕ} (hb : bm cur = some b) (hj : j < fs.blockSize) :
    fileByte fs bm (cur * fs.blockSize + j) = b * fs.parent.blockSize + j := by
  rw [fileByte_eq hb (Nat.le_add_right _ _) (by omega), Nat.add_sub_cancel_left]

/-- A mapped block in which nothing has been written yet. -/
theorem Written.slice_block {m b : ℕ} (h : Written fs bm c₀ m₀ ptr pos m c)
    (hfm : FileMap fs good k bm) (hinj : Injective bm k) (hb : bm cur = some b)
    (hlt : pos + m ≤ cur * fs.blockSize ∨ m = 0) :
    slice c (b * fs.parent.blockSize) fs.blockSize =
      slice c₀ (b * fs.parent.blockSize) fs.blockSize := by
  refine slice_congr fun j hj => h.outside _ fun i hi he => ?_
  rw [← fileByte_add hb hj] at he
  have hd : (cur * fs.blockSize + j) / fs.blockSize = cur :=
    Nat.div_eq_of_lt_le (Nat.le_add_right _ _) (by rw [Nat.add_mul]; omega)
  have := fileByte_injective hfm hinj (h.mapped i hi) (by rw [hd, hb]; exact Option.some_ne_none b) he
  omega

/-- The bytes of a round are written behind the others. -/
theorem Written.extend {p m b : ℕ} (h : Written fs bm c₀ m₀ ptr pos (p - pos) c)
    (hfm : FileMap fs good k bm) (hinj : Injective bm k) (hb : bm cur = some b)
    (hr : Round fs.blockSize pos n cur p m) :
    Written fs bm c₀ m₀ ptr pos (p + m - pos)
      (patch c (b * fs.parent.blockSize + (p - cur * fs.blockSize))
        (slice m₀ (ptr + (p - pos)) m)) := by
  have hp₁ := hr.pos_le
  have hp₂ := hr.block_le
  have hq := hr.le_block
  -- byte `p - pos + j` of the range lies at offset `j` of the patch
  have hloc : ∀ j < m, fileByte fs bm (p + j) =
      b * fs.parent.blockSize + (p - cur * fs.blockSize) + j := fun j hj => by
    rw [fileByte_eq hb (by omega) (by omega)]; omega
  have hmap : ∀ i < p + m - pos, bm ((pos + i) / fs.blockSize) ≠ none := by
    intro i hi
    rcases Nat.lt_or_ge i (p - pos) with hlt | hge
    · exact h.mapped i hlt
    · have hd : (pos + i) / fs.blockSize = cur :=
        Nat.div_eq_of_lt_le (by omega) (by rw [Nat.add_mul]; omega)
      rw [hd, hb]
      exact Option.some_ne_none b
  refine ⟨hmap, fun i hi => ?_, fun a ha => ?_⟩
  · rcases Nat.lt_or_ge i (p - pos) with hlt | hge
    · rw [patch_apply_of_notMem, h.inside i hlt]
      rw [length_slice]
      by_contra hin
      obtain ⟨j, hj, he⟩ : ∃ j < m, fileByte fs bm (pos + i) =
          b * fs.parent.blockSize + (p - cur * fs.blockSize) + j :=
        ⟨fileByte fs bm (pos + i) - (b * fs.parent.blockSize + (p - cur * fs.blockSize)), by omega,
          by omega⟩
      have hmj := hmap (p + j - pos) (by omega)
      rw [show pos + (p + j - pos) = p + j by omega] at hmj
      have := fileByte_injective hfm hinj (h.mapped i hlt) hmj (he.trans (hloc j hj).symm)
      omega
    · obtain ⟨j, rfl⟩ : ∃ j, i = p - pos + j := ⟨i - (p - pos), by omega⟩
      rw [show pos + (p - pos + j) = p + j by omega, hloc j (by omega),
        patch_apply_add _ _ _ (by rw [length_slice]; omega), getElem_slice, Nat.add_assoc]
  · rw [patch_apply_of_notMem, h.outside a fun i hi => ha i (by omega)]
    rw [length_slice]
    by_contra hin
    obtain ⟨j, hj, rfl⟩ : ∃ j < m, a = b * fs.parent.blockSize + (p - cur * fs.blockSize) + j :=
      ⟨a - (b * fs.parent.blockSize + (p - cur * fs.blockSize)), by omega, by omega⟩
    apply ha (p - pos + j) (by omega)
    rw [show pos + (p - pos + j) = p + j by omega, hloc j hj]

/-- Nothing is written before the first round. -/
theorem written_zero (fs : Fs σ) (bm : ℕ → Option ℕ) (c₀ m₀ : Mem) (ptr pos : ℕ) :
    Written fs bm c₀ m₀ ptr pos 0 c₀ :=
  ⟨fun _ hi => absurd hi (Nat.not_lt_zero _), fun _ hi => absurd hi (Nat.not_lt_zero _),
    fun _ _ => rfl⟩

/-! ## The last round -/

section Tail

variable (fs : Fs σ) (bm : ℕ → Option ℕ) (temp : ℕ → ℕ) (c₀ m₀ : Mem) (ptr pos n : ℕ)

/-- Memory with block `i` of the file loaded into its buffer. -/
def loaded (mem : Mem) (i : ℕ) : Mem :=
  match bm i with
  | some b => patch mem (temp i) (slice c₀ (b * fs.parent.blockSize) fs.blockSize)
  | none => mem

/-- Memory at the start of round `cur`: a first round that starts inside a block has left the edited
block in its buffer. -/
def memAt (cur : ℕ) : Mem :=
  if pos / fs.blockSize < cur ∧ pos % fs.blockSize ≠ 0 then
    qmemcpy (loaded fs bm temp c₀ m₀ (pos / fs.blockSize))
      (temp (pos / fs.blockSize) + pos % fs.blockSize) ptr (fs.blockSize - pos % fs.blockSize)
  else m₀

/-- The bytes that the last round puts into its block when it has nothing to transfer: those behind
the caller's buffer, as far as `qmemcpy` moves them and the block goes. -/
def tailBytes : List UInt8 :=
  let last := (pos + n) / fs.blockSize
  let offset := (pos + n) % fs.blockSize
  match bm last with
  | some _ =>
    if offset = 0 ∨ n = 0 then
      (slice (loaded fs bm temp c₀ (memAt fs bm temp c₀ m₀ ptr pos last) last) (ptr + n)
        (copyCount (temp last + offset) (ptr + n) 0)).take (fs.blockSize - offset)
    else []
  | none => []

end Tail

/-! ## Rounds -/

/-- A filesystem block of the file written from a buffer. -/
theorem FileMap.blockWrite (hfm : FileMap fs good k bm)
    (h : HealthyWrites fs.parent inv content good) {s : σ} (hs : inv s) (mem : Mem) (buf : ℕ)
    {i b : ℕ} (hb : bm i = some b) :
    ∃ s', RpiBoot.blockWrite fs.parent s mem buf fs.blockSize b = (fs.blockSize, s') ∧ inv s' ∧
      content s' = patch (content s) (b * fs.parent.blockSize) (slice mem buf fs.blockSize) := by
  rw [hfm.size_eq]
  exact blockWrite_healthy h hs mem buf hfm.k_pos (hfm.mapped i b hb).2

/-- The state of a write at the start of round `cur`. -/
structure WriteAt (fs : Fs σ) (inv : σ → Prop) (content : σ → Mem) (bm : ℕ → Option ℕ)
    (temp : ℕ → ℕ) (c₀ m₀ : Mem) (ptr pos n : ℕ) (len : ℤ) (cur : ℕ) (io : FileIo σ) : Prop where
  dev_inv : inv io.dev
  mem_eq : cur ≤ (pos + n) / fs.blockSize → io.mem = memAt fs bm temp c₀ m₀ ptr pos cur
  pos_eq : io.file.pos = reach fs.blockSize pos (pos + n) cur
  len_eq : io.file.len = if cur = pos / fs.blockSize then len
    else max len (reach fs.blockSize pos (pos + n) cur)
  written : Written fs bm c₀ m₀ ptr pos (reach fs.blockSize pos (pos + n) cur - pos)
    (content io.dev)

variable {temp : ℕ → ℕ} {len : ℤ} {io : FileIo σ}

/-- A first round that starts inside a block, and is not the last, ends within the range. -/
theorem first_round_le {bs : ℕ} (hfirst : pos / bs < cur) (hcur : cur ≤ (pos + n) / bs) :
    bs - pos % bs ≤ n := by
  have h₁ := Nat.mul_le_mul_right bs (show pos / bs + 1 ≤ cur by omega)
  have h₂ := Nat.mul_le_mul_right bs hcur
  have h₃ := Nat.div_mul_le_self (pos + n) bs
  have h₄ := Nat.div_add_mod' pos bs
  rw [Nat.add_mul] at h₁
  omega

/-- The caller's buffer is not touched. -/
theorem slice_memAt (hfm : FileMap fs good k bm) (htemp : TempApart temp fs.blockSize ptr n)
    {i m : ℕ} (him : i + m ≤ n) (h₂ : cur ≤ (pos + n) / fs.blockSize) :
    slice (memAt fs bm temp c₀ m₀ ptr pos cur) (ptr + i) m = slice m₀ (ptr + i) m := by
  unfold memAt
  split_ifs with h
  · have ht := htemp (pos / fs.blockSize)
    have hlt := Nat.mod_lt pos hfm.size_pos
    have hload : slice (loaded fs bm temp c₀ m₀ (pos / fs.blockSize)) (ptr + i) m =
        slice m₀ (ptr + i) m := by
      unfold loaded
      cases bm (pos / fs.blockSize) with
      | some b => exact slice_patch_of_disjoint (by rw [length_slice]; omega)
      | none => rfl
    have hn := first_round_le h.1 h₂
    rw [qmemcpy_of_pos _ (by omega) (by omega),
      slice_patch_of_disjoint (by rw [length_slice]; omega), hload]
  · rfl

section Paths

variable {getNext : GetNext σ ο} {fuel b p m : ℕ} {opq opq' : ο} {io₁ : FileIo σ}

variable (temp fuel) in
/-- A round that writes a whole block from the caller's buffer. -/
theorem fsFwriteLoop_whole (hfm : FileMap fs good k bm)
    (hw : HealthyWrites fs.parent inv content good) (hr : Round fs.blockSize pos n cur p m)
    (hb : bm cur = some b) (hg : getNext cur true opq io = (b, opq', io₁)) (hi : inv io₁.dev)
    (hwhole : p - cur * fs.blockSize = 0 ∧ m = fs.blockSize) :
    ∃ s₂, fsFwriteLoop getNext fs temp (span fs.blockSize pos n) (fuel + 1) cur (ptr + (p - pos))
        ((p - pos : ℕ) : ℤ) opq io =
      fsFwriteLoop getNext fs temp (span fs.blockSize pos n) fuel (cur + 1) (ptr + (p + m - pos))
        ((p + m - pos : ℕ) : ℤ) opq' ({ io₁ with dev := s₂ }.advance m).extend ∧
      inv s₂ ∧ content s₂ = patch (content io₁.dev) (b * fs.parent.blockSize)
        (slice io₁.mem (ptr + (p - pos)) m) := by
  obtain ⟨s₂, hwrite, hi₂, hc₂⟩ := hfm.blockWrite hw hi io₁.mem (ptr + (p - pos)) hb
  have hp := hr.pos_le
  have hsave : ptr + (p - pos) + m = ptr + (p + m - pos) := by omega
  have htotal : ((p - pos : ℕ) : ℤ) + (m : ℤ) = ((p + m - pos : ℕ) : ℤ) := by omega
  refine ⟨s₂, ?_, hi₂, by rw [hc₂, hwhole.2]⟩
  rw [fsFwriteLoop, if_pos hr.cur_le]
  simp only [hr.offsets_eq, hg, hr.segment_eq, if_neg (hfm.mapped cur b hb).1]
  rw [if_pos hwhole, hwrite]
  have hm := hwhole.2
  subst hm
  simp only [ne_eq, not_true, if_false, i32_of_lt hfm.size_lt, hsave, htotal]

variable (fuel) in
/-- A round that edits a block in its buffer, where the copy into the buffer is known. -/
theorem fsFwriteLoop_partial (hfm : FileMap fs good k bm)
    (h : HealthyReads fs.parent inv content good) (hw : HealthyWrites fs.parent inv content good)
    (hr : Round fs.blockSize pos n cur p m) (hb : bm cur = some b)
    (hg : getNext cur true opq io = (b, opq', io₁)) (hi : inv io₁.dev)
    (hpart : ¬ (p - cur * fs.blockSize = 0 ∧ m = fs.blockSize)) {mem₁ : Mem} {l : List UInt8}
    (hmem₁ : mem₁ = patch io₁.mem (temp cur)
      (slice (content io₁.dev) (b * fs.parent.blockSize) fs.blockSize))
    (hcopy : qmemcpy mem₁ (temp cur + (p - cur * fs.blockSize)) (ptr + (p - pos)) m =
      patch mem₁ (temp cur + (p - cur * fs.blockSize)) l) :
    ∃ s₂, fsFwriteLoop getNext fs temp (span fs.blockSize pos n) (fuel + 1) cur (ptr + (p - pos))
        ((p - pos : ℕ) : ℤ) opq io =
      fsFwriteLoop getNext fs temp (span fs.blockSize pos n) fuel (cur + 1) (ptr + (p + m - pos))
        ((p + m - pos : ℕ) : ℤ) opq' ({ io₁ with
          mem := patch mem₁ (temp cur + (p - cur * fs.blockSize)) l, dev := s₂ }.advance m).extend ∧
      inv s₂ ∧ content s₂ = patch (content io₁.dev)
        (b * fs.parent.blockSize + (p - cur * fs.blockSize))
        (l.take (fs.blockSize - (p - cur * fs.blockSize))) := by
  obtain ⟨s₁, hread, hi₁, hc₁⟩ := hfm.blockRead h hi io₁.mem (temp cur) hb
  rw [← hmem₁] at hread
  obtain ⟨s₂, hwrite, hi₂, hc₂⟩ := hfm.blockWrite hw hi₁
    (patch mem₁ (temp cur + (p - cur * fs.blockSize)) l) (temp cur) hb
  have hp := hr.pos_le
  have hsave : ptr + (p - pos) + m = ptr + (p + m - pos) := by omega
  have htotal : ((p - pos : ℕ) : ℤ) + (m : ℤ) = ((p + m - pos : ℕ) : ℤ) := by omega
  refine ⟨s₂, ?_, hi₂, ?_⟩
  · rw [fsFwriteLoop, if_pos hr.cur_le]
    simp only [hr.offsets_eq, hg, hr.segment_eq, if_neg (hfm.mapped cur b hb).1]
    rw [if_neg hpart, hread]
    simp only [ne_eq, not_true, if_false, hcopy, hwrite, hr.cutSegment_eq, hsave, htotal]
  · have hblock : slice mem₁ (temp cur) fs.blockSize =
        slice (content io₁.dev) (b * fs.parent.blockSize) fs.blockSize := by
      rw [hmem₁, slice_patch_slice]
    rw [hc₂, hc₁, patch_slice_patch hblock]

end Paths

section Rounds

variable {getNext : GetNext σ ο} {fuel b p m : ℕ} {opq opq' : ο} {io₁ : FileIo σ}

/-- The block of a round, before the round. -/
theorem WriteAt.slice_block (hfm : FileMap fs good k bm) (hinj : Injective bm k)
    (hr : Round fs.blockSize pos n cur p m) (h₁ : pos / fs.blockSize ≤ cur) (hb : bm cur = some b)
    (hat : WriteAt fs inv content bm temp c₀ m₀ ptr pos n len cur io) :
    slice (content io.dev) (b * fs.parent.blockSize) fs.blockSize =
      slice c₀ (b * fs.parent.blockSize) fs.blockSize := by
  have hw := hat.written
  rw [hr.start_eq] at hw
  apply hw.slice_block hfm hinj hb
  rcases hr.start_cases hfm.size_pos h₁ with ⟨-, hp⟩ | ⟨-, hp⟩
  · exact Or.inr (by omega)
  · exact Or.inl (by have := hr.pos_le; omega)

/-- The position and the length after a round. -/
theorem WriteAt.pos_len (hr : Round fs.blockSize pos n cur p m)
    (hat : WriteAt fs inv content bm temp c₀ m₀ ptr pos n len cur io) (mem : Mem) (s : σ) :
    ({ io with mem := mem, dev := s }.advance m).extend.file.pos = ((p + m : ℕ) : ℤ) ∧
      ({ io with mem := mem, dev := s }.advance m).extend.file.len = max len ((p + m : ℕ) : ℤ) := by
  have hp := hat.pos_eq
  have hl := hat.len_eq
  rw [hr.start_eq] at hp hl
  simp only [FileIo.extend, FileIo.advance, hp]
  refine ⟨by omega, ?_⟩
  rw [hl]
  split_ifs <;> omega

/-- The state after a round that has written its bytes. -/
theorem WriteAt.next (hr : Round fs.blockSize pos n cur p m) (h₁ : pos / fs.blockSize ≤ cur)
    (hat : WriteAt fs inv content bm temp c₀ m₀ ptr pos n len cur io) {mem : Mem} {s : σ}
    (hi : inv s) (hmem : cur + 1 ≤ (pos + n) / fs.blockSize →
      mem = memAt fs bm temp c₀ m₀ ptr pos (cur + 1))
    (hw : Written fs bm c₀ m₀ ptr pos (p + m - pos) (content s)) :
    WriteAt fs inv content bm temp c₀ m₀ ptr pos n len (cur + 1)
      ({ io with mem := mem, dev := s }.advance m).extend := by
  obtain ⟨hp, hl⟩ := hat.pos_len hr mem s
  refine ⟨hi, hmem, by rw [hp, hr.stop_eq], ?_, by rw [hr.stop_eq]; exact hw⟩
  rw [hl, if_neg (by omega), hr.stop_eq]

/-- **A round with bytes to transfer** writes them. -/
theorem fsFwriteLoop_round (hfm : FileMap fs good k bm)
    (h : HealthyReads fs.parent inv content good) (hw : HealthyWrites fs.parent inv content good)
    (hinj : Injective bm k) (htemp : TempApart temp fs.blockSize ptr n)
    (hr : Round fs.blockSize pos n cur p m) (hm : 0 < m) (h₁ : pos / fs.blockSize ≤ cur)
    (h₂ : cur ≤ (pos + n) / fs.blockSize) (hb : bm cur = some b)
    (hg : getNext cur true opq io = (b, opq', io₁))
    (hat : WriteAt fs inv content bm temp c₀ m₀ ptr pos n len cur io₁) :
    ∃ io₂, fsFwriteLoop getNext fs temp (span fs.blockSize pos n) (fuel + 1) cur (ptr + (p - pos))
        ((p - pos : ℕ) : ℤ) opq io =
      fsFwriteLoop getNext fs temp (span fs.blockSize pos n) fuel (cur + 1) (ptr + (p + m - pos))
        ((p + m - pos : ℕ) : ℤ) opq' io₂ ∧
      content io₂.dev = patch (content io₁.dev)
        (b * fs.parent.blockSize + (p - cur * fs.blockSize)) (slice m₀ (ptr + (p - pos)) m) ∧
      WriteAt fs inv content bm temp c₀ m₀ ptr pos n len (cur + 1) io₂ := by
  have hbs := hfm.size_pos
  have hp₁ := hr.pos_le
  have hp₂ := hr.block_le
  have hq₁ := hr.le_block
  have hq₂ := hr.le_stop
  have hwr := hat.written
  rw [hr.start_eq] at hwr
  have hnext := hwr.extend hfm hinj hb hr
  have hcaller : slice io₁.mem (ptr + (p - pos)) m = slice m₀ (ptr + (p - pos)) m := by
    rw [hat.mem_eq h₂, slice_memAt hfm htemp (by omega) h₂]
  have hstart := hr.start_cases hbs h₁
  by_cases hwhole : p - cur * fs.blockSize = 0 ∧ m = fs.blockSize
  · obtain ⟨s₂, hloop, hi₂, hc₂⟩ :=
      fsFwriteLoop_whole temp fuel hfm hw hr hb hg hat.dev_inv hwhole
    rw [hcaller] at hc₂
    rw [hwhole.1, Nat.add_zero] at hnext ⊢
    refine ⟨_, hloop, hc₂, hat.next hr h₁ hi₂ (fun _ => ?_) (by rw [hc₂]; exact hnext)⟩
    -- a whole block leaves no trace in memory
    rw [hat.mem_eq h₂, memAt, memAt]
    have hd := Nat.div_add_mod' pos fs.blockSize
    rcases hstart with ⟨rfl, rfl⟩ | ⟨hlt, -⟩
    · rw [if_neg (by omega), if_neg (by omega)]
    · by_cases hz : pos % fs.blockSize = 0
      · rw [if_neg (by omega), if_neg (by omega)]
      · rw [if_pos ⟨hlt, hz⟩, if_pos ⟨by omega, hz⟩]
  · set mem₁ := patch io₁.mem (temp cur)
      (slice (content io₁.dev) (b * fs.parent.blockSize) fs.blockSize) with hmem₁
    have ht := htemp cur
    have hsrc : slice mem₁ (ptr + (p - pos)) m = slice m₀ (ptr + (p - pos)) m := by
      rw [hmem₁, slice_patch_of_disjoint (by rw [length_slice]; omega), hcaller]
    have hcopy : qmemcpy mem₁ (temp cur + (p - cur * fs.blockSize)) (ptr + (p - pos)) m =
        patch mem₁ (temp cur + (p - cur * fs.blockSize)) (slice m₀ (ptr + (p - pos)) m) := by
      rw [qmemcpy_of_pos mem₁ hm (by omega), hsrc]
    obtain ⟨s₂, hloop, hi₂, hc₂⟩ := fsFwriteLoop_partial fuel hfm h hw hr hb hg hat.dev_inv hwhole hmem₁ hcopy
    rw [take_slice, min_eq_right (by omega)] at hc₂
    refine ⟨_, hloop, hc₂, hat.next hr h₁ hi₂ (fun hcur => ?_) (by rw [hc₂]; exact hnext)⟩
    -- a part that reaches the end of its block is the first round's
    have hend := hr.stop_of_lt hbs h₁ hcur
    rcases hstart with ⟨rfl, rfl⟩ | ⟨-, hp⟩
    · have hd := Nat.div_add_mod' p fs.blockSize
      have hload : mem₁ = loaded fs bm temp c₀ m₀ (p / fs.blockSize) := by
        rw [hmem₁, hat.mem_eq h₂, hat.slice_block hfm hinj hr h₁ hb, memAt, if_neg (by omega), loaded, hb]
      rw [← hcopy, memAt, if_pos (by omega), hload, Nat.sub_self, Nat.add_zero]
      congr 1 <;> omega
    · exact absurd ⟨by omega, by omega⟩ hwhole

/-- **A round with nothing to transfer** puts `tailBytes` into its block. -/
theorem fsFwriteLoop_emptyRound (hfm : FileMap fs good k bm)
    (h : HealthyReads fs.parent inv content good) (hw : HealthyWrites fs.parent inv content good)
    (hinj : Injective bm k) (hr : Round fs.blockSize pos n cur p 0)
    (h₁ : pos / fs.blockSize ≤ cur) (hb : bm cur = some b)
    (hg : getNext cur true opq io = (b, opq', io₁))
    (hat : WriteAt fs inv content bm temp c₀ m₀ ptr pos n len cur io₁) :
    ∃ io₂, fsFwriteLoop getNext fs temp (span fs.blockSize pos n) (fuel + 1) cur (ptr + (p - pos))
        ((p - pos : ℕ) : ℤ) opq io =
      fsFwriteLoop getNext fs temp (span fs.blockSize pos n) fuel (cur + 1) (ptr + (p - pos))
        ((p - pos : ℕ) : ℤ) opq' io₂ ∧
      inv io₂.dev ∧ io₂.file.pos = ((pos + n : ℕ) : ℤ) ∧
      io₂.file.len = max len ((pos + n : ℕ) : ℤ) ∧
      content io₂.dev = patch (content io₁.dev) (fileByte fs bm (pos + n))
        (tailBytes fs bm temp c₀ m₀ ptr pos n) := by
  have hbs := hfm.size_pos
  obtain ⟨hcur, hp, hempty⟩ := hr.of_empty hbs h₁
  have hd := Nat.div_add_mod' (pos + n) fs.blockSize
  rw [← hcur] at hd
  have hoff : p - cur * fs.blockSize = (pos + n) % fs.blockSize := by omega
  have hload : patch io₁.mem (temp cur)
      (slice (content io₁.dev) (b * fs.parent.blockSize) fs.blockSize) =
      loaded fs bm temp c₀ (memAt fs bm temp c₀ m₀ ptr pos cur) cur := by
    rw [hat.mem_eq hcur.le, hat.slice_block hfm hinj hr h₁ hb, loaded, hb]
  obtain ⟨s₂, hloop, hi₂, hc₂⟩ := fsFwriteLoop_partial fuel hfm h hw hr hb hg hat.dev_inv
    (by omega) hload.symm (qmemcpy_zero _ _ _)
  obtain ⟨hp', hl'⟩ := hat.pos_len hr (patch (loaded fs bm temp c₀ (memAt fs bm temp c₀ m₀ ptr pos cur) cur)
    (temp cur + (p - cur * fs.blockSize)) _) s₂
  refine ⟨_, hloop, hi₂, hp'.trans (by rw [hp, Nat.add_zero]), hl'.trans (by rw [hp, Nat.add_zero]), ?_⟩
  have hbyte : fileByte fs bm (pos + n) = b * fs.parent.blockSize + (pos + n) % fs.blockSize := by
    rw [fileByte, ← hcur, hb, Option.getD_some]
  have hn : p - pos = n := by omega
  simp only [tailBytes, ← hcur, hb, if_pos hempty]
  rw [hbyte, ← hoff, ← hn]
  exact hc₂

end Rounds

/-! ## The whole write -/

/-- The state after a write of `n` bytes. -/
structure WriteDone (fs : Fs σ) (inv : σ → Prop) (content : σ → Mem) (bm : ℕ → Option ℕ)
    (temp : ℕ → ℕ) (c₀ m₀ : Mem) (ptr pos n : ℕ) (len : ℤ) (io : FileIo σ) : Prop where
  dev_inv : inv io.dev
  pos_eq : io.file.pos = ((pos + n : ℕ) : ℤ)
  len_eq : io.file.len = if n = 0 ∧ bm (pos / fs.blockSize) = none then len
    else max len ((pos + n : ℕ) : ℤ)
  content_eq : ∃ c, Written fs bm c₀ m₀ ptr pos n c ∧
    content io.dev = patch c (fileByte fs bm (pos + n)) (tailBytes fs bm temp c₀ m₀ ptr pos n)

/-- Writing to a block of the file does not change what the filesystem looks up. -/
def Stable (fs : Fs σ) (J : ℕ → ο → Mem → Prop) (bm : ℕ → Option ℕ) : Prop :=
  ∀ idx opq c i b l o, J idx opq c → bm i = some b → o + l.length ≤ fs.blockSize →
    J idx opq (patch c (b * fs.parent.blockSize + o) l)

variable {getNext : GetNext σ ο} {J : ℕ → ο → Mem → Prop}

/-- A write that ends at a refused block has written everything asked for. -/
theorem WriteAt.done_of_none {p m : ℕ} (hfm : FileMap fs good k bm)
    (hr : Round fs.blockSize pos n cur p m) (h₁ : pos / fs.blockSize ≤ cur) (hb : bm cur = none)
    (hat : WriteAt fs inv content bm temp c₀ m₀ ptr pos n len cur io) (hp : p = pos + n) :
    WriteDone fs inv content bm temp c₀ m₀ ptr pos n len io := by
  have hbs := hfm.size_pos
  have hm : m = 0 := by have := hr.le_stop; omega
  subst hm
  obtain ⟨hcur, -, -⟩ := hr.of_empty hbs h₁
  have hpos := hat.pos_eq
  have hlen := hat.len_eq
  have hw := hat.written
  rw [hr.start_eq, hp] at hpos hlen hw
  rw [Nat.add_sub_cancel_left] at hw
  have htail : tailBytes fs bm temp c₀ m₀ ptr pos n = [] := by
    simp only [tailBytes, ← hcur, hb]
  refine ⟨hat.dev_inv, hpos, ?_, _, hw, by rw [htail, patch_nil]⟩
  rw [hlen]
  rcases hr.start_cases hbs h₁ with ⟨rfl, hp'⟩ | ⟨hlt, -⟩
  · rw [if_pos rfl, if_pos ⟨by omega, hb⟩]
  · have hn : n ≠ 0 := by
      rintro rfl
      rw [Nat.add_zero] at hcur
      omega
    rw [if_neg (by omega), if_neg fun h => hn h.1]

/-- The rounds from `cur` to the last. -/
theorem fsFwriteLoop_spec (hfm : FileMap fs good k bm)
    (h : HealthyReads fs.parent inv content good) (hw : HealthyWrites fs.parent inv content good)
    (hinj : Injective bm k) (hl : Lookup getNext inv content true J bm) (hstable : Stable fs J bm)
    (htemp : TempApart temp fs.blockSize ptr n) (hn : pos + n < 2 ^ 31) :
    ∀ fuel cur opq io io', cur + fuel = (pos + n) / fs.blockSize + 1 → pos / fs.blockSize ≤ cur →
      (cur = (pos + n) / fs.blockSize + 1 → ¬ ((pos + n) % fs.blockSize = 0 ∨ n = 0)) →
      J cur opq (content io.dev) → WriteAt fs inv content bm temp c₀ m₀ ptr pos n len cur io →
      fsFwriteLoop getNext fs temp (span fs.blockSize pos n) fuel cur
        (ptr + (reach fs.blockSize pos (pos + n) cur - pos))
        ((reach fs.blockSize pos (pos + n) cur - pos : ℕ) : ℤ) opq io = (n, io') →
      WriteDone fs inv content bm temp c₀ m₀ ptr pos n len io' := by
  have hbs := hfm.size_pos
  intro fuel
  induction fuel with
  | zero =>
    intro cur opq io io' hf _ hend _ hat hres
    have hcur : cur = (pos + n) / fs.blockSize + 1 := by omega
    have hfirst : pos / fs.blockSize ≤ (pos + n) / fs.blockSize :=
      Nat.div_le_div_right (Nat.le_add_right _ _)
    have htail : tailBytes fs bm temp c₀ m₀ ptr pos n = [] := by
      unfold tailBytes
      dsimp only
      rw [if_neg (hend hcur)]
      split <;> rfl
    have hlast : reach fs.blockSize pos (pos + n) cur = pos + n := by rw [hcur, reach_last hbs]
    have hpos := hat.pos_eq
    have hlen := hat.len_eq
    have hwr := hat.written
    rw [hlast] at hpos hlen hwr
    rw [Nat.add_sub_cancel_left] at hwr
    obtain rfl : io = io' := congrArg Prod.snd hres
    refine ⟨hat.dev_inv, hpos, ?_, _, hwr, by rw [htail, patch_nil]⟩
    rw [hlen, if_neg (by omega), if_neg fun hz => hend hcur (Or.inr hz.1)]
  | succ fuel ih =>
    intro cur opq io io' hf h₁ _ hJ hat hres
    have h₂ : cur ≤ (pos + n) / fs.blockSize := by omega
    obtain ⟨p, m, hr⟩ := exists_round hbs hn (hfm.size_lt.trans (by decide)) h₁ h₂
    obtain ⟨opq', io₁, hg, hJ', hmem, hi, hc, hp, hlen⟩ := hl cur opq io hat.dev_inv hJ
    have hat₁ : WriteAt fs inv content bm temp c₀ m₀ ptr pos n len cur io₁ :=
      ⟨hi, fun h => hmem.trans (hat.mem_eq h), hp.trans hat.pos_eq, hlen.trans hat.len_eq,
        by rw [hc]; exact hat.written⟩
    rw [hr.start_eq] at hres
    cases hb : bm cur with
    | none =>
      rw [hb, Option.getD_none] at hg
      rw [fsFwriteLoop, if_pos hr.cur_le] at hres
      simp only [hg, if_true] at hres
      obtain ⟨hcount, rfl⟩ := Prod.mk.inj hres
      have hp₁ := hr.pos_le
      have hq := hr.le_stop
      rw [toU32_natCast (by omega)] at hcount
      exact hat₁.done_of_none hfm hr h₁ hb (by omega)
    | some b =>
      rw [hb, Option.getD_some] at hg
      rcases Nat.eq_zero_or_pos m with rfl | hm
      · obtain ⟨hcur, hpe, -⟩ := hr.of_empty hbs h₁
        obtain ⟨io₂, hloop, hi₂, hp₂, hl₂, hc₂⟩ :=
          fsFwriteLoop_emptyRound hfm h hw hinj hr h₁ hb hg hat₁
        rw [hloop, show fuel = 0 by omega] at hres
        obtain rfl : io₂ = io' := congrArg Prod.snd hres
        have hwr := hat₁.written
        rw [hr.start_eq, hpe, Nat.add_sub_cancel_left] at hwr
        refine ⟨hi₂, hp₂, ?_, _, hwr, hc₂⟩
        rw [hl₂, if_neg]
        rintro ⟨rfl, hnone⟩
        rw [Nat.add_zero] at hcur
        rw [← hcur, hb] at hnone
        cases hnone
      · obtain ⟨io₂, hloop, hc₂, hat₂⟩ :=
          fsFwriteLoop_round hfm h hw hinj htemp hr hm h₁ h₂ hb hg hat₁
        rw [hloop, ← hr.stop_eq] at hres
        refine ih (cur + 1) opq' io₂ io' (by omega) (by omega)
          (fun he => hr.of_pos hm (by omega)) ?_ hat₂ hres
        rw [hc₂, hc]
        exact hstable _ _ _ _ _ _ _ hJ' hb (by
          rw [length_slice]; have := hr.le_block; have := hr.block_le; omega)

/-- A write of `n` bytes at `pos` on a healthy device, through an injective block map, from and through
buffers that do not overlap. -/
structure WriteSetup (fs : Fs σ) (inv : σ → Prop) (content : σ → Mem) (good : ℕ → Prop) (k : ℕ)
    (bm : ℕ → Option ℕ) (getNext : GetNext σ ο) (J : ℕ → ο → Mem → Prop) (temp : ℕ → ℕ)
    (ptr pos n : ℕ) (opq : ο) (io : FileIo σ) : Prop where
  fileMap : FileMap fs good k bm
  reads : HealthyReads fs.parent inv content good
  writes : HealthyWrites fs.parent inv content good
  injective : Injective bm k
  lookup : Lookup getNext inv content true J bm
  stable : Stable fs J bm
  apart : TempApart temp fs.blockSize ptr n
  range : pos + n < 2 ^ 31
  dev_inv : inv io.dev
  start : J (pos / fs.blockSize) opq (content io.dev)
  pos_eq : writePos io.file = pos

variable {opq : ο}

theorem WriteSetup.done
    (hs : WriteSetup fs inv content good k bm getNext J temp ptr pos n opq io)
    (hret : (fsFwrite getNext fs temp opq ptr n io).1 = n) :
    WriteDone fs inv content bm temp (content io.dev) io.mem ptr pos n io.file.len
      (fsFwrite getNext fs temp opq ptr n io).2 := by
  have hn := hs.range
  have hfirst : reach fs.blockSize pos (pos + n) (pos / fs.blockSize) = pos :=
    reach_first (Nat.le_add_right _ _)
  have hdiv : pos / fs.blockSize ≤ (pos + n) / fs.blockSize :=
    Nat.div_le_div_right (Nat.le_add_right _ _)
  obtain ⟨io₀, hio₀⟩ : ∃ io₀ : FileIo σ, { io with file := { io.file with pos := writePos io.file } } =
    io₀ := ⟨_, rfl⟩
  have hpos : io₀.file.pos = pos := by rw [← hio₀]; exact hs.pos_eq
  have hat : WriteAt fs inv content bm temp (content io.dev) io.mem ptr pos n io.file.len
      (pos / fs.blockSize) io₀ := by
    refine ⟨?_, fun _ => ?_, by rw [hfirst]; exact hpos, ?_, ?_⟩
    · rw [← hio₀]; exact hs.dev_inv
    · rw [memAt, if_neg (by omega), ← hio₀]
    · rw [if_pos rfl, ← hio₀]
    · rw [hfirst, Nat.sub_self, ← hio₀]
      exact written_zero _ _ _ _ _ _
  have hloop : fsFwrite getNext fs temp opq ptr n io =
      fsFwriteLoop getNext fs temp (span fs.blockSize pos n)
        ((pos + n) / fs.blockSize + 1 - pos / fs.blockSize) (pos / fs.blockSize) ptr 0 opq io₀ := by
    rw [← hio₀]
    simp only [fsFwrite, hs.pos_eq, toU32_natCast (show pos < 2 ^ 32 by omega), span,
      u32_of_lt (show pos + n < 2 ^ 32 by omega)]
  have hJ : J (pos / fs.blockSize) opq (content io₀.dev) := by rw [← hio₀]; exact hs.start
  refine fsFwriteLoop_spec hs.fileMap hs.reads hs.writes hs.injective hs.lookup hs.stable hs.apart hn
    ((pos + n) / fs.blockSize + 1 - pos / fs.blockSize) _ opq io₀ _ (by omega) le_rfl
    (fun h => by omega) hJ hat ?_
  rw [hfirst, Nat.sub_self]
  exact hloop.symm.trans (Prod.ext hret rfl)

/-- The tail stays in the block behind the range. -/
theorem tailBytes_cases (fs : Fs σ) (bm : ℕ → Option ℕ) (temp : ℕ → ℕ) (c₀ m₀ : Mem)
    (ptr pos n : ℕ) : tailBytes fs bm temp c₀ m₀ ptr pos n = [] ∨
      ((tailBytes fs bm temp c₀ m₀ ptr pos n).length ≤ fs.blockSize - (pos + n) % fs.blockSize ∧
        ∃ b, bm ((pos + n) / fs.blockSize) = some b) := by
  unfold tailBytes
  dsimp only
  cases hb : bm ((pos + n) / fs.blockSize) with
  | none => exact Or.inl rfl
  | some b =>
    dsimp only
    split_ifs
    · exact Or.inr ⟨by rw [List.length_take]; omega, b, rfl⟩
    · exact Or.inl rfl

/-- No byte of the range lies where the tail goes. -/
theorem fileByte_ne_tail (hfm : FileMap fs good k bm) (hinj : Injective bm k)
    (hw : Written fs bm c₀ m₀ ptr pos n c) {j : ℕ}
    (hj : j < (tailBytes fs bm temp c₀ m₀ ptr pos n).length) {i : ℕ} (hi : i < n) :
    fileByte fs bm (pos + i) ≠ fileByte fs bm (pos + n) + j := by
  rcases tailBytes_cases fs bm temp c₀ m₀ ptr pos n with hnil | ⟨hlen, b, hb⟩
  · rw [hnil] at hj
    exact absurd hj (Nat.not_lt_zero j)
  · have hmod := Nat.div_add_mod' (pos + n) fs.blockSize
    have hd : (pos + n + j) / fs.blockSize = (pos + n) / fs.blockSize :=
      Nat.div_eq_of_lt_le (by omega) (by rw [Nat.add_mul]; omega)
    have hbyte : fileByte fs bm (pos + n) + j = fileByte fs bm (pos + n + j) := by
      have hlt := Nat.mod_lt (pos + n) hfm.size_pos
      rw [fileByte_eq hb (by omega) (by omega), fileByte_eq hb (by omega) (by omega)]
      omega
    rw [hbyte]
    intro he
    have := fileByte_injective hfm hinj (hw.mapped i hi)
      (by rw [hd, hb]; exact Option.some_ne_none b) he
    omega

/-- The frame after a write that has run to its end. -/
theorem WriteDone.frame_iff {io' : FileIo σ} (hfm : FileMap fs good k bm) (hinj : Injective bm k)
    (hd : WriteDone fs inv content bm temp c₀ m₀ ptr pos n len io') :
    WriteFrame fs bm content c₀ m₀ ptr pos n len io' ↔
      tailBytes fs bm temp c₀ m₀ ptr pos n =
        slice c₀ (fileByte fs bm (pos + n)) (tailBytes fs bm temp c₀ m₀ ptr pos n).length ∧
      (n = 0 → bm (pos / fs.blockSize) = none → (pos : ℤ) ≤ len) := by
  obtain ⟨c, hw, hc⟩ := hd.content_eq
  have hlen := hd.len_eq
  set tail := tailBytes fs bm temp c₀ m₀ ptr pos n with htail
  have hne : ∀ j < tail.length, ∀ i < n, fileByte fs bm (pos + i) ≠ fileByte fs bm (pos + n) + j :=
    fun j hj i hi => fileByte_ne_tail hfm hinj hw hj hi
  constructor
  · intro hf
    refine ⟨List.ext_getElem? fun j => ?_, fun hn hnone => ?_⟩
    · rw [getElem?_slice]
      split_ifs with hj
      · have ho := hf.outside _ (hne j hj)
        rw [hc, patch_apply_add _ _ _ hj] at ho
        rw [List.getElem?_eq_getElem hj, ho]
      · rw [List.getElem?_eq_none (by omega)]
    · rw [hf.len_eq, if_pos ⟨hn, hnone⟩] at hlen
      omega
  · rintro ⟨hharm, hshort⟩
    -- the tail puts back what the device held there
    have hcontent : content io'.dev = c := by
      have hslice : tail = slice c (fileByte fs bm (pos + n)) tail.length := by
        rw [hharm, length_slice]
        exact slice_congr fun j hj => (hw.outside _ (hne j hj)).symm
      rw [hc, hslice, patch_slice]
    refine ⟨fun i hi => by rw [hcontent]; exact hw.inside i hi,
      fun a ha => by rw [hcontent]; exact hw.outside a ha, by rw [hd.pos_eq]; push_cast; rfl, ?_⟩
    rw [hlen]
    split_ifs with hz
    · have := hshort hz.1 hz.2
      omega
    · push_cast; rfl

/-- **When a write keeps the frame.** A write that returns `n` changes exactly its range if and only if
the bytes that its last round puts behind the range are those that were there, and, for `n = 0` at a
refused block, the position is not behind the length. -/
theorem fsFwrite_frame_iff
    (hs : WriteSetup fs inv content good k bm getNext J temp ptr pos n opq io)
    (hret : (fsFwrite getNext fs temp opq ptr n io).1 = n) :
    WriteFrame fs bm content (content io.dev) io.mem ptr pos n io.file.len
        (fsFwrite getNext fs temp opq ptr n io).2 ↔
      tailBytes fs bm temp (content io.dev) io.mem ptr pos n =
        slice (content io.dev) (fileByte fs bm (pos + n))
          (tailBytes fs bm temp (content io.dev) io.mem ptr pos n).length ∧
      (n = 0 → bm (pos / fs.blockSize) = none → (pos : ℤ) ≤ io.file.len) :=
  (hs.done hret).frame_iff hs.fileMap hs.injective

/-! ## A write that breaks the frame -/

/-- A filesystem whose file is the whole of a device of 8 blocks. -/
def flatFs : Fs Mem := ⟨storeDevice 8, 512⟩

def flatMap (i : ℕ) : Option ℕ := if i < 8 then some i else none

def flatNext : GetNext Mem Unit := fun i _ opq io => ((flatMap i).getD noBlock, opq, io)

/-- Memory full of `7`, a device full of `0`, and an empty file. -/
def flatIo : FileIo Mem := ⟨fun _ => 7, fun _ => 0, ⟨0, vfsModeW, 0, 0⟩⟩

/-- Writing one block from `0x10000`; a temporary buffer would be at `0x20000`. -/
theorem flat_setup : WriteSetup flatFs (fun _ => True) (fun c => c) (fun b => b * 512 + 512 ≤ 8 * 512) 1
    flatMap flatNext (fun _ _ _ => True) (fun _ => 0x20000) 0x10000 0 512 () flatIo where
  fileMap := by
    refine ⟨one_pos, rfl, by decide, fun i b hb => ?_⟩
    unfold flatMap at hb
    split_ifs at hb with hi
    cases hb
    exact ⟨by unfold noBlock; omega, fun j hj => by omega⟩
  reads := (storeDevice_serves (by decide)).healthyReads
  writes := (storeDevice_serves (by decide)).healthyWrites
  injective := by
    intro i j b b' hb hb' hne
    unfold flatMap at hb hb'
    split_ifs at hb hb'
    cases hb
    cases hb'
    omega
  lookup := fun _ _ io _ _ => ⟨(), io, rfl, trivial, rfl, trivial, rfl, rfl, rfl⟩
  stable := fun _ _ _ _ _ _ _ _ _ _ => trivial
  apart := fun _ => Or.inr (show 0x10000 + 512 ≤ 0x20000 by decide)
  range := by decide
  dev_inv := trivial
  start := trivial
  pos_eq := by decide

theorem flat_tail : tailBytes flatFs flatMap (fun _ => 0x20000) (fun _ => 0) (fun _ => 7) 0x10000 0 512 =
    List.replicate 16 7 := by decide

theorem flat_count :
    (fsFwrite flatNext flatFs (fun _ => 0x20000) () 0x10000 512 flatIo).1 = 512 := by decide

/-- The frame of this write, as a condition on the 16 bytes behind it. -/
theorem fsFwrite_frame_flat :
    WriteFrame flatFs flatMap (fun c => c) (fun _ => 0) (fun _ => 7) 0x10000 0 512 0
        (fsFwrite flatNext flatFs (fun _ => 0x20000) () 0x10000 512 flatIo).2 ↔
      tailBytes flatFs flatMap (fun _ => 0x20000) (fun _ => 0) (fun _ => 7) 0x10000 0 512 =
        slice (fun _ => 0) (fileByte flatFs flatMap (0 + 512))
          (tailBytes flatFs flatMap (fun _ => 0x20000) (fun _ => 0) (fun _ => 7) 0x10000 0 512).length ∧
      (512 = 0 → flatMap (0 / 512) = none → ((0 : ℕ) : ℤ) ≤ 0) :=
  fsFwrite_frame_iff flat_setup flat_count

/-- Writing one block changes the first 16 bytes of the next. -/
theorem fsFwrite_frame_broken :
    ¬ ∀ (σ ο : Type) (fs : Fs σ) (inv : σ → Prop) (content : σ → Mem) (good : ℕ → Prop) (k : ℕ)
      (bm : ℕ → Option ℕ) (getNext : GetNext σ ο) (J : ℕ → ο → Mem → Prop) (temp : ℕ → ℕ)
      (ptr pos n : ℕ) (opq : ο) (io : FileIo σ),
      WriteSetup fs inv content good k bm getNext J temp ptr pos n opq io →
      (fsFwrite getNext fs temp opq ptr n io).1 = n →
      WriteFrame fs bm content (content io.dev) io.mem ptr pos n io.file.len
        (fsFwrite getNext fs temp opq ptr n io).2 := by
  intro h
  have hf := h Mem Unit _ _ _ _ _ _ _ _ _ _ _ _ _ _ flat_setup flat_count
  have ht := (((flat_setup.done flat_count).frame_iff flat_setup.fileMap flat_setup.injective).mp hf).1
  have h0 := congrArg List.head? ht
  rw [show tailBytes flatFs flatMap (fun _ => 0x20000) flatIo.dev flatIo.mem 0x10000 0 512 =
    List.replicate 16 7 from flat_tail] at h0
  exact absurd h0 (by decide)

end RpiBoot
