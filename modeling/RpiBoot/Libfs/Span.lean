import RpiBoot.Block.Healthy
import RpiBoot.Libfs.Model

/-!
# The rounds of the transfer loops

A call for the bytes `[pos, stop)` of a file makes one round for each block from that of `pos` to that
of `stop`. Round `cur` starts at position `reach cur` and transfers `[reach cur, reach (cur + 1))`,
which is empty when `stop` lies at the start of the last block.

* `reach`: the position at which a round starts.
* **`span_offsets`**, `Round`: the offsets that a round computes, and the bytes it transfers.
* `FileMap`: a map from the blocks of a file to good blocks of the device.
* `fileByte`, `fileBytes`: where a byte of the file lies, and the bytes of the file.
* `Lookup`: a filesystem looks blocks up as the map says.
-/

namespace RpiBoot

open Store

/-- The position at which round `cur` starts. -/
def reach (bs pos stop cur : ℕ) : ℕ := min stop (max pos (cur * bs))

variable {bs pos stop cur n : ℕ}

theorem reach_first (h : pos ≤ stop) : reach bs pos stop (pos / bs) = pos := by
  have := Nat.div_mul_le_self pos bs
  unfold reach; omega

theorem reach_last (hbs : 0 < bs) : reach bs pos stop (stop / bs + 1) = stop := by
  have : stop < stop / bs * bs + bs := Nat.lt_div_mul_add hbs
  unfold reach
  rw [Nat.add_mul, Nat.one_mul]; omega

theorem le_reach (bs cur : ℕ) (h : pos ≤ stop) : pos ≤ reach bs pos stop cur := by unfold reach; omega

theorem reach_le (bs pos stop cur : ℕ) : reach bs pos stop cur ≤ stop := min_le_left _ _

theorem reach_mono (bs pos stop cur : ℕ) :
    reach bs pos stop cur ≤ reach bs pos stop (cur + 1) := by
  have : cur * bs ≤ (cur + 1) * bs := Nat.mul_le_mul_right _ (Nat.le_succ cur)
  unfold reach; omega

/-- A round stays in its block. -/
theorem mul_le_reach (pos : ℕ) (h : cur ≤ stop / bs) : cur * bs ≤ reach bs pos stop cur := by
  have h₁ := Nat.mul_le_mul_right bs h
  have h₂ := Nat.div_mul_le_self stop bs
  unfold reach; omega

theorem reach_succ_le (stop : ℕ) (hbs : 0 < bs) (h : pos / bs ≤ cur) :
    reach bs pos stop (cur + 1) ≤ cur * bs + bs := by
  have h₁ := Nat.mul_le_mul_right bs h
  have h₂ : pos < pos / bs * bs + bs := Nat.lt_div_mul_add hbs
  unfold reach
  rw [Nat.add_mul, Nat.one_mul]; omega

/-- A round that transfers nothing is the last. -/
theorem reach_eq_stop (hbs : 0 < bs) (h₁ : pos / bs ≤ cur)
    (h : reach bs pos stop cur = reach bs pos stop (cur + 1)) : reach bs pos stop cur = stop := by
  have h₂ := Nat.mul_le_mul_right bs h₁
  have h₃ : pos < pos / bs * bs + bs := Nat.lt_div_mul_add hbs
  unfold reach at *
  rw [Nat.add_mul, Nat.one_mul] at h; omega

/-- **The offsets of a round.** -/
theorem span_offsets (hbs : 0 < bs) (hn : pos + n < 2 ^ 32) (h₁ : pos / bs ≤ cur)
    (h₂ : cur ≤ (pos + n) / bs) :
    (span bs pos n).offsets bs cur = (reach bs pos (pos + n) cur - cur * bs,
      reach bs pos (pos + n) (cur + 1) - cur * bs) := by
  have hm₁ := Nat.mul_le_mul_right bs h₁
  have hm₂ := Nat.mul_le_mul_right bs h₂
  have hp := Nat.div_add_mod' pos bs
  have hs := Nat.div_add_mod' (pos + n) bs
  have hpl := Nat.mod_lt pos hbs
  have hsl := Nat.mod_lt (pos + n) hbs
  simp only [span, Span.offsets, u32_of_lt hn, reach, Nat.add_mul, Nat.one_mul]
  refine Prod.ext ?_ ?_
  · dsimp only
    split_ifs with hc
    · rw [hc]; omega
    · have := Nat.mul_le_mul_right bs (show pos / bs + 1 ≤ cur by omega)
      rw [Nat.add_mul] at this
      omega
  · dsimp only
    split_ifs with hc
    · rw [hc]; omega
    · have := Nat.mul_le_mul_right bs (show cur + 1 ≤ (pos + n) / bs by omega)
      rw [Nat.add_mul] at this
      omega

/-- Round `cur` transfers the `m` bytes from position `p` on. -/
structure Round (bs pos n cur p m : ℕ) : Prop where
  start_eq : reach bs pos (pos + n) cur = p
  stop_eq : reach bs pos (pos + n) (cur + 1) = p + m
  pos_le : pos ≤ p
  block_le : cur * bs ≤ p
  le_block : p + m ≤ cur * bs + bs
  le_stop : p + m ≤ pos + n
  cur_le : cur ≤ (span bs pos n).lastFBlockIdx
  offsets_eq : (span bs pos n).offsets bs cur = (p - cur * bs, p + m - cur * bs)
  segment_eq : sub32 (p + m - cur * bs) (p - cur * bs) = m

theorem exists_round (hbs : 0 < bs) (hn : pos + n < 2 ^ 31) (hlt : bs < 2 ^ 32)
    (h₁ : pos / bs ≤ cur) (h₂ : cur ≤ (pos + n) / bs) : ∃ p m, Round bs pos n cur p m := by
  have hle : pos ≤ pos + n := Nat.le_add_right _ _
  obtain ⟨m, hm⟩ := Nat.exists_eq_add_of_le (reach_mono bs pos (pos + n) cur)
  have hp₁ := le_reach bs cur hle
  have hp₂ := mul_le_reach pos h₂
  have hq₁ := reach_succ_le (pos + n) hbs h₁
  have hq₂ := reach_le bs pos (pos + n) (cur + 1)
  have hoff := span_offsets hbs (show pos + n < 2 ^ 32 by omega) h₁ h₂
  rw [hm] at hq₁ hq₂ hoff
  refine ⟨_, m, rfl, hm, hp₁, hp₂, hq₁, hq₂, ?_, hoff, ?_⟩
  · simpa only [span, u32_of_lt (show pos + n < 2 ^ 32 by omega)] using h₂
  · rw [sub32_of_le (by omega) (by omega)]; omega

/-- A round with nothing to transfer is the last, and the range ends at the start of its block. -/
theorem Round.of_empty {p : ℕ} (hbs : 0 < bs) (h₁ : pos / bs ≤ cur) (hr : Round bs pos n cur p 0) :
    cur = (pos + n) / bs ∧ p = pos + n ∧ ((pos + n) % bs = 0 ∨ n = 0) := by
  have hstop : p = pos + n := by
    rw [← hr.start_eq]
    exact reach_eq_stop hbs h₁ (by rw [hr.start_eq, hr.stop_eq]; rfl)
  have hb₁ := hr.block_le
  have hb₂ := hr.le_block
  have h₂ := Nat.mul_le_mul_right bs h₁
  have h₃ : pos < pos / bs * bs + bs := Nat.lt_div_mul_add hbs
  have hs := hr.start_eq
  have hq := hr.stop_eq
  unfold reach at hs hq
  rw [Nat.add_mul, Nat.one_mul] at hq
  have hd : (pos + n) / bs = cur := Nat.div_eq_of_lt_le (by omega) (by rw [Nat.add_mul]; omega)
  have hm := Nat.div_add_mod' (pos + n) bs
  rw [hd] at hm
  exact ⟨hd.symm, hstop, by omega⟩

/-- In the other case the last round does not end on a block boundary. -/
theorem Round.of_pos {p m : ℕ} (hr : Round bs pos n cur p m) (hm : 0 < m)
    (hc : cur = (pos + n) / bs) : ¬ ((pos + n) % bs = 0 ∨ n = 0) := by
  have hd := Nat.div_add_mod' (pos + n) bs
  have h₁ := hr.block_le
  have h₂ := hr.pos_le
  have h₃ := hr.le_stop
  rw [← hc] at hd
  omega

/-- The first round starts at `pos`, the others on a block boundary. -/
theorem Round.start_cases {p m : ℕ} (hbs : 0 < bs) (hr : Round bs pos n cur p m)
    (h₁ : pos / bs ≤ cur) : (cur = pos / bs ∧ p = pos) ∨ (pos / bs < cur ∧ p = cur * bs) := by
  have hs := hr.start_eq
  rcases Nat.eq_or_lt_of_le h₁ with rfl | hlt
  · rw [reach_first (Nat.le_add_right _ _)] at hs
    exact Or.inl ⟨rfl, hs.symm⟩
  · have h₂ := Nat.mul_le_mul_right bs hlt
    have h₃ : pos < pos / bs * bs + bs := Nat.lt_div_mul_add hbs
    have hb := hr.block_le
    rw [Nat.succ_mul] at h₂
    unfold reach at hs
    exact Or.inr ⟨hlt, by omega⟩

/-- Rounds before the last end on a block boundary. -/
theorem Round.stop_of_lt {p m : ℕ} (hbs : 0 < bs) (hr : Round bs pos n cur p m)
    (h₁ : pos / bs ≤ cur) (h₂ : cur < (pos + n) / bs) : p + m = cur * bs + bs := by
  have hq := hr.stop_eq
  have h₃ := Nat.mul_le_mul_right bs h₁
  have h₄ := Nat.mul_le_mul_right bs h₂
  have h₅ : pos < pos / bs * bs + bs := Nat.lt_div_mul_add hbs
  have h₆ := Nat.div_mul_le_self (pos + n) bs
  rw [Nat.succ_mul] at h₄
  unfold reach at hq
  rw [Nat.add_mul, Nat.one_mul] at hq
  omega

/-- The segment length does not change when the whole block has been transferred. -/
theorem Round.cutSegment_eq {p m : ℕ} (h : Round bs pos n cur p m) :
    cutSegment (p - cur * bs) (p + m - cur * bs) bs = m := by
  have := h.block_le
  have := h.le_block
  simp only [cutSegment]
  split_ifs <;> omega

/-! ## Block maps -/

variable {σ ο : Type}

/-- A filesystem block is `k` device blocks, and the blocks of the file lie on good ones. -/
structure FileMap (fs : Fs σ) (good : ℕ → Prop) (k : ℕ) (bm : ℕ → Option ℕ) : Prop where
  k_pos : 0 < k
  size_eq : fs.blockSize = k * fs.parent.blockSize
  size_lt : fs.blockSize < 2 ^ 31
  mapped : ∀ i b, bm i = some b → b ≠ noBlock ∧ ∀ j < k, good (b + j)

theorem FileMap.size_pos {fs : Fs σ} {good : ℕ → Prop} {k : ℕ} {bm : ℕ → Option ℕ}
    (h : FileMap fs good k bm) : 0 < fs.blockSize := by
  rw [h.size_eq]
  exact Nat.mul_pos h.k_pos fs.parent.blockSize_pos

/-- The device address of byte `p` of a file. -/
def fileByte (fs : Fs σ) (bm : ℕ → Option ℕ) (p : ℕ) : ℕ :=
  (bm (p / fs.blockSize)).getD 0 * fs.parent.blockSize + p % fs.blockSize

/-- The bytes of a file. -/
def fileBytes (fs : Fs σ) (bm : ℕ → Option ℕ) (c : Mem) : Mem := fun p => c (fileByte fs bm p)

/-- The bytes of a round are consecutive on the device. -/
theorem fileByte_eq {fs : Fs σ} {bm : ℕ → Option ℕ} {b p : ℕ} (hb : bm cur = some b)
    (hc : cur * fs.blockSize ≤ p) (hp : p < cur * fs.blockSize + fs.blockSize) :
    fileByte fs bm p = b * fs.parent.blockSize + (p - cur * fs.blockSize) := by
  have hd : p / fs.blockSize = cur :=
    Nat.div_eq_of_lt_le hc (by rw [Nat.add_mul]; omega)
  have hm := Nat.div_add_mod' p fs.blockSize
  rw [hd] at hm
  rw [fileByte, hd, hb, Option.getD_some]
  omega

/-- The filesystem looks up block `idx` of the file as the map `bm` says. `J idx opq c` says that its
data `opq` suits a lookup of block `idx` or a later one while the device holds `c`. -/
def Lookup (getNext : GetNext σ ο) (inv : σ → Prop) (content : σ → Mem) (addBlocks : Bool)
    (J : ℕ → ο → Mem → Prop) (bm : ℕ → Option ℕ) : Prop :=
  ∀ idx opq io, inv io.dev → J idx opq (content io.dev) →
    ∃ opq' io', getNext idx addBlocks opq io = ((bm idx).getD noBlock, opq', io') ∧
      J (idx + 1) opq' (content io.dev) ∧ io'.mem = io.mem ∧ inv io'.dev ∧
      content io'.dev = content io.dev ∧ io'.file.pos = io.file.pos ∧ io'.file.len = io.file.len

/-- The buffers that `malloc` returns are apart from `n` bytes of the caller at `ptr`. -/
def TempApart (temp : ℕ → ℕ) (bs ptr n : ℕ) : Prop :=
  ∀ i, temp i + bs ≤ ptr ∨ ptr + n ≤ temp i

end RpiBoot
