import RpiBoot.Block.Model

/-!
# Healthy devices

A healthy device has contents, a store of bytes, and serves every request for whole blocks that lie
among its good blocks. The laws hold in the states that meet `inv`, which every request keeps, so
that a device may carry an invariant of its own. Counts fit an `int`.

* `HealthyReads`, `HealthyWrites`: the laws of a healthy driver.
* `Serves`: the laws of a driver that serves any request up to the end of the device.
* `storeDevice`: a store of bytes as a device.
* **`blockRead_healthy`**, **`blockWrite_healthy`**: `block_read` and `block_write` transfer the
  whole request.
-/

namespace RpiBoot

open Store

variable {σ : Type}

/-- Whole-block reads of good blocks deliver the contents. -/
structure HealthyReads (dev : BlockDevice σ) (inv : σ → Prop) (content : σ → Mem)
    (good : ℕ → Prop) : Prop where
  good_lt : ∀ b, good b → b < 2 ^ 32
  exists_read : ∃ rd, dev.read = some rd ∧ ∀ s buf k b, inv s → 0 < k → (∀ i < k, good (b + i)) →
    k * dev.blockSize < 2 ^ 31 → ∃ s', rd s buf (k * dev.blockSize) b = (⟨(k * dev.blockSize : ℕ),
      slice (content s) (b * dev.blockSize) (k * dev.blockSize)⟩, s') ∧
      inv s' ∧ content s' = content s

/-- Whole-block writes of good blocks replace the contents. -/
structure HealthyWrites (dev : BlockDevice σ) (inv : σ → Prop) (content : σ → Mem)
    (good : ℕ → Prop) : Prop where
  good_lt : ∀ b, good b → b < 2 ^ 32
  exists_write : ∃ wr, dev.write = some wr ∧
    ∀ s mem buf k b, inv s → 0 < k → (∀ i < k, good (b + i)) → k * dev.blockSize < 2 ^ 31 →
    ∃ r s', wr s mem buf (k * dev.blockSize) b = (⟨(k * dev.blockSize : ℕ), r⟩, s') ∧ inv s' ∧
      content s' = patch (content s) (b * dev.blockSize) (slice mem buf (k * dev.blockSize))

/-- The number of bytes that a device of `cap` bytes serves of a request. -/
def served (bs cap n b : ℕ) : ℕ := min n (cap - b * bs)

/-- The device holds `cap` bytes and its reads and writes never fail. -/
structure Serves (dev : BlockDevice σ) (inv : σ → Prop) (content : σ → Mem) (cap : ℕ) : Prop where
  cap_le : cap ≤ 2 ^ 32 * dev.blockSize
  exists_read : ∃ rd, dev.read = some rd ∧ ∀ s buf n b, inv s →
    served dev.blockSize cap n b < 2 ^ 31 →
    ∃ data s', rd s buf n b = (⟨served dev.blockSize cap n b, data⟩, s') ∧ data.length ≤ n ∧
      data.take (served dev.blockSize cap n b) =
        slice (content s) (b * dev.blockSize) (served dev.blockSize cap n b) ∧
      inv s' ∧ content s' = content s
  exists_write : ∃ wr, dev.write = some wr ∧ ∀ s mem buf n b, inv s →
    served dev.blockSize cap n b < 2 ^ 31 →
    ∃ r s', wr s mem buf n b = (⟨served dev.blockSize cap n b, r⟩, s') ∧ inv s' ∧
      content s' = patch (content s) (b * dev.blockSize)
        (slice mem buf (served dev.blockSize cap n b))

variable {dev : BlockDevice σ} {inv : σ → Prop} {content : σ → Mem} {good : ℕ → Prop}

theorem HealthyReads.mono {good' : ℕ → Prop} (h : HealthyReads dev inv content good)
    (hsub : ∀ b, good' b → good b) : HealthyReads dev inv content good' := by
  obtain ⟨rd, hrd, hlaw⟩ := h.exists_read
  exact ⟨fun b hb => h.good_lt b (hsub b hb), rd, hrd, fun s buf k b hs hk hg =>
    hlaw s buf k b hs hk fun i hi => hsub _ (hg i hi)⟩

/-- Whole blocks on the device are served whole. -/
theorem served_blocks {bs cap k b : ℕ} (hk : 0 < k)
    (hg : ∀ i < k, (b + i) * bs + bs ≤ cap) : served bs cap (k * bs) b = k * bs := by
  have := hg (k - 1) (by omega)
  rw [← Nat.succ_mul, show (b + (k - 1)).succ = b + k by omega, Nat.add_mul] at this
  unfold served
  omega

theorem lt_of_whole {bs cap b : ℕ} (hbs : 0 < bs) (hcap : cap ≤ 2 ^ 32 * bs)
    (hg : b * bs + bs ≤ cap) : b < 2 ^ 32 := by
  rw [← Nat.succ_mul] at hg
  exact Nat.le_of_mul_le_mul_right (hg.trans hcap) hbs

theorem Serves.healthyReads {cap : ℕ} (h : Serves dev inv content cap) :
    HealthyReads dev inv content fun b => b * dev.blockSize + dev.blockSize ≤ cap := by
  refine ⟨fun b hb => lt_of_whole dev.blockSize_pos h.cap_le hb, ?_⟩
  obtain ⟨rd, hrd, hlaw⟩ := h.exists_read
  refine ⟨rd, hrd, fun s buf k b hs hk hg hn => ?_⟩
  have hsv := served_blocks hk hg
  obtain ⟨data, s', hr, hlen, htake, hi, hc⟩ :=
    hlaw s buf (k * dev.blockSize) b hs (by rw [hsv]; exact hn)
  rw [hsv] at hr htake
  rw [List.take_of_length_le hlen] at htake
  exact ⟨s', by rw [hr, htake], hi, hc⟩

theorem Serves.healthyWrites {cap : ℕ} (h : Serves dev inv content cap) :
    HealthyWrites dev inv content fun b => b * dev.blockSize + dev.blockSize ≤ cap := by
  refine ⟨fun b hb => lt_of_whole dev.blockSize_pos h.cap_le hb, ?_⟩
  obtain ⟨wr, hwr, hlaw⟩ := h.exists_write
  refine ⟨wr, hwr, fun s mem buf k b hs hk hg hn => ?_⟩
  have hsv := served_blocks hk hg
  have := hlaw s mem buf (k * dev.blockSize) b hs (by rw [hsv]; exact hn)
  rwa [hsv] at this

/-- A store of `numBlocks` blocks of 512 bytes. -/
def storeDevice (numBlocks : ℕ) : BlockDevice Mem where
  blockSize := 512
  numBlocks := numBlocks
  supportsMultipleBlockRead := true
  supportsMultipleBlockWrite := true
  read := some fun s _ n b =>
    (⟨served 512 (numBlocks * 512) n b, slice s (b * 512) (served 512 (numBlocks * 512) n b)⟩, s)
  write := some fun s mem buf n b =>
    (⟨served 512 (numBlocks * 512) n b, served 512 (numBlocks * 512) n b⟩,
      patch s (b * 512) (slice mem buf (served 512 (numBlocks * 512) n b)))
  blockSize_pos := sector_pos
  blockSize_lt := sector_lt

theorem storeDevice_serves {numBlocks : ℕ} (h : numBlocks ≤ 2 ^ 32) :
    Serves (storeDevice numBlocks) (fun _ => True) (fun c => c) (numBlocks * 512) := by
  refine ⟨Nat.mul_le_mul_right _ h, ⟨_, rfl, fun s buf n b _ _ => ⟨_, s, rfl, ?_, ?_, trivial, rfl⟩⟩,
    ⟨_, rfl, fun s mem buf n b _ _ => ⟨_, _, rfl, trivial, rfl⟩⟩⟩
  · rw [length_slice]
    exact min_le_left _ _
  · exact List.take_of_length_le (length_slice _ _ _).le

/-! ## `block_read` -/

/-- The request `r` for `k` blocks from `b` on is served, or it fails, where `fails` allows that. -/
def ServedOr (fails : Prop) (dev : BlockDevice σ) (inv : σ → Prop) (content : σ → Mem) (s : σ)
    (k b : ℕ) (r : ReadReply × σ) : Prop :=
  inv r.2 ∧ content r.2 = content s ∧
    (fails ∧ -2 ^ 31 ≤ r.1.ret ∧ r.1.ret < 0 ∨
      r.1 = ⟨(k * dev.blockSize : ℕ), slice (content s) (b * dev.blockSize) (k * dev.blockSize)⟩)

/-- One round of the loop of `block_read` over whole blocks. -/
theorem blockReadLoop_block {rd : ReadFn σ} {buf start fuel off j m : ℕ} {s : σ} {mem : Mem}
    {r : ReadReply × σ} (hj : start + j < 2 ^ 32)
    (hr : rd s (buf + off) dev.blockSize (start + j) = r) :
    blockReadLoop dev rd buf start (fuel + 1) s mem (dev.blockSize + m) off j =
      if r.1.ret < 0 then (toU32 r.1.ret, patch mem (buf + off) r.1.data, r.2)
      else if 0 < m then blockReadLoop dev rd buf start fuel r.2 (patch mem (buf + off) r.1.data) m
        (off + dev.blockSize) (j + 1)
      else (off + dev.blockSize, patch mem (buf + off) r.1.data, r.2) := by
  have ht : (if dev.blockSize + m > dev.blockSize then dev.blockSize else dev.blockSize + m) =
      dev.blockSize := by split_ifs <;> omega
  have hm : (if dev.blockSize + m < dev.blockSize then 0 else dev.blockSize + m - dev.blockSize) =
      m := by split_ifs <;> omega
  simp only [blockReadLoop, ht, hm, u32_of_lt hj, hr]

/-- The loop of `block_read` over `k + 1` good blocks. -/
theorem blockReadLoop_blocks {fails : Prop} {rd : ReadFn σ} (start buf : ℕ)
    (hlt : ∀ b, good b → b < 2 ^ 32)
    (hrd : ∀ s buf k b, inv s → 0 < k → (∀ i < k, good (b + i)) → k * dev.blockSize < 2 ^ 31 →
      ServedOr fails dev inv content s k b (rd s buf (k * dev.blockSize) b)) :
    ∀ (k j fuel : ℕ) (s : σ) (mem : Mem), inv s → (∀ i < k + 1, good (start + j + i)) →
      (k + 1) * dev.blockSize < fuel →
      ∃ count mem' s', blockReadLoop dev rd buf start fuel s mem ((k + 1) * dev.blockSize)
          (j * dev.blockSize) j = (count, mem', s') ∧ inv s' ∧ content s' = content s ∧
        (fails ∧ i32 count < 0 ∨ count = (j + (k + 1)) * dev.blockSize ∧
          mem' = patch mem (buf + j * dev.blockSize)
            (slice (content s) ((start + j) * dev.blockSize) ((k + 1) * dev.blockSize))) := by
  have hbs := dev.blockSize_pos
  intro k
  induction k with
  | zero =>
    intro j fuel s mem hs hg hf
    obtain ⟨fuel, rfl⟩ : ∃ m, fuel = m + 1 := ⟨fuel - 1, by omega⟩
    have hgj : good (start + j) := hg 0 (by omega)
    obtain ⟨hi, hc, hres⟩ := hrd s (buf + j * dev.blockSize) 1 (start + j) hs one_pos
      (fun i hi => by rw [show start + j + i = start + j by omega]; exact hgj)
      (by rw [Nat.one_mul]; exact dev.blockSize_lt)
    rw [Nat.one_mul] at hi hc hres
    rw [show (0 + 1) * dev.blockSize = dev.blockSize + 0 by ring,
      blockReadLoop_block (hlt _ hgj) rfl, if_neg (Nat.lt_irrefl 0)]
    rcases hres with ⟨hfails, hlo, hneg⟩ | hok
    · rw [if_pos hneg]
      exact ⟨_, _, _, rfl, hi, hc, Or.inl ⟨hfails, by rw [i32_toU32 hlo (by omega)]; exact hneg⟩⟩
    · rw [hok, if_neg (by dsimp only; omega)]
      exact ⟨_, _, _, rfl, hi, hc, Or.inr ⟨by ring, rfl⟩⟩
  | succ k ih =>
    intro j fuel s mem hs hg hf
    obtain ⟨fuel, rfl⟩ : ∃ m, fuel = m + 1 := ⟨fuel - 1, by omega⟩
    have hgj : good (start + j) := hg 0 (by omega)
    obtain ⟨hi₁, hc₁, hres⟩ := hrd s (buf + j * dev.blockSize) 1 (start + j) hs one_pos
      (fun i hi => by rw [show start + j + i = start + j by omega]; exact hgj)
      (by rw [Nat.one_mul]; exact dev.blockSize_lt)
    rw [Nat.one_mul] at hi₁ hc₁ hres
    have hsplit : (k + 1 + 1) * dev.blockSize = dev.blockSize + (k + 1) * dev.blockSize := by ring
    rw [hsplit, blockReadLoop_block (hlt _ hgj) rfl, if_pos (Nat.mul_pos k.succ_pos hbs)]
    rcases hres with ⟨hfails, hlo, hneg⟩ | hok
    · rw [if_pos hneg]
      exact ⟨_, _, _, rfl, hi₁, hc₁, Or.inl ⟨hfails, by rw [i32_toU32 hlo (by omega)]; exact hneg⟩⟩
    · obtain ⟨count, mem', s', hl, hi, hc, hres'⟩ := ih (j + 1) fuel _
        (patch mem (buf + j * dev.blockSize)
          (slice (content s) ((start + j) * dev.blockSize) dev.blockSize)) hi₁
        (fun i hi => by
          rw [show start + (j + 1) + i = start + j + (i + 1) by omega]; exact hg (i + 1) (by omega))
        (by omega)
      rw [hok, if_neg (by dsimp only; omega),
        show j * dev.blockSize + dev.blockSize = (j + 1) * dev.blockSize by ring, hl]
      refine ⟨count, mem', s', rfl, hi, hc.trans hc₁, hres'.imp_right fun hok' => ?_⟩
      refine ⟨hok'.1.trans (by ring), hok'.2.trans ?_⟩
      rw [hc₁, slice_add, patch_append, length_slice, ← Nat.add_assoc start j 1,
        Nat.add_mul (start + j), Nat.one_mul,
        show buf + (j + 1) * dev.blockSize = buf + j * dev.blockSize + dev.blockSize by ring]

/-- `block_read` of good blocks. -/
theorem blockRead_blocks {fails : Prop} {rd : ReadFn σ} (hread : dev.read = some rd)
    (hlt : ∀ b, good b → b < 2 ^ 32)
    (hrd : ∀ s buf k b, inv s → 0 < k → (∀ i < k, good (b + i)) → k * dev.blockSize < 2 ^ 31 →
      ServedOr fails dev inv content s k b (rd s buf (k * dev.blockSize) b))
    {s : σ} (hs : inv s) (mem : Mem) (buf : ℕ) {k start : ℕ} (hk : 0 < k)
    (hg : ∀ i < k, good (start + i)) (hn : k * dev.blockSize < 2 ^ 31) :
    ∃ count mem' s', blockRead dev s mem buf (k * dev.blockSize) start = (count, mem', s') ∧
      inv s' ∧ content s' = content s ∧ (fails ∧ i32 count < 0 ∨ count = k * dev.blockSize ∧
        mem' = patch mem buf (slice (content s) (start * dev.blockSize) (k * dev.blockSize))) := by
  unfold blockRead
  simp only [hread]
  split_ifs
  · obtain ⟨hi, hc, hres⟩ := hrd s buf k start hs hk hg hn
    refine ⟨_, _, _, rfl, hi, hc, hres.imp (fun h => ⟨h.1, ?_⟩) fun hok => ?_⟩
    · rw [i32_toU32 h.2.1 (by omega)]
      exact h.2.2
    · rw [hok]
      exact ⟨toU32_natCast (by omega), rfl⟩
  · obtain ⟨k, rfl⟩ : ∃ m, k = m + 1 := ⟨k - 1, by omega⟩
    simpa using blockReadLoop_blocks start buf hlt hrd k 0 _ s mem hs (by simpa using hg)
      (Nat.lt_succ_self _)

/-- **`block_read` on a healthy device** fills the buffer with the blocks. -/
theorem blockRead_healthy (h : HealthyReads dev inv content good) {s : σ} (hs : inv s) (mem : Mem)
    (buf : ℕ) {k start : ℕ} (hk : 0 < k) (hg : ∀ i < k, good (start + i))
    (hn : k * dev.blockSize < 2 ^ 31) :
    ∃ s', blockRead dev s mem buf (k * dev.blockSize) start = (k * dev.blockSize,
      patch mem buf (slice (content s) (start * dev.blockSize) (k * dev.blockSize)), s') ∧
      inv s' ∧ content s' = content s := by
  obtain ⟨rd, hrd, hlaw⟩ := h.exists_read
  have hserved : ∀ s buf k b, inv s → 0 < k → (∀ i < k, good (b + i)) → k * dev.blockSize < 2 ^ 31 →
      ServedOr False dev inv content s k b (rd s buf (k * dev.blockSize) b) :=
    fun s buf k b hs hk hg hn => by
      obtain ⟨s', hr, hi, hc⟩ := hlaw s buf k b hs hk hg hn
      rw [hr]
      exact ⟨hi, hc, Or.inr rfl⟩
  obtain ⟨count, mem', s', hr, hi, hc, hres⟩ :=
    blockRead_blocks hrd h.good_lt hserved hs mem buf hk hg hn
  obtain ⟨rfl, rfl⟩ := hres.resolve_left And.left
  exact ⟨s', hr, hi, hc⟩

/-- Blocks of a healthy device read to a new buffer. -/
theorem readFresh_blocks (h : HealthyReads dev inv content good) {s : σ} (hs : inv s) {n b : ℕ}
    (hpos : 0 < n) (hdvd : dev.blockSize ∣ n) (hlt : n < 2 ^ 31)
    (hgood : ∀ j < n / dev.blockSize, good (b + j)) :
    ∃ buf s', readFresh dev s n b = (n, buf, s') ∧
      slice buf 0 n = slice (content s) (b * dev.blockSize) n ∧ inv s' ∧ content s' = content s := by
  have hn : n / dev.blockSize * dev.blockSize = n := Nat.div_mul_cancel hdvd
  have hk : 0 < n / dev.blockSize := Nat.div_pos (Nat.le_of_dvd hpos hdvd) dev.blockSize_pos
  obtain ⟨s', hr, hi, hc⟩ := blockRead_healthy h hs (fun _ => 0) 0 hk hgood (by omega)
  rw [hn] at hr
  exact ⟨_, s', hr, slice_patch_slice _ _ _ _ _, hi, hc⟩

/-- A block of a healthy device read to a new buffer. -/
theorem readFresh_healthy (h : HealthyReads dev inv content good) {s : σ} (hs : inv s) {b : ℕ}
    (hb : good b) :
    ∃ buf s', readFresh dev s dev.blockSize b = (dev.blockSize, buf, s') ∧
      slice buf 0 dev.blockSize = slice (content s) (b * dev.blockSize) dev.blockSize ∧
      inv s' ∧ content s' = content s := by
  refine readFresh_blocks h hs dev.blockSize_pos dvd_rfl dev.blockSize_lt fun j hj => ?_
  rw [Nat.div_self dev.blockSize_pos] at hj
  rwa [show b + j = b by omega]

/-! ## `block_write` -/

/-- One round of the loop of `block_write` that transfers a whole block. -/
theorem blockWriteLoop_block {wr : WriteFn σ} {buf start fuel off j m r : ℕ} {s s' : σ} {mem : Mem}
    (hj : start + j < 2 ^ 32)
    (hr : wr s mem (buf + off) dev.blockSize (start + j) = (⟨dev.blockSize, r⟩, s')) :
    blockWriteLoop dev wr mem buf start (fuel + 1) s (dev.blockSize + m) off j =
      if 0 < m then blockWriteLoop dev wr mem buf start fuel s' m (off + dev.blockSize) (j + 1)
      else (off + dev.blockSize, s') := by
  have ht : (if dev.blockSize + m > dev.blockSize then dev.blockSize else dev.blockSize + m) =
      dev.blockSize := by split_ifs <;> omega
  have hm : (if dev.blockSize + m < dev.blockSize then 0 else dev.blockSize + m - dev.blockSize) =
      m := by split_ifs <;> omega
  simp only [blockWriteLoop, ht, hm, u32_of_lt hj, hr]
  rw [if_neg (by omega)]

/-- The loop of `block_write` over `k + 1` good blocks. -/
theorem blockWriteLoop_healthy {wr : WriteFn σ} (start buf : ℕ) (mem : Mem)
    (hlt : ∀ b, good b → b < 2 ^ 32)
    (hwr : ∀ s mem buf k b, inv s → 0 < k → (∀ i < k, good (b + i)) → k * dev.blockSize < 2 ^ 31 →
      ∃ r s', wr s mem buf (k * dev.blockSize) b = (⟨(k * dev.blockSize : ℕ), r⟩, s') ∧ inv s' ∧
        content s' = patch (content s) (b * dev.blockSize) (slice mem buf (k * dev.blockSize))) :
    ∀ (k j fuel : ℕ) (s : σ), inv s → (∀ i < k + 1, good (start + j + i)) →
      (k + 1) * dev.blockSize < fuel →
      ∃ s', blockWriteLoop dev wr mem buf start fuel s ((k + 1) * dev.blockSize) (j * dev.blockSize) j =
        ((j + (k + 1)) * dev.blockSize, s') ∧ inv s' ∧
        content s' = patch (content s) ((start + j) * dev.blockSize)
          (slice mem (buf + j * dev.blockSize) ((k + 1) * dev.blockSize)) := by
  have hbs := dev.blockSize_pos
  intro k
  induction k with
  | zero =>
    intro j fuel s hs hg hf
    obtain ⟨fuel, rfl⟩ : ∃ m, fuel = m + 1 := ⟨fuel - 1, by omega⟩
    have hgj : good (start + j) := hg 0 (by omega)
    obtain ⟨r, s', hr, hi, hc⟩ := hwr s mem (buf + j * dev.blockSize) 1 (start + j) hs one_pos
      (fun i hi => by rw [show start + j + i = start + j by omega]; exact hgj)
      (by rw [Nat.one_mul]; exact dev.blockSize_lt)
    rw [Nat.one_mul] at hr hc
    refine ⟨s', ?_, hi, by rw [hc, Nat.zero_add, Nat.one_mul]⟩
    rw [show (0 + 1) * dev.blockSize = dev.blockSize + 0 by ring,
      blockWriteLoop_block (hlt _ hgj) hr, if_neg (Nat.lt_irrefl 0)]
    exact Prod.ext (by ring) rfl
  | succ k ih =>
    intro j fuel s hs hg hf
    obtain ⟨fuel, rfl⟩ : ∃ m, fuel = m + 1 := ⟨fuel - 1, by omega⟩
    have hgj : good (start + j) := hg 0 (by omega)
    obtain ⟨r, s₁, hr, hi₁, hc₁⟩ := hwr s mem (buf + j * dev.blockSize) 1 (start + j) hs one_pos
      (fun i hi => by rw [show start + j + i = start + j by omega]; exact hgj)
      (by rw [Nat.one_mul]; exact dev.blockSize_lt)
    rw [Nat.one_mul] at hr hc₁
    have hsplit : (k + 1 + 1) * dev.blockSize = dev.blockSize + (k + 1) * dev.blockSize := by ring
    obtain ⟨s', hl, hi, hc⟩ := ih (j + 1) fuel s₁ hi₁
      (fun i hi => by
        rw [show start + (j + 1) + i = start + j + (i + 1) by omega]; exact hg (i + 1) (by omega))
      (by omega)
    refine ⟨s', ?_, hi, ?_⟩
    · rw [hsplit, blockWriteLoop_block (hlt _ hgj) hr, if_pos (Nat.mul_pos k.succ_pos hbs),
        show j * dev.blockSize + dev.blockSize = (j + 1) * dev.blockSize by ring, hl]
      exact Prod.ext (by ring) rfl
    · rw [hc, hc₁, hsplit, slice_add, patch_append, length_slice,
        show start + (j + 1) = start + j + 1 by ring, Nat.add_mul (start + j), Nat.one_mul,
        show buf + (j + 1) * dev.blockSize = buf + j * dev.blockSize + dev.blockSize by ring]

/-- **`block_write` on a healthy device** replaces the blocks by the buffer. -/
theorem blockWrite_healthy (h : HealthyWrites dev inv content good) {s : σ} (hs : inv s) (mem : Mem)
    (buf : ℕ) {k start : ℕ} (hk : 0 < k) (hg : ∀ i < k, good (start + i)) :
    ∃ s', blockWrite dev s mem buf (k * dev.blockSize) start = (k * dev.blockSize, s') ∧ inv s' ∧
      content s' = patch (content s) (start * dev.blockSize)
        (slice mem buf (k * dev.blockSize)) := by
  obtain ⟨wr, hwr, hlaw⟩ := h.exists_write
  obtain ⟨k, rfl⟩ : ∃ m, k = m + 1 := ⟨k - 1, by omega⟩
  obtain ⟨s', hl, hi, hc⟩ := blockWriteLoop_healthy start buf mem
    h.good_lt hlaw k 0 _ s hs (by simpa using hg) (Nat.lt_succ_self _)
  refine ⟨s', ?_, hi, by simpa using hc⟩
  unfold blockWrite
  simp only [hwr]
  simpa using hl

end RpiBoot
