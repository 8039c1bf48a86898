import Mathlib
import RpiBoot.Memchunk.Grants
import RpiBoot.Memchunk.Register

/-!
# The memory of the loader (`heap.c`)

The loader keeps to the first MiB: its image, behind it the heap of `malloc`, which `sbrk` moves the end of,
and from `MAX_BRK` on the buffers of `alloc_buf`. The chunks for what it loads lie above.

* `Image`: where the loader is linked. `allocBuf`, `sbrk`: the entry points of `heap.c`.
* `loaderStep`: a call of `heap.c`, of `mem_cb` or of the allocator of chunks.
* `LoaderMem.Sound`: the invariant of the runs whose requests do not wrap.
* **`loader_memory_apart`**: in these runs the loader, its heap, its buffers and the chunks lie apart.
-/

namespace RpiBoot

open Runs

/-! ## `heap.c` -/

/-- The symbols `_start` and `_end`, and `MAX_BRK`. The image ends before the buffers start, and these can
start in the first MiB. -/
structure Image where
  start : ℕ
  stop : ℕ
  maxBrk : ℕ
  maxBrk_eq : maxBrk = u32 (sub32 start 0x8000 + 0xf0000)
  start_mem : 0x8000 ≤ start ∧ start ≤ 0x18000
  stop_le_maxBrk : stop ≤ maxBrk

/-- `MAX_BUF`, without the USB driver. -/
def maxBuf : ℕ := 0x100000

/-- `cur_brk` and `cur_buf`. -/
structure HeapVars where
  curBrk : ℕ
  curBuf : ℕ
deriving DecidableEq

def HeapVars.init (i : Image) : HeapVars := ⟨0, i.maxBrk⟩

/-- `n` is aligned up: where `n & mask` is not zero for `mask = 2 ^ k - 1`, it is cut down to `n & ~mask`
first. -/
def alignUp (k n : ℕ) : ℕ :=
  if n &&& (2 ^ k - 1) ≠ 0 then u32 ((n &&& (2 ^ (32 - k) - 1) * 2 ^ k) + 2 ^ k) else n

/-- `alloc_buf(size)`. -/
def allocBuf (h : HeapVars) (size : ℕ) : ℕ × HeapVars :=
  let oldBuf := h.curBuf
  let curBuf := u32 (h.curBuf + size)
  if curBuf > maxBuf then (0, h) else (oldBuf, { h with curBuf := alignUp 9 curBuf })

/-- Where the heap starts: the first page behind the image. -/
def Image.heapStart (i : Image) : ℕ := alignUp 12 i.stop

/-- `sbrk(increment)`; `(void *)-1` is the last address. -/
def sbrk (i : Image) (h : HeapVars) (increment : ℕ) : ℕ × HeapVars :=
  let oldBrk := if h.curBrk = 0 then i.heapStart else h.curBrk
  let curBrk := u32 (oldBrk + increment)
  if curBrk ≥ i.maxBrk then (0xffffffff, { h with curBrk := oldBrk })
  else (oldBrk, { h with curBrk := curBrk })

/-! ## Alignment -/

theorem and_high_bits {n : ℕ} (hn : n < 2 ^ 32) {k : ℕ} (hk : k ≤ 32) :
    n &&& (2 ^ (32 - k) - 1) * 2 ^ k = n / 2 ^ k * 2 ^ k := by
  refine Nat.eq_of_testBit_eq fun j => ?_
  rw [Nat.testBit_and, Nat.testBit_mul_two_pow, Nat.testBit_mul_two_pow, Nat.testBit_two_pow_sub_one,
    Nat.testBit_div_two_pow]
  by_cases hkj : k ≤ j
  · rw [Nat.sub_add_cancel hkj]
    by_cases hj : j < 32
    · simp [hkj, show j - k < 32 - k by omega]
    · -- there is no bit so high
      have hbit : n.testBit j = false :=
        Nat.testBit_lt_two_pow (hn.trans_le (Nat.pow_le_pow_right (by decide) (by omega)))
      simp [hbit]
  · simp [hkj]

/-- **Aligning up**: the next multiple. -/
theorem alignUp_spec {k n b : ℕ} (hk : k ≤ 32) (hb : b < 2 ^ 32) (hdvd : 2 ^ k ∣ b) (hle : n ≤ b) :
    n ≤ alignUp k n ∧ alignUp k n ≤ b := by
  obtain ⟨c, rfl⟩ := hdvd
  unfold alignUp
  split_ifs with hmask
  · rw [Nat.and_two_pow_sub_one_eq_mod] at hmask
    rw [and_high_bits (hle.trans_lt hb) hk]
    have hpos : 0 < 2 ^ k := Nat.two_pow_pos k
    have hmod := Nat.mod_lt n hpos
    have hdiv := Nat.div_add_mod' n (2 ^ k)
    have hlt : n < c * 2 ^ k := by
      rw [Nat.mul_comm c]
      refine hle.lt_of_ne fun heq => hmask ?_
      rw [heq, Nat.mul_mod_right]
    have hnext : (n / 2 ^ k + 1) * 2 ^ k ≤ c * 2 ^ k :=
      Nat.mul_le_mul_right _ (Nat.div_lt_of_lt_mul (by rwa [Nat.mul_comm (2 ^ k)]))
    rw [Nat.add_mul, Nat.one_mul] at hnext
    rw [Nat.mul_comm (2 ^ k)] at hb ⊢
    rw [u32_of_lt (hnext.trans_lt hb)]
    omega
  · exact ⟨Nat.le_refl _, hle⟩

/-! ## The layout -/

theorem Image.maxBrk_mem (i : Image) : 0xf0000 ≤ i.maxBrk ∧ i.maxBrk ≤ maxBuf := by
  obtain ⟨hlow, hhigh⟩ := i.start_mem
  rw [i.maxBrk_eq, sub32_of_le hlow (by omega), u32_of_lt (by omega), maxBuf]
  omega

theorem Image.stop_le_heapStart (i : Image) : i.stop ≤ i.heapStart :=
  (alignUp_spec (b := maxBuf) (by decide) (by decide) (by decide) (i.stop_le_maxBrk.trans i.maxBrk_mem.2)).1

/-! ## Runs -/

/-- A call that takes memory or reports some, with 32-bit arguments. -/
inductive LoaderCall
  | memCb (addr len : UInt32)
  | getChunk (start length : UInt32)
  | getAnyChunk (length : UInt32)
  | allocBuf (size : UInt32)
  | sbrk (increment : UInt32)

/-- The variables of `heap.c`, the buffers it has granted, and the chunks. -/
structure LoaderMem where
  heap : HeapVars
  buffers : List Chunk
  ledger : Ledger
deriving DecidableEq

def LoaderMem.init (i : Image) : LoaderMem := ⟨HeapVars.init i, [], Ledger.init⟩

/-- Record the result of `alloc_buf`. -/
def LoaderMem.record (t : LoaderMem) (size : ℕ) (r : ℕ × HeapVars) : LoaderMem :=
  { t with heap := r.2, buffers := if r.1 ≠ 0 then ⟨r.1, size⟩ :: t.buffers else t.buffers }

/-- One call; undefined when the page search does not end. -/
def loaderStep (i : Image) (t : LoaderMem) : LoaderCall → Option LoaderMem
  | .memCb addr len =>
    some { t with ledger := { t.ledger with chunks := memCb t.ledger.chunks addr.toNat len.toNat } }
  | .getChunk start length =>
    (chunkStep t.ledger (.getChunk start length)).map fun ledger => { t with ledger := ledger }
  | .getAnyChunk length =>
    (chunkStep t.ledger (.getAnyChunk length)).map fun ledger => { t with ledger := ledger }
  | .allocBuf size => some (t.record size.toNat (RpiBoot.allocBuf t.heap size.toNat))
  | .sbrk increment => some { t with heap := (RpiBoot.sbrk i t.heap increment.toNat).2 }

/-- What the call asks for ends below `2 ^ 32`, if it is granted. -/
def LoaderFits (t : LoaderMem) : LoaderCall → Prop
  | .memCb _ _ => True
  | .getChunk start length => FitsRequest t.ledger (.getChunk start length)
  | .getAnyChunk length => FitsRequest t.ledger (.getAnyChunk length)
  | .allocBuf size => t.heap.curBuf + size.toNat < 2 ^ 32
  | .sbrk _ => True

/-- The heap, from its first page to the break. -/
def LoaderMem.heapRange (i : Image) (t : LoaderMem) : Set ℕ := Set.Ico i.heapStart t.heap.curBrk

/-- The invariant of the runs whose requests fit. -/
structure LoaderMem.Sound (i : Image) (t : LoaderMem) : Prop where
  tight : t.ledger.Tight
  high : ∀ r ∈ t.ledger.chunks.freeList, maxBuf ≤ r.start
  brk : t.heapRange i ⊆ Set.Iio i.maxBrk
  buf : i.maxBrk ≤ t.heap.curBuf ∧ t.heap.curBuf ≤ maxBuf
  buffers : ∀ c ∈ t.buffers, c.range ⊆ Set.Ico i.maxBrk t.heap.curBuf
  apart : t.buffers.Pairwise fun c c' => Disjoint c.range c'.range

variable {i : Image} {t t' : LoaderMem}

theorem sound_init (i : Image) : (LoaderMem.init i).Sound i := by
  refine ⟨tight_init, List.forall_mem_nil _, fun a ha => ?_, ⟨Nat.le_refl _, i.maxBrk_mem.2⟩,
    List.forall_mem_nil _, List.Pairwise.nil⟩
  exact absurd (Set.mem_Ico.mp ha).2 (Nat.not_lt_zero a)

/-- A region that is registered leaves the grants sound. -/
theorem Ledger.Tight.memCb {l : Ledger} (h : l.Tight) (addr len : ℕ) :
    Ledger.Tight { l with chunks := RpiBoot.memCb l.chunks addr len } := by
  have hfree : (RpiBoot.memCb l.chunks addr len).freeList =
      (Chunk.mk addr len).registered :: l.chunks.freeList := by
    unfold RpiBoot.memCb Chunk.registered
    split_ifs <;> rfl
  have hused : (RpiBoot.memCb l.chunks addr len).used = l.chunks.used := by
    unfold RpiBoot.memCb
    split_ifs <;> rfl
  refine ⟨by rw [hused]; exact h.used_fits, by rw [hused]; exact h.granted_used, fun c hc => ?_, h.disjoint⟩
  obtain ⟨r, hr, hsub⟩ := h.inside c hc
  refine ⟨r, ?_, hsub⟩
  rw [hfree]
  exact List.mem_cons_of_mem _ hr

/-- The allocator of chunks registers nothing by itself. -/
theorem freeList_chunkStep {l l' : Ledger} {o : ChunkCall} (ho : ∀ a n, o ≠ .registerFree a n)
    (h : chunkStep l o = some l') : l'.chunks.freeList = l.chunks.freeList := by
  rcases chunkStep_cases h with ⟨a, n, rfl, -⟩ | ⟨start, length, -, rfl⟩ | rfl
  · exact absurd rfl (ho a n)
  · rfl
  · rfl

theorem LoaderMem.Sound.chunk (hs : t.Sound i) {o : ChunkCall} (ho : ∀ a n, o ≠ .registerFree a n)
    (hfits : FitsRequest t.ledger o) {l : Ledger} (h : chunkStep t.ledger o = some l) :
    LoaderMem.Sound i { t with ledger := l } := by
  refine ⟨tight_step hs.tight hfits h, ?_, hs.brk, hs.buf, hs.buffers, hs.apart⟩
  rw [freeList_chunkStep ho h]
  exact hs.high

/-- A buffer is cut off the memory behind those before it. -/
theorem LoaderMem.Sound.allocBuf (hs : t.Sound i) {size : ℕ} (hfits : t.heap.curBuf + size < 2 ^ 32) :
    (t.record size (RpiBoot.allocBuf t.heap size)).Sound i := by
  obtain ⟨hlow, hhigh⟩ := hs.buf
  unfold RpiBoot.allocBuf
  rw [u32_of_lt hfits]
  simp only
  split_ifs with hfull
  · exact ⟨hs.tight, hs.high, hs.brk, hs.buf, hs.buffers, hs.apart⟩
  obtain ⟨hle, hend⟩ : t.heap.curBuf + size ≤ alignUp 9 (t.heap.curBuf + size) ∧
      alignUp 9 (t.heap.curBuf + size) ≤ maxBuf :=
    alignUp_spec (by decide) (by decide) (by decide) (not_lt.mp hfull)
  have hpos : t.heap.curBuf ≠ 0 := by
    have := i.maxBrk_mem.1
    omega
  rw [LoaderMem.record, if_pos hpos]
  have hnext : t.heap.curBuf ≤ alignUp 9 (t.heap.curBuf + size) := (Nat.le_add_right _ _).trans hle
  refine ⟨hs.tight, hs.high, hs.brk, ⟨hlow.trans hnext, hend⟩, List.forall_mem_cons.mpr ⟨?_, fun c hc => ?_⟩,
    List.pairwise_cons.mpr ⟨fun c hc => ?_, hs.apart⟩⟩
  · exact Set.Ico_subset_Ico hlow hle
  · exact (hs.buffers c hc).trans (Set.Ico_subset_Ico_right hnext)
  · refine Set.disjoint_of_subset_right (hs.buffers c hc) (Set.disjoint_left.mpr fun a ha hb => ?_)
    exact absurd (Set.mem_Ico.mp ha).1 (not_le.mpr (Set.mem_Ico.mp hb).2)

/-- The break is where it was, or below the buffers. -/
theorem sbrk_curBrk (i : Image) (h : HeapVars) (increment : ℕ) :
    (sbrk i h increment).2.curBrk = (if h.curBrk = 0 then i.heapStart else h.curBrk) ∨
      (sbrk i h increment).2.curBrk < i.maxBrk := by
  unfold sbrk
  dsimp only
  by_cases hfull : u32 ((if h.curBrk = 0 then i.heapStart else h.curBrk) + increment) ≥ i.maxBrk
  · rw [if_pos hfull]
    exact Or.inl rfl
  · rw [if_neg hfull]
    exact Or.inr (not_le.mp hfull)

theorem sbrk_curBuf (i : Image) (h : HeapVars) (increment : ℕ) :
    (sbrk i h increment).2.curBuf = h.curBuf := by
  unfold sbrk
  dsimp only
  split_ifs <;> rfl

/-- The break stays below the buffers, wherever the heap is grown or cut back to. -/
theorem LoaderMem.Sound.sbrk (hs : t.Sound i) (increment : ℕ) :
    LoaderMem.Sound i { t with heap := (RpiBoot.sbrk i t.heap increment).2 } := by
  have hbuf := sbrk_curBuf i t.heap increment
  have hbrk : Set.Ico i.heapStart (RpiBoot.sbrk i t.heap increment).2.curBrk ⊆ Set.Iio i.maxBrk := by
    intro a ha
    obtain ⟨hstart, hlt⟩ := Set.mem_Ico.mp ha
    rcases sbrk_curBrk i t.heap increment with hold | hbelow
    · rw [hold] at hlt
      by_cases hzero : t.heap.curBrk = 0
      · -- the first call only finds the first page
        rw [if_pos hzero] at hlt
        exact absurd hlt (not_lt.mpr hstart)
      · rw [if_neg hzero] at hlt
        exact hs.brk (Set.mem_Ico.mpr ⟨hstart, hlt⟩)
    · exact hlt.trans hbelow
  refine ⟨hs.tight, hs.high, hbrk, ?_, ?_, hs.apart⟩
  · change i.maxBrk ≤ (RpiBoot.sbrk i t.heap increment).2.curBuf ∧ _
    rw [hbuf]
    exact hs.buf
  · change ∀ c ∈ t.buffers, c.range ⊆ Set.Ico i.maxBrk (RpiBoot.sbrk i t.heap increment).2.curBuf
    rw [hbuf]
    exact hs.buffers

/-- **One call** keeps the invariant. -/
theorem loaderStep_sound {c : LoaderCall} (hs : t.Sound i) (hfits : LoaderFits t c)
    (h : loaderStep i t c = some t') : t'.Sound i := by
  cases c with
  | memCb addr len =>
    obtain rfl := Option.some.inj h
    refine ⟨hs.tight.memCb _ _, ?_, hs.brk, hs.buf, hs.buffers, hs.apart⟩
    unfold memCb
    split_ifs with hlow
    · exact List.forall_mem_cons.mpr ⟨Nat.le_refl _, hs.high⟩
    · exact List.forall_mem_cons.mpr ⟨not_lt.mp hlow, hs.high⟩
  | getChunk start length =>
    simp only [loaderStep, Option.map_eq_some_iff] at h
    obtain ⟨l, hl, rfl⟩ := h
    exact hs.chunk (o := .getChunk start length) nofun hfits hl
  | getAnyChunk length =>
    simp only [loaderStep, Option.map_eq_some_iff] at h
    obtain ⟨l, hl, rfl⟩ := h
    exact hs.chunk (o := .getAnyChunk length) nofun hfits hl
  | allocBuf size =>
    obtain rfl := Option.some.inj h
    exact hs.allocBuf hfits
  | sbrk increment =>
    obtain rfl := Option.some.inj h
    exact hs.sbrk _

theorem loader_sound {calls : List LoaderCall}
    (hrun : run (loaderStep i) (LoaderMem.init i) calls = some t)
    (hfits : Along (loaderStep i) LoaderFits (LoaderMem.init i) calls) : t.Sound i :=
  run_invariant (fun _ _ _ hs hf h => loaderStep_sound hs hf h) (sound_init i) hfits hrun

/-- The chunks are above the first MiB. -/
theorem LoaderMem.Sound.granted_high (hs : t.Sound i) {c : Chunk} (hc : c ∈ t.ledger.granted) :
    c.range ⊆ Set.Ici maxBuf := by
  obtain ⟨r, hr, hsub⟩ := hs.tight.inside c hc
  exact fun a ha => (hs.high r hr).trans (Set.mem_Ico.mp (hsub ha)).1

/-- The memory of the loader: its image, the heap and the buffers. -/
def LoaderMem.own (i : Image) (t : LoaderMem) : List (Set ℕ) :=
  Set.Ico i.start i.stop :: t.heapRange i :: t.buffers.map Chunk.range

theorem LoaderMem.Sound.own_apart (hs : t.Sound i) : (t.own i).Pairwise Disjoint := by
  have hbuffers : ∀ s ∈ t.buffers.map Chunk.range, s ⊆ Set.Ici i.maxBrk := by
    intro s hs'
    obtain ⟨c, hc, rfl⟩ := List.mem_map.mp hs'
    exact fun a ha => (Set.mem_Ico.mp (hs.buffers c hc ha)).1
  have hbelow : ∀ s' : Set ℕ, s' ⊆ Set.Iio i.maxBrk → ∀ s ∈ t.buffers.map Chunk.range, Disjoint s' s := by
    intro s' hs' s hmem
    refine Set.disjoint_left.mpr fun a ha hb => ?_
    exact absurd (Set.mem_Ici.mp (hbuffers s hmem hb)) (not_le.mpr (Set.mem_Iio.mp (hs' ha)))
  refine List.pairwise_cons.mpr ⟨List.forall_mem_cons.mpr ⟨?_, hbelow _ fun a ha => ?_⟩,
    List.pairwise_cons.mpr ⟨hbelow _ hs.brk, List.pairwise_map.mpr hs.apart⟩⟩
  · refine Set.disjoint_left.mpr fun a ha hb => ?_
    exact absurd ((Set.mem_Ico.mp ha).2.trans_le i.stop_le_heapStart) (not_lt.mpr (Set.mem_Ico.mp hb).1)
  · exact (Set.mem_Ico.mp ha).2.trans_le i.stop_le_maxBrk

theorem LoaderMem.Sound.own_low (hs : t.Sound i) : ∀ s ∈ t.own i, s ⊆ Set.Iio maxBuf := by
  refine List.forall_mem_cons.mpr ⟨fun a ha => ?_, List.forall_mem_cons.mpr ⟨fun a ha => ?_, fun s hs' => ?_⟩⟩
  · exact (Set.mem_Ico.mp ha).2.trans_le (i.stop_le_maxBrk.trans i.maxBrk_mem.2)
  · exact (Set.mem_Iio.mp (hs.brk ha)).trans_le i.maxBrk_mem.2
  · obtain ⟨c, hc, rfl⟩ := List.mem_map.mp hs'
    exact fun a ha => (Set.mem_Ico.mp (hs.buffers c hc ha)).2.trans_le hs.buf.2

theorem smallImage_start : 0x8000 ≤ 0x8000 ∧ 0x8000 ≤ 0x18000 := by decide

theorem smallImage_stop : 0x2f123 ≤ 0xf0000 := by decide

/-- The image of a loader that is linked at `0x8000`. -/
def smallImage : Image := ⟨0x8000, 0x2f123, 0xf0000, rfl, smallImage_start, smallImage_stop⟩

/-- Memory is reported, the heap is grown, the cache gets its buffer, a kernel its chunk, and the heap is cut
back by a page. -/
def smallCalls : List LoaderCall :=
  [.memCb 0 0x10000000, .sbrk 0x10000, .allocBuf 0x4100, .getChunk 0x100000 0x2000, .sbrk 0xfffff000]

end RpiBoot
