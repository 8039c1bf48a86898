import RpiBoot.Cache.Coherent

/-!
# Requests to the cache during which the parent fails

A negative result of the parent passes through a `size_t`. In `cache_read` it is then the length of
the copy into the caller's buffer; in `cache_write` it is the size of what has been written, and
the update loop runs over that many blocks.

* `parentRead`: the parent's answer to a `cache_read`, if it is asked.
* `ReadSafe`, `WriteSafe`: what a failed request should leave.
* `cacheRead_safe_iff`, `cacheWrite_safe_iff`: when it does.
* **`cache_failure_safe`**: both.
-/

namespace RpiBoot

open Store

variable {σ : Type}

/-- The parent's answer to `cache_read`; `none` when the block is in the cache. -/
def parentRead (cd : CacheDev σ) (rd : ReadFn σ) (st : CacheState σ) (buf n b : ℕ) :
    Option (ReadReply × σ) :=
  if cd.parent.blockSize < n then some (rd st.parent buf n b)
  else if st.cachedBlocks (cacheIdx cd b) ≠ b then
    some (rd st.parent (cd.cacheStart + cd.parent.blockSize * cacheIdx cd b) n b)
  else none

/-- A read of `n` bytes has failed and left the device unchanged. -/
structure FailedRead (content : σ → Mem) (s : σ) (n : ℕ) (r : ReadReply × σ) : Prop where
  neg : r.1.ret < 0
  int : -2 ^ 31 ≤ r.1.ret
  data_le : r.1.data.length ≤ n
  unchanged : content r.2 = content s

/-- A write of `n` bytes has failed and left the device unchanged. -/
structure FailedWrite (content : σ → Mem) (s : σ) (n : ℕ) (r : WriteReply × σ) : Prop where
  neg : r.1.ret < 0
  int : -2 ^ 31 ≤ r.1.ret
  reach_le : r.1.reach ≤ n
  unchanged : content r.2 = content s

/-- A failed `cache_read` returns a negative value, stores at most `n` bytes, and leaves the cache
in agreement with the parent. -/
def ReadSafe (cd : CacheDev σ) (content : σ → Mem) (n : ℕ) (out : ReadReply × CacheState σ) : Prop :=
  out.1.ret < 0 ∧ out.1.data.length ≤ n ∧ Agrees cd content out.2

/-- A failed `cache_write` returns a negative value, takes at most `n` bytes, and leaves the cache
in agreement with the parent. -/
def WriteSafe (cd : CacheDev σ) (content : σ → Mem) (n : ℕ) (out : WriteReply × CacheState σ) :
    Prop :=
  out.1.ret < 0 ∧ out.1.reach ≤ n ∧ Agrees cd content out.2

/-- The number of blocks that `cache_write` takes for written when the parent answers `ret`. -/
def countedBlocks (bs : ℕ) (ret : ℤ) : ℕ := (i32 (toU32 ret / bs)).toNat

/-- Of the blocks taken for written, those in the cache lie in the buffer, which holds what the
device holds. -/
def HitsHarmless (cd : CacheDev σ) (content : σ → Mem) (st : CacheState σ) (mem : Mem)
    (buf n b : ℕ) (ret : ℤ) : Prop :=
  ∀ i < countedBlocks cd.parent.blockSize ret,
    st.cachedBlocks (cacheIdx cd (u32 (b + i))) = u32 (b + i) →
      (i + 1) * cd.parent.blockSize ≤ n ∧ (u32 (b + i) < emptySlot →
        slice mem (buf + i * cd.parent.blockSize) cd.parent.blockSize =
          blockOf cd.parent.blockSize (content st.parent) (u32 (b + i)))

variable {cd : CacheDev σ} {content : σ → Mem} {st : CacheState σ}

theorem Agrees.of_parent_eq (hst : Agrees cd content st) {s' : σ}
    (hc : content s' = content st.parent) : Agrees cd content { st with parent := s' } := by
  intro t ht
  rw [hst t ht, hc]

/-! ## `cache_read` -/

/-- **Only a request of more than a block is safe.** -/
theorem cacheRead_safe_iff {rd : ReadFn σ} {buf n b : ℕ} {r : ReadReply × σ}
    (hst : Agrees cd content st) (hr : parentRead cd rd st buf n b = some r)
    (hf : FailedRead content st.parent n r) :
    ReadSafe cd content n (cacheRead cd rd st buf n b) ↔ cd.parent.blockSize < n := by
  have hbs := cd.parent.blockSize_lt
  unfold parentRead at hr
  split_ifs at hr with hlen hmiss
  · obtain rfl := Option.some.inj hr
    rw [cacheRead_of_gt hlen]
    exact ⟨fun _ => hlen, fun _ => ⟨hf.neg, hf.data_le, hst.of_parent_eq hf.unchanged⟩⟩
  · -- the copy is as long as the result is as a `size_t`
    have hlong := toU32_of_neg hf.int hf.neg
    have hint := hf.int
    refine ⟨fun h => ?_, fun h => absurd h hlen⟩
    have hle := h.2.1
    rw [cacheRead_miss (not_lt.mp hlen) hmiss (Option.some.inj hr)] at hle
    simp only [length_slice] at hle
    have hle' : toU32 r.1.ret ≤ n := (le_copyCount _ _ _).trans hle
    omega

/-! ## `cache_write` -/

theorem countedBlocks_le (bs : ℕ) (ret : ℤ) : countedBlocks bs ret ≤ 2 ^ 32 := by
  have := i32_lt (toU32 ret / bs)
  unfold countedBlocks
  omega

theorem cacheWrite_eq {wr : WriteFn σ} {mem : Mem} {buf n b : ℕ} {r : WriteReply × σ}
    (hn : n % cd.parent.blockSize = 0) (hr : wr st.parent mem buf n b = r) :
    cacheWrite cd wr st mem buf n b =
      (⟨i32 (toU32 r.1.ret), max r.1.reach
          (updateReach cd st.cachedBlocks b (countedBlocks cd.parent.blockSize r.1.ret))⟩,
        ⟨st.cachedBlocks, cacheUpdate cd st.cachedBlocks mem buf b
          (countedBlocks cd.parent.blockSize r.1.ret) st.lines, r.2⟩) := by
  rw [cacheWrite, if_neg (not_not.mpr hn), hr]
  rfl

/-- Whether the update loop, run over `k` blocks, leaves the cache in agreement with the parent. -/
theorem agrees_update_iff {mem : Mem} {buf b k : ℕ} {s' : σ} (hk : k ≤ 2 ^ 32)
    (hst : Agrees cd content st) (hc : content s' = content st.parent) :
    Agrees cd content
        ⟨st.cachedBlocks, cacheUpdate cd st.cachedBlocks mem buf b k st.lines, s'⟩ ↔
      ∀ i < k, ValidTag cd st.cachedBlocks (u32 (b + i)) →
        slice mem (buf + i * cd.parent.blockSize) cd.parent.blockSize =
          blockOf cd.parent.blockSize (content st.parent) (u32 (b + i)) := by
  constructor
  · intro h i hi ht
    have := h _ ht
    rwa [line, cacheUpdate_line_of_hit rfl ht.2 k hk hi, hc] at this
  · intro h t (ht : ValidTag cd st.cachedBlocks t)
    by_cases hin : ∃ i < k, u32 (b + i) = t
    · obtain ⟨i, hi, rfl⟩ := hin
      rw [line, cacheUpdate_line_of_hit rfl ht.2 k hk hi, hc]
      exact h i hi ht
    · rw [line, cacheUpdate_line_of_miss k fun i hi he => absurd ⟨i, hi, he.symm.trans ht.2⟩ hin,
        ← line, hst t ht, hc]

/-- **A failed write is safe when the blocks taken for written are out of the cache**, or hold what
the device holds. -/
theorem cacheWrite_safe_iff {wr : WriteFn σ} {mem : Mem} {buf n b : ℕ}
    (hst : Agrees cd content st) (hn : n % cd.parent.blockSize = 0)
    (hf : FailedWrite content st.parent n (wr st.parent mem buf n b)) :
    WriteSafe cd content n (cacheWrite cd wr st mem buf n b) ↔
      HitsHarmless cd content st mem buf n b (wr st.parent mem buf n b).1.ret := by
  have hint := hf.int
  have hneg := hf.neg
  rw [cacheWrite_eq hn rfl, WriteSafe, agrees_update_iff (countedBlocks_le _ _) hst hf.unchanged]
  simp only [max_le_iff, updateReach_le_iff, i32_toU32 hint (by omega)]
  constructor
  · rintro ⟨-, ⟨-, hreach⟩, hagree⟩ i hi ht
    exact ⟨hreach i hi ht, fun hlt => hagree i hi ⟨hlt, ht⟩⟩
  · intro h
    exact ⟨hneg, ⟨hf.reach_le, fun i hi ht => (h i hi ht).1⟩,
      fun i hi ht => (h i hi ht.2).2 ht.1⟩

/-- **When a request survives a failure of the parent.** A `cache_read` does when it is for more than
a block; a `cache_write` does when no cached block among those taken for written is stale. -/
theorem cache_failure_safe (cd : CacheDev σ) (content : σ → Mem) (st : CacheState σ)
    (hst : Agrees cd content st) :
    (∀ rd buf n b r, parentRead cd rd st buf n b = some r → FailedRead content st.parent n r →
      (ReadSafe cd content n (cacheRead cd rd st buf n b) ↔ cd.parent.blockSize < n)) ∧
    (∀ wr mem buf n b, n % cd.parent.blockSize = 0 →
      FailedWrite content st.parent n (wr st.parent mem buf n b) →
      (WriteSafe cd content n (cacheWrite cd wr st mem buf n b) ↔
        HitsHarmless cd content st mem buf n b (wr st.parent mem buf n b).1.ret)) :=
  ⟨fun _ _ _ _ _ hr hf => cacheRead_safe_iff hst hr hf,
    fun _ _ _ _ _ hn hf => cacheWrite_safe_iff hst hn hf⟩

/-- A parent whose requests all fail, behind a cache of two empty lines. -/
def deadCache : CacheDev Unit where
  parent := ⟨512, 8, false, false, some fun s _ _ _ => (⟨-1, []⟩, s),
    some fun s _ _ _ _ => (⟨-1, 0⟩, s), sector_pos, sector_lt⟩
  cacheStart := 0x2000000
  cacheEntries := 2
  cacheMask := 1
  entries_eq := ⟨1, by decide, rfl⟩
  mask_eq := rfl

theorem agrees_of_empty (cd : CacheDev σ) (content : σ → Mem) (lines : Mem) (s : σ) :
    Agrees cd content ⟨fun _ => emptySlot, lines, s⟩ :=
  fun _ ht => absurd ht.2 (Nat.ne_of_gt ht.1)

/-- A read of block `0` through `deadCache` is not safe; a write of it is. -/
theorem cache_failure_safe_deadCache :
    (ReadSafe deadCache (fun _ _ => 0) 512 (cacheRead deadCache (fun s _ _ _ => (⟨-1, []⟩, s))
      ⟨fun _ => emptySlot, fun _ => 0, ()⟩ 0x8000 512 0) ↔ 512 < 512) ∧
    (WriteSafe deadCache (fun _ _ => 0) 512 (cacheWrite deadCache (fun s _ _ _ _ => (⟨-1, 0⟩, s))
      ⟨fun _ => emptySlot, fun _ => 0, ()⟩ (fun _ => 7) 0x8000 512 0) ↔
      HitsHarmless deadCache (fun _ _ => 0) ⟨fun _ => emptySlot, fun _ => 0, ()⟩ (fun _ => 7)
        0x8000 512 0 (-1)) := by
  have h := cache_failure_safe deadCache (fun _ _ => 0) ⟨fun _ => emptySlot, fun _ => 0, ()⟩
    (agrees_of_empty _ _ _ _)
  exact ⟨h.1 _ 0x8000 512 0 _ rfl ⟨by decide, by decide, by decide, rfl⟩,
    h.2 _ _ 0x8000 512 0 rfl ⟨by decide, by decide, by decide, rfl⟩⟩

/-- A failed read of one block overruns the caller's buffer. -/
theorem cache_failure_unsafe :
    ¬ ∀ (σ : Type) (cd : CacheDev σ) (content : σ → Mem) (st : CacheState σ), Agrees cd content st →
      (∀ rd buf n b r, parentRead cd rd st buf n b = some r → FailedRead content st.parent n r →
        ReadSafe cd content n (cacheRead cd rd st buf n b)) ∧
      (∀ wr mem buf n b, n % cd.parent.blockSize = 0 →
        FailedWrite content st.parent n (wr st.parent mem buf n b) →
        WriteSafe cd content n (cacheWrite cd wr st mem buf n b)) := by
  intro h
  have hst := agrees_of_empty deadCache (fun _ _ => 0) (fun _ => 0) ()
  have hr := (h Unit deadCache _ _ hst).1 (fun s _ _ _ => (⟨-1, []⟩, s)) 0x8000 512 0 _ rfl
    ⟨by decide, by decide, by decide, rfl⟩
  exact absurd ((cacheRead_safe_iff hst rfl ⟨by decide, by decide, by decide, rfl⟩).mp hr)
    (lt_irrefl 512)

end RpiBoot
