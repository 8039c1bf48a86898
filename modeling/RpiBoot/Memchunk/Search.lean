import Mathlib.Order.Bounds.Basic
import RpiBoot.Memchunk.Grants

/-!
# When the page search finds the first page

`chunk_get_any_chunk` tests the pages from address `0` on. `0` is also what it returns when it finds
nothing, and the test address wraps behind the last page of the address space.

* `PageFits`: the nonzero pages that can be granted.
* `Finds`: what the search is for.
* `chunkSearch_stuck`: without a page that fits, and with the bound in the last page, it never ends.
* **`pageSearch_finds_iff`**: in a reachable state the search ends with what it is for just when page
  `0` is not granted and the search does not wrap.
-/

namespace RpiBoot

open Runs

/-- A nonzero page below `max_free` that can be allocated. -/
def PageFits (s : Chunks) (length a : ℕ) : Prop :=
  a ≠ 0 ∧ 0x1000 ∣ a ∧ a < s.maxFree ∧ chunkCanAllocate s a length = true

/-- The result of a search: the least page that fits, with that chunk added to the used list, or `0`
and an unchanged allocator when no page fits. -/
def Finds (s : Chunks) (length : ℕ) (r : ℕ × Chunks) : Prop :=
  (IsLeast {a | PageFits s length a} r.1 ∧ r.2 = s.use r.1 length) ∨
    ((∀ a, ¬ PageFits s length a) ∧ r = (0, s))

/-- Page `0` is tested and can be allocated. -/
def ZeroFits (s : Chunks) (length : ℕ) : Prop := 0 < s.maxFree ∧ chunkCanAllocate s 0 length = true

section Search

variable {s : Chunks} {length : ℕ}

theorem firstFit_of_least (hz : ¬ ZeroFits s length) {a : ℕ}
    (ha : IsLeast {a | PageFits s length a} a) : FirstFit s length a := by
  obtain ⟨hne, hd, hlt, hcan⟩ := ha.1
  refine ⟨hd, hlt, hcan, fun b hb hbd => ?_⟩
  rw [← Bool.not_eq_true]
  intro hcb
  rcases Nat.eq_zero_or_pos b with rfl | hpos
  · exact hz ⟨by omega, hcb⟩
  · have := ha.2 (show PageFits s length b from ⟨by omega, hbd, by omega, hcb⟩)
    omega

theorem exists_least {a : ℕ} (h : PageFits s length a) : ∃ a, IsLeast {a | PageFits s length a} a := by
  classical
  have hex : ∃ a, PageFits s length a := ⟨a, h⟩
  exact ⟨Nat.find hex, Nat.find_spec hex, fun b hb => Nat.find_min' hex hb⟩

/-- With more iterations the search gives the same result. -/
theorem chunkSearch_more {r : ℕ × Chunks} : ∀ fuel k a, chunkSearch s length fuel a = some r →
    chunkSearch s length (fuel + k) a = some r := by
  intro fuel
  induction fuel with
  | zero => intro k a h; cases h
  | succ fuel ih =>
    intro k a h
    rw [Nat.succ_add]
    rw [chunkSearch] at h ⊢
    split_ifs at h ⊢
    · exact h
    · exact ih k _ h
    · exact h

theorem chunkSearch_unique {f f' : ℕ} {a : ℕ} {r r' : ℕ × Chunks}
    (h : chunkSearch s length f a = some r) (h' : chunkSearch s length f' a = some r') : r = r' := by
  have hf := chunkSearch_more f f' a h
  have hf' := chunkSearch_more f' f a h'
  rw [Nat.add_comm, hf] at hf'
  exact Option.some.inj hf'

/-- When page `0` is granted, the search has ended with it. -/
theorem chunkSearch_zero (hz : ZeroFits s length) : chunkSearch s length 1 0 = some (0, s.use 0 length) := by
  rw [chunkSearch, if_pos hz.1, if_pos hz.2]

theorem use_ne (a : ℕ) : s.use a length ≠ s := by
  intro h
  have := congrArg (fun t => t.used.length) h
  simp [Chunks.use] at this

/-- **An endless search.** When no page fits and `max_free` lies in the last page, the test address
wraps and every round fails again. -/
theorem chunkSearch_stuck (hno : ∀ a, 0x1000 ∣ a → a < s.maxFree → chunkCanAllocate s a length = false)
    (hm : 0xfffff000 < s.maxFree) : ∀ fuel k, 0x1000 * k < 2 ^ 32 →
      chunkSearch s length fuel (0x1000 * k) = none := by
  intro fuel
  induction fuel with
  | zero => intro k _; rfl
  | succ fuel ih =>
    intro k hk
    have hlt : 0x1000 * k < s.maxFree := by omega
    rw [chunkSearch, if_pos hlt, hno _ ⟨k, rfl⟩ hlt, if_neg (by simp)]
    rcases Nat.lt_or_ge (0x1000 * (k + 1)) (2 ^ 32) with h | h
    · rw [u32_of_lt (by omega), show 0x1000 * k + 0x1000 = 0x1000 * (k + 1) by ring]
      exact ih (k + 1) h
    · -- the last page: the sum is `2 ^ 32`
      rw [show 0x1000 * k + 0x1000 = 2 ^ 32 by omega]
      exact ih 0 (by norm_num)

/-- When no page fits and `max_free` is not in the last page, the search stops at it. -/
theorem chunkSearch_stops (hno : ∀ a, 0x1000 ∣ a → a < s.maxFree → chunkCanAllocate s a length = false)
    (hm : s.maxFree ≤ 0xfffff000) : ∀ fuel k, k + fuel = 2 ^ 20 → k < 2 ^ 20 →
      chunkSearch s length fuel (0x1000 * k) = some (0, s) := by
  intro fuel
  induction fuel with
  | zero => intro k hk hlt; omega
  | succ fuel ih =>
    intro k hk hlt
    rw [chunkSearch]
    split_ifs with h hcan
    · rw [hno _ ⟨k, rfl⟩ h] at hcan
      cases hcan
    · rw [u32_of_lt (by omega), show 0x1000 * k + 0x1000 = 0x1000 * (k + 1) by ring]
      exact ih (k + 1) (by omega) (by omega)
    · rfl

/-- Where page `0` is not granted, a search without a fitting page tests pages that do not fit. -/
theorem not_canAllocate (hz : ¬ ZeroFits s length) (hno : ∀ a, ¬ PageFits s length a) :
    ∀ a, 0x1000 ∣ a → a < s.maxFree → chunkCanAllocate s a length = false := by
  intro a hd hlt
  rw [← Bool.not_eq_true]
  intro hcan
  rcases Nat.eq_zero_or_pos a with rfl | hpos
  · exact hz ⟨hlt, hcan⟩
  · exact hno a ⟨by omega, hd, hlt, hcan⟩

/-- **When the search finds the first page.** -/
theorem finds_iff (hm : s.maxFree < 2 ^ 32) :
    (∃ fuel r, chunkSearch s length fuel 0 = some r ∧ Finds s length r) ↔
      ¬ ZeroFits s length ∧ ((∃ a, PageFits s length a) ∨ s.maxFree ≤ 0xfffff000) := by
  constructor
  · rintro ⟨fuel, r, hr, hfinds⟩
    have hz : ¬ ZeroFits s length := by
      intro hz
      -- the search has granted page `0`, which is neither of the two results
      obtain rfl := chunkSearch_unique hr (chunkSearch_zero hz)
      rcases hfinds with ⟨hleast, -⟩ | ⟨-, heq⟩
      · exact hleast.1.1 rfl
      · exact use_ne 0 (congrArg Prod.snd heq)
    refine ⟨hz, ?_⟩
    by_contra hc
    push Not at hc
    have hstuck := chunkSearch_stuck (not_canAllocate hz hc.1) hc.2 fuel 0 (by norm_num)
    rw [Nat.mul_zero, hr] at hstuck
    cases hstuck
  · rintro ⟨hz, hfit⟩
    by_cases hex : ∃ a, PageFits s length a
    · obtain ⟨a, ha⟩ := exists_least hex.choose_spec
      exact ⟨2 ^ 20, _, chunkGetAnyChunk_eq hm (firstFit_of_least hz ha), Or.inl ⟨ha, rfl⟩⟩
    · have hno : ∀ a, ¬ PageFits s length a := fun a ha => hex ⟨a, ha⟩
      have hstop := chunkSearch_stops (not_canAllocate hz hno) (hfit.resolve_left hex) (2 ^ 20) 0
        (by norm_num) (by norm_num)
      exact ⟨2 ^ 20, _, hstop, Or.inr ⟨hno, rfl⟩⟩

end Search

/-! ## In every reachable state -/

theorem maxFree_run {calls : List ChunkCall} {t : Ledger}
    (hr : run chunkStep Ledger.init calls = some t) : t.chunks.maxFree < 2 ^ 32 :=
  run_invariant' (I := fun t => t.chunks.maxFree < 2 ^ 32) (fun _ _ _ => maxFree_step) (by decide) hr

/-- **The page search in a reachable state** ends with the first page that fits, or with `0` and nothing
changed when there is none, if and only if page `0` cannot be allocated and the search does not
wrap: some page fits, or `max_free` is not in the last page. -/
theorem pageSearch_finds_iff (calls : List ChunkCall) (t : Ledger) (length : UInt32)
    (hr : run chunkStep Ledger.init calls = some t) :
    (∃ fuel r, chunkSearch t.chunks length.toNat fuel 0 = some r ∧ Finds t.chunks length.toNat r) ↔
      ¬ ZeroFits t.chunks length.toNat ∧
        ((∃ a, PageFits t.chunks length.toNat a) ∨ t.chunks.maxFree ≤ 0xfffff000) :=
  finds_iff (maxFree_run hr)

/-- Two pages at `0x1000` are registered and one is asked for. -/
theorem pageSearch_finds_pages :
    run chunkStep Ledger.init [.registerFree 0x1000 0x2000] =
        some ⟨⟨[⟨0x1000, 0x2000⟩], [], 0x3000⟩, []⟩ ∧
      ∃ fuel r, chunkSearch ⟨[⟨0x1000, 0x2000⟩], [], 0x3000⟩ 0x1000 fuel 0 = some r ∧
        Finds ⟨[⟨0x1000, 0x2000⟩], [], 0x3000⟩ 0x1000 r := by
  have hrun : run chunkStep Ledger.init [.registerFree 0x1000 0x2000] =
      some ⟨⟨[⟨0x1000, 0x2000⟩], [], 0x3000⟩, []⟩ := by decide
  refine ⟨hrun, (pageSearch_finds_iff _ _ 0x1000 hrun).mpr ⟨?_, Or.inr (by decide)⟩⟩
  simp [ZeroFits, chunkCanAllocate, chunkContains]

/-- Registering `[0, 0x2000)`. -/
def lowCalls : List ChunkCall := [.registerFree 0 0x2000]

/-- Registering `[0xfffff000, 0xffffffff)` and taking its first half. -/
def topCalls : List ChunkCall := [.registerFree 0xfffff000 0xfff, .getChunk 0xfffff000 0x800]

/-- Behind `lowCalls` a search for one page takes page `0` and returns `0`; behind `topCalls` a search
for half a page never ends. -/
theorem pageSearch_misses :
    (¬ ∀ calls t (length : UInt32), run chunkStep Ledger.init calls = some t →
      ∃ fuel r, chunkSearch t.chunks length.toNat fuel 0 = some r ∧ Finds t.chunks length.toNat r) ∧
    ∃ t, run chunkStep Ledger.init topCalls = some t ∧
      ∀ fuel, chunkSearch t.chunks 0x800 fuel 0 = none := by
  constructor
  · intro h
    have hlow := h lowCalls ⟨⟨[⟨0, 0x2000⟩], [], 0x2000⟩, []⟩ 0x1000 (by decide)
    have hz := ((finds_iff (by decide)).mp hlow).1
    apply hz
    simp [ZeroFits, chunkCanAllocate, chunkContains, chunkOverlaps, u32]
  · refine ⟨⟨⟨[⟨0xfffff000, 0xfff⟩], [⟨0xfffff000, 0x800⟩], 0xffffffff⟩, [⟨0xfffff000, 0x800⟩]⟩,
      by decide, fun fuel => ?_⟩
    apply chunkSearch_stuck ?_
      (by decide) fuel 0 (by norm_num)
    rintro a ⟨j, rfl⟩ hlt
    rw [← Bool.not_eq_true, chunkCanAllocate_iff, chunkContains_iff, ← Bool.not_eq_true, chunkOverlaps_iff]
    rintro ⟨⟨c, hc, hle, -⟩, hov⟩
    obtain rfl := List.mem_singleton.mp hc
    apply hov
    -- only the last page is inside the region, and its first half is taken
    obtain rfl : j = 0xfffff := by simp at hle hlt; omega
    exact ⟨_, List.mem_singleton_self _, by decide, by decide⟩

end RpiBoot
