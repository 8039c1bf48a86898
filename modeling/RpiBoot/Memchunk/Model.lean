import Mathlib.Order.CompletePartialOrder
import Mathlib.Order.Interval.Set.Disjoint
import RpiBoot.Word

/-!
# The chunk allocator (`memchunk.c`)

The allocator keeps a list of registered free regions and a list of used chunks; both only grow.
All interval tests are made on `uint32_t` sums.

* `chunkRegisterFree`, `chunkGetChunk`, `chunkGetAnyChunk`: the entry points.
* `chunkContains_iff`, `chunkOverlaps_iff`: the two list walks as quantifiers.
* `Chunk.range`: the addresses of a chunk, as an interval of naturals.
* **`chunkGetAnyChunk_eq`**, **`chunkGetAnyChunk_spec`**: the page search grants the first page that
  fits.
-/

namespace RpiBoot

/-- `struct chunk`, without its link. -/
structure Chunk where
  start : ℕ
  length : ℕ
deriving DecidableEq, Repr

/-- The globals of the allocator. -/
structure Chunks where
  freeList : List Chunk
  used : List Chunk
  maxFree : ℕ
deriving DecidableEq, Repr

/-- The allocator before any region is registered. -/
def Chunks.init : Chunks := ⟨[], [], 0⟩

/-- Return `true` if the chunk overlaps an entry in a list. -/
def chunkOverlaps (start length : ℕ) : List Chunk → Bool
  | [] => false
  | c :: list =>
    let lStart := c.start
    let lEnd := u32 (lStart + c.length)
    let stop := u32 (start + length)
    if start < lEnd ∧ stop > lStart then true else chunkOverlaps start length list

/-- Return `true` if the chunk is wholly contained within an entry in the list. -/
def chunkContains (start length : ℕ) : List Chunk → Bool
  | [] => false
  | c :: list =>
    let lStart := c.start
    let lEnd := u32 (lStart + c.length)
    let stop := u32 (start + length)
    if start ≥ lStart ∧ stop ≤ lEnd then true else chunkContains start length list

/-- Return `true` if the chunk can be allocated. -/
def chunkCanAllocate (s : Chunks) (start length : ℕ) : Bool :=
  if !chunkContains start length s.freeList then false
  else if chunkOverlaps start length s.used then false
  else true

/-- `chunk_add` on the used list. -/
def Chunks.use (s : Chunks) (start length : ℕ) : Chunks :=
  { s with used := ⟨start, length⟩ :: s.used }

def chunkRegisterFree (s : Chunks) (start length : ℕ) : Chunks :=
  { s with
    freeList := ⟨start, length⟩ :: s.freeList
    maxFree := if u32 (start + length) > s.maxFree then u32 (start + length) else s.maxFree }

/-- The search loop of `chunk_get_any_chunk`; `none` when the iterations run out. -/
def chunkSearch (s : Chunks) (length : ℕ) : ℕ → ℕ → Option (ℕ × Chunks)
  | 0, _ => none
  | fuel + 1, testAddress =>
    if testAddress < s.maxFree then
      if chunkCanAllocate s testAddress length then
        some (testAddress, s.use testAddress length)
      else chunkSearch s length fuel (u32 (testAddress + 0x1000))
    else some (0, s)

/-- Find a page-aligned chunk. After `2 ^ 20` pages the test address is back at `0` with nothing
changed, so a search that has not ended by then (`none`) never ends. -/
def chunkGetAnyChunk (s : Chunks) (length : ℕ) : Option (ℕ × Chunks) :=
  chunkSearch s length (2 ^ 20) 0

/-- Take the given chunk; `0` when it is refused. -/
def chunkGetChunk (s : Chunks) (start length : ℕ) : ℕ × Chunks :=
  if chunkCanAllocate s start length then (start, s.use start length) else (0, s)

/-! ## The interval tests -/

theorem chunkOverlaps_iff {start length : ℕ} {list : List Chunk} :
    chunkOverlaps start length list = true ↔
      ∃ c ∈ list, start < u32 (c.start + c.length) ∧ c.start < u32 (start + length) := by
  induction list with
  | nil => simp [chunkOverlaps]
  | cons c list ih =>
    rw [chunkOverlaps]
    split_ifs with h
    · simpa using Or.inl h
    · simp only [ih, List.mem_cons, exists_eq_or_imp]
      exact (or_iff_right h).symm

theorem chunkContains_iff {start length : ℕ} {list : List Chunk} :
    chunkContains start length list = true ↔
      ∃ c ∈ list, c.start ≤ start ∧ u32 (start + length) ≤ u32 (c.start + c.length) := by
  induction list with
  | nil => simp [chunkContains]
  | cons c list ih =>
    rw [chunkContains]
    split_ifs with h
    · simpa using Or.inl h
    · simp only [ih, List.mem_cons, exists_eq_or_imp]
      exact (or_iff_right h).symm

theorem chunkCanAllocate_iff {s : Chunks} {start length : ℕ} :
    chunkCanAllocate s start length = true ↔
      chunkContains start length s.freeList = true ∧ chunkOverlaps start length s.used = false := by
  unfold chunkCanAllocate
  cases chunkContains start length s.freeList <;> cases chunkOverlaps start length s.used <;> simp

/-- The addresses of a chunk. -/
def Chunk.range (c : Chunk) : Set ℕ := Set.Ico c.start (c.start + c.length)

/-- A chunk that ends below `2 ^ 32` and passes the containment test lies inside a region, even
when that region wraps. -/
theorem subset_of_contains {start length : ℕ} {list : List Chunk} (hw : start + length < 2 ^ 32)
    (h : chunkContains start length list = true) :
    ∃ r ∈ list, (Chunk.mk start length).range ⊆ r.range := by
  obtain ⟨r, hr, h₁, h₂⟩ := chunkContains_iff.mp h
  refine ⟨r, hr, Set.Ico_subset_Ico h₁ ?_⟩
  rw [u32_of_lt hw] at h₂
  exact h₂.trans (Nat.mod_le _ _)

/-- Among chunks that end below `2 ^ 32` the overlap test is exact. -/
theorem disjoint_of_not_overlaps {start length : ℕ} {list : List Chunk}
    (hw : start + length < 2 ^ 32) (h : chunkOverlaps start length list = false) :
    ∀ c ∈ list, c.start + c.length < 2 ^ 32 → Disjoint (Chunk.mk start length).range c.range := by
  intro c hc hcw
  rw [Chunk.range, Chunk.range, Set.Ico_disjoint_Ico]
  have hno : ¬ (start < u32 (c.start + c.length) ∧ c.start < u32 (start + length)) := fun ho =>
    Bool.eq_false_iff.mp h (chunkOverlaps_iff.mpr ⟨c, hc, ho⟩)
  rw [u32_of_lt hw, u32_of_lt hcw] at hno
  simp only [inf_le_iff, le_sup_iff]
  omega

/-! ## The page search -/

/-- `a` is the first page below `max_free` that the search can grant. -/
def FirstFit (s : Chunks) (length a : ℕ) : Prop :=
  0x1000 ∣ a ∧ a < s.maxFree ∧ chunkCanAllocate s a length = true ∧
    ∀ b < a, 0x1000 ∣ b → chunkCanAllocate s b length = false

theorem chunkSearch_eq {s : Chunks} {length a : ℕ} (ha : FirstFit s length a) (hm : s.maxFree < 2 ^ 32) :
    ∀ fuel k, k + fuel = 2 ^ 20 → 0x1000 * k ≤ a →
      chunkSearch s length fuel (0x1000 * k) = some (a, s.use a length) := by
  obtain ⟨⟨j, rfl⟩, hlt, hcan, hfirst⟩ := ha
  intro fuel
  induction fuel with
  | zero => intro k hk hle; omega
  | succ fuel ih =>
    intro k hk hle
    rw [chunkSearch, if_pos (by omega)]
    rcases Nat.lt_or_ge (0x1000 * k) (0x1000 * j) with h | h
    · rw [hfirst _ h ⟨k, rfl⟩, if_neg (by simp), u32_of_lt (by omega),
        show 0x1000 * k + 0x1000 = 0x1000 * (k + 1) by ring]
      exact ih (k + 1) (by omega) (by omega)
    · rw [show 0x1000 * k = 0x1000 * j by omega, hcan, if_pos rfl]

/-- **The search grants the first page that fits.** -/
theorem chunkGetAnyChunk_eq {s : Chunks} {length a : ℕ} (hm : s.maxFree < 2 ^ 32)
    (ha : FirstFit s length a) : chunkGetAnyChunk s length = some (a, s.use a length) :=
  chunkSearch_eq ha hm (2 ^ 20) 0 (by norm_num) (Nat.zero_le _)

theorem chunkSearch_spec {s s' : Chunks} {length r : ℕ} :
    ∀ fuel k, k + fuel = 2 ^ 20 → (∀ b < 0x1000 * k, 0x1000 ∣ b → chunkCanAllocate s b length = false) →
      chunkSearch s length fuel (0x1000 * k) = some (r, s') →
      (FirstFit s length r ∧ s' = s.use r length) ∨ (r = 0 ∧ s' = s) := by
  intro fuel
  induction fuel with
  | zero => intro k _ _ h; cases h
  | succ fuel ih =>
    intro k hk hno h
    rw [chunkSearch] at h
    split_ifs at h with hlt hcan
    · cases h
      exact Or.inl ⟨⟨⟨k, rfl⟩, hlt, hcan, hno⟩, rfl⟩
    · rcases Nat.lt_or_ge (k + 1) (2 ^ 20) with hk' | hk'
      · rw [u32_of_lt (by omega), show 0x1000 * k + 0x1000 = 0x1000 * (k + 1) by ring] at h
        refine ih (k + 1) (by omega) (fun b hb hd => ?_) h
        obtain ⟨j, rfl⟩ := hd
        rcases Nat.lt_or_ge j k with hj | hj
        · exact hno _ (by omega) ⟨j, rfl⟩
        · obtain rfl : j = k := by omega
          simpa using hcan
      · obtain rfl : fuel = 0 := by omega
        cases h
    · cases h
      exact Or.inr ⟨rfl, rfl⟩

/-- **What a search that ends has done.** -/
theorem chunkGetAnyChunk_spec {s s' : Chunks} {length r : ℕ}
    (h : chunkGetAnyChunk s length = some (r, s')) :
    (FirstFit s length r ∧ s' = s.use r length) ∨ (r = 0 ∧ s' = s) :=
  chunkSearch_spec (2 ^ 20) 0 (by norm_num) (fun b hb => absurd hb (by omega)) h

end RpiBoot
