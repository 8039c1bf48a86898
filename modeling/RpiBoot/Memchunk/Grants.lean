import RpiBoot.Lib.Run
import RpiBoot.Memchunk.Model

/-!
# What the allocator grants

Runs of `chunk_register_free`, `chunk_get_chunk` and `chunk_get_any_chunk` with arbitrary 32-bit
arguments, recording the chunks that were reported as granted.

* `Ledger.Sound`: every granted chunk lies inside one registered region, and no two overlap.
* `FitsRequest`: the request, if it is granted, ends below `2 ^ 32`.
* `Tight`: the invariant of the runs whose steps all meet `FitsRequest`.
* **`grants_sound`**: those runs are sound; where the registered regions end below `2 ^ 32`, no
  other run is.
-/

namespace RpiBoot

open Runs

/-- A call of the allocator, with 32-bit arguments. -/
inductive ChunkCall
  | registerFree (start length : UInt32)
  | getChunk (start length : UInt32)
  | getAnyChunk (length : UInt32)

/-- The length that a call is about is positive. -/
def ChunkCall.LengthPos : ChunkCall → Prop
  | .registerFree _ n | .getChunk _ n | .getAnyChunk n => 0 < n.toNat

/-- The allocator and the chunks it has reported as granted. -/
structure Ledger where
  chunks : Chunks
  granted : List Chunk
deriving DecidableEq

/-- Before any call. -/
def Ledger.init : Ledger := ⟨Chunks.init, []⟩

/-- Record the result of a get call: a nonzero result reports the chunk as granted. -/
def Ledger.record (t : Ledger) (length : ℕ) (r : ℕ × Chunks) : Ledger :=
  ⟨r.2, if r.1 ≠ 0 then ⟨r.1, length⟩ :: t.granted else t.granted⟩

/-- One call; undefined when the page search does not end. -/
def chunkStep (t : Ledger) : ChunkCall → Option Ledger
  | .registerFree a n => some { t with chunks := chunkRegisterFree t.chunks a.toNat n.toNat }
  | .getChunk a n => some (t.record n.toNat (chunkGetChunk t.chunks a.toNat n.toNat))
  | .getAnyChunk n => (chunkGetAnyChunk t.chunks n.toNat).map (t.record n.toNat)

/-- Every granted chunk lies inside a registered region, and any two granted chunks are disjoint. -/
def Ledger.Sound (t : Ledger) : Prop :=
  (∀ c ∈ t.granted, ∃ r ∈ t.chunks.freeList, c.range ⊆ r.range) ∧
    t.granted.Pairwise fun c c' => Disjoint c.range c'.range

/-- The chunk that a get call takes from the allocator, if any. -/
def Takes (s : Chunks) : ChunkCall → ℕ → ℕ → Prop
  | .registerFree _ _, _, _ => False
  | .getChunk a n, start, length =>
    start = a.toNat ∧ length = n.toNat ∧ chunkCanAllocate s start length = true
  | .getAnyChunk n, start, length => length = n.toNat ∧ FirstFit s length start

/-- A chunk taken by the call ends below `2 ^ 32`. -/
def FitsRequest (t : Ledger) (o : ChunkCall) : Prop :=
  ∀ start length, Takes t.chunks o start length → start + length < 2 ^ 32

/-- A region registered by the call ends below `2 ^ 32`. -/
def FitsRegion : ChunkCall → Prop
  | .registerFree a n => a.toNat + n.toNat < 2 ^ 32
  | _ => True

/-! ## One call -/

theorem Takes.canAllocate {s : Chunks} {o : ChunkCall} {start length : ℕ}
    (h : Takes s o start length) : chunkCanAllocate s start length = true := by
  cases o with
  | registerFree => exact h.elim
  | getChunk => exact h.2.2
  | getAnyChunk => exact h.2.2.2.1

/-- **What one call does**: it registers a region, takes a chunk, or changes nothing. -/
theorem chunkStep_cases {t t' : Ledger} {o : ChunkCall} (h : chunkStep t o = some t') :
    (∃ a n, o = .registerFree a n ∧
      t' = { t with chunks := chunkRegisterFree t.chunks a.toNat n.toNat }) ∨
    (∃ start length, Takes t.chunks o start length ∧
      t' = t.record length (start, t.chunks.use start length)) ∨ t' = t := by
  cases o with
  | registerFree a n => cases h; exact Or.inl ⟨a, n, rfl, rfl⟩
  | getChunk a n =>
    cases h
    unfold chunkGetChunk
    split_ifs with hc
    · exact Or.inr (Or.inl ⟨_, _, ⟨rfl, rfl, hc⟩, rfl⟩)
    · exact Or.inr (Or.inr (by simp [Ledger.record]))
  | getAnyChunk n =>
    obtain ⟨⟨r, s⟩, hr, rfl⟩ := Option.map_eq_some_iff.mp h
    rcases chunkGetAnyChunk_spec hr with ⟨hf, rfl⟩ | ⟨rfl, rfl⟩
    · exact Or.inr (Or.inl ⟨_, _, ⟨rfl, hf⟩, rfl⟩)
    · exact Or.inr (Or.inr (by simp [Ledger.record]))

/-- A chunk that can be taken is taken. -/
theorem chunkStep_takes {t : Ledger} {o : ChunkCall} {start length : ℕ}
    (hm : t.chunks.maxFree < 2 ^ 32) (h : Takes t.chunks o start length) :
    chunkStep t o = some (t.record length (start, t.chunks.use start length)) := by
  cases o with
  | registerFree => exact h.elim
  | getChunk a n =>
    obtain ⟨rfl, rfl, hc⟩ := h
    rw [chunkStep, chunkGetChunk, if_pos hc]
  | getAnyChunk n =>
    obtain ⟨rfl, hf⟩ := h
    rw [chunkStep, chunkGetAnyChunk_eq hm hf, Option.map_some]

theorem maxFree_register {s : Chunks} (hm : s.maxFree < 2 ^ 32) (a n : ℕ) :
    (chunkRegisterFree s a n).maxFree < 2 ^ 32 := by
  unfold chunkRegisterFree
  dsimp only
  split_ifs
  · exact u32_lt _
  · exact hm

theorem maxFree_step {t t' : Ledger} {o : ChunkCall} (hm : t.chunks.maxFree < 2 ^ 32)
    (h : chunkStep t o = some t') : t'.chunks.maxFree < 2 ^ 32 := by
  rcases chunkStep_cases h with ⟨a, n, -, rfl⟩ | ⟨a, n, -, rfl⟩ | rfl
  · exact maxFree_register hm _ _
  · exact hm
  · exact hm

theorem granted_subset_step {t t' : Ledger} {o : ChunkCall} (h : chunkStep t o = some t') :
    t.granted ⊆ t'.granted := by
  rcases chunkStep_cases h with ⟨a, n, -, rfl⟩ | ⟨a, n, -, rfl⟩ | rfl
  · exact List.Subset.refl _
  · unfold Ledger.record
    dsimp only
    split_ifs
    · exact List.subset_cons_self _ _
    · exact List.Subset.refl _
  · exact List.Subset.refl _

/-! ## Runs whose requests fit -/

/-- The invariant of the runs whose granted requests all end below `2 ^ 32`. -/
structure Ledger.Tight (t : Ledger) : Prop where
  used_fits : ∀ c ∈ t.chunks.used, c.start + c.length < 2 ^ 32
  granted_used : t.granted ⊆ t.chunks.used
  inside : ∀ c ∈ t.granted, ∃ r ∈ t.chunks.freeList, c.range ⊆ r.range
  disjoint : t.granted.Pairwise fun c c' => Disjoint c.range c'.range

theorem tight_init : Ledger.init.Tight := by
  constructor <;> simp [Ledger.init, Chunks.init]

/-- Taking a chunk that ends below `2 ^ 32` keeps the invariant. -/
theorem Ledger.Tight.take {t : Ledger} (ht : t.Tight) {start length : ℕ}
    (hc : chunkCanAllocate t.chunks start length = true) (hw : start + length < 2 ^ 32) :
    (t.record length (start, t.chunks.use start length)).Tight := by
  obtain ⟨hin, hov⟩ := chunkCanAllocate_iff.mp hc
  have hused : ∀ c ∈ (t.chunks.use start length).used, c.start + c.length < 2 ^ 32 := by
    intro c hm
    rcases List.mem_cons.mp hm with rfl | hm
    · exact hw
    · exact ht.used_fits c hm
  have hdis : ∀ c ∈ t.granted, Disjoint (Chunk.mk start length).range c.range := fun c hm =>
    disjoint_of_not_overlaps hw hov c (ht.granted_used hm) (ht.used_fits c (ht.granted_used hm))
  unfold Ledger.record
  by_cases hz : start ≠ 0
  · rw [if_pos hz]
    refine ⟨hused, List.cons_subset_cons _ ht.granted_used, fun c hm => ?_,
      List.pairwise_cons.mpr ⟨hdis, ht.disjoint⟩⟩
    rcases List.mem_cons.mp hm with rfl | hm
    · exact subset_of_contains hw hin
    · exact ht.inside c hm
  · rw [if_neg hz]
    exact ⟨hused, fun c hm => List.mem_cons_of_mem _ (ht.granted_used hm), ht.inside, ht.disjoint⟩

/-- Every call that meets `FitsRequest` keeps the invariant. -/
theorem tight_step {t t' : Ledger} {o : ChunkCall} (ht : t.Tight) (hf : FitsRequest t o)
    (h : chunkStep t o = some t') : t'.Tight := by
  rcases chunkStep_cases h with ⟨a, n, -, rfl⟩ | ⟨a, n, htk, rfl⟩ | rfl
  · refine ⟨ht.used_fits, ht.granted_used, fun c hm => ?_, ht.disjoint⟩
    obtain ⟨r, hr, hs⟩ := ht.inside c hm
    exact ⟨r, List.mem_cons_of_mem _ hr, hs⟩
  · exact ht.take htk.canAllocate (hf _ _ htk)
  · exact ht

theorem tight_run {calls : List ChunkCall} {t : Ledger}
    (ha : Along chunkStep FitsRequest Ledger.init calls)
    (hr : run chunkStep Ledger.init calls = some t) : t.Tight :=
  run_invariant (fun _ _ _ ht hf hs => tight_step ht hf hs) tight_init ha hr

/-! ## Runs with a request that does not fit -/

/-- Every registered region ends below `2 ^ 32`. -/
def RegionsFit (t : Ledger) : Prop := ∀ r ∈ t.chunks.freeList, r.start + r.length < 2 ^ 32

theorem regionsFit_step {t t' : Ledger} {o : ChunkCall} (ht : RegionsFit t) (ho : FitsRegion o)
    (h : chunkStep t o = some t') : RegionsFit t' := by
  rcases chunkStep_cases h with ⟨a, n, rfl, rfl⟩ | ⟨a, n, -, rfl⟩ | rfl
  · intro r hr
    rcases List.mem_cons.mp hr with rfl | hr
    · exact ho
    · exact ht r hr
  · exact ht
  · exact ht

/-- A chunk that starts below `2 ^ 32` and ends past it lies in no region that ends below it. -/
theorem not_subset_of_wrap {c r : Chunk} (hs : c.start < 2 ^ 32) (hc : 2 ^ 32 ≤ c.start + c.length)
    (hr : r.start + r.length < 2 ^ 32) : ¬ c.range ⊆ r.range := by
  intro h
  have hm : c.start + c.length - 1 ∈ r.range := h ⟨by omega, by omega⟩
  have := hm.2
  omega

theorem Takes.start_lt {s : Chunks} {o : ChunkCall} {start length : ℕ} (hm : s.maxFree < 2 ^ 32)
    (h : Takes s o start length) : start < 2 ^ 32 ∧ length < 2 ^ 32 := by
  cases o with
  | registerFree => exact h.elim
  | getChunk a n => obtain ⟨rfl, rfl, -⟩ := h; exact ⟨a.toNat_lt, n.toNat_lt⟩
  | getAnyChunk n => obtain ⟨rfl, hf⟩ := h; exact ⟨hf.2.1.trans hm, n.toNat_lt⟩

/-- Where the regions fit, a sound end state is reached through requests that fit. -/
theorem fits_of_sound {calls : List ChunkCall} : ∀ {t t' : Ledger}, t.chunks.maxFree < 2 ^ 32 →
    RegionsFit t → (∀ o ∈ calls, FitsRegion o) → run chunkStep t calls = some t' → t'.Sound →
    t.granted ⊆ t'.granted ∧ RegionsFit t' ∧ Along chunkStep FitsRequest t calls := by
  induction calls with
  | nil =>
    intro t t' _ ht _ hr _
    obtain rfl : t = t' := Option.some.inj hr
    exact ⟨List.Subset.refl _, ht, trivial⟩
  | cons o calls ih =>
    intro t t' hm ht ho hr hsound
    obtain ⟨u, hu, hr'⟩ := (run_cons_eq_some chunkStep).mp hr
    obtain ⟨hsub, hreg, halong⟩ := ih (maxFree_step hm hu)
      (regionsFit_step ht (ho o List.mem_cons_self) hu) (fun o' ho' => ho o' (List.mem_cons_of_mem _ ho'))
      hr' hsound
    refine ⟨List.Subset.trans (granted_subset_step hu) hsub, hreg, ?_, fun s' hs' => ?_⟩
    · -- a request that does not fit would leave its chunk among the granted ones
      intro start length htk
      by_contra hw
      obtain ⟨hs, hl⟩ := htk.start_lt hm
      have hu' : u = t.record length (start, t.chunks.use start length) :=
        Option.some.inj (hu.symm.trans (chunkStep_takes hm htk))
      have hmem : Chunk.mk start length ∈ u.granted := by
        rw [hu', Ledger.record, if_pos (by omega)]
        exact List.mem_cons_self
      obtain ⟨r, hr, hsr⟩ := hsound.1 _ (hsub hmem)
      exact not_subset_of_wrap hs (by simpa using hw) (hreg r hr) hsr
    · obtain rfl : u = s' := Option.some.inj (hu.symm.trans hs')
      exact halong

/-- **When the grants are sound.** Every run whose granted requests end below `2 ^ 32` is sound.
Where the registered regions end below `2 ^ 32`, every sound run is of this kind. -/
theorem grants_sound (calls : List ChunkCall) (t : Ledger) :
    (run chunkStep Ledger.init calls = some t →
      Along chunkStep FitsRequest Ledger.init calls → t.Sound) ∧
    (run chunkStep Ledger.init calls = some t → (∀ o ∈ calls, FitsRegion o) →
      (t.Sound ↔ Along chunkStep FitsRequest Ledger.init calls)) := by
  have hsound : run chunkStep Ledger.init calls = some t →
      Along chunkStep FitsRequest Ledger.init calls → t.Sound := fun hr ha =>
    ⟨(tight_run ha hr).inside, (tight_run ha hr).disjoint⟩
  refine ⟨hsound, fun hr ho => ⟨fun hs => ?_, hsound hr⟩⟩
  exact (fits_of_sound (by decide) (by simp [RegionsFit, Ledger.init, Chunks.init]) ho hr hs).2.2

/-- Registering `[0x100000, 0x20000000)` and asking for `0x2000` bytes at `0xfffff000`. -/
def wrapCalls : List ChunkCall := [.registerFree 0x100000 0x1ff00000, .getChunk 0xfffff000 0x2000]

/-- A request past `2 ^ 32` is granted outside every region. -/
theorem grants_unsound :
    ¬ ∀ calls t, (∀ o ∈ calls, ChunkCall.LengthPos o) → run chunkStep Ledger.init calls = some t →
      t.Sound := by
  intro h
  have hs := h wrapCalls ⟨⟨[⟨0x100000, 0x1ff00000⟩], [⟨0xfffff000, 0x2000⟩], 0x20000000⟩,
    [⟨0xfffff000, 0x2000⟩]⟩ (by simp [wrapCalls, ChunkCall.LengthPos]) (by decide)
  obtain ⟨r, hr, hsub⟩ := hs.1 ⟨0xfffff000, 0x2000⟩ List.mem_cons_self
  obtain rfl := List.mem_singleton.mp hr
  exact not_subset_of_wrap (by decide) (by decide) (by decide) hsub

end RpiBoot
