import RpiBoot.Memchunk.Model

/-!
# Registering memory (`main.c`)

The first MiB is kept back. `memCb` gets every region of memory that the firmware reports and hands
the part above 1 MiB to the allocator; of a region that starts below, it takes a whole MiB off the
length, whatever the start.

* `memCb`: the callback. `memRegions`: the regions that the allocator gets.
* `Faithful`: the free memory is the reported memory from 1 MiB on.
* `Registrable`: the regions that start below 1 MiB are harmless.
* **`mem_registration_iff`**: the first just when the second.
-/

namespace RpiBoot

/-- `mem_cb(addr, len)`. -/
def memCb (s : Chunks) (addr len : ℕ) : Chunks :=
  if addr < 0x100000 then chunkRegisterFree s 0x100000 (sub32 len 0x100000)
  else chunkRegisterFree s addr len

/-- The allocator once `mem_cb` has been called on every region, by `parse_atag_or_dtb`. -/
def registerMemory (regions : List Chunk) : Chunks :=
  regions.foldl (fun s r => memCb s r.start r.length) Chunks.init

/-- Some region holds the address. -/
def Covered (list : List Chunk) (a : ℕ) : Prop := ∃ c ∈ list, a ∈ c.range

/-- The free memory is the reported memory from 1 MiB on. -/
def Faithful (regions : List Chunk) : Prop :=
  ∀ a, Covered (registerMemory regions).freeList a ↔ Covered regions a ∧ 0x100000 ≤ a

/-- The region that `mem_cb` registers for a reported one. -/
def Chunk.registered (r : Chunk) : Chunk :=
  if r.start < 0x100000 then ⟨0x100000, sub32 r.length 0x100000⟩ else r

/-- A region that starts below 1 MiB and is shorter than what is taken off it. -/
def Chunk.Short (r : Chunk) : Prop := r.start < 0x100000 ∧ r.length < 0x100000

/-- The address is in the region, and not in the bytes at the end of a region that starts below 1 MiB
which are cut off in place of those before its start. -/
def Chunk.Keeps (r : Chunk) (a : ℕ) : Prop :=
  if r.start < 0x100000 then a < r.length else a ∈ r.range

/-- The lists of regions that are registered as reported. A short region, of which the length wraps,
has to be empty, and everything from 1 MiB on has to be reported; without one, the bytes that are cut
off at the end of a region have to be in other regions. -/
def Registrable (regions : List Chunk) : Prop :=
  ((∃ r ∈ regions, r.Short) → (∀ r ∈ regions, r.Short → r.length = 0) ∧
    ∀ a, 0x100000 ≤ a → a < 2 ^ 32 → Covered regions a) ∧
  ((¬ ∃ r ∈ regions, r.Short) → ∀ r ∈ regions, r.start < 0x100000 →
    ∀ a, r.length ≤ a → a < r.start + r.length → ∃ r' ∈ regions, r'.Keeps a)

variable {regions : List Chunk}

theorem freeList_registerMemory (regions : List Chunk) :
    (registerMemory regions).freeList = (regions.map Chunk.registered).reverse := by
  have h : ∀ (l : List Chunk) (s : Chunks),
      (l.foldl (fun s r => memCb s r.start r.length) s).freeList =
        (l.map Chunk.registered).reverse ++ s.freeList := by
    intro l
    induction l with
    | nil => intro s; rfl
    | cons r l ih =>
      intro s
      have hone : (memCb s r.start r.length).freeList = r.registered :: s.freeList := by
        unfold memCb Chunk.registered
        split_ifs <;> rfl
      rw [List.foldl_cons, ih, hone, List.map_cons, List.reverse_cons, List.append_assoc]
      rfl
  rw [registerMemory, h]
  exact List.append_nil _

theorem covered_registerMemory {a : ℕ} :
    Covered (registerMemory regions).freeList a ↔ ∃ r ∈ regions, a ∈ r.registered.range := by
  simp [Covered, freeList_registerMemory]

/-- The addresses that are registered for a short region. -/
theorem mem_registered_short {r : Chunk} (hr : r.Short) {a : ℕ} :
    a ∈ r.registered.range ↔ 0x100000 ≤ a ∧ a < 2 ^ 32 + r.length := by
  have hlen : sub32 r.length 0x100000 = 2 ^ 32 + r.length - 0x100000 := by
    have := hr.2
    unfold sub32 u32
    omega
  rw [Chunk.registered, if_pos hr.1, Chunk.range, Set.mem_Ico, hlen]
  dsimp only
  omega

/-- The addresses that are registered for any other. -/
theorem mem_registered {r : Chunk} (hr : ¬ r.Short) (hend : r.start + r.length ≤ 2 ^ 32) {a : ℕ} :
    a ∈ r.registered.range ↔ 0x100000 ≤ a ∧ r.Keeps a := by
  unfold Chunk.registered Chunk.Keeps
  by_cases hs : r.start < 0x100000
  · have hl : 0x100000 ≤ r.length := not_lt.mp fun hl => hr ⟨hs, hl⟩
    have hlen : sub32 r.length 0x100000 = r.length - 0x100000 := by
      unfold sub32 u32
      omega
    rw [if_pos hs, if_pos hs, Chunk.range, Set.mem_Ico, hlen]
    dsimp only
    omega
  · rw [if_neg hs, if_neg hs, Chunk.range, Set.mem_Ico]
    omega

/-- Every address of a region that it does not keep is among those cut off at its end. -/
theorem keeps_or {r : Chunk} {a : ℕ} (ha : a ∈ r.range) :
    r.Keeps a ∨ r.start < 0x100000 ∧ r.length ≤ a ∧ a < r.start + r.length := by
  obtain ⟨-, hlt⟩ := Set.mem_Ico.mp ha
  unfold Chunk.Keeps
  by_cases hs : r.start < 0x100000
  · rw [if_pos hs]
    omega
  · rw [if_neg hs]
    exact Or.inl ha

theorem Chunk.Keeps.mem_range {r : Chunk} {a : ℕ} (h : r.Keeps a) (ha : 0x100000 ≤ a) :
    a ∈ r.range := by
  unfold Chunk.Keeps at h
  by_cases hs : r.start < 0x100000
  · rw [if_pos hs] at h
    exact Set.mem_Ico.mpr ⟨by omega, by omega⟩
  · rw [if_neg hs] at h
    exact h

/-- A region from the second page on loses its last page. -/
theorem mem_registration_broken : ¬ Faithful [⟨0x1000, 0x200000⟩] := by
  intro h
  have hreported : Covered [⟨0x1000, 0x200000⟩] 0x200000 :=
    ⟨_, List.mem_singleton_self _, Set.mem_Ico.mpr ⟨by decide, by decide⟩⟩
  obtain ⟨r, hr, hmem⟩ := covered_registerMemory.mp ((h 0x200000).mpr ⟨hreported, by decide⟩)
  rw [List.mem_singleton.mp hr] at hmem
  exact absurd (Set.mem_Ico.mp hmem).2 (by decide)

/-- **Memory registration.** The free memory is the reported memory from 1 MiB on if and only if the
regions that start below 1 MiB are harmless. -/
theorem mem_registration_iff (hregions : ∀ r ∈ regions, r.start + r.length ≤ 2 ^ 32) :
    Faithful regions ↔ Registrable regions := by
  unfold Faithful
  simp only [covered_registerMemory]
  by_cases hshort : ∃ r ∈ regions, r.Short
  · obtain ⟨s, hs, hss⟩ := hshort
    have hall : ∀ a, 0x100000 ≤ a → a < 2 ^ 32 → ∃ r ∈ regions, a ∈ r.registered.range :=
      fun a h₁ h₂ => ⟨s, hs, (mem_registered_short hss).mpr ⟨h₁, by omega⟩⟩
    have hlt : ∀ a, Covered regions a → a < 2 ^ 32 := by
      rintro a ⟨r, hr, ha⟩
      have hend := hregions r hr
      have ha := (Set.mem_Ico.mp ha).2
      omega
    constructor
    · intro h
      refine ⟨fun _ => ⟨fun r hr hrs => ?_, fun a h₁ h₂ => ((h a).mp (hall a h₁ h₂)).1⟩,
        fun hno => absurd ⟨s, hs, hss⟩ hno⟩
      -- a short region that is not empty is registered beyond all memory
      by_contra hne
      have hmem : 2 ^ 32 ∈ r.registered.range :=
        (mem_registered_short hrs).mpr ⟨by decide, by omega⟩
      exact absurd (hlt _ ((h (2 ^ 32)).mp ⟨r, hr, hmem⟩).1) (by decide)
    · rintro ⟨h, -⟩ a
      obtain ⟨hempty, hcover⟩ := h ⟨s, hs, hss⟩
      refine ⟨?_, fun ⟨hcov, h₁⟩ => hall a h₁ (hlt a hcov)⟩
      rintro ⟨r, hr, ha⟩
      by_cases hrs : r.Short
      · obtain ⟨h₁, h₂⟩ := (mem_registered_short hrs).mp ha
        rw [hempty r hr hrs] at h₂
        exact ⟨hcover a h₁ h₂, h₁⟩
      · obtain ⟨h₁, h₂⟩ := (mem_registered hrs (hregions r hr)).mp ha
        exact ⟨⟨r, hr, h₂.mem_range h₁⟩, h₁⟩
  · have hnot : ∀ r ∈ regions, ¬ r.Short := fun r hr hrs => hshort ⟨r, hr, hrs⟩
    have hmem : ∀ r ∈ regions, ∀ a, a ∈ r.registered.range ↔ 0x100000 ≤ a ∧ r.Keeps a :=
      fun r hr a => mem_registered (hnot r hr) (hregions r hr)
    constructor
    · intro h
      refine ⟨fun hyes => absurd hyes hshort, fun _ r hr hs a h₁ h₂ => ?_⟩
      have hl : 0x100000 ≤ r.length := not_lt.mp fun hl => hnot r hr ⟨hs, hl⟩
      have hcov : Covered regions a := ⟨r, hr, Set.mem_Ico.mpr ⟨by omega, h₂⟩⟩
      obtain ⟨r', hr', ha⟩ := (h a).mpr ⟨hcov, by omega⟩
      exact ⟨r', hr', ((hmem r' hr' a).mp ha).2⟩
    · rintro ⟨-, h⟩ a
      constructor
      · rintro ⟨r, hr, ha⟩
        obtain ⟨h₁, h₂⟩ := (hmem r hr a).mp ha
        exact ⟨⟨r, hr, h₂.mem_range h₁⟩, h₁⟩
      · rintro ⟨⟨r, hr, ha⟩, h₁⟩
        rcases keeps_or ha with hk | ⟨hs, h₂, h₃⟩
        · exact ⟨r, hr, (hmem r hr a).mpr ⟨h₁, hk⟩⟩
        · obtain ⟨r', hr', hk⟩ := h hshort r hr hs a h₂ h₃
          exact ⟨r', hr', (hmem r' hr' a).mpr ⟨h₁, hk⟩⟩

/-- One region from address 0 on. -/
theorem mem_registration_iff_zero : Faithful [⟨0, 0x10000000⟩] ↔ Registrable [⟨0, 0x10000000⟩] :=
  mem_registration_iff (by decide)

end RpiBoot
