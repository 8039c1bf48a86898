import RpiBoot.Atag
import RpiBoot.Lib.Chain

/-!
# Lists of tags (`atag.c`, `main.c`)

`kernel_main` looks for a device tree or a list of tags at the address that it was passed and then at
address `0`, which to `parse_atags` is no list at all.

* `confSource`, `regionSource`: what `kernel_main` finds, and what `parse_atag_or_dtb` makes of it.
* `tagNext`, `memRegions`: the next tag of a list, and the regions of its memory tags.
* `parseAtagsLoop_chain`: the walk over a list that ends. `TagsScanned`: what it should report.
* **`atag_scan_iff`**: it does for the lists at other addresses than `0` in which no tag is met twice,
  and for those at `0` that have no memory tag.
-/

namespace RpiBoot

open Chains Store

variable {α : Type}

def atagCore : ℕ := 0x54410001

/-! ## `kernel_main` -/

section Detect

/- `fdt_check_header`, and the device tree at an address. -/
variable (fdtCheckHeader : ℕ → ℤ) (dtb : ℕ → FdtNodes) (mem : Mem) (atags : ℕ)

/-- `check_atags(atags)`. -/
def checkAtags : ℤ := if le32 mem (atags + 4) = atagCore then 0 else -1

/-- `_atags`: newer firmware does not pass the address. -/
def kernelAtags : ℕ := if atags = 0 then 0x100 else atags

/-- `conf_source`, as `kernel_main` sets it. -/
def confSource : ℕ :=
  if fdtCheckHeader (kernelAtags atags) = 0 then 3
  else if fdtCheckHeader 0 = 0 then 4
  else if checkAtags mem (kernelAtags atags) = 0 then 1
  else if checkAtags mem 0 = 0 then 2
  else 0

/-- The cases of `parse_atag_or_dtb`. -/
def regionSource : RegionSource :=
  match confSource fdtCheckHeader mem atags with
  | 1 => .atags mem (kernelAtags atags)
  | 2 => .atags mem 0
  | 3 => .dtb (dtb (kernelAtags atags))
  | 4 => .dtb (dtb 0)
  | _ => .none

/-- Where `kernel_main` has found a list of tags. -/
def tagsFound : Option ℕ :=
  match confSource fdtCheckHeader mem atags with
  | 1 => some (kernelAtags atags)
  | 2 => some 0
  | _ => none

variable {fdtCheckHeader mem atags} in
theorem regionSource_eq {a : ℕ} (h : tagsFound fdtCheckHeader mem atags = some a) :
    regionSource fdtCheckHeader dtb mem atags = .atags mem a := by
  unfold tagsFound at h
  unfold regionSource
  generalize confSource fdtCheckHeader mem atags = c at *
  split at h
  · obtain rfl := Option.some.inj h
    rfl
  · obtain rfl := Option.some.inj h
    rfl
  · cases h

end Detect

/-! ## Lists -/

section Lists

variable {memCb : α → Chunk → α} {mem : Mem} {a : ℕ} {l : List ℕ}

/-- The tag behind a tag, but for the last one. -/
def tagNext (mem : Mem) (cur : ℕ) : Option ℕ :=
  if le32 mem (cur + 4) ≠ atagNone then some (u32 (cur + 4 * le32 mem cur)) else none

/-- The regions of the memory tags of a list, in order. -/
def memRegions (mem : Mem) (l : List ℕ) : List Chunk :=
  (l.filter fun cur => le32 mem (cur + 4) = atagMem).map fun cur => ⟨le32 mem (cur + 12), le32 mem (cur + 8)⟩

theorem foldl_memRegions_cons (cur : ℕ) (s : α) : (memRegions mem (cur :: l)).foldl memCb s =
    (memRegions mem l).foldl memCb
      (if le32 mem (cur + 4) = atagMem then memCb s ⟨le32 mem (cur + 12), le32 mem (cur + 8)⟩ else s) := by
  unfold memRegions
  by_cases h : le32 mem (cur + 4) = atagMem
  · rw [List.filter_cons_of_pos (by simpa using h), List.map_cons, List.foldl_cons, if_pos h]
  · rw [List.filter_cons_of_neg (by simpa using h), if_neg h]

theorem tagNext_eq_none : tagNext mem a = none ↔ le32 mem (a + 4) = atagNone := by
  simp [tagNext]

theorem tagNext_eq_some {b : ℕ} : tagNext mem a = some b ↔
    le32 mem (a + 4) ≠ atagNone ∧ u32 (a + 4 * le32 mem a) = b := by
  simp [tagNext]

/-- **The walk over a list that ends** passes on the regions of its memory tags. -/
theorem parseAtagsLoop_chain (h : Chain (tagNext mem) a l) {fuel : ℕ} (hfuel : l.length ≤ fuel) (s : α) :
    parseAtagsLoop memCb mem fuel a s = some ((memRegions mem l).foldl memCb s) := by
  induction h generalizing fuel s with
  | last ha =>
    cases fuel with
    | zero => exact absurd hfuel (Nat.not_succ_le_zero _)
    | succ fuel =>
      rw [parseAtagsLoop, foldl_memRegions_cons]
      rw [if_neg (not_not.mpr (tagNext_eq_none.mp ha))]
      rfl
  | link ha _ ih =>
    cases fuel with
    | zero => exact absurd hfuel (Nat.not_succ_le_zero _)
    | succ fuel =>
      obtain ⟨htag, hnext⟩ := tagNext_eq_some.mp ha
      rw [parseAtagsLoop, foldl_memRegions_cons]
      rw [if_pos htag, hnext, ih (Nat.le_of_succ_le_succ hfuel)]

/-- A walk that returns has come to the end of a list. -/
theorem exists_chain_of_loop : ∀ {fuel a : ℕ} {s s' : α}, parseAtagsLoop memCb mem fuel a s = some s' →
    ∃ l, Chain (tagNext mem) a l := by
  intro fuel
  induction fuel with
  | zero => exact fun h => nomatch h
  | succ fuel ih =>
    intro a s s' h
    rw [parseAtagsLoop] at h
    by_cases htag : le32 mem (a + 4) ≠ atagNone
    · rw [if_pos htag] at h
      obtain ⟨l, hl⟩ := ih h
      exact ⟨a :: l, .link (tagNext_eq_some.mpr ⟨htag, rfl⟩) hl⟩
    · exact ⟨[a], .last (tagNext_eq_none.mpr (not_not.mp htag))⟩

/-- No tag of the list at `a` is met twice on the way to its end. -/
def NoTagTwice (mem : Mem) (a : ℕ) : Prop :=
  ∀ i j cur, nth (tagNext mem) a i = some cur → nth (tagNext mem) a j = some cur → i = j

theorem exists_chain_iff_noTagTwice : (∃ l, Chain (tagNext mem) a l) ↔ NoTagTwice mem a :=
  exists_chain_iff (s := Finset.range (2 ^ 32)) fun _ _ h => by
    obtain ⟨-, rfl⟩ := tagNext_eq_some.mp h
    exact Finset.mem_range.mpr (u32_lt _)

end Lists

/-! ## What is reported -/

/-- The walk over the list of tags at `a` returns, and reports the regions of the memory tags, in order,
if the list comes to an end. -/
structure TagsScanned (src : RegionSource) (mem : Mem) (a : ℕ) : Prop where
  returns : ∃ n, ∀ fuel, n ≤ fuel → (reported fuel src).isSome
  regions : ∀ l, Chain (tagNext mem) a l → ∃ n, ∀ fuel, n ≤ fuel → reported fuel src = some (memRegions mem l)

/-- No tag of a list at another address than `0` is met twice, and no tag of a list at `0` is one for
memory. -/
def TagsReadable (mem : Mem) (a : ℕ) : Prop :=
  if a = 0 then ∀ l, Chain (tagNext mem) 0 l → ∀ cur ∈ l, le32 mem (cur + 4) ≠ atagMem
  else NoTagTwice mem a

theorem memRegions_eq_nil_iff {mem : Mem} {l : List ℕ} :
    memRegions mem l = [] ↔ ∀ cur ∈ l, le32 mem (cur + 4) ≠ atagMem := by
  simp [memRegions]

theorem foldl_append_singleton (l : List Chunk) : l.foldl (fun l r => l ++ [r]) [] = l := by
  rw [List.foldl_append_eq_append, List.nil_append, ← List.flatMap_def, List.flatMap_singleton']

/-- **One list.** -/
theorem tagsScanned_iff {mem : Mem} {a : ℕ} : TagsScanned (.atags mem a) mem a ↔ TagsReadable mem a := by
  unfold TagsReadable
  split_ifs with ha
  · -- the walk returns at once
    subst ha
    have hnil : ∀ fuel, reported fuel (.atags mem 0) = some [] := fun _ => rfl
    simp only [← memRegions_eq_nil_iff]
    constructor
    · rintro ⟨-, hregions⟩ l hl
      obtain ⟨n, hn⟩ := hregions l hl
      exact (Option.some.inj ((hnil n).symm.trans (hn n le_rfl))).symm
    · intro h
      exact ⟨⟨0, fun fuel _ => rfl⟩, fun l hl => ⟨0, fun fuel _ => by rw [hnil, h l hl]⟩⟩
  · have hloop : ∀ fuel, reported fuel (.atags mem a) =
        parseAtagsLoop (fun l r => l ++ [r]) mem fuel a [] := fun fuel => if_neg ha
    rw [← exists_chain_iff_noTagTwice]
    constructor
    · rintro ⟨⟨n, hn⟩, -⟩
      obtain ⟨regions, hr⟩ := Option.isSome_iff_exists.mp (hn n le_rfl)
      rw [hloop] at hr
      exact exists_chain_of_loop hr
    · rintro ⟨l, hl⟩
      have hall : ∀ l', Chain (tagNext mem) a l' → ∀ fuel, l'.length ≤ fuel →
          reported fuel (.atags mem a) = some (memRegions mem l') := fun l' hl' fuel hfuel => by
        rw [hloop, parseAtagsLoop_chain hl' hfuel, foldl_append_singleton]
      exact ⟨⟨l.length, fun fuel hfuel => by rw [hall l hl fuel hfuel]; rfl⟩,
        fun l' hl' => ⟨l'.length, hall l' hl'⟩⟩

/-- A list at `0` of a core tag, a memory tag and the last one. -/
def lowTags : Mem := patch (fun _ => 0) 0 [2, 0, 0, 0, 1, 0, 0x41, 0x54,
  4, 0, 0, 0, 2, 0, 0x41, 0x54, 0, 0, 0, 0x10, 0, 0, 0, 0]

/-- The memory at address `0` is not reported when the list is there too. -/
theorem atag_scan_broken : tagsFound (fun _ => -9) lowTags 0 = some 0 ∧
    ∀ dtb, ¬ TagsScanned (regionSource (fun _ => -9) dtb lowTags 0) lowTags 0 := by
  have hfound : tagsFound (fun _ => -9) lowTags 0 = some 0 := by decide +kernel
  refine ⟨hfound, fun dtb h => ?_⟩
  have hchain : Chain (tagNext lowTags) 0 [0, 8, 24] :=
    .link (by decide +kernel) (.link (by decide +kernel) (.last (by decide +kernel)))
  rw [regionSource_eq dtb hfound, tagsScanned_iff] at h
  exact h _ hchain 8 (by decide) (by decide +kernel)

/-- **Scanning the tags.** For every memory and every address that is passed, `parse_atag_or_dtb` returns
and reports the memory tags of the list that `kernel_main` has found if and only if no tag of it is met
twice or, at address `0`, none is a memory tag. -/
theorem atag_scan_iff (fdtCheckHeader : ℕ → ℤ) (dtb : ℕ → FdtNodes) (mem : Mem) (atags : ℕ) :
    (∀ a, tagsFound fdtCheckHeader mem atags = some a →
      TagsScanned (regionSource fdtCheckHeader dtb mem atags) mem a) ↔
    ∀ a, tagsFound fdtCheckHeader mem atags = some a → TagsReadable mem a := by
  refine forall_congr' fun a => forall_congr' fun ha => ?_
  rw [regionSource_eq dtb ha, tagsScanned_iff]

end RpiBoot
