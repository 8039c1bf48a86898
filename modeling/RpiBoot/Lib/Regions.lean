import Mathlib.Data.List.Basic
import RpiBoot.Lib.Store

/-!
# Regions of a store

Regions of one store that do not overlap are stores of their own: a write to one of them is a write to
that one alone.

* `Region`, `Region.Apart`: a range of cells, and ranges that do not overlap.
* `Region.Shows`: what a store holds in a region, as a store that starts there.
* `Lays`: a list of regions with the stores they hold.
* **`Lays.patch`**: a write within a region is a write to its store; `patch_outside`: nothing else
  changes.
-/

namespace Store

variable {α : Type}

/-- The cells `[base, base + size)`. -/
structure Region where
  base : ℕ
  size : ℕ
deriving DecidableEq

namespace Region

/-- The cell is in the region. -/
def Covers (r : Region) (a : ℕ) : Prop := r.base ≤ a ∧ a < r.base + r.size

/-- The regions do not overlap. -/
def Apart (r r' : Region) : Prop := r.base + r.size ≤ r'.base ∨ r'.base + r'.size ≤ r.base

/-- In the region the store `f` holds the first cells of `g`. -/
def Shows (r : Region) (f g : ℕ → α) : Prop := ∀ i < r.size, f (r.base + i) = g i

instance (r r' : Region) : Decidable (r.Apart r') := inferInstanceAs (Decidable (_ ∨ _))

variable {r r' : Region} {f g : ℕ → α} {a n : ℕ} {l : List α}

theorem Apart.symm (h : r.Apart r') : r'.Apart r := Or.symm h

/-- What is read in a region is read from its store. -/
theorem Shows.slice_eq (h : r.Shows f g) (hle : a + n ≤ r.size) :
    slice f (r.base + a) n = slice g a n :=
  slice_congr fun i hi => by rw [Nat.add_assoc, h (a + i) (by omega)]

/-- What is written in a region is written to its store. -/
theorem Shows.patch (h : r.Shows f g) (a : ℕ) (l : List α) :
    r.Shows (patch f (r.base + a) l) (Store.patch g a l) := by
  intro i hi
  rw [patch_apply, patch_apply, h i hi, Nat.add_sub_add_left]
  simp only [Nat.add_le_add_iff_left]

/-- A write to a region apart from it. -/
theorem Shows.patch_of_apart (h : r.Shows f g) (hr : r'.Apart r) (hle : a + l.length ≤ r'.size) :
    r.Shows (Store.patch f (r'.base + a) l) g := by
  intro i hi
  rw [patch_apply_of_notMem _ _ _ (by unfold Apart at hr; omega), h i hi]

theorem shows_window (r : Region) (f : ℕ → α) : r.Shows f (window f r.base) := fun _ _ => rfl

end Region

variable {rs : List Region} {f g : ℕ → α} {vols : ℕ → ℕ → α} {i a : ℕ} {r : Region} {l : List α}

/-- The store holds `vols i` in the region number `i`. -/
def Lays (rs : List Region) (f : ℕ → α) (vols : ℕ → ℕ → α) : Prop :=
  ∀ (i : ℕ) (r : Region), rs[i]? = some r → r.Shows f (vols i)

/-- **A write within a region** is a write to the store it holds, where the regions are apart. -/
theorem Lays.patch (h : Lays rs f vols) (hrs : rs.Pairwise Region.Apart) (hr : rs[i]? = some r)
    (hle : a + l.length ≤ r.size) :
    Lays rs (Store.patch f (r.base + a) l) (Function.update vols i (Store.patch (vols i) a l)) := by
  intro j r' hr'
  by_cases hij : j = i
  · subst hij
    obtain rfl : r = r' := Option.some.inj (hr.symm.trans hr')
    rw [Function.update_self]
    exact (h j r hr).patch a l
  · -- another region
    rw [Function.update_of_ne hij]
    obtain ⟨hi, rfl⟩ := List.getElem?_eq_some_iff.mp hr
    obtain ⟨hj, rfl⟩ := List.getElem?_eq_some_iff.mp hr'
    have hapart : Region.Apart rs[i] rs[j] := by
      rcases Nat.lt_or_gt_of_ne hij with hlt | hgt
      · exact (List.pairwise_iff_getElem.mp hrs j i hj hi hlt).symm
      · exact List.pairwise_iff_getElem.mp hrs i j hi hj hgt
    exact (h j _ hr').patch_of_apart hapart hle

/-- Outside the region nothing changes. -/
theorem patch_outside (hle : a + l.length ≤ r.size) {b : ℕ} (hb : ¬ r.Covers b) :
    Store.patch f (r.base + a) l b = f b :=
  patch_apply_of_notMem _ _ _ (by unfold Region.Covers at hb; omega)

end Store
