import Mathlib.Data.Set.Function
import Mathlib.Order.Interval.Set.Basic
import RpiBoot.Lib.Store

/-!
# Footprints

The part of a store that a function depends on, and the part that it changes.

* `ReadsOnly`, `WritesOnly`: the two, as bounds.
* **`readsOnly_slice_iff`**, **`writesOnly_patch_iff`**: a slice and a patch have the footprint of their
  range, and no smaller one.
-/

namespace Store

variable {α β : Type} {P : Set ℕ} {a n : ℕ}

/-- The value of `r` depends on the part `P` of the store alone. -/
def ReadsOnly (P : Set ℕ) (r : (ℕ → α) → β) : Prop := ∀ f g, Set.EqOn f g P → r f = r g

/-- Only the part `P` of the store is changed. -/
def WritesOnly (P : Set ℕ) (w : (ℕ → α) → ℕ → α) : Prop := ∀ f, Set.EqOn (w f) f Pᶜ

theorem slice_congr_of_eqOn {f g : ℕ → α} (h : Set.EqOn f g (Set.Ico a (a + n))) :
    slice f a n = slice g a n :=
  slice_congr fun i hi => h ⟨Nat.le_add_right a i, by omega⟩

/-- **The footprint of a slice.** -/
theorem readsOnly_slice_iff [Nontrivial α] :
    ReadsOnly P (fun f : ℕ → α => slice f a n) ↔ Set.Ico a (a + n) ⊆ P := by
  classical
  constructor
  · rintro h i ⟨hlo, hhi⟩
    by_contra hi
    obtain ⟨x, y, hxy⟩ := exists_pair_ne α
    have heq : slice (fun _ => x) a n = slice (Function.update (fun _ => x) i y) a n :=
      h _ _ fun j hj => (Function.update_of_ne (ne_of_mem_of_not_mem hj hi) y fun _ => x).symm
    have hval := slice_eq_iff.mp heq (i - a) (by omega)
    rw [Nat.add_sub_of_le hlo, Function.update_self] at hval
    exact hxy hval
  · exact fun h f g hfg => slice_congr_of_eqOn (hfg.mono h)

/-- **The footprint of a patch.** -/
theorem writesOnly_patch_iff [Nontrivial α] {l : List α} :
    WritesOnly P (fun f => patch f a l) ↔ Set.Ico a (a + l.length) ⊆ P := by
  constructor
  · rintro h i ⟨hlo, hhi⟩
    by_contra hi
    have hlt : i - a < l.length := by omega
    obtain ⟨y, hy⟩ := exists_ne l[i - a]
    have heq := h (fun _ => y) hi
    dsimp only at heq
    rw [patch_apply_of_mem _ _ _ hlo hlt] at heq
    exact hy heq.symm
  · intro h f i hi
    refine patch_apply_of_notMem _ _ _ ?_
    by_contra hno
    exact hi (h ⟨by omega, by omega⟩)

end Store
