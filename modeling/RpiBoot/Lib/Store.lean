import Mathlib.Data.Nat.Notation
import Mathlib.Data.List.Basic
import Mathlib.Tactic.Common

/-!
# Stores: functions from addresses to cells

A store is a function `ℕ → α`. `slice f a n` reads the cells `[a, a + n)`, `patch f a l` writes
the list `l` from cell `a` on.

* `slice_add`, `take_slice`, `drop_slice`: cutting a slice.
* **`slice_patch`**, `slice_patch_of_disjoint`: reading back what was written, and what was not.
* `patch_append`, `patch_slice`: composing writes.
* **`patch_slice_patch`**: read, modify, write.
* `window`: the store seen from an address on.
* `AgreeOff`: the cells outside a range are unchanged.
-/

namespace Store

variable {α : Type}

/-- The cells `[a, a + n)` of a store, in order. -/
def slice (f : ℕ → α) (a n : ℕ) : List α := (List.range n).map fun i => f (a + i)

/-- The store after writing the list `l` from cell `a` on. -/
def patch (f : ℕ → α) (a : ℕ) (l : List α) : ℕ → α :=
  fun i => if a ≤ i then (l[i - a]?).getD (f i) else f i

/-- The store seen from address `a` on. -/
def window (f : ℕ → α) (a : ℕ) : ℕ → α := fun i => f (a + i)

variable (f g : ℕ → α) (a b m n : ℕ) (l : List α)

/-! ## Slices -/

@[simp] theorem length_slice : (slice f a n).length = n := by simp [slice]

@[simp] theorem slice_zero : slice f a 0 = [] := rfl

theorem getElem?_slice (i : ℕ) : (slice f a n)[i]? = if i < n then some (f (a + i)) else none := by
  unfold slice
  split_ifs with h
  · rw [List.getElem?_map, List.getElem?_range h, Option.map_some]
  · rw [List.getElem?_eq_none (by simp; omega)]

theorem getElem?_slice_of_lt {i : ℕ} (h : i < n) : (slice f a n)[i]? = some (f (a + i)) := by
  rw [getElem?_slice, if_pos h]

@[simp] theorem getElem_slice {i : ℕ} (h : i < (slice f a n).length) :
    (slice f a n)[i] = f (a + i) := by
  simp [slice]

/-- Two slices agree when their cells do. -/
theorem slice_congr {f g : ℕ → α} {a b n : ℕ} (h : ∀ i < n, f (a + i) = g (b + i)) :
    slice f a n = slice g b n :=
  List.map_congr_left fun i hi => h i (List.mem_range.mp hi)

theorem slice_eq_iff {f g : ℕ → α} {a b n : ℕ} :
    slice f a n = slice g b n ↔ ∀ i < n, f (a + i) = g (b + i) := by
  refine ⟨fun h i hi => ?_, slice_congr⟩
  have := congrArg (fun l => l[i]?) h
  simpa [getElem?_slice, hi] using this

/-- Parts of slices that agree. -/
theorem slice_part {f g : ℕ → α} {a b n o m : ℕ} (h : slice f a n = slice g b n) (hle : o + m ≤ n) :
    slice f (a + o) m = slice g (b + o) m :=
  slice_congr fun i hi => by
    have hcell := slice_eq_iff.mp h (o + i) (by omega)
    rwa [← Nat.add_assoc, ← Nat.add_assoc] at hcell

theorem slice_eq_of_getElem? {f : ℕ → α} {a : ℕ} {l : List α}
    (h : ∀ i < l.length, l[i]? = some (f (a + i))) : slice f a l.length = l := by
  refine List.ext_getElem? fun i => ?_
  rw [getElem?_slice]
  split_ifs with hi
  · exact (h i hi).symm
  · rw [List.getElem?_eq_none (by omega)]

theorem slice_add : slice f a (m + n) = slice f a m ++ slice f (a + m) n := by
  simp [slice, List.range_add, Nat.add_assoc]

theorem slice_succ : slice f a (n + 1) = f a :: slice f (a + 1) n := by
  rw [Nat.add_comm, slice_add]
  rfl

theorem take_slice : (slice f a n).take m = slice f a (min m n) := by
  refine List.ext_getElem? fun i => ?_
  rw [List.getElem?_take, getElem?_slice, getElem?_slice]
  split_ifs <;> first | rfl | omega

theorem drop_slice : (slice f a n).drop m = slice f (a + m) (n - m) := by
  refine List.ext_getElem? fun i => ?_
  rw [List.getElem?_drop, getElem?_slice, getElem?_slice, Nat.add_assoc]
  split_ifs <;> first | rfl | omega

theorem slice_window : slice (window f a) b n = slice f (a + b) n :=
  slice_congr fun _ _ => by simp [window, Nat.add_assoc]

/-- Blocks of `m` cells, one after another, as a slice of a store that runs through them. -/
theorem flatMap_slice {β : Type} {f g : ℕ → α} {start : β → ℕ} {l : List β}
    (h : ∀ i c, l[i]? = some c → ∀ j < m, g (i * m + j) = f (start c + j)) :
    l.flatMap (fun c => slice f (start c) m) = slice g 0 (l.length * m) := by
  induction l generalizing g with
  | nil => simp
  | cons c l ih =>
    have hhead : slice f (start c) m = slice g 0 m :=
      slice_congr fun j hj => by
        rw [← h 0 c rfl j hj, Nat.zero_mul]
    have htail : l.flatMap (fun c => slice f (start c) m) = slice (window g m) 0 (l.length * m) :=
      ih fun i c' hc' j hj => by
        rw [← h (i + 1) c' hc' j hj, window, Nat.add_mul, Nat.one_mul]
        exact congrArg g (by omega)
    rw [List.flatMap_cons, hhead, htail, slice_window, List.length_cons, Nat.add_mul, Nat.one_mul,
      Nat.add_comm (l.length * m), slice_add, Nat.zero_add, Nat.add_zero]

/-! ## Patches -/

theorem patch_apply (i : ℕ) :
    patch f a l i = if a ≤ i then (l[i - a]?).getD (f i) else f i := rfl

theorem patch_apply_add {i : ℕ} (h : i < l.length) : patch f a l (a + i) = l[i] := by
  rw [patch_apply, if_pos (Nat.le_add_right a i), Nat.add_sub_cancel_left,
    List.getElem?_eq_getElem h, Option.getD_some]

theorem patch_apply_of_mem {i : ℕ} (h₁ : a ≤ i) (h₂ : i - a < l.length) :
    patch f a l i = l[i - a] := by
  rw [patch_apply, if_pos h₁, List.getElem?_eq_getElem h₂, Option.getD_some]

theorem patch_apply_of_notMem {i : ℕ} (h : i < a ∨ a + l.length ≤ i) : patch f a l i = f i := by
  rw [patch_apply]
  split_ifs with ha
  · rw [List.getElem?_eq_none (by omega), Option.getD_none]
  · rfl

/-- A write looks at the old store only cell by cell. -/
theorem patch_apply_congr {i : ℕ} (h : f i = g i) : patch f a l i = patch g a l i := by
  rw [patch_apply, patch_apply, h]

@[simp] theorem patch_nil : patch f a [] = f := by
  funext i
  exact patch_apply_of_notMem f a [] (by simp; omega)

/-- **Reading back a write.** -/
@[simp] theorem slice_patch : slice (patch f a l) a l.length = l :=
  slice_eq_of_getElem? fun i hi => by rw [patch_apply_add f a l hi, List.getElem?_eq_getElem hi]

@[simp] theorem slice_patch_slice : slice (patch f a (slice g b n)) a n = slice g b n := by
  have h := slice_patch f a (slice g b n)
  rwa [length_slice] at h

/-- A slice that a write does not touch. -/
theorem slice_patch_of_disjoint {f : ℕ → α} {a b n : ℕ} {l : List α}
    (h : b + n ≤ a ∨ a + l.length ≤ b) : slice (patch f a l) b n = slice f b n :=
  slice_congr fun i hi => patch_apply_of_notMem f a l (by omega)

/-- Part of a written range. -/
theorem slice_patch_of_subset {f : ℕ → α} {a b n : ℕ} {l : List α} (h₁ : a ≤ b)
    (h₂ : b + n ≤ a + l.length) : slice (patch f a l) b n = (l.drop (b - a)).take n := by
  refine List.ext_getElem? fun i => ?_
  rw [getElem?_slice, List.getElem?_take]
  split_ifs with hi
  · rw [patch_apply_of_mem f a l (by omega) (by omega), List.getElem?_drop,
      List.getElem?_eq_getElem (by omega)]
    congr 2; omega
  · rfl

theorem patch_append (l' : List α) :
    patch f a (l ++ l') = patch (patch f a l) (a + l.length) l' := by
  funext i
  simp only [patch_apply]
  by_cases h₁ : a ≤ i
  · by_cases h₂ : a + l.length ≤ i
    · rw [if_pos h₁, if_pos h₂, if_pos h₁, List.getElem?_append_right (by omega),
        List.getElem?_eq_none (l := l) (by omega), Option.getD_none, Nat.sub_sub]
    · rw [if_pos h₁, if_neg h₂, if_pos h₁, List.getElem?_append_left (by omega)]
  · rw [if_neg h₁, if_neg (by omega), if_neg h₁]

/-- A write over another from the same cell on. -/
theorem patch_patch (l' : List α) : patch (patch f a l) a l' = patch f a (l' ++ l.drop l'.length) := by
  funext i
  simp only [patch_apply]
  by_cases h₁ : a ≤ i
  · by_cases h₂ : i - a < l'.length
    · simp only [if_pos h₁, List.getElem?_append_left h₂, List.getElem?_eq_getElem h₂, Option.getD_some]
    · rw [if_pos h₁, if_pos h₁, if_pos h₁, List.getElem?_append_right (by omega), List.getElem?_drop,
        List.getElem?_eq_none (l := l') (by omega), Option.getD_none, Nat.add_sub_cancel' (by omega)]
  · rw [if_neg h₁, if_neg h₁, if_neg h₁]

theorem patch_singleton (x : α) : patch f a [x] = Function.update f a x := by
  funext i
  by_cases hi : i = a
  · subst hi
    rw [Function.update_self, patch_apply_of_mem _ _ _ (Nat.le_refl _) (by simp)]
    simp
  · rw [Function.update_of_ne hi, patch_apply_of_notMem _ _ _ (by simp; omega)]

theorem patch_cons (x : α) : patch f a (x :: l) = patch (Function.update f a x) (a + 1) l := by
  rw [← patch_singleton, ← List.singleton_append, patch_append, List.length_singleton]

/-- Writing the cells a store already holds. -/
@[simp] theorem patch_slice : patch f a (slice f a n) = f := by
  funext i
  rw [patch_apply]
  split_ifs with h
  · rw [getElem?_slice, Nat.add_sub_cancel' h]
    split_ifs <;> rfl
  · rfl

/-- **Read, modify, write.** Cells copied elsewhere, changed there from offset `o` on and written back
are the cells changed in place. -/
theorem patch_slice_patch {f g : ℕ → α} {a b o n : ℕ} {l : List α} (h : slice g b n = slice f a n) :
    patch f a (slice (patch g (b + o) l) b n) = patch f (a + o) (l.take (n - o)) := by
  have h := slice_eq_iff.mp h
  funext i
  by_cases hi : a ≤ i ∧ i < a + n
  · obtain ⟨j, rfl⟩ : ∃ j, i = a + j := ⟨i - a, by omega⟩
    rw [patch_apply_of_mem _ a _ hi.1 (by rw [length_slice]; omega)]
    simp only [getElem_slice, Nat.add_sub_cancel_left]
    by_cases hj : o ≤ j ∧ j - o < l.length
    · rw [patch_apply_of_mem _ _ l (by omega) (by omega),
        patch_apply_of_mem _ _ _ (by omega) (by rw [List.length_take]; omega), List.getElem_take]
      congr 1; omega
    · rw [patch_apply_of_notMem _ _ l (by omega), h j (by omega),
        patch_apply_of_notMem _ _ _ (by rw [List.length_take]; omega)]
  · rw [patch_apply_of_notMem _ _ _ (by rw [length_slice]; omega),
      patch_apply_of_notMem _ _ _ (by rw [List.length_take]; omega)]

/-- One list written at two places a distance `d` apart: the same when its cells are there already and,
where the places overlap, it repeats itself. -/
theorem patch_slice_eq_patch_slice_iff {f g : ℕ → α} {a b d n : ℕ} (hd : 0 < d) :
    patch f a (slice g b n) = patch f (d + a) (slice g b n) ↔
      ∀ i < n, (i < d → f (a + i) = g (b + i)) ∧ (n ≤ i + d → f (d + a + i) = g (b + i)) ∧
        (d ≤ i → g (b + i) = g (b + (i - d))) := by
  have hin : ∀ c i, i < n → patch f c (slice g b n) (c + i) = g (b + i) := fun c i hi => by
    rw [patch_apply_add f c _ (by rwa [length_slice]), getElem_slice]
  have hout : ∀ c i, i < c ∨ c + n ≤ i → patch f c (slice g b n) i = f i := fun c i hi =>
    patch_apply_of_notMem f c _ (by rwa [length_slice])
  constructor
  · intro h i hi
    refine ⟨fun hlt => ?_, fun hle => ?_, fun hle => ?_⟩
    · have := congrFun h (a + i)
      rw [hin a i hi, hout (d + a) (a + i) (by omega)] at this
      exact this.symm
    · have := congrFun h (d + a + i)
      rw [hin (d + a) i hi, hout a (d + a + i) (by omega)] at this
      exact this
    · have := congrFun h (a + i)
      rw [hin a i hi, show a + i = d + a + (i - d) by omega, hin (d + a) (i - d) (by omega)] at this
      exact this
  · intro h
    funext j
    by_cases hj : a ≤ j ∧ j < a + n
    · obtain ⟨i, rfl⟩ : ∃ i, j = a + i := ⟨j - a, by omega⟩
      obtain ⟨h₁, -, h₃⟩ := h i (by omega)
      rw [hin a i (by omega)]
      rcases Nat.lt_or_ge i d with hlt | hge
      · rw [hout (d + a) (a + i) (by omega), h₁ hlt]
      · rw [h₃ hge, show a + i = d + a + (i - d) by omega, hin (d + a) (i - d) (by omega)]
    · rw [hout a j (by omega)]
      by_cases hj' : d + a ≤ j ∧ j < d + a + n
      · obtain ⟨i, rfl⟩ : ∃ i, j = d + a + i := ⟨j - (d + a), by omega⟩
        rw [hin (d + a) i (by omega), (h i (by omega)).2.1 (by omega)]
      · rw [hout (d + a) j (by omega)]

/-! ## Changes within a range -/

/-- The stores agree on all cells but `[a, b)`. -/
def AgreeOff (f g : ℕ → α) (a b : ℕ) : Prop := ∀ i, i < a ∨ b ≤ i → g i = f i

variable {f g} {h : ℕ → α} {a b m n}

theorem AgreeOff.refl : AgreeOff f f a b := fun _ _ => rfl

theorem AgreeOff.trans (hf : AgreeOff f g a b) (hg : AgreeOff g h a b) : AgreeOff f h a b :=
  fun i hi => (hg i hi).trans (hf i hi)

theorem AgreeOff.mono (hf : AgreeOff f g m n) (hm : a ≤ m) (hn : n ≤ b) : AgreeOff f g a b :=
  fun i hi => hf i (by omega)

theorem agreeOff_update {i : ℕ} {x : α} (h₁ : a ≤ i) (h₂ : i < b) :
    AgreeOff f (Function.update f i x) a b :=
  fun _ hj => Function.update_of_ne (by omega) _ _

end Store
