import Mathlib.Data.List.Infix
import RpiBoot.Lib.Str

/-!
# Searching a string for another

* `search`: whether a list is found in a store before the end mark.
* `search_mono`: with more steps it is found as well.
* **`search_str`**: in a string, it is found when it is an infix.
* `search_of_infix`, `exists_str_of_search`: finding something takes a piece of the string only, and not
  finding it takes all of it.
-/

namespace Store

variable {α : Type} [DecidableEq α]

/-- Whether `needle` is found from cell `a` on, before the end mark `z`; `none` when the steps run out. -/
def search (z : α) (f : ℕ → α) (needle : List α) : ℕ → ℕ → Option Bool
  | 0, _ => none
  | n + 1, a =>
    if slice f a needle.length = needle then some true
    else if f a = z then some false
    else search z f needle n (a + 1)

variable {z : α} {f : ℕ → α} {needle l : List α} {a n m : ℕ}

theorem search_mono {b : Bool} (h : search z f needle n a = some b) (hle : n ≤ m) :
    search z f needle m a = some b := by
  induction n generalizing a m with
  | zero => cases h
  | succ n ih =>
    cases m with
    | zero => exact absurd hle (Nat.not_succ_le_zero n)
    | succ m =>
      rw [search] at h ⊢
      split_ifs at h ⊢
      · exact h
      · exact h
      · exact ih h (Nat.le_of_succ_le_succ hle)

/-- **In a string** the list is found when it is an infix. -/
theorem search_str (h : Str z f a l) (hz : z ∉ needle) (hn : l.length < n) :
    search z f needle n a = some (decide (needle <:+: l)) := by
  induction l generalizing a n with
  | nil =>
    cases n with
    | zero => exact absurd hn (Nat.not_lt_zero _)
    | succ n =>
      have ha : f a = z := h
      rw [search]
      simp only [h.slice_eq_iff hz, List.prefix_nil, List.infix_nil, ha, if_true]
      split_ifs with hnil <;> simp [hnil]
  | cons x l ih =>
    cases n with
    | zero => exact absurd hn (Nat.not_lt_zero _)
    | succ n =>
      have hx : f a ≠ z := by
        obtain ⟨hx, rfl, -⟩ := h
        exact hx
      rw [search]
      simp only [h.slice_eq_iff hz, List.infix_cons_iff]
      rw [if_neg hx, ih h.2.2 (Nat.lt_of_succ_lt_succ hn)]
      split_ifs with hpre <;> simp [hpre]

/-- What is found in a piece of a string is found, whatever is behind it. -/
theorem search_of_infix (hl : slice f a l.length = l) (hz : z ∉ l) (h : needle <:+: l) (hn : l.length < n) :
    search z f needle n a = some true := by
  induction l generalizing a n with
  | nil =>
    obtain rfl := List.infix_nil.mp h
    cases n with
    | zero => exact absurd hn (Nat.not_lt_zero _)
    | succ n => exact if_pos rfl
  | cons x l ih =>
    cases n with
    | zero => exact absurd hn (Nat.not_lt_zero _)
    | succ n =>
      have hcons := hl
      rw [List.length_cons, slice_succ, List.cons_eq_cons] at hcons
      obtain ⟨hx, hrest⟩ := hcons
      have hxz : f a ≠ z := fun hno => hz (hno ▸ hx ▸ List.mem_cons_self)
      rw [search]
      split_ifs with hfound
      · rfl
      · rcases List.infix_cons_iff.mp h with hpre | hin
        · refine absurd ?_ hfound
          calc slice f a needle.length = (slice f a (x :: l).length).take needle.length := by
                rw [take_slice, Nat.min_eq_left hpre.length_le]
            _ = needle := by rw [hl, ← List.prefix_iff_eq_take.mp hpre]
        · exact ih hrest (fun hmem => hz (List.mem_cons_of_mem x hmem)) hin (Nat.lt_of_succ_lt_succ hn)

/-- When the list is not found, there is an end mark. -/
theorem exists_str_of_search (hz : z ∉ needle) (h : search z f needle n a = some false) :
    ∃ l, Str z f a l ∧ ¬ needle <:+: l := by
  induction n generalizing a with
  | zero => cases h
  | succ n ih =>
    rw [search] at h
    by_cases hfound : slice f a needle.length = needle
    · rw [if_pos hfound] at h
      cases h
    rw [if_neg hfound] at h
    by_cases hend : f a = z
    · refine ⟨[], hend, fun hin => hfound ?_⟩
      rw [List.infix_nil.mp hin]
      rfl
    · rw [if_neg hend] at h
      obtain ⟨l, hl, hno⟩ := ih h
      have hcons : Str z f a (f a :: l) := ⟨hend, rfl, hl⟩
      refine ⟨f a :: l, hcons, fun hin => ?_⟩
      rcases List.infix_cons_iff.mp hin with hpre | hin
      · exact hfound ((hcons.slice_eq_iff hz).mpr hpre)
      · exact hno hin

end Store
