import Mathlib.Data.List.TakeWhile
import Mathlib.Data.Nat.Notation

/-!
# Segments

The segments of a list between separators. Separators at the start are left out, and one at the end.

* `trim`, `segments`: the list without them, and its segments.
* `pieces`: how many segments there are, by a count of the separators.
* `splitOn_eq_cons`: a split takes the list up to the first separator, and goes on behind it.
* `pieces_append`: their number, cut at a separator.
* **`take_pieces`**: the segments are the first pieces of the list.
* **`segments_run_iff`**: when a run of separators may be replaced by one.
-/

namespace Segments

variable {α : Type} [DecidableEq α] (sep : α)

/-- The list from its first other element on. -/
def body (l : List α) : List α := l.dropWhile (· == sep)

/-- The list without the separators at its start, and without one at its end. -/
def trim (l : List α) : List α :=
  if (body sep l).getLast? = some sep then (body sep l).dropLast else body sep l

/-- The segments of a list; the empty list has none. -/
def segments (l : List α) : List (List α) := if trim sep l = [] then [] else (trim sep l).splitOn sep

/-- A segment for every separator, and one for what is behind the last one. -/
def pieces : List α → ℕ
  | [] => 0
  | x :: l => (if x = sep ∨ l = [] then 1 else 0) + pieces l

variable {sep} {l l₁ l₂ : List α}

theorem body_cons_self : body sep (sep :: l) = body sep l := by simp [body]

theorem body_cons_of_ne {x : α} (h : x ≠ sep) : body sep (x :: l) = x :: l := by simp [body, h]

theorem splitOn_eq_cons : l.splitOn sep = l.takeWhile (· != sep) ::
    if sep ∈ l then (l.dropWhile (· != sep)).tail.splitOn sep else [] := by
  induction l with
  | nil => simp
  | cons x l ih =>
    rw [List.splitOn_cons_eq_if_modifyHead]
    by_cases hx : x = sep
    · subst hx
      simp
    · have hne : sep ≠ x := fun h => hx h.symm
      rw [if_neg (by simpa using hx), ih]
      simp [hx, hne]

/-- What is behind the first separator. -/
theorem drop_takeWhile : l.drop ((l.takeWhile (· != sep)).length + 1) = (l.dropWhile (· != sep)).tail := by
  have hsplit : l.takeWhile (· != sep) ++ l.dropWhile (· != sep) = l := List.takeWhile_append_dropWhile
  calc l.drop ((l.takeWhile (· != sep)).length + 1)
      = (l.takeWhile (· != sep) ++ l.dropWhile (· != sep)).drop ((l.takeWhile (· != sep)).length + 1) := by
        rw [hsplit]
    _ = (l.dropWhile (· != sep)).tail := by
        rw [List.drop_append, List.drop_eq_nil_of_le (by omega), List.nil_append, Nat.add_sub_cancel_left,
          List.drop_one]

theorem length_takeWhile_lt (h : sep ∈ l) : (l.takeWhile (· != sep)).length < l.length := by
  refine lt_of_le_of_ne (List.takeWhile_prefix _).length_le fun heq => ?_
  have hall : l.takeWhile (· != sep) = l := (List.takeWhile_prefix _).eq_of_length heq
  have := List.takeWhile_eq_self_iff.mp hall sep h
  simp at this

theorem length_splitOn : (l.splitOn sep).length = l.count sep + 1 := by
  induction l with
  | nil => simp
  | cons x l ih =>
    rw [List.splitOn_cons_eq_if_modifyHead, List.count_cons]
    split_ifs
    · rw [List.length_cons, ih]
    · rw [List.length_modifyHead, ih, Nat.add_zero]

theorem splitOn_append_sep : (l ++ [sep]).splitOn sep = l.splitOn sep ++ [[]] := by
  rw [List.splitOn_append_cons_self, List.splitOn_nil]

/-- The number of segments, by the last separator that one looks at. -/
theorem pieces_append : pieces sep (l₁ ++ sep :: l₂) = l₁.count sep + 1 + pieces sep l₂ := by
  induction l₁ with
  | nil => simp [pieces]
  | cons x l₁ ih =>
    have hne : l₁ ++ sep :: l₂ ≠ [] := List.append_ne_nil_of_right_ne_nil _ (List.cons_ne_nil _ _)
    rw [List.cons_append, pieces, ih, List.count_cons]
    simp only [hne, or_false, beq_iff_eq]
    omega

/-- A list without separators is one segment. -/
theorem pieces_of_notMem (h : sep ∉ l) (hl : l ≠ []) : pieces sep l = 1 := by
  induction l with
  | nil => exact absurd rfl hl
  | cons x l ih =>
    have hx : x ≠ sep := fun hx => h (hx ▸ List.mem_cons_self)
    rw [pieces]
    by_cases hnil : l = []
    · subst hnil
      simp [pieces]
    · rw [ih (fun hm => h (List.mem_cons_of_mem x hm)) hnil, if_neg (by simp [hx, hnil])]

theorem pieces_append_sep : pieces sep (l ++ [sep]) = (l.splitOn sep).length := by
  rw [pieces_append, length_splitOn]
  rfl

theorem pieces_of_getLast (hl : l ≠ []) (h : l.getLast? ≠ some sep) :
    pieces sep l = (l.splitOn sep).length := by
  rw [length_splitOn]
  induction l with
  | nil => exact absurd rfl hl
  | cons x l ih =>
    rw [pieces, List.count_cons]
    by_cases hnil : l = []
    · subst hnil
      have hx : x ≠ sep := fun hx => h (by simp [hx])
      simp [pieces, hx]
    · rw [ih hnil fun hlast => h (by rw [List.getLast?_cons_of_ne_nil hnil, hlast])]
      simp only [hnil, or_false, beq_iff_eq]
      omega

theorem pieces_le : pieces sep l ≤ (l.splitOn sep).length := by
  rw [length_splitOn]
  induction l with
  | nil => exact Nat.zero_le _
  | cons x l ih =>
    rw [pieces, List.count_cons]
    by_cases hnil : l = []
    · subst hnil
      simp [pieces]
    · simp only [hnil, or_false, beq_iff_eq]
      omega

/-- **The segments are the first pieces**, of a list that does not start with a separator. -/
theorem take_pieces : ((body sep l).splitOn sep).take (pieces sep (body sep l)) = segments sep l := by
  have hhead : (body sep l).head? ≠ some sep := by
    intro h
    have := List.head?_dropWhile_not (· == sep) l
    rw [body] at h
    rw [h] at this
    simp at this
  unfold segments trim
  generalize body sep l = b at *
  rcases List.eq_nil_or_concat b with rfl | ⟨b, x, rfl⟩
  · simp [pieces]
  · rw [List.concat_eq_append] at *
    by_cases hx : x = sep
    · subst hx
      have hb : b ≠ [] := by
        rintro rfl
        exact hhead rfl
      have hlast : (b ++ [x]).getLast? = some x := by simp
      rw [if_pos hlast, List.dropLast_concat, if_neg hb, splitOn_append_sep, pieces_append_sep,
        List.take_left]
    · have hlast : (b ++ [x]).getLast? ≠ some sep := by simpa using hx
      rw [if_neg hlast, if_neg (by simp), pieces_of_getLast (by simp) hlast, List.take_length]

theorem length_segments : (segments sep l).length = pieces sep (body sep l) := by
  rw [← take_pieces, List.length_take, min_eq_left pieces_le]

/-! ## Runs of separators -/

theorem segments_congr (h : body sep l₁ = body sep l₂) : segments sep l₁ = segments sep l₂ := by
  unfold segments trim
  rw [h]

theorem body_append_of_forall (h : ∀ x ∈ l₁, x = sep) : body sep (l₁ ++ l₂) = body sep l₂ :=
  List.dropWhile_append_of_pos fun x hx => beq_iff_eq.mpr (h x hx)

theorem body_append_of_exists (h : ∃ x ∈ l₁, x ≠ sep) : body sep (l₁ ++ l₂) = body sep l₁ ++ l₂ := by
  obtain ⟨x, hx, hne⟩ := h
  have hbody : body sep l₁ ≠ [] := fun hnil => hne (by
    simpa using List.dropWhile_eq_nil_iff.mp hnil x hx)
  unfold body at *
  rw [List.dropWhile_append, if_neg (by simpa using hbody)]

theorem pieces_replicate (k : ℕ) : pieces sep (List.replicate k sep ++ l) = k + pieces sep l := by
  induction k with
  | zero => simp
  | succ k ih =>
    rw [List.replicate_succ, List.cons_append, pieces, ih, if_pos (Or.inl rfl)]
    omega

/-- **A run of separators** stands for one of them just at the start of a list. -/
theorem segments_run_iff {k : ℕ} : segments sep (l₁ ++ List.replicate (k + 1) sep ++ l₂) =
    segments sep (l₁ ++ List.replicate 1 sep ++ l₂) ↔ k = 0 ∨ ∀ x ∈ l₁, x = sep := by
  have hrun : ∀ n, ∀ x ∈ List.replicate n sep, x = sep := fun n x hx => List.eq_of_mem_replicate hx
  by_cases hall : ∀ x ∈ l₁, x = sep
  · refine iff_of_true (segments_congr ?_) (Or.inr hall)
    rw [List.append_assoc, List.append_assoc, body_append_of_forall hall, body_append_of_forall hall,
      body_append_of_forall (hrun _), body_append_of_forall (hrun _)]
  · have hsome : ∃ x ∈ l₁, x ≠ sep := by simpa using hall
    have hlen (n : ℕ) : (segments sep (l₁ ++ List.replicate (n + 1) sep ++ l₂)).length =
        (body sep l₁).count sep + 1 + (n + pieces sep l₂) := by
      rw [length_segments, List.append_assoc, body_append_of_exists hsome, List.replicate_succ,
        List.cons_append, pieces_append, pieces_replicate]
    constructor
    · intro heq
      have h := congrArg List.length heq
      rw [hlen k, hlen 0] at h
      exact Or.inl (by omega)
    · rintro (rfl | h)
      · rfl
      · exact absurd h hall

end Segments
