import RpiBoot.Lib.Store

/-!
# Strings: cells of a store up to an end mark

`Str z f a l`: from cell `a` on, the store `f` holds the list `l` and then the end mark `z`, which is
not in the list.

* `str_append`: a string of two parts. `Str.cut`: a string that is ended early.
* `Str.congr`: only the cells of the string and its end matter.
* `scan`: the loop that looks for the first cell with a property.
* **`scan_str`**: in a string, it skips a `takeWhile`.
-/

namespace Store

variable {α : Type}

/-- The string `l`, ended by `z`, from cell `a` on. -/
def Str (z : α) (f : ℕ → α) : ℕ → List α → Prop
  | a, [] => f a = z
  | a, x :: l => x ≠ z ∧ f a = x ∧ Str z f (a + 1) l

/-- The first cell from `a` on that has the property `p`; `none` when the steps run out. -/
def scan (p : α → Bool) (f : ℕ → α) : ℕ → ℕ → Option ℕ
  | 0, _ => none
  | fuel + 1, a => if p (f a) then some a else scan p f fuel (a + 1)

variable {z : α} {f g : ℕ → α} {a n : ℕ} {l l₁ l₂ : List α}

theorem str_append : Str z f a (l₁ ++ l₂) ↔
    z ∉ l₁ ∧ slice f a l₁.length = l₁ ∧ Str z f (a + l₁.length) l₂ := by
  induction l₁ generalizing a with
  | nil => simp
  | cons x l₁ ih =>
    rw [List.cons_append, Str, ih, List.length_cons, slice_succ, List.cons_eq_cons,
      List.mem_cons, not_or, Nat.add_right_comm, Nat.add_assoc]
    constructor
    · rintro ⟨hx, ha, hz, hs, hl⟩
      exact ⟨⟨fun h => hx h.symm, hz⟩, ⟨ha, hs⟩, hl⟩
    · rintro ⟨⟨hx, hz⟩, ⟨ha, hs⟩, hl⟩
      exact ⟨fun h => hx h.symm, ha, hz, hs, hl⟩

theorem str_iff : Str z f a l ↔ z ∉ l ∧ slice f a l.length = l ∧ f (a + l.length) = z := by
  have h : Str z f a (l ++ []) ↔ z ∉ l ∧ slice f a l.length = l ∧ Str z f (a + l.length) [] :=
    str_append
  rwa [List.append_nil] at h

theorem Str.notMem (h : Str z f a l) : z ∉ l := (str_iff.mp h).1

theorem Str.slice_eq (h : Str z f a l) : slice f a l.length = l := (str_iff.mp h).2.1

theorem Str.stop (h : Str z f a l) : f (a + l.length) = z := (str_iff.mp h).2.2

/-- A list with an end mark behind it holds a string up to its own first end mark. -/
theorem str_takeWhile [BEq α] [LawfulBEq α] (h : slice f a l.length = l) (hz : f (a + l.length) = z) :
    Str z f a (l.takeWhile (· != z)) := by
  induction l generalizing a with
  | nil => exact hz
  | cons x l ih =>
    rw [List.length_cons, slice_succ, List.cons.injEq] at h
    rw [List.length_cons, Nat.add_comm l.length 1, ← Nat.add_assoc] at hz
    by_cases hx : x = z
    · subst hx
      rw [List.takeWhile_cons_of_neg (by simp)]
      exact h.1
    · rw [List.takeWhile_cons_of_pos (by simpa using hx)]
      exact ⟨hx, h.1, ih h.2 hz⟩

/-- Only the cells of the string and its end matter. -/
theorem Str.congr (h : Str z f a l) (hg : ∀ i, a ≤ i → i ≤ a + l.length → g i = f i) :
    Str z g a l := by
  obtain ⟨hz, hs, he⟩ := str_iff.mp h
  refine str_iff.mpr ⟨hz, ?_, ?_⟩
  · rw [← hs, length_slice]
    exact slice_congr fun i hi => hg _ (by omega) (by omega)
  · rw [hg (a + l.length) (by omega) (Nat.le_refl _), he]

/-- The cells at the start of a string. -/
theorem Str.slice_eq_iff (h : Str z f a l) (hz : z ∉ l₁) :
    slice f a l₁.length = l₁ ↔ l₁ <+: l := by
  induction l₁ generalizing a l with
  | nil => simp
  | cons x l₁ ih =>
    have hzx : z ≠ x := fun hx => hz (hx ▸ List.mem_cons_self)
    have hz' : z ∉ l₁ := fun hmem => hz (List.mem_cons_of_mem x hmem)
    rw [List.length_cons, slice_succ, List.cons_eq_cons]
    cases l with
    | nil =>
      have ha : f a = z := h
      rw [ha]
      exact iff_of_false (fun hno => hzx hno.1) fun hno => by simpa using hno.length_le
    | cons y l =>
      obtain ⟨-, rfl, hl⟩ := h
      rw [ih hl hz', List.cons_prefix_cons, eq_comm]

/-- A string that lies outside the range of a change. -/
theorem Str.agreeOff {b c : ℕ} (h : Str z f a l) (hg : AgreeOff f g b c)
    (hd : a + l.length < b ∨ c ≤ a) : Str z g a l :=
  h.congr fun i h₁ h₂ => hg i (by omega)

/-- A string is ended early by writing the end mark. -/
theorem Str.cut (h : Str z f a (l₁ ++ l₂)) : Str z (Function.update f (a + l₁.length) z) a l₁ := by
  obtain ⟨hz, hs, -⟩ := str_append.mp h
  refine str_iff.mpr ⟨hz, ?_, Function.update_self ..⟩
  rw [← hs, length_slice]
  exact slice_congr fun i hi => Function.update_of_ne (by omega) _ _

/-- **Scanning a string** for a property that the end mark has. -/
theorem scan_str {p : α → Bool} (h : Str z f a l) (hz : p z = true) (hn : l.length < n) :
    scan p f n a = some (a + (l.takeWhile fun x => !p x).length) := by
  induction l generalizing a n with
  | nil =>
    obtain ⟨n, rfl⟩ : ∃ k, n = k + 1 := ⟨n - 1, by simp at hn; omega⟩
    have ha : f a = z := h
    rw [scan, ha, if_pos hz]
    rfl
  | cons x l ih =>
    obtain ⟨n, rfl⟩ : ∃ k, n = k + 1 := ⟨n - 1, by simp at hn; omega⟩
    obtain ⟨-, ha, hl⟩ := h
    rw [scan, ha]
    by_cases hx : p x = true
    · simp [hx]
    · rw [if_neg hx, ih hl (by simpa using hn), List.takeWhile_cons_of_pos (by simpa using hx),
        List.length_cons]
      congr 1
      omega

end Store
