import Mathlib.Data.List.Lex
import RpiBoot.Lib.Store

/-!
# Words: periods and maximal suffixes

A word is the cells below `l` of a store; its suffixes are compared as lists, by an order `r` of the cells.

* `Periodic`: the cells of a range repeat. `SuffixLt`: one suffix comes before another.
* `MaxSuffix`: the suffix from `m` on is maximal, and `p` is its period.
* `RepeatsAt`: a repetition of `d` cells around the position `m`, as far as the word goes.
* **`MaxSuffix.critical`**: at the later of the two maximal suffixes, by `r` and by the opposite order, every
  repetition is a period of the word.
* `SuffixScan`: the state of a search for the maximal suffix, with a lemma for each of its four steps.
-/

namespace Words

open Store Function

variable {α : Type} {r : α → α → Prop} {x : ℕ → α} {l : ℕ}

/-! ## Periods -/

/-- The cells of `[a, b)` repeat after `p` cells. -/
def Periodic (x : ℕ → α) (a b p : ℕ) : Prop := ∀ i, a ≤ i → i + p < b → x i = x (i + p)

theorem Periodic.mul {a b p : ℕ} (h : Periodic x a b p) (k : ℕ) {i : ℕ} (hi : a ≤ i) (hb : i + k * p < b) :
    x i = x (i + k * p) := by
  induction k with
  | zero => simp
  | succ k ih =>
    rw [Nat.add_mul, Nat.one_mul, ← Nat.add_assoc] at hb ⊢
    rw [ih (by omega)]
    exact h _ (by omega) hb

theorem Periodic.mono {a b a' b' p : ℕ} (h : Periodic x a b p) (ha : a ≤ a') (hb : b' ≤ b) :
    Periodic x a' b' p :=
  fun i hi hip => h i (by omega) (by omega)

/-! ## Comparing suffixes -/

/-- The suffix from `s` on comes before the suffix from `t` on. -/
def SuffixLt (r : α → α → Prop) (x : ℕ → α) (l s t : ℕ) : Prop :=
  List.Lex r (slice x s (l - s)) (slice x t (l - t))

theorem lex_append_iff [Std.Irrefl r] {a b c : List α} :
    List.Lex r (a ++ b) (a ++ c) ↔ List.Lex r b c := by
  induction a with
  | nil => rfl
  | cons y a ih => rw [List.cons_append, List.cons_append, List.lex_cons_iff, ih]

/-- What comes first in an order and in its opposite is a beginning. -/
theorem isPrefix_of_lex [Std.Asymm r] {a b : List α} (h : List.Lex r a b) (h' : List.Lex (swap r) a b) :
    a <+: b := by
  induction h with
  | nil => exact List.nil_prefix
  | cons _ ih =>
    cases h' with
    | cons h' => exact (List.prefix_cons_inj _).mpr (ih h')
    | rel h' => exact absurd h' (irrefl_of r _)
  | rel h =>
    cases h' with
    | cons _ => exact absurd h (irrefl_of r _)
    | rel h' => exact absurd h' (asymm_of r h)

section Suffixes

variable {s t k : ℕ}

theorem suffix_split (h : s + k ≤ l) : slice x s (l - s) = slice x s k ++ slice x (s + k) (l - (s + k)) := by
  rw [← slice_add]
  congr 1
  omega

/-- A first difference decides. -/
theorem suffixLt_of_differ (hs : s + k < l) (ht : t + k < l) (heq : ∀ j < k, x (s + j) = x (t + j))
    (h : r (x (s + k)) (x (t + k))) : SuffixLt r x l s t := by
  have hrest (u : ℕ) (hu : u + k < l) : slice x (u + k) (l - (u + k)) =
      x (u + k) :: slice x (u + k + 1) (l - (u + k) - 1) := by
    rw [← slice_succ]
    congr 1
    omega
  rw [SuffixLt, suffix_split hs.le, suffix_split ht.le, slice_congr heq, hrest s hs, hrest t ht]
  exact (List.Lex.rel h).append_left r _

/-- A beginning of a longer suffix comes before it. -/
theorem suffixLt_of_prefix (hts : t < s) (hs : s ≤ l) (heq : ∀ j, s + j < l → x (s + j) = x (t + j)) :
    SuffixLt r x l s t := by
  have hsame : slice x s (l - s) = slice x t (l - s) := slice_congr fun j hj => heq j (by omega)
  obtain ⟨n, hn⟩ : ∃ n, l - (t + (l - s)) = n + 1 := ⟨s - t - 1, by omega⟩
  rw [SuffixLt, suffix_split (k := l - s) (show t + (l - s) ≤ l by omega), hsame, hn, slice_succ]
  have := List.Lex.append_left r (@List.Lex.nil α r (x (t + (l - s))) (slice x (t + (l - s) + 1) n))
    (slice x t (l - s))
  rwa [List.append_nil] at this

/-- What two suffixes have in common is left out. -/
theorem suffixLt_add_iff [Std.Irrefl r] (hs : s + k ≤ l) (ht : t + k ≤ l)
    (heq : ∀ j < k, x (s + j) = x (t + j)) : SuffixLt r x l s t ↔ SuffixLt r x l (s + k) (t + k) := by
  rw [SuffixLt, suffix_split hs, suffix_split ht, slice_congr heq, lex_append_iff]
  rfl

theorem SuffixLt.not_gt [Std.Asymm r] (h : SuffixLt r x l s t) : ¬ SuffixLt r x l t s :=
  asymm_of (List.Lex r) h

theorem SuffixLt.trans [IsTrans α r] {u : ℕ} (h₁ : SuffixLt r x l s t) (h₂ : SuffixLt r x l t u) :
    SuffixLt r x l s u :=
  List.lex_trans (fun h₁ h₂ => trans_of r h₁ h₂) h₁ h₂

theorem prefix_of_suffixLt [Std.Asymm r] (h : SuffixLt r x l s t) (h' : SuffixLt (swap r) x l s t) {j : ℕ}
    (hj : s + j < l) : x (s + j) = x (t + j) := by
  have hpre := isPrefix_of_lex h h'
  have hlen := hpre.length_le
  rw [length_slice, length_slice] at hlen
  have hget := hpre.getElem (show j < (slice x s (l - s)).length by rw [length_slice]; omega)
  rwa [getElem_slice, getElem_slice] at hget

end Suffixes

/-! ## Maximal suffixes -/

/-- The suffix from `m` on is maximal and repeats after `p` cells, but within its first `p` cells every later
suffix is smaller by a difference. -/
structure MaxSuffix (r : α → α → Prop) (x : ℕ → α) (l m p : ℕ) : Prop where
  pos : 0 < p
  le : m + p ≤ l
  max : ∀ s < m, SuffixLt r x l s m
  periodic : Periodic x m l p
  root : ∀ d, 0 < d → d < p → ∃ t, d + t < p ∧ (∀ j < t, x (m + d + j) = x (m + j)) ∧
    r (x (m + d + t)) (x (m + t))

/-- A repetition of `d` cells around position `m`, as far as the word goes. -/
def RepeatsAt (x : ℕ → α) (l m d : ℕ) : Prop := ∀ i < m, m ≤ i + d → i + d < l → x i = x (i + d)

section MaxSuffix

variable {m p d s : ℕ}

/-- The suffixes behind the maximal one are smaller. -/
theorem MaxSuffix.lt_of_gt (h : MaxSuffix r x l m p) (hms : m < s) (hs : s ≤ l) : SuffixLt r x l s m := by
  -- the place in the period at which the suffix starts
  obtain ⟨q, e, he, rfl⟩ : ∃ q e, e < p ∧ s = m + e + q * p :=
    ⟨(s - m) / p, (s - m) % p, Nat.mod_lt _ h.pos, by
      have := Nat.mod_add_div (s - m) p
      rw [Nat.mul_comm] at this
      omega⟩
  have hshift : ∀ j, m + e + q * p + j < l → x (m + e + q * p + j) = x (m + e + j) := fun j hj => by
    rw [Nat.add_right_comm, ← h.periodic.mul q (by omega) (by omega)]
  rcases Nat.eq_zero_or_pos e with rfl | hpos
  · exact suffixLt_of_prefix hms hs hshift
  · obtain ⟨t, ht, heq, hlt⟩ := h.root e hpos he
    by_cases hst : m + e + q * p + t < l
    · refine suffixLt_of_differ hst (by omega) (fun j hj => ?_) ?_
      · rw [hshift j (by omega), heq j hj]
      · rwa [hshift t hst]
    · exact suffixLt_of_prefix hms hs fun j hj => by rw [hshift j hj, heq j (by omega)]

/-- The period is the least one of the suffix. -/
theorem MaxSuffix.le_of_periodic [Std.Irrefl r] (h : MaxSuffix r x l m p) (hd : 0 < d)
    (hper : Periodic x m l d) : p ≤ d := by
  by_contra hlt
  obtain ⟨t, ht, -, hr⟩ := h.root d hd (not_le.mp hlt)
  have hle := h.le
  rw [hper (m + t) (by omega) (by omega), Nat.add_right_comm] at hr
  exact irrefl_of r _ hr

/-- A repetition is longer than what comes before the maximal suffix. -/
theorem MaxSuffix.lt_of_repeats [Std.Asymm r] (h : MaxSuffix r x l m p) (hd : 0 < d)
    (hrep : RepeatsAt x l m d) : m < d := by
  by_contra hle
  have hle := not_lt.mp hle
  have heq : ∀ j < d, m + j < l → x (m - d + j) = x (m + j) := fun j hj hjl => by
    have hadd : m - d + j + d = m + j := by omega
    rw [hrep (m - d + j) (by omega) (by omega) (by omega), hadd]
  have hmax := h.max (m - d) (by omega)
  by_cases hlen : m + d ≤ l
  · have hcut := (suffixLt_add_iff (show m - d + d ≤ l by omega) hlen fun j hj => heq j hj (by omega)).mp hmax
    rw [Nat.sub_add_cancel hle] at hcut
    exact hcut.not_gt (h.lt_of_gt (by omega) hlen)
  · have hpre : SuffixLt r x l m (m - d) :=
      suffixLt_of_prefix (by omega) (by have := h.le; omega) fun j hj => (heq j (by omega) hj).symm
    exact hpre.not_gt hmax

variable {m' p' : ℕ}

/-- **Critical factorization.** At the later of the two maximal suffixes every repetition is a period of the
word, and longer than what comes before the suffix. -/
theorem MaxSuffix.critical [Std.Asymm r] (h : MaxSuffix r x l m p) (h' : MaxSuffix (swap r) x l m' p')
    (hle : m' ≤ m) (hd : 0 < d) (hrep : RepeatsAt x l m d) : m < d ∧ Periodic x 0 l d := by
  have hmd := h.lt_of_repeats hd hrep
  refine ⟨hmd, fun i _ hi => ?_⟩
  rcases Nat.lt_or_ge i m with him | him
  · exact hrep i him (by omega) hi
  -- the rest behind the repetition comes before the suffix in both orders
  have hlt : SuffixLt r x l (m + d) m := h.lt_of_gt (by omega) (by omega)
  have hlt' : SuffixLt (swap r) x l (m + d) m := by
    have hmax := h'.lt_of_gt (s := m' + d) (by omega) (by omega)
    have hcut := (suffixLt_add_iff (k := m - m') (show m' + d + (m - m') ≤ l by omega)
      (show m' + (m - m') ≤ l by omega) fun j hj => by
        rw [hrep (m' + j) (by omega) (by omega) (by omega), Nat.add_right_comm]).mp hmax
    have hend : m' + d + (m - m') = m + d := by omega
    have hstart : m' + (m - m') = m := by omega
    rwa [hend, hstart] at hcut
  have hpre := prefix_of_suffixLt hlt hlt' (show m + d + (i - m) < l by omega)
  have hto : m + d + (i - m) = i + d := by omega
  have hfrom : m + (i - m) = i := by omega
  rw [hto, hfrom] at hpre
  exact hpre.symm

/-- When the word has a period that the maximal suffix is as long as, what comes before the suffix continues
its period. -/
theorem MaxSuffix.continues [Std.Asymm r] (h : MaxSuffix r x l m p) (h' : MaxSuffix (swap r) x l m' p')
    (hle : m' ≤ m) (hms : m < s) (hsl : m + s ≤ l) (hper : Periodic x 0 l s) :
    ∀ i < m, x i = x (i + p) := by
  have hps : p ≤ s := h.le_of_periodic (by omega) (hper.mono (by omega) le_rfl)
  obtain ⟨q, e, he, hs⟩ : ∃ q e, e < p ∧ s = e + q * p :=
    ⟨s / p, s % p, Nat.mod_lt _ h.pos, by rw [Nat.mul_comm, Nat.mod_add_div]⟩
  rcases Nat.eq_zero_or_pos e with rfl | hpos
  · -- the period of the word is a multiple of that of the suffix
    intro i hi
    obtain ⟨k, rfl⟩ : ∃ k, q = k + 1 := ⟨q - 1, by rcases q with _ | q <;> omega⟩
    rw [Nat.zero_add, Nat.add_mul, Nat.one_mul] at hs
    rw [hper i (by omega) (by omega)]
    rcases Nat.lt_or_ge (i + p) m with hip | hip
    · rw [hper (i + p) (by omega) (by omega), h.periodic (i + s) (by omega) (by omega), Nat.add_right_comm]
    · rw [h.periodic.mul k hip (by omega)]
      congr 1
      omega
  -- otherwise a maximal suffix is not maximal
  exfalso
  have hback : ∀ j, j < e → x (m + s - e + j) = x (m + j) := fun j hj => by
    have hadd : m + s - e + j = m + j + q * p := by omega
    rw [hadd, ← h.periodic.mul q (by omega) (by omega)]
  have hgt : SuffixLt r x l (m + e) m := h.lt_of_gt (by omega) (by have := h.le; omega)
  have hle' := h.le
  rcases Nat.lt_or_ge m e with hme | hme
  · have hmax := h'.lt_of_gt (s := m + e - (m - m')) (by omega) (by omega)
    have hcut := (suffixLt_add_iff (k := m - m') (show m + e - (m - m') + (m - m') ≤ l by omega)
      (show m' + (m - m') ≤ l by omega) fun j hj => by
        rw [hper (m' + j) (by omega) (by omega)]
        have hto : m' + j + s = m + s - e + (e - (m - m') + j) := by omega
        have hfrom : m + e - (m - m') + j = m + (e - (m - m') + j) := by omega
        rw [hto, hfrom, hback _ (by omega)]).mp hmax
    have hend : m + e - (m - m') + (m - m') = m + e := by omega
    have hstart : m' + (m - m') = m := by omega
    rw [hend, hstart] at hcut
    obtain ⟨t, ht, heq, hr⟩ := h.root e hpos he
    have hopp : SuffixLt (swap r) x l m (m + e) :=
      suffixLt_of_differ (k := t) (by omega) (by omega) (fun j hj => (heq j hj).symm) hr
    exact hopp.not_gt hcut
  · have hmax := h.max (m - e) (by omega)
    have hcut := (suffixLt_add_iff (k := e) (show m - e + e ≤ l by omega) (show m + e ≤ l by omega)
      fun j hj => by
        rw [hper (m - e + j) (by omega) (by omega)]
        have hto : m - e + j + s = m + s - e + j := by omega
        rw [hto, hback j hj]).mp hmax
    rw [Nat.sub_add_cancel hme] at hcut
    exact hcut.not_gt hgt

end MaxSuffix

/-! ## The search for the maximal suffix -/

/-- The state of the search: the candidate starts at `i`, the copy of its period that is compared with it at
`j + 1`, and its first `k - 1` cells are the same. -/
structure SuffixScan (r : α → α → Prop) (x : ℕ → α) (l i j k p : ℕ) : Prop where
  k_pos : 0 < k
  k_le : k ≤ p
  le : j + k ≤ l
  aligned : ∃ q, 0 < q ∧ j + 1 = i + q * p
  max : ∀ s < i, SuffixLt r x l s i
  periodic : Periodic x i (j + k) p
  root : ∀ d, 0 < d → d < p → ∃ t, d + t < p ∧ (∀ j < t, x (i + d + j) = x (i + j)) ∧
    r (x (i + d + t)) (x (i + t))

section Scan

variable {i j k p : ℕ}

theorem suffixScan_init (h : 0 < l) : SuffixScan r x l 0 0 1 1 :=
  ⟨Nat.one_pos, le_rfl, h, ⟨1, Nat.one_pos, rfl⟩, fun _ hs => absurd hs (Nat.not_lt_zero _),
    fun _ _ hi => absurd hi (by omega), fun _ h₁ h₂ => absurd h₂ (by omega)⟩

/-- At the end of the word the candidate is maximal. -/
theorem SuffixScan.maxSuffix (h : SuffixScan r x l i j k p) (hend : l ≤ j + k) : MaxSuffix r x l i p := by
  obtain ⟨q, hq, hj⟩ := h.aligned
  have hqp : 1 * p ≤ q * p := Nat.mul_le_mul_right p hq
  have hk := h.k_pos
  have hle := h.le
  refine ⟨by have := h.k_le; omega, by omega, h.max, ?_, h.root⟩
  have hall : j + k = l := by omega
  exact hall ▸ h.periodic

/-- The cell with which the candidate is compared, as one of its first period. -/
theorem SuffixScan.copy (h : SuffixScan r x l i j k p) {t : ℕ} (ht : t + 1 < k) :
    x (j + 1 + t) = x (i + t) := by
  obtain ⟨q, -, hj⟩ := h.aligned
  rw [hj, Nat.add_right_comm, ← h.periodic.mul q (by omega) (by omega)]

/-- The cells are the same: the period goes on. -/
theorem SuffixScan.extend (h : SuffixScan r x l i j k p)
    (heq : x (i + k - 1) = x (j + k)) : Periodic x i (j + k + 1) p := by
  obtain ⟨q, hq, hj⟩ := h.aligned
  have hk := h.k_pos
  have hkp := h.k_le
  intro a ha hap
  rcases Nat.lt_or_ge (a + p) (j + k) with hlt | hge
  · exact h.periodic a ha hlt
  · -- the new cell repeats the one a period before it
    obtain ⟨q, rfl⟩ : ∃ n, q = n + 1 := ⟨q - 1, by omega⟩
    rw [Nat.add_mul, Nat.one_mul] at hj
    have hnew : a + p = j + k := by omega
    have hold : a = i + k - 1 + q * p := by omega
    rw [hnew, ← heq, hold, ← h.periodic.mul q (by omega) (by omega)]

theorem SuffixScan.step_eq (h : SuffixScan r x l i j k p) (hend : j + k < l)
    (heq : x (i + k - 1) = x (j + k)) (hkp : k ≠ p) : SuffixScan r x l i j (k + 1) p :=
  ⟨Nat.succ_pos k, by have := h.k_le; omega, hend, h.aligned, h.max, h.extend heq, h.root⟩

theorem SuffixScan.step_wrap (h : SuffixScan r x l i j k p) (hend : j + k < l)
    (heq : x (i + k - 1) = x (j + k)) (hkp : k = p) : SuffixScan r x l i (j + p) 1 p := by
  obtain ⟨q, hq, hj⟩ := h.aligned
  have hper := h.extend heq
  refine ⟨Nat.one_pos, ?_, ?_, ⟨q + 1, Nat.succ_pos q, ?_⟩, h.max, ?_, h.root⟩
  · have := h.k_pos
    omega
  · omega
  · rw [Nat.add_mul, Nat.one_mul]
    omega
  · rwa [hkp] at hper

/-- The word goes on with a smaller cell: all of it is the period. -/
theorem SuffixScan.step_gt [IsTrans α r] (h : SuffixScan r x l i j k p) (hend : j + k < l)
    (hr : r (x (j + k)) (x (i + k - 1))) : SuffixScan r x l i (j + k) 1 (j + k + 1 - i) := by
  obtain ⟨q, hq, hj⟩ := h.aligned
  have hk := h.k_pos
  have hkp := h.k_le
  have hqp : 1 * p ≤ q * p := Nat.mul_le_mul_right p hq
  refine ⟨Nat.one_pos, by omega, hend, ⟨1, Nat.one_pos, by omega⟩, h.max, fun a ha hap => by omega,
    fun d hd hdp => ?_⟩
  -- where in a period the smaller suffix starts
  obtain ⟨c, e, he, rfl⟩ : ∃ c e, e < p ∧ d = e + c * p :=
    ⟨d / p, d % p, Nat.mod_lt _ (by omega), by rw [Nat.mul_comm, Nat.mod_add_div]⟩
  have hshift : ∀ t, i + (e + c * p) + t < j + k → x (i + (e + c * p) + t) = x (i + e + t) := fun t ht => by
    have hadd : i + (e + c * p) + t = i + e + t + c * p := by omega
    rw [hadd, ← h.periodic.mul c (by omega) (by omega)]
  -- the difference is at the new cell, unless it comes before that
  have hnew : ∀ t, i + (e + c * p) + t = j + k → (∀ n < t, x (i + e + n) = x (i + n)) →
      x (i + t) = x (i + k - 1) → ∃ t, e + c * p + t < j + k + 1 - i ∧
        (∀ n < t, x (i + (e + c * p) + n) = x (i + n)) ∧ r (x (i + (e + c * p) + t)) (x (i + t)) :=
    fun t ht heq hlast => ⟨t, by omega, fun n hn => by rw [hshift n (by omega), heq n hn], by
      rwa [ht, hlast]⟩
  rcases Nat.eq_zero_or_pos e with rfl | hpos
  · obtain ⟨u, rfl⟩ : ∃ u, q = c + u := ⟨q - c, by
      have hcq : c ≤ q := by
        by_contra hlt
        have := Nat.mul_le_mul_right p (show q + 1 ≤ c by omega)
        rw [Nat.add_mul, Nat.one_mul] at this
        omega
      omega⟩
    rw [Nat.add_mul] at hj
    refine hnew (u * p + (k - 1)) (by omega) (fun n _ => rfl) ?_
    have hcp : 0 < c * p := by omega
    have hadd : i + (u * p + (k - 1)) = i + k - 1 + u * p := by omega
    rw [hadd, ← h.periodic.mul u (by omega) (by omega)]
  · obtain ⟨t, ht, heq, hlt⟩ := h.root e hpos he
    rcases Nat.lt_or_ge (i + (e + c * p) + t) (j + k) with hin | hout
    · refine ⟨t, by omega, fun n hn => ?_, ?_⟩
      · rw [hshift n (by omega), heq n hn]
      · rwa [hshift t hin]
    · -- the copy at `j + 1` ends with the new cell
      have hcq : c = q := by
        rcases Nat.lt_trichotomy c q with hlt | rfl | hlt
        · have := Nat.mul_le_mul_right p (show c + 1 ≤ q by omega)
          rw [Nat.add_mul, Nat.one_mul] at this
          omega
        · rfl
        · have := Nat.mul_le_mul_right p (show q + 1 ≤ c by omega)
          rw [Nat.add_mul, Nat.one_mul] at this
          omega
      subst hcq
      rcases Nat.lt_or_ge (k - 1 - e) t with hbefore | hsame
      · refine hnew (k - 1 - e) (by omega) (fun n hn => heq n (by omega)) ?_
        rw [← heq _ hbefore]
        congr 1
        omega
      · have hte : t = k - 1 - e := by omega
        refine ⟨t, by omega, fun n hn => by rw [hshift n (by omega), heq n hn], ?_⟩
        have hat : i + (e + c * p) + t = j + k := by omega
        have hcell : i + e + t = i + k - 1 := by omega
        rw [hcell] at hlt
        rw [hat]
        exact trans_of r hr hlt

/-- The word goes on with a larger cell: the copy is the candidate. -/
theorem SuffixScan.step_lt [IsTrans α r] (h : SuffixScan r x l i j k p) (hend : j + k < l)
    (hr : r (x (i + k - 1)) (x (j + k))) : SuffixScan r x l (j + 1) (j + 1) 1 1 := by
  obtain ⟨q, hq, hj⟩ := h.aligned
  have hk := h.k_pos
  have hkp := h.k_le
  have hcand : SuffixLt r x l i (j + 1) := by
    refine suffixLt_of_differ (k := k - 1) (by omega) (by omega) (fun t ht => (h.copy (by omega)).symm) ?_
    have hold : i + (k - 1) = i + k - 1 := by omega
    have hnew : j + 1 + (k - 1) = j + k := by omega
    rwa [hold, hnew]
  refine ⟨Nat.one_pos, le_rfl, by omega, ⟨1, Nat.one_pos, by omega⟩, fun s hs => ?_,
    fun a ha hap => by omega, fun d h₁ h₂ => by omega⟩
  rcases Nat.lt_or_ge s i with hsi | hsi
  · exact (h.max s hsi).trans hcand
  -- a suffix that starts in the periods of the candidate
  obtain ⟨c, e, he, rfl⟩ : ∃ c e, e < p ∧ s = i + e + c * p :=
    ⟨(s - i) / p, (s - i) % p, Nat.mod_lt _ (by omega), by
      have := Nat.mod_add_div (s - i) p
      rw [Nat.mul_comm] at this
      omega⟩
  have hcq : c + 1 ≤ q := by
    by_contra hlt
    have := Nat.mul_le_mul_right p (show q ≤ c by omega)
    omega
  have hcp := Nat.mul_le_mul_right p hcq
  rw [Nat.add_mul, Nat.one_mul] at hcp
  have hshift : ∀ t, i + e + c * p + t < j + k → x (i + e + c * p + t) = x (i + e + t) := fun t ht => by
    rw [Nat.add_right_comm, ← h.periodic.mul c (by omega) (by omega)]
  rcases Nat.eq_zero_or_pos e with rfl | hpos
  · refine suffixLt_of_differ (k := k - 1) (by omega) (by omega) (fun t ht => ?_) ?_
    · rw [hshift t (by omega), h.copy (by omega)]
      rfl
    · have hnew : j + 1 + (k - 1) = j + k := by omega
      have hold : i + 0 + (k - 1) = i + k - 1 := by omega
      rw [hnew, hshift _ (by omega), hold]
      exact hr
  · obtain ⟨t, ht, heq, hlt⟩ := h.root e hpos he
    refine SuffixLt.trans (suffixLt_of_differ (k := t) (by omega) (by omega) (fun n hn => ?_) ?_) hcand
    · rw [hshift n (by omega), heq n hn]
    · rwa [hshift t (by omega)]

end Scan

end Words
