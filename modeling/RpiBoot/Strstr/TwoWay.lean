import RpiBoot.Lib.Words
import RpiBoot.Strstr.Short

/-!
# Long needles

The needle is cut where its later maximal suffix starts. A repetition there is a period of the needle, so
that nothing occurs in what the search skips.

* `suffixLoop_spec`: the loop finds the maximal suffix and its period.
* `Split`: what the search relies on. **`splitNeedle_spec`**: the needle is split so.
* `Matched`: the state of the search. `matched_right`, `matched_left`, `matched_last`: what each of its shifts
  skips.
* **`searchLoop_found`**, **`twowayStrstr_found`**: the search finds the first occurrence.
-/

namespace RpiBoot.Strstr

open Store Words

variable {ram : Mem} {h n l stop fuel : ℕ}

/-! ## The tables -/

/-- The tables hold the characters of the needle, each with its last position. -/
structure Filled (ram : Mem) (n l : ℕ) (t : Tables) : Prop where
  mem_iff : ∀ c, t.byteset c = true ↔ ∃ i < l, ram (n + i) = c
  last : ∀ c, t.byteset c = true → ∃ j < l, t.shift c = j + 1 ∧ ram (n + j) = c ∧
    ∀ i < l, ram (n + i) = c → i ≤ j

theorem Filled.add {t : Tables} (ht : Filled ram n l t) : Filled ram n (l + 1) (t.add (ram (n + l)) l) := by
  have hset : ∀ c, (t.add (ram (n + l)) l).byteset c = true ↔ c = ram (n + l) ∨ t.byteset c = true := by
    intro c
    by_cases hc : c = ram (n + l) <;> simp [Tables.add, Function.update, hc]
  refine ⟨fun c => ?_, fun c hc => ?_⟩
  · rw [hset, ht.mem_iff]
    constructor
    · rintro (rfl | ⟨i, hi, hic⟩)
      · exact ⟨l, Nat.lt_succ_self l, rfl⟩
      · exact ⟨i, hi.trans (Nat.lt_succ_self l), hic⟩
    · rintro ⟨i, hi, rfl⟩
      rcases Nat.lt_succ_iff_lt_or_eq.mp hi with hi | rfl
      · exact Or.inr ⟨i, hi, rfl⟩
      · exact Or.inl rfl
  · by_cases hnew : c = ram (n + l)
    · subst hnew
      exact ⟨l, Nat.lt_succ_self l, by simp [Tables.add], rfl, fun i hi _ => Nat.le_of_lt_succ hi⟩
    · obtain ⟨j, hj, hshift, hat, hlast⟩ := ht.last c (((hset c).mp hc).resolve_left hnew)
      refine ⟨j, hj.trans (Nat.lt_succ_self l), ?_, hat, fun i hi hic => ?_⟩
      · simp [Tables.add, Function.update, hnew, hshift]
      · rcases Nat.lt_succ_iff_lt_or_eq.mp hi with hi | rfl
        · exact hlast i hi hic
        · exact absurd hic.symm hnew

/-- The loop ends at the end of the needle, with the tables filled, or at that of the haystack. -/
theorem fillTables_spec (fuel : ℕ) {len i : ℕ} {t : Tables} (hs : Haystack ram h stop)
    (hn : ∀ i < len, ram (n + i) ≠ 0) (hend : ram (n + len) = 0) (hi : i ≤ len) (hh : h + i ≤ stop)
    (ht : Filled ram n i t)
    (hfuel : len < i + fuel) :
    ∃ l t', fillTables ram h n fuel i t = some (l, t') ∧ (ram (n + l) ≠ 0 → stop < h + len) ∧
      (ram (n + l) = 0 → l = len ∧ Filled ram n len t') := by
  induction fuel generalizing i t with
  | zero => exact absurd hi (by omega)
  | succ fuel ih =>
    rw [fillTables]
    split_ifs with hgo
    · have hlt : i < len := hi.lt_of_ne fun he => hgo.1 (he ▸ hend)
      have hlt' : h + i < stop := hh.lt_of_ne fun he => hgo.2 (he ▸ hs.stop_eq)
      exact ih hlt hlt' ht.add (by omega)
    · refine ⟨i, t, rfl, fun hne => ?_, fun hz => ?_⟩
      · have hlt : i < len := hi.lt_of_ne fun he => hne (he ▸ hend)
        by_contra hle
        exact hgo ⟨hne, hs.ne _ (Nat.le_add_right h i) (by omega)⟩
      · have he : i = len := by
          by_contra hne
          exact hn i (by omega) hz
        exact ⟨he, he ▸ ht⟩

/-! ## The maximal suffix -/

/-- **The loop finds the maximal suffix.** -/
theorem suffixLoop_spec {r : UInt8 → UInt8 → Prop} [DecidableRel r] [IsTrans UInt8 r] (ram : Mem) (n fuel : ℕ)
    (htotal : ∀ a b, a ≠ b → ¬ r a b → r b a) {i j k p : ℕ}
    (hscan : SuffixScan r (window ram n) l i j k p) (hfuel : 2 * l < i + j + k + fuel) :
    ∃ m p', suffixLoop ram r n l fuel i j k p = some (m, p') ∧ MaxSuffix r (window ram n) l m p' := by
  have hle := hscan.le
  have hk := hscan.k_le
  obtain ⟨q, hq, hj⟩ := hscan.aligned
  have hqp : 1 * p ≤ q * p := Nat.mul_le_mul_right p hq
  induction fuel generalizing i j k p q with
  | zero =>
    have := hscan.k_pos
    omega
  | succ fuel ih =>
    rw [suffixLoop]
    split_ifs with hend heq hkp hr
    · have hnext := hscan.step_wrap hend heq hkp
      obtain ⟨q', hq', hj'⟩ := hnext.aligned
      exact ih hnext (by omega) hnext.le hnext.k_le q' hq' hj' (Nat.mul_le_mul_right _ hq')
    · have hnext := hscan.step_eq hend heq hkp
      exact ih hnext (by omega) hnext.le hnext.k_le q hq hj hqp
    · have hnext := hscan.step_gt hend hr
      obtain ⟨q', hq', hj'⟩ := hnext.aligned
      exact ih hnext (by omega) hnext.le hnext.k_le q' hq' hj' (Nat.mul_le_mul_right _ hq')
    · have hnext := hscan.step_lt hend (htotal _ _ (Ne.symm heq) hr)
      obtain ⟨q', hq', hj'⟩ := hnext.aligned
      exact ih hnext (by omega) hnext.le hnext.k_le q' hq' hj' (Nat.mul_le_mul_right _ hq')
    · exact ⟨i, p, rfl, hscan.maxSuffix (not_lt.mp hend)⟩

theorem memcmp_eq_zero {a b : ℕ} (k : ℕ) : memcmp ram k a b = 0 ↔ ∀ i < k, ram (a + i) = ram (b + i) := by
  induction k generalizing a b with
  | zero => simp [memcmp]
  | succ k ih =>
    have hsub : ((ram a).toNat : ℤ) - (ram b).toNat = 0 ↔ ram a = ram b := by
      rw [← UInt8.toNat_inj]
      omega
    rw [memcmp]
    split_ifs with hv
    · refine iff_of_false hv fun hall => hv (hsub.mpr (hall 0 (Nat.succ_pos k)))
    · rw [ih, Nat.forall_lt_succ_left]
      simp only [Nat.add_assoc, Nat.add_comm 1, Nat.add_zero]
      exact (and_iff_right (hsub.mp (not_not.mp hv))).symm

/-- What the search relies on: a repetition at the cut is a period of the needle, at least as long as the
shift `p`; and when cells are remembered, `p` is a period. -/
structure Split (ram : Mem) (n l : ℕ) (t : Tables) (nd : Needle) : Prop where
  l_eq : nd.l = l
  tables_eq : nd.tables = t
  ms1_lt : nd.ms1 < l
  p_pos : 0 < nd.p
  p_le : nd.p ≤ l
  critical : ∀ d, 0 < d → RepeatsAt (window ram n) l nd.ms1 d →
    nd.ms1 < d ∧ Periodic (window ram n) 0 l d ∧ nd.p ≤ d
  remembered : nd.mem0 ≠ 0 → nd.mem0 = l - nd.p ∧ nd.ms1 < nd.p ∧ Periodic (window ram n) 0 l nd.p

/-- The cut at the later of two maximal suffixes. -/
theorem split_of_maxSuffix {r : UInt8 → UInt8 → Prop} [Std.Asymm r] {m p m' p' : ℕ} {t : Tables}
    (h₁ : MaxSuffix r (window ram n) l m p) (h₂ : MaxSuffix (Function.swap r) (window ram n) l m' p')
    (hle : m' ≤ m) :
    Split ram n l t (if memcmp ram m n (n + p) ≠ 0 then ⟨l, t, m, max (m - 1) (l - m) + 1, 0⟩
      else ⟨l, t, m, p, l - p⟩) := by
  have hle' := h₁.le
  have hpos := h₁.pos
  have hcmp : memcmp ram m n (n + p) = 0 ↔ ∀ i < m, window ram n i = window ram n (i + p) := by
    simp only [memcmp_eq_zero, window, Nat.add_assoc, Nat.add_comm p]
  have hcrit : ∀ d, 0 < d → RepeatsAt (window ram n) l m d → m < d ∧ Periodic (window ram n) 0 l d :=
    fun d => h₁.critical h₂ hle
  split_ifs with hne
  · have hm : 0 < m := Nat.pos_of_ne_zero fun h0 => hne (hcmp.mpr fun i hi => by omega)
    refine ⟨rfl, rfl, by dsimp only; omega, by dsimp only; omega, by dsimp only; omega,
      fun d hd hrep => ?_, fun h0 => absurd rfl h0⟩
    obtain ⟨hmd, hper⟩ := hcrit d hd hrep
    refine ⟨hmd, hper, ?_⟩
    have hlong : l < m + d := by
      by_contra hshort
      exact hne (hcmp.mpr (h₁.continues h₂ hle hmd (not_lt.mp hshort) hper))
    dsimp only at hmd ⊢
    omega
  · have hcont := hcmp.mp (not_not.mp hne)
    have hper : Periodic (window ram n) 0 l p := fun i _ hi =>
      (Nat.lt_or_ge i m).elim (hcont i) fun hge => h₁.periodic i hge hi
    refine ⟨rfl, rfl, by dsimp only; omega, hpos, by dsimp only; omega, fun d hd hrep => ?_,
      fun _ => ⟨rfl, h₁.lt_of_repeats hpos fun i _ _ hi => hper i (Nat.zero_le i) hi, hper⟩⟩
    obtain ⟨hmd, hper'⟩ := hcrit d hd hrep
    exact ⟨hmd, hper', h₁.le_of_periodic hd (hper'.mono (Nat.zero_le m) le_rfl)⟩

instance byteTrans : IsTrans UInt8 (· < ·) := ⟨fun _ _ _ => UInt8.lt_trans⟩

instance byteTransSwap : IsTrans UInt8 (· > ·) := ⟨fun _ _ _ h₁ h₂ => UInt8.lt_trans h₂ h₁⟩

instance byteAsymm : Std.Asymm (α := UInt8) (· < ·) := ⟨fun _ _ => UInt8.lt_asymm⟩

instance byteAsymmSwap : Std.Asymm (α := UInt8) (· > ·) := ⟨fun _ _ => UInt8.lt_asymm⟩

theorem byte_total {a b : UInt8} (hne : a ≠ b) (hlt : ¬ a < b) : b < a :=
  UInt8.lt_of_le_of_ne (UInt8.not_lt.mp hlt) hne.symm

/-- **Splitting the needle.** -/
theorem splitNeedle_spec (ram : Mem) (n : ℕ) (t : Tables) (hl : 0 < l) (hfuel : 2 * l ≤ fuel) :
    ∃ nd, splitNeedle ram fuel n l t = some nd ∧ Split ram n l t nd := by
  obtain ⟨m, p, hloop, hmax⟩ := suffixLoop_spec (r := (· < ·)) ram n fuel
    (fun a b => byte_total) (suffixScan_init hl) (by omega)
  obtain ⟨m', p', hloop', hmax'⟩ := suffixLoop_spec (r := (· > ·)) ram n fuel
    (fun a b hne => byte_total hne.symm) (suffixScan_init hl) (by omega)
  rw [splitNeedle, hloop, Option.bind_some, hloop', Option.map_some]
  refine ⟨_, rfl, ?_⟩
  by_cases hgt : m' > m
  · simp only [hgt, if_true]
    exact split_of_maxSuffix (r := (· > ·)) hmax' hmax hgt.le
  · simp only [hgt, if_false]
    exact split_of_maxSuffix (r := (· < ·)) hmax hmax' (not_lt.mp hgt)

/-! ## The loops of the search -/

theorem memchr_zero {z : ℕ} (hs : Haystack ram z stop) (k : ℕ) :
    memchr ram 0 k z = if stop < z + k then some stop else none := by
  induction k generalizing z with
  | zero => rw [if_neg (by have := hs.le; omega)]; rfl
  | succ k ih =>
    rw [memchr]
    split_ifs with hz hk hk
    · have he : z = stop := by
        by_contra hne
        exact hs.ne z le_rfl (hs.le.lt_of_ne hne) hz
      rw [he]
    · have he : z = stop := by
        by_contra hne
        exact hs.ne z le_rfl (hs.le.lt_of_ne hne) hz
      omega
    · have hlt : z < stop := hs.le.lt_of_ne fun he => hz (he ▸ hs.stop_eq)
      rw [ih (hs.drop (Nat.le_succ z) hlt), if_pos (by omega)]
    · have hlt : z < stop := hs.le.lt_of_ne fun he => hz (he ▸ hs.stop_eq)
      rw [ih (hs.drop (Nat.le_succ z) hlt), if_neg (by omega)]

/-- The end of the haystack is looked for before cells of it are compared. -/
theorem growEnd_spec {z : ℕ} (hs : Haystack ram z stop) (hhz : h ≤ z) :
    match growEnd ram l h z with
    | none => stop < h + l
    | some z' => h + l ≤ z' ∧ z' ≤ stop := by
  have hgrow : l ≤ l ||| 63 := Nat.left_le_or
  unfold growEnd
  split_ifs with hz
  · rw [memchr_zero hs]
    by_cases hin : stop < z + (l ||| 63)
    · rw [if_pos hin]
      dsimp only
      split_ifs with hshort
      · exact hshort
      · exact ⟨not_lt.mp hshort, le_rfl⟩
    · rw [if_neg hin]
      dsimp only
      omega
  · have := hs.le
    dsimp only
    omega

theorem rightLoop_spec (fuel : ℕ) {k : ℕ} (hn : ∀ i < l, ram (n + i) ≠ 0) (hend : ram (n + l) = 0) (hk : k ≤ l)
    (hfuel : l < k + fuel) :
    ∃ k', rightLoop ram h n fuel k = some k' ∧ k ≤ k' ∧ k' ≤ l ∧ (ram (n + k') ≠ 0 ↔ k' < l) ∧
      (∀ i, k ≤ i → i < k' → ram (h + i) = ram (n + i)) ∧ (k' < l → ram (h + k') ≠ ram (n + k')) := by
  induction fuel generalizing k with
  | zero => exact absurd hk (by omega)
  | succ fuel ih =>
    rw [rightLoop]
    split_ifs with hgo
    · have hlt : k < l := hk.lt_of_ne fun he => hgo.1 (he ▸ hend)
      obtain ⟨k', hr, hle, hle', hz, hsame, hdiff⟩ := ih hlt (by omega)
      refine ⟨k', hr, by omega, hle', hz, fun i hi hik => ?_, hdiff⟩
      rcases Nat.lt_or_ge k i with hki | hki
      · exact hsame i hki hik
      · obtain rfl : i = k := by omega
        exact hgo.2.symm
    · refine ⟨k, rfl, le_rfl, hk, ⟨fun hne => hk.lt_of_ne fun he => hne (he ▸ hend), hn k⟩,
        fun i hi hik => by omega, fun hlt he => hgo ⟨hn k hlt, he.symm⟩⟩

theorem leftLoop_le_iff {mem : ℕ} (k : ℕ) :
    leftLoop ram h n mem k ≤ mem ↔ ∀ i, mem ≤ i → i < k → ram (h + i) = ram (n + i) := by
  induction k with
  | zero => exact iff_of_true (Nat.zero_le mem) fun i _ hi => absurd hi (Nat.not_lt_zero i)
  | succ k ih =>
    rw [leftLoop]
    split_ifs with hgo
    · rw [ih]
      refine ⟨fun hall i hi hik => ?_, fun hall i hi hik => hall i hi (by omega)⟩
      rcases Nat.lt_succ_iff_lt_or_eq.mp hik with hik | rfl
      · exact hall i hi hik
      · exact hgo.2.symm
    · constructor
      · intro hle i hi hik
        omega
      · intro hall
        by_contra hgt
        exact hgo ⟨by omega, (hall k (by omega) (Nat.lt_succ_self k)).symm⟩

/-! ## What the shifts skip -/

/-- The cells of the needle from `a` to `b` match at `h`. -/
def Matched (ram : Mem) (n h a b : ℕ) : Prop := ∀ i, a ≤ i → i < b → ram (h + i) = ram (n + i)

section Shifts

variable {t : Tables} {nd : Needle} {s k : ℕ}

/-- An occurrence ahead of a match is a repetition at the cut. -/
theorem repeats_of_occurs {m : ℕ} (hm : Matched ram n h m k) (hs : m + s ≤ k ∨ k = l)
    (ho : Occurs ram n l (h + s)) : RepeatsAt (window ram n) l m s := by
  intro i hi hmi hil
  have hocc := ho i (by omega)
  rw [Nat.add_assoc, Nat.add_comm s, hm (i + s) hmi (by omega)] at hocc
  exact hocc.symm

/-- A difference behind the cut: the shift brings the cut behind it. -/
theorem matched_right (hsplit : Split ram n l t nd) (hm : Matched ram n h nd.ms1 k) (hk : k < l)
    (hne : ram (h + k) ≠ ram (n + k)) (hs : s < k + 1 - nd.ms1) : ¬ Occurs ram n l (h + s) := by
  intro ho
  rcases Nat.eq_zero_or_pos s with rfl | hpos
  · exact hne (ho k hk)
  obtain ⟨-, hper, -⟩ := hsplit.critical s hpos (repeats_of_occurs hm (Or.inl (by omega)) ho)
  have hocc := ho (k - s) (by omega)
  have hwin : ram (n + (k - s)) = ram (n + (k - s + s)) := hper (k - s) (Nat.zero_le _) (by omega)
  rw [hwin, Nat.add_assoc, Nat.add_sub_cancel' (by omega), Nat.sub_add_cancel (by omega)] at hocc
  exact hne hocc

/-- A difference before the cut: the shift is by the period. -/
theorem matched_left (hsplit : Split ram n l t nd) (hm : Matched ram n h nd.ms1 l) (hno : ¬ Occurs ram n l h)
    (hs : s < nd.p) : ¬ Occurs ram n l (h + s) := by
  intro ho
  rcases Nat.eq_zero_or_pos s with rfl | hpos
  · exact hno ho
  exact absurd (hsplit.critical s hpos (repeats_of_occurs hm (Or.inr rfl) ho)).2.2 (not_le.mpr hs)

/-- The last character is not in the needle, or earlier in it only. -/
theorem matched_last (ht : Filled ram n l t) (hs : s < l) (ho : Occurs ram n l (h + s)) :
    t.byteset (ram (h + l - 1)) = true ∧ l - t.shift (ram (h + l - 1)) ≤ s := by
  have hocc := ho (l - 1 - s) (by omega)
  have hadd : h + s + (l - 1 - s) = h + l - 1 := by omega
  rw [hadd] at hocc
  have hmem : t.byteset (ram (h + l - 1)) = true := (ht.mem_iff _).mpr ⟨l - 1 - s, by omega, hocc.symm⟩
  obtain ⟨j, -, hshift, -, hlast⟩ := ht.last _ hmem
  have := hlast (l - 1 - s) (by omega) hocc.symm
  exact ⟨hmem, by omega⟩

/-- While cells are remembered and the last character is another one, nothing occurs among them. -/
theorem matched_remembered (hsplit : Split ram n l t nd) (ht : Filled ram n l t) (h0 : nd.mem0 ≠ 0)
    (hm : Matched ram n h 0 nd.mem0) (hne : l - t.shift (ram (h + l - 1)) ≠ 0) (hs : s < l - nd.p) :
    ¬ Occurs ram n l (h + s) := by
  intro ho
  obtain ⟨hmem0, -, hper⟩ := hsplit.remembered h0
  have hpos := hsplit.p_pos
  -- the last character of the needle, a period before it, and the same in the occurrence
  have hend : ram (n + (l - 1 - nd.p)) = ram (n + (l - 1 - nd.p + nd.p)) :=
    hper (l - 1 - nd.p) (Nat.zero_le _) (by omega)
  have hocc : ram (n + (l - 1 - nd.p - s)) = ram (n + (l - 1 - nd.p - s + nd.p)) :=
    hper (l - 1 - nd.p - s) (Nat.zero_le _) (by omega)
  have hmatch := hm (l - 1 - nd.p) (Nat.zero_le _) (by omega)
  have hfar := ho (l - 1 - nd.p - s) (by omega)
  have hnear := ho (l - 1 - s) (by omega)
  have h₁ : h + s + (l - 1 - nd.p - s) = h + (l - 1 - nd.p) := by omega
  have h₂ : h + s + (l - 1 - s) = h + l - 1 := by omega
  have h₃ : l - 1 - nd.p + nd.p = l - 1 := by omega
  have h₄ : l - 1 - nd.p - s + nd.p = l - 1 - s := by omega
  rw [h₁, hmatch, hend, h₃, hocc, h₄, ← hnear, h₂] at hfar
  obtain ⟨hmem, -⟩ := matched_last ht (show s < l by omega) ho
  obtain ⟨j, hj, hshift, -, hlast⟩ := ht.last _ hmem
  have := hlast (l - 1) (by omega) hfar
  omega

end Shifts

/-! ## The search -/

/-- **The search finds the first occurrence.** -/
theorem searchLoop_found {t : Tables} {nd : Needle} (hsplit : Split ram n l t nd) (ht : Filled ram n l t)
    (hn : ∀ i < l, ram (n + i) ≠ 0) (hend : ram (n + l) = 0) (hfuel : l < fuel) {steps z mem : ℕ}
    (hs : Haystack ram h stop) (hhz : h ≤ z) (hz : z ≤ stop) (hmem : mem = 0 ∨ mem = nd.mem0)
    (hm : Matched ram n h 0 mem) (hsteps : stop < h + steps) :
    ∃ r, searchLoop ram nd n fuel steps h z mem = some r ∧ Found ram n l stop h r := by
  induction steps generalizing h z mem with
  | zero => exact absurd hs.le (by omega)
  | succ steps ih =>
    have hlt := hsplit.ms1_lt
    have hgrow := growEnd_spec (l := l) (hs.drop hhz hz) hhz
    rw [searchLoop, hsplit.l_eq, hsplit.tables_eq]
    cases hg : growEnd ram l h z with
    | none =>
      rw [hg] at hgrow
      exact ⟨none, rfl, fun b hb hbs ho => by
        have := hs.occurs_le hn hbs ho
        omega⟩
    | some z' =>
      rw [hg] at hgrow
      obtain ⟨hlz, hzs⟩ := hgrow
      -- a shift by at least one and at most `l` cells over which nothing occurs
      have hshift : ∀ {k mem' : ℕ}, 0 < k → k ≤ l → (∀ s < k, ¬ Occurs ram n l (h + s)) →
          (mem' = 0 ∨ mem' = nd.mem0) → Matched ram n (h + k) 0 mem' →
          ∃ r, searchLoop ram nd n fuel steps (h + k) z' mem' = some r ∧ Found ram n l stop h r := by
        intro k mem' hk hkl hno hmem' hm'
        obtain ⟨r, hr, hfound⟩ :=
          ih (hs.drop (Nat.le_add_right h k) (by omega)) (by omega) hzs hmem' hm' (by omega)
        refine ⟨r, hr, hfound.skip (Nat.le_add_right h k) fun b hb hbk => ?_⟩
        have := hno (b - h) (by omega)
        rwa [Nat.add_sub_cancel' hb] at this
      have hnone : ∀ {a}, Matched ram n a 0 0 := fun i _ hi => absurd hi (Nat.not_lt_zero i)
      dsimp only
      by_cases hset : t.byteset (ram (h + l - 1)) = true
      · rw [if_pos hset]
        by_cases hk : l - t.shift (ram (h + l - 1)) = 0
        · -- the last character is right
          rw [if_neg (not_not.mpr hk)]
          have hmeml : mem ≤ l := by
            rcases hmem with rfl | rfl
            · exact Nat.zero_le l
            · by_cases h0 : nd.mem0 = 0
              · omega
              · have := (hsplit.remembered h0).1
                omega
          obtain ⟨k, hr, hle, hle', hzk, hsame, hdiff⟩ :=
            rightLoop_spec fuel (h := h) (k := max nd.ms1 mem) hn hend (by omega) (by omega)
          have hright : Matched ram n h nd.ms1 k := fun i hi hik =>
            (Nat.lt_or_ge i mem).elim (hm i (Nat.zero_le i)) fun hge => hsame i (by omega) hik
          rw [hr, Option.bind_some]
          by_cases hzero : ram (n + k) ≠ 0
          · have hkl := hzk.mp hzero
            rw [if_pos hzero]
            exact hshift (by omega) (by omega)
              (fun s hs' => matched_right hsplit hright hkl (hdiff hkl) hs') (Or.inl rfl) hnone
          · obtain rfl : k = l := hle'.antisymm (not_lt.mp fun hlt => hzero (hzk.mpr hlt))
            rw [if_neg hzero]
            split_ifs with hleft
            · refine ⟨some h, rfl, le_rfl, hs.le, fun i hi => ?_, fun b hb hbh => by omega⟩
              rcases Nat.lt_or_ge i nd.ms1 with him | him
              · rcases Nat.lt_or_ge i mem with hi' | hi'
                · exact hm i (Nat.zero_le i) hi'
                · exact (leftLoop_le_iff _).mp hleft i hi' him
              · exact hright i him hi
            · have hno : ¬ Occurs ram n k h := fun ho =>
                hleft ((leftLoop_le_iff _).mpr fun i _ hi => ho i (by omega))
              refine hshift hsplit.p_pos hsplit.p_le (fun s hs' => matched_left hsplit hright hno hs')
                (Or.inr rfl) fun i _ hi => ?_
              -- the cells that are remembered matched a period later
              obtain ⟨hp, hmsp, hper⟩ := hsplit.remembered (by omega)
              have hwin : ram (n + i) = ram (n + (i + nd.p)) := hper i (Nat.zero_le i) (by omega)
              rw [hwin, Nat.add_assoc, Nat.add_comm nd.p]
              exact hright (i + nd.p) (by omega) (by omega)
        · rw [if_pos hk]
          split_ifs with hwide
          · -- the last character is wrong, and cells are remembered
            obtain ⟨h0, hmem0, -⟩ := hwide
            obtain ⟨hp, hmsp, -⟩ := hsplit.remembered h0
            obtain rfl := hmem.resolve_left hmem0
            exact hshift (by omega) (Nat.sub_le _ _)
              (fun s hs' => matched_remembered hsplit ht h0 hm hk hs') (Or.inl rfl) hnone
          · refine hshift (Nat.pos_of_ne_zero hk) (Nat.sub_le _ _) (fun s hs' ho => ?_) (Or.inl rfl) hnone
            exact absurd (matched_last ht (by omega) ho).2 (not_le.mpr hs')
      · rw [if_neg hset]
        exact hshift (by omega) le_rfl (fun s hs' ho => hset (matched_last ht hs' ho).1) (Or.inl rfl) hnone

/-- **A needle of any length**, by `twoway_strstr`. -/
theorem twowayStrstr_found (shift : UInt8 → ℕ) (hs : Haystack ram h stop) (hl : 0 < l)
    (hn : ∀ i < l, ram (n + i) ≠ 0) (hend : ram (n + l) = 0) (hfuel : 2 * l ≤ fuel)
    (hsteps : stop < h + fuel) :
    ∃ r, twowayStrstr ram shift fuel h n = some r ∧ Found ram n l stop h r := by
  have hempty : Filled ram n 0 ⟨fun _ => false, shift⟩ := ⟨fun c => by simp, fun c hc => nomatch hc⟩
  obtain ⟨l', t, hfill, hshort, hlong⟩ :=
    fillTables_spec fuel hs hn hend (Nat.zero_le l) hs.le hempty (by omega)
  rw [twowayStrstr, hfill, Option.bind_some]
  dsimp only
  split_ifs with hz
  · refine ⟨none, rfl, fun b hb hbs ho => ?_⟩
    have := hs.occurs_le hn hbs ho
    have := hshort hz
    omega
  · obtain ⟨rfl, ht⟩ := hlong (not_not.mp hz)
    obtain ⟨nd, hsp, hsplit⟩ := splitNeedle_spec ram n t hl hfuel
    rw [hsp, Option.bind_some]
    exact searchLoop_found hsplit ht hn hend (by omega) hs le_rfl hs.le (Or.inl rfl)
      (fun i _ hi => absurd hi (Nat.not_lt_zero i)) hsteps

end RpiBoot.Strstr
