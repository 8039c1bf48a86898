import RpiBoot.Rpifdt.Compatible
import RpiBoot.Strstr.TwoWay

/-!
# `strstr` finds the first occurrence

* `strstr_found`: every path of `strstr` finds the first occurrence.
* `firstIn`: the first position of a list in another.
* **`strstr_first`**: `strstr` returns it, for all strings.
* `search_eq_strstr`: the walk over the device tree searches in this way.
-/

namespace RpiBoot.Strstr

open Store

variable {ram : Mem} {h n l stop fuel : ℕ}

/-- Without its first character there is no needle. -/
theorem Found.of_one {a : ℕ} {r : Option ℕ} (hl : 0 < l) (h₁ : Found ram n 1 stop h (some a))
    (hr : Found ram n l stop a r) : Found ram n l stop h r :=
  hr.skip h₁.1 fun b hb hba ho => h₁.2.2.2 b hb hba (ho.mono hl)

/-- A haystack that is shorter than the needle. -/
theorem found_none_of_short (hs : Haystack ram h stop) (hn : ∀ i < l, ram (n + i) ≠ 0) {d : ℕ} (hd : d < l)
    (hle : h + d ≤ stop) (hz : ram (h + d) = 0) : Found ram n l stop h none := by
  intro b hb hbs ho
  have hend := hs.occurs_le hn hbs ho
  exact hs.ne (h + d) (Nat.le_add_right h d) (by omega) hz

/-- **`strstr`** finds the first occurrence of any needle. -/
theorem strstr_found (fuel : ℕ) (shift : UInt8 → ℕ) (hs : Haystack ram h stop) (hn : ∀ i < l, ram (n + i) ≠ 0)
    (hend : ram (n + l) = 0) (hfuel : 2 * l + stop < h + fuel) :
    ∃ r, strstr ram shift fuel h n = some r ∧ Found ram n l stop h r := by
  have hle := hs.le
  -- the tests for the end of the needle tell how long it is
  have hlen : ∀ i, i ≤ l → (ram (n + i) = 0 ↔ l = i) := fun i hi =>
    ⟨fun hz => by_contra fun hne => hn i (by omega) hz, fun he => he ▸ hend⟩
  rw [strstr]
  by_cases h0 : ram n = 0
  · obtain rfl := (hlen 0 (Nat.zero_le l)).mp h0
    rw [if_pos h0]
    exact ⟨some h, rfl, le_rfl, hle, fun i hi => absurd hi (Nat.not_lt_zero i), fun b hb hbh => by omega⟩
  have hl : 0 < l := Nat.pos_of_ne_zero fun he => h0 ((hlen 0 (Nat.zero_le l)).mpr he)
  obtain ⟨r, hr, hfirst, hin⟩ := strchr_found (n := n) fuel hs h0 (by omega)
  rw [if_neg h0, hr, Option.bind_some]
  cases r with
  | none => exact ⟨none, rfl, fun b hb hbs ho => hfirst b hb hbs (ho.mono hl)⟩
  | some a =>
    have ha := hin a rfl
    have hs' := hs.drop hfirst.1 ha.le
    have hha := hfirst.1
    suffices hgoal : ∃ r, _ = some r ∧ Found ram n l stop a r by
      obtain ⟨r, hr, hfound⟩ := hgoal
      exact ⟨r, hr, hfirst.of_one hl hfound⟩
    dsimp only
    -- one more character of the needle, then one of the haystack, is not the end
    have hneedle : ∀ i, i < l → ram (n + (i + 1)) ≠ 0 → i + 1 < l := fun i hi hne =>
      Nat.lt_of_le_of_ne hi fun he => hne ((hlen (i + 1) hi).mpr he.symm)
    have hhay : ∀ d, a + d < stop → ram (a + (d + 1)) ≠ 0 → a + (d + 1) < stop := fun d hd hne =>
      Nat.lt_of_le_of_ne hd fun he => hne (he ▸ hs.stop_eq)
    split_ifs with n1 h1 n2 h2 n3 h3 n4
    · obtain rfl := (hlen 1 hl).mp n1
      exact ⟨some a, rfl, le_rfl, ha.le, hfirst.2.2.1, fun b hb hba => by omega⟩
    · exact ⟨none, rfl, found_none_of_short hs' hn (hneedle 0 hl n1) ha h1⟩
    · obtain rfl := (hlen 2 (hneedle 0 hl n1)).mp n2
      exact twobyteStrstr_found hs' hn (hhay 0 ha h1).le (by omega)
    · exact ⟨none, rfl, found_none_of_short hs' hn (hneedle 1 (hneedle 0 hl n1) n2) (hhay 0 ha h1) h2⟩
    · obtain rfl := (hlen 3 (hneedle 1 (hneedle 0 hl n1) n2)).mp n3
      exact threebyteStrstr_found hs' hn (hhay 1 (hhay 0 ha h1) h2).le (by omega)
    · exact ⟨none, rfl, found_none_of_short hs' hn (hneedle 2 (hneedle 1 (hneedle 0 hl n1) n2) n3)
        (hhay 1 (hhay 0 ha h1) h2) h3⟩
    · obtain rfl := (hlen 4 (hneedle 2 (hneedle 1 (hneedle 0 hl n1) n2) n3)).mp n4
      exact fourbyteStrstr_found hs' hn (hhay 2 (hhay 1 (hhay 0 ha h1) h2) h3).le (by omega)
    · exact twowayStrstr_found shift hs' hl hn hend (by omega) (by omega)

/-- The first position of a list in another. -/
def firstIn (needle hay : List UInt8) : Option ℕ :=
  (List.range (hay.length + 1)).find? fun i => needle.isPrefixOf (hay.drop i)

theorem str_drop {hay : List UInt8} (h₀ : Str 0 ram h hay) {i : ℕ} (hi : i ≤ hay.length) :
    Str 0 ram (h + i) (hay.drop i) := by
  have hsplit : Str 0 ram h (hay.take i ++ hay.drop i) := by rwa [List.take_append_drop]
  have htail := (str_append.mp hsplit).2.2
  rwa [List.length_take, min_eq_left hi] at htail

theorem haystack_of_str {hay : List UInt8} (h₀ : Str 0 ram h hay) : Haystack ram h (h + hay.length) := by
  refine ⟨Nat.le_add_right h _, h₀.stop, fun a ha hlt hz => ?_⟩
  obtain ⟨i, rfl⟩ := Nat.exists_eq_add_of_le ha
  have hi : i < hay.length := by omega
  have hget := congrArg (·[i]?) h₀.slice_eq
  simp only [getElem?_slice_of_lt ram h hay.length hi, hz] at hget
  exact h₀.notMem (List.mem_of_getElem? hget.symm)

/-- In a string, an occurrence is a prefix of the rest. -/
theorem occurs_iff_begins {hay needle : List UInt8} (h₀ : Str 0 ram h hay) (hn : Str 0 ram n needle) {i : ℕ}
    (hi : i ≤ hay.length) : Occurs ram n needle.length (h + i) ↔ needle <+: hay.drop i := by
  rw [← (str_drop h₀ hi).slice_eq_iff hn.notMem]
  constructor
  · intro ho
    rw [← hn.slice_eq, length_slice]
    exact slice_congr ho
  · intro hs
    exact slice_eq_iff.mp (hs.trans hn.slice_eq.symm)

theorem strstr_eq_firstIn (shift : UInt8 → ℕ) {hay needle : List UInt8} (h₀ : Str 0 ram h hay)
    (hn : Str 0 ram n needle) (hfuel : 2 * needle.length + hay.length < fuel) :
    strstr ram shift fuel h n = some ((firstIn needle hay).map (h + ·)) := by
  have hne : ∀ i < needle.length, ram (n + i) ≠ 0 := fun i hi =>
    (haystack_of_str hn).ne (n + i) (Nat.le_add_right n i) (by omega)
  obtain ⟨r, hr, hfound⟩ :=
    strstr_found fuel shift (haystack_of_str h₀) hne hn.stop (by omega)
  rw [hr]
  congr 1
  have hocc : ∀ i ≤ hay.length, (needle.isPrefixOf (hay.drop i) = true ↔ Occurs ram n needle.length (h + i)) :=
    fun i hi => List.isPrefixOf_iff_prefix.trans (occurs_iff_begins h₀ hn hi).symm
  cases r with
  | none =>
    have hnone : firstIn needle hay = none := by
      rw [firstIn, List.find?_eq_none]
      intro i hi hpre
      have hi := Nat.lt_succ_iff.mp (List.mem_range.mp hi)
      exact hfound (h + i) (Nat.le_add_right h i) (by omega) ((hocc i hi).mp hpre)
    rw [hnone, Option.map_none]
  | some a =>
    obtain ⟨ha, has, ho, hfirst⟩ := hfound
    obtain ⟨i, rfl⟩ := Nat.exists_eq_add_of_le ha
    have hi : i ≤ hay.length := Nat.le_of_add_le_add_left has
    have hsome : firstIn needle hay = some i := by
      rw [firstIn, List.find?_range_eq_some]
      refine ⟨(hocc i hi).mpr ho, List.mem_range.mpr (Nat.lt_succ_of_le hi), fun j hj => ?_⟩
      rw [Bool.not_eq_true', ← Bool.not_eq_true, hocc j (by omega)]
      exact hfirst (h + j) (Nat.le_add_right h j) (by omega)
    rw [hsome, Option.map_some]

/-- **`strstr` returns the first occurrence.** For all strings, wherever they lie in memory and whatever the
stack holds, the search for the needle ends, and with the address of its first occurrence or null. The
pointer tells which of the two, unless the string starts at address `0`. -/
theorem strstr_first (shift : UInt8 → ℕ) {hay needle : List UInt8} (h₀ : Str 0 ram h hay)
    (hn : Str 0 ram n needle) (hfuel : 2 * needle.length + hay.length < fuel) :
    strstr ram shift fuel h n = some ((firstIn needle hay).map (h + ·)) ∧
      (0 < h → (pointer ((firstIn needle hay).map (h + ·)) = 0 ↔ firstIn needle hay = none)) := by
  refine ⟨strstr_eq_firstIn shift h₀ hn hfuel, fun hpos => ?_⟩
  cases firstIn needle hay with
  | none => exact iff_of_true rfl rfl
  | some i => exact iff_of_false (Nat.ne_of_gt (Nat.add_pos_left hpos i)) (Option.some_ne_none i)

/-- A long needle whose second half repeats the first, behind a part of it. -/
theorem strstr_first_repeated :
    strstr (patch (patch (fun _ => 0) 16 [0x61, 0x62, 0x61, 0x62, 0x61, 0x62, 0x61, 0x62, 0x63]) 64
      [0x61, 0x62, 0x61, 0x62, 0x61, 0x62, 0x63]) (fun _ => 77) 100 16 64 =
      some ((firstIn [0x61, 0x62, 0x61, 0x62, 0x61, 0x62, 0x63]
        [0x61, 0x62, 0x61, 0x62, 0x61, 0x62, 0x61, 0x62, 0x63]).map (16 + ·)) ∧
      (0 < 16 → (pointer ((firstIn [0x61, 0x62, 0x61, 0x62, 0x61, 0x62, 0x63]
        [0x61, 0x62, 0x61, 0x62, 0x61, 0x62, 0x61, 0x62, 0x63]).map (16 + ·)) = 0 ↔
        firstIn [0x61, 0x62, 0x61, 0x62, 0x61, 0x62, 0x63]
          [0x61, 0x62, 0x61, 0x62, 0x61, 0x62, 0x61, 0x62, 0x63] = none)) :=
  strstr_first _ (str_iff.mpr ⟨by decide, by decide, by decide⟩) (str_iff.mpr ⟨by decide, by decide, by decide⟩)
    (by decide)

/-- There is a first position just in a list of which the other is a part. -/
theorem firstIn_isSome (needle hay : List UInt8) : (firstIn needle hay).isSome = decide (needle <:+: hay) := by
  rw [Bool.eq_iff_iff, decide_eq_true_iff, firstIn, List.find?_isSome, List.infix_iff_prefix_suffix]
  constructor
  · rintro ⟨i, -, hpre⟩
    exact ⟨hay.drop i, List.isPrefixOf_iff_prefix.mp hpre, List.drop_suffix i hay⟩
  · rintro ⟨rest, hpre, hsuf⟩
    refine ⟨hay.length - rest.length, List.mem_range.mpr (by omega), ?_⟩
    rw [← List.suffix_iff_eq_drop.mp hsuf]
    exact List.isPrefixOf_iff_prefix.mpr hpre

/-- The search that the walk over the device tree makes is this one. -/
theorem search_eq_strstr (shift : UInt8 → ℕ) {hay needle : List UInt8} (h₀ : Str 0 ram h hay)
    (hn : Str 0 ram n needle) (hfuel : 2 * needle.length + hay.length < fuel) :
    RpiBoot.strstr fuel ram h needle = (strstr ram shift fuel h n).map Option.isSome := by
  rw [strstr_eq_firstIn shift h₀ hn hfuel, RpiBoot.strstr, search_str h₀ hn.notMem (by omega), Option.map_some,
    Option.isSome_map, firstIn_isSome]

end RpiBoot.Strstr
