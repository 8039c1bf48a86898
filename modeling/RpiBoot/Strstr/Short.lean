import RpiBoot.Strstr.Model

/-!
# Short needles

* `Haystack`: the string that is searched ends at `stop`. `Occurs`: the needle is at an address.
* `Found`: the first address at which the needle is, or a null pointer.
* `strchr_found`: a needle of one character.
* `rollLoop_spec`: the loop stops at the first word that is that of the needle.
* **`twobyteStrstr_found`**, **`threebyteStrstr_found`**, **`fourbyteStrstr_found`**
-/

namespace RpiBoot.Strstr

open Store

variable {ram : Mem} {h n l stop fuel : ℕ}

/-! ## Occurrences -/

/-- A string that starts at `h` and ends at `stop`. -/
structure Haystack (ram : Mem) (h stop : ℕ) : Prop where
  le : h ≤ stop
  stop_eq : ram stop = 0
  ne : ∀ a, h ≤ a → a < stop → ram a ≠ 0

theorem Haystack.drop (hs : Haystack ram h stop) {h' : ℕ} (hle : h ≤ h') (hle' : h' ≤ stop) :
    Haystack ram h' stop :=
  ⟨hle', hs.stop_eq, fun a ha => hs.ne a (hle.trans ha)⟩

/-- The first `l` characters at `n` are also at `a`. -/
def Occurs (ram : Mem) (n l a : ℕ) : Prop := ∀ i < l, ram (a + i) = ram (n + i)

/-- An occurrence of `l` characters lies before the end of the haystack. -/
theorem Haystack.occurs_le (hs : Haystack ram h stop) (hn : ∀ i < l, ram (n + i) ≠ 0) {a : ℕ}
    (ha : a ≤ stop) (ho : Occurs ram n l a) : a + l ≤ stop := by
  by_contra hlt
  have hi := ho (stop - a) (by omega)
  rw [Nat.add_sub_cancel' ha, hs.stop_eq] at hi
  exact hn _ (by omega) hi.symm

/-- The result is the first occurrence from `h` on, or null when there is none. -/
def Found (ram : Mem) (n l stop h : ℕ) : Option ℕ → Prop
  | some a => h ≤ a ∧ a ≤ stop ∧ Occurs ram n l a ∧ ∀ b, h ≤ b → b < a → ¬ Occurs ram n l b
  | none => ∀ b, h ≤ b → b ≤ stop → ¬ Occurs ram n l b

/-- Where nothing occurs may be left out. -/
theorem Found.skip {h' : ℕ} {r : Option ℕ} (hle : h ≤ h') (hskip : ∀ b, h ≤ b → b < h' → ¬ Occurs ram n l b)
    (hr : Found ram n l stop h' r) : Found ram n l stop h r := by
  cases r with
  | none => exact fun b hb hs => (Nat.lt_or_ge b h').elim (hskip b hb) fun hge => hr b hge hs
  | some a =>
    obtain ⟨ha, has, ho, hfirst⟩ := hr
    exact ⟨hle.trans ha, has, ho, fun b hb hba =>
      (Nat.lt_or_ge b h').elim (hskip b hb) fun hge => hfirst b hge hba⟩

theorem Occurs.mono {k a : ℕ} (ho : Occurs ram n l a) (hk : k ≤ l) : Occurs ram n k a :=
  fun i hi => ho i (hi.trans_le hk)

theorem occurs_one {a : ℕ} : Occurs ram n 1 a ↔ ram a = ram n := by
  refine ⟨fun ho => ho 0 Nat.one_pos, fun ha i hi => ?_⟩
  obtain rfl : i = 0 := Nat.lt_one_iff.mp hi
  exact ha

/-- `strchr` finds the first character. -/
theorem strchr_found (fuel : ℕ) (hs : Haystack ram h stop) (hn : ram n ≠ 0) (hfuel : stop < h + fuel) :
    ∃ r, strchr ram (ram n) fuel h = some r ∧ Found ram n 1 stop h r ∧ ∀ a ∈ r, a < stop := by
  induction fuel generalizing h with
  | zero => exact absurd hs.le (by omega)
  | succ fuel ih =>
    rw [strchr]
    split_ifs with hz hc
    · refine ⟨none, rfl, fun b hb hbs ho => ?_, nofun⟩
      have hb : b = h := by
        by_contra hne
        exact hs.ne h le_rfl (by omega) hz
      rw [occurs_one, hb, hz] at ho
      exact hn ho.symm
    · have hlt : h < stop := hs.le.lt_of_ne fun he => hz (he ▸ hs.stop_eq)
      exact ⟨some h, rfl, ⟨le_rfl, hs.le, occurs_one.mpr hc, fun b hb hlt => by omega⟩,
        fun a ha => by cases ha; exact hlt⟩
    · have hlt : h < stop := hs.le.lt_of_ne fun he => hz (he ▸ hs.stop_eq)
      obtain ⟨r, hr, hfound, hin⟩ := ih (hs.drop (Nat.le_succ h) hlt) (by omega)
      refine ⟨r, hr, hfound.skip (Nat.le_succ h) fun b hb hbh => ?_, hin⟩
      obtain rfl : b = h := by omega
      rwa [occurs_one]

/-! ## The rolling word -/

section Roll

variable {next : ℕ → UInt8 → ℕ} {word : ℕ → ℕ} {nw d : ℕ}

/-- The loop stops at the first word that is `nw`, or at the end. -/
theorem rollLoop_spec (nw : ℕ) (hnext : ∀ a, next (word a) (ram (a + d + 1)) = word (a + 1)) {a : ℕ}
    (hs : Haystack ram (a + d) stop) (hfuel : stop < a + d + fuel) :
    ∃ a', rollLoop ram next nw fuel (a + d) (word a) = some (a' + d) ∧ a ≤ a' ∧ a' + d ≤ stop ∧
      (∀ b, a ≤ b → b < a' → word b ≠ nw) ∧ (ram (a' + d) ≠ 0 → word a' = nw) := by
  induction fuel generalizing a with
  | zero => exact absurd hs.le (by omega)
  | succ fuel ih =>
    rw [rollLoop]
    split_ifs with hgo
    · have hlt : a + d < stop := hs.le.lt_of_ne fun he => hgo.1 (he ▸ hs.stop_eq)
      rw [hnext]
      have hadd : a + d + 1 = a + 1 + d := by omega
      rw [hadd]
      obtain ⟨a', hr, ha, hend, hfirst, hat⟩ := ih (a := a + 1) (hs.drop (by omega) (by omega)) (by omega)
      refine ⟨a', hr, by omega, hend, fun b hb hba => ?_, hat⟩
      rcases Nat.lt_or_ge a b with hab | hab
      · exact hfirst b hab hba
      · obtain rfl : b = a := by omega
        exact hgo.2
    · refine ⟨a, rfl, le_rfl, hs.le, fun b hb hba => by omega, fun hne => ?_⟩
      by_contra hw
      exact hgo ⟨hne, hw⟩

/-- A search with words that are equal just when the characters are. -/
theorem roll_found (word : ℕ → ℕ) (hnext : ∀ a, next (word a) (ram (a + d + 1)) = word (a + 1))
    (hword : ∀ a, word a = nw ↔ Occurs ram n (d + 1) a) (hn : ∀ i < d + 1, ram (n + i) ≠ 0)
    (hs : Haystack ram h stop) (hd : h + d ≤ stop) (hfuel : stop < h + d + fuel) :
    ∃ r, ((rollLoop ram next nw fuel (h + d) (word h)).map fun h => if ram h ≠ 0 then some (h - d) else none) =
      some r ∧ Found ram n (d + 1) stop h r := by
  obtain ⟨a, hr, ha, hend, hfirst, hat⟩ :=
    rollLoop_spec nw hnext (hs.drop (Nat.le_add_right h d) hd) hfuel
  have hno : ∀ b, h ≤ b → b < a → ¬ Occurs ram n (d + 1) b := fun b hb hba ho =>
    hfirst b hb hba ((hword b).mpr ho)
  rw [hr, Option.map_some, Nat.add_sub_cancel]
  by_cases hz : ram (a + d) = 0
  · rw [if_neg (not_not.mpr hz)]
    refine ⟨none, rfl, fun b hb hbs ho => ?_⟩
    have hle := hs.occurs_le hn hbs ho
    have hstop : a + d = stop := by
      by_contra hne
      exact hs.ne _ (by omega) (by omega) hz
    exact hno b hb (by omega) ho
  · rw [if_pos hz]
    exact ⟨some a, rfl, ha, by omega, (hword a).mp (hat hz), hno⟩

end Roll

/-! ## Words of two, three and four bytes -/

theorem or_eq_add {a b k : ℕ} (hb : b < 2 ^ k) : a <<< k ||| b = a * 2 ^ k + b := by
  rw [← Nat.shiftLeft_add_eq_or_of_lt hb, Nat.shiftLeft_eq]

theorem byte_lt (ram : Mem) (a i : ℕ) : byte ram a i < 2 ^ 8 := (ram (a + i)).toNat_lt

theorem byte_eq_iff {a i : ℕ} : byte ram a i = byte ram n i ↔ ram (a + i) = ram (n + i) := UInt8.toNat_inj

theorem byte_succ (a i : ℕ) : byte ram (a + 1) i = byte ram a (i + 1) := by
  rw [byte, byte, Nat.add_right_comm, Nat.add_assoc]

theorem occurs_two {a : ℕ} : Occurs ram n 2 a ↔
    byte ram a 0 = byte ram n 0 ∧ byte ram a 1 = byte ram n 1 := by
  simp only [byte_eq_iff, Occurs, Nat.forall_lt_succ_right, Nat.not_lt_zero, false_implies, implies_true,
    true_and]

theorem occurs_three {a : ℕ} : Occurs ram n 3 a ↔
    (byte ram a 0 = byte ram n 0 ∧ byte ram a 1 = byte ram n 1) ∧ byte ram a 2 = byte ram n 2 := by
  simp only [byte_eq_iff, Occurs, Nat.forall_lt_succ_right, Nat.not_lt_zero, false_implies, implies_true,
    true_and]

theorem occurs_four {a : ℕ} : Occurs ram n 4 a ↔
    ((byte ram a 0 = byte ram n 0 ∧ byte ram a 1 = byte ram n 1) ∧ byte ram a 2 = byte ram n 2) ∧
      byte ram a 3 = byte ram n 3 := by
  simp only [byte_eq_iff, Occurs, Nat.forall_lt_succ_right, Nat.not_lt_zero, false_implies, implies_true,
    true_and]

theorem word_two (a : ℕ) : byte ram a 0 <<< 8 ||| byte ram a 1 = byte ram a 0 * 2 ^ 8 + byte ram a 1 :=
  or_eq_add (byte_lt ram a 1)

theorem word_three (a : ℕ) : byte ram a 0 <<< 24 ||| byte ram a 1 <<< 16 ||| byte ram a 2 <<< 8 =
    byte ram a 0 * 2 ^ 24 + byte ram a 1 * 2 ^ 16 + byte ram a 2 * 2 ^ 8 := by
  have h₁ := byte_lt ram a 1
  have h₂ := byte_lt ram a 2
  have hone : byte ram a 1 <<< 16 = byte ram a 1 * 2 ^ 16 := Nat.shiftLeft_eq _ _
  have htwo : byte ram a 2 <<< 8 = byte ram a 2 * 2 ^ 8 := Nat.shiftLeft_eq _ _
  have hleft : byte ram a 0 * 2 ^ 24 + byte ram a 1 * 2 ^ 16 = (byte ram a 0 * 2 ^ 8 + byte ram a 1) <<< 16 := by
    rw [Nat.shiftLeft_eq]
    omega
  rw [or_eq_add (by omega), hone, htwo, hleft, or_eq_add (by omega), Nat.shiftLeft_eq]

theorem word_four (a : ℕ) :
    byte ram a 0 <<< 24 ||| byte ram a 1 <<< 16 ||| byte ram a 2 <<< 8 ||| byte ram a 3 =
      byte ram a 0 * 2 ^ 24 + byte ram a 1 * 2 ^ 16 + byte ram a 2 * 2 ^ 8 + byte ram a 3 := by
  have hleft : byte ram a 0 * 2 ^ 24 + byte ram a 1 * 2 ^ 16 + byte ram a 2 * 2 ^ 8 =
      (byte ram a 0 * 2 ^ 16 + byte ram a 1 * 2 ^ 8 + byte ram a 2) <<< 8 := by
    rw [Nat.shiftLeft_eq]
    omega
  rw [word_three, hleft, or_eq_add (byte_lt ram a 3), Nat.shiftLeft_eq]

theorem toNat_eq_byte (a d : ℕ) : (ram (a + d + 1)).toNat = byte ram a (d + 1) := rfl

/-- **A needle of two characters.** -/
theorem twobyteStrstr_found (hs : Haystack ram h stop) (hn : ∀ i < 2, ram (n + i) ≠ 0) (hd : h + 1 ≤ stop)
    (hfuel : stop < h + fuel) : ∃ r, twobyteStrstr ram fuel h n = some r ∧ Found ram n 2 stop h r := by
  refine roll_found (fun a => byte ram a 0 <<< 8 ||| byte ram a 1) (fun a => ?_) (fun a => ?_) hn hs hd
    (by omega)
  · have h₁ := byte_lt ram a 1
    have h₂ := byte_lt ram a 2
    rw [word_two, word_two, toNat_eq_byte, or_eq_add (byte_lt ram a 2)]
    simp only [byte_succ, Nat.reduceAdd]
    omega
  · have h₁ := byte_lt ram a 1
    have h₂ := byte_lt ram n 1
    rw [word_two, word_two, occurs_two]
    omega

/-- **A needle of three characters.** -/
theorem threebyteStrstr_found (hs : Haystack ram h stop) (hn : ∀ i < 3, ram (n + i) ≠ 0) (hd : h + 2 ≤ stop)
    (hfuel : stop < h + fuel) : ∃ r, threebyteStrstr ram fuel h n = some r ∧ Found ram n 3 stop h r := by
  refine roll_found
    (fun a => byte ram a 0 <<< 24 ||| byte ram a 1 <<< 16 ||| byte ram a 2 <<< 8) (fun a => ?_)
    (fun a => ?_) hn hs hd (by omega)
  · have h₁ := byte_lt ram a 1
    have h₂ := byte_lt ram a 2
    have h₃ := byte_lt ram a 3
    -- the lowest byte of the word is free
    have hfree : byte ram a 0 * 2 ^ 24 + byte ram a 1 * 2 ^ 16 + byte ram a 2 * 2 ^ 8 =
        (byte ram a 0 * 2 ^ 16 + byte ram a 1 * 2 ^ 8 + byte ram a 2) <<< 8 := by
      rw [Nat.shiftLeft_eq]
      omega
    rw [word_three, word_three, toNat_eq_byte, hfree, or_eq_add (byte_lt ram a 3), Nat.shiftLeft_eq]
    simp only [byte_succ, Nat.reduceAdd]
    omega
  · have h₁ := byte_lt ram a 1
    have h₂ := byte_lt ram a 2
    have h₃ := byte_lt ram n 1
    have h₄ := byte_lt ram n 2
    rw [word_three, word_three, occurs_three]
    omega

/-- **A needle of four characters.** -/
theorem fourbyteStrstr_found (hs : Haystack ram h stop) (hn : ∀ i < 4, ram (n + i) ≠ 0) (hd : h + 3 ≤ stop)
    (hfuel : stop < h + fuel) : ∃ r, fourbyteStrstr ram fuel h n = some r ∧ Found ram n 4 stop h r := by
  refine roll_found
    (fun a => byte ram a 0 <<< 24 ||| byte ram a 1 <<< 16 ||| byte ram a 2 <<< 8 ||| byte ram a 3)
    (fun a => ?_) (fun a => ?_) hn hs hd (by omega)
  · have h₁ := byte_lt ram a 1
    have h₂ := byte_lt ram a 2
    have h₃ := byte_lt ram a 3
    have h₄ := byte_lt ram a 4
    rw [word_four, word_four, toNat_eq_byte, or_eq_add (byte_lt ram a 4)]
    simp only [byte_succ, Nat.reduceAdd]
    omega
  · have h₁ := byte_lt ram a 1
    have h₂ := byte_lt ram a 2
    have h₃ := byte_lt ram a 3
    have h₄ := byte_lt ram n 1
    have h₅ := byte_lt ram n 2
    have h₆ := byte_lt ram n 3
    rw [word_four, word_four, occurs_four]
    omega

end RpiBoot.Strstr
