import Mathlib.Algebra.Order.Field.Rat
import Mathlib.Data.Nat.Bitwise
import Mathlib.Data.Nat.Log
import Mathlib.Tactic.Linarith
import RpiBoot.Word

/-!
# The clock of the SD card (`sd_get_clock_divider` of `emmc.c`)

The controller divides its base clock by twice a divisor of ten bits. The code makes it a power of two.

* `sdGetClockDivider`: the divisor for a target rate, as the bits of the control register.
* `encodedDivisor`, `sdClock`: what the controller makes of these bits.
* `firstBit_eq`: the search for the first bit set finds the logarithm, rounded up.
* **`sd_clock_limit_iff`**: the clock is too fast just when the quotient of the rates has a remainder and
  is a power of two, or one more than a power of two.
-/

namespace RpiBoot

def sdClockId : ℕ := 400000
def sdClockNormal : ℕ := 25000000

/-- The search for the first bit set, below bit `n`: `divisor`, which is one more if it is not the only
bit. `none` is `-1`. -/
def firstBit (targettedDivisor : ℕ) : ℕ → Option ℕ
  | 0 => none
  | n + 1 =>
    let bitTest := 1 <<< n
    if targettedDivisor &&& bitTest ≠ 0 then
      if Nat.ldiff targettedDivisor bitTest ≠ 0 then some (n + 1) else some n
    else firstBit targettedDivisor n

/-- `sd_get_clock_divider(base_clock, target_rate)`. Old controllers are allowed, so there is no check of
the version. -/
def sdGetClockDivider (baseClock targetRate : ℕ) : ℕ :=
  let targettedDivisor :=
    if targetRate > baseClock then 1
    else if baseClock % targetRate ≠ 0 then sub32 (baseClock / targetRate) 1
    else baseClock / targetRate
  let divisor := (firstBit targettedDivisor 32).getD 31
  let divisor := if divisor ≥ 32 then 31 else divisor
  let divisor := if divisor ≠ 0 then 1 <<< (divisor - 1) else divisor
  let divisor := if divisor ≥ 0x400 then 0x3ff else divisor
  let freqSelect := divisor &&& 0xff
  let upperBits := divisor >>> 8 &&& 0x3
  freqSelect <<< 8 ||| upperBits <<< 6 ||| 0 <<< 5

/-- The divisor in the bits of the control register: its low part in bits 8 to 15, the high part in bits
6 and 7. -/
def encodedDivisor (r : ℕ) : ℕ := (r >>> 8 &&& 0xff) ||| (r >>> 6 &&& 0x3) <<< 8

/-- The clock of the card, in Hz, for a divisor. -/
def sdClock (baseClock d : ℕ) : ℚ := if d = 0 then baseClock else baseClock / (2 * d)

/-! ## The first bit set -/

theorem and_bit_ne_zero {x n : ℕ} : x &&& 1 <<< n ≠ 0 ↔ x.testBit n = true := by
  rw [Nat.one_shiftLeft, Nat.and_two_pow]
  cases x.testBit n <;> simp

/-- Only one bit is set. -/
theorem ldiff_bit_eq_zero {x n : ℕ} (h : x.testBit n = true) : Nat.ldiff x (1 <<< n) = 0 ↔ x = 2 ^ n := by
  rw [Nat.one_shiftLeft]
  constructor
  · intro hx
    refine Nat.eq_of_testBit_eq fun i => ?_
    have hi := congrArg (Nat.testBit · i) hx
    simp only [Nat.testBit_ldiff, Nat.zero_testBit, Nat.testBit_two_pow] at hi ⊢
    by_cases hin : n = i
    · subst hin
      simpa using h
    · simpa [hin] using hi
  · rintro rfl
    refine Nat.eq_of_testBit_eq fun i => ?_
    rw [Nat.testBit_ldiff, Nat.zero_testBit, Bool.and_not_self]

/-- **The search** finds the logarithm, rounded up. -/
theorem firstBit_eq {x : ℕ} (h0 : 0 < x) :
    ∀ {n : ℕ}, x < 2 ^ n → firstBit x n = some (Nat.clog 2 x) := by
  intro n
  induction n with
  | zero => exact fun hx => absurd hx (by omega)
  | succ n ih =>
    intro hx
    rw [firstBit]
    by_cases hbit : x.testBit n = true
    · have hle : 2 ^ n ≤ x := Nat.ge_two_pow_of_testBit hbit
      rw [if_pos (and_bit_ne_zero.mpr hbit)]
      by_cases hone : x = 2 ^ n
      · rw [if_neg (not_not.mpr ((ldiff_bit_eq_zero hbit).mpr hone)), hone, Nat.clog_pow 2 n one_lt_two]
      · rw [if_pos (mt (ldiff_bit_eq_zero hbit).mp hone)]
        refine congrArg some (le_antisymm ?_ ?_)
        · exact (Nat.lt_clog_iff_pow_lt one_lt_two).mpr (lt_of_le_of_ne hle (Ne.symm hone))
        · exact (Nat.clog_le_iff_le_pow one_lt_two).mpr hx.le
    · rw [if_neg (mt and_bit_ne_zero.mp hbit)]
      refine ih ?_
      by_contra hno
      exact hbit (Nat.testBit_of_two_pow_le_and_two_pow_add_one_gt (not_lt.mp hno) hx)

/-! ## The divisor -/

/-- The divisor for a targeted divisor. -/
def divisorOf (targetted : ℕ) : ℕ :=
  if targetted = 0 then 0x3ff
  else if targetted = 1 then 0
  else min (2 ^ (Nat.clog 2 targetted - 1)) 0x3ff

theorem encodedDivisor_encode : ∀ d < 0x400,
    encodedDivisor ((d &&& 0xff) <<< 8 ||| (d >>> 8 &&& 0x3) <<< 6 ||| 0 <<< 5) = d := by
  decide +kernel

/-- The quotient of the rates, less one where it has a remainder. -/
def targettedDivisor (b t : ℕ) : ℕ := if b % t ≠ 0 then b / t - 1 else b / t

/-- **The divisor that the controller gets.** -/
theorem encodedDivisor_sdGetClockDivider {b t : ℕ} (hle : t ≤ b) (hq : b / t < 2 ^ 31) (hpos : 0 < b / t) :
    encodedDivisor (sdGetClockDivider b t) = divisorOf (targettedDivisor b t) := by
  have htarget : (if t > b then 1 else if b % t ≠ 0 then sub32 (b / t) 1 else b / t) =
      targettedDivisor b t := by
    rw [if_neg (not_lt.mpr hle), targettedDivisor, sub32_of_le hpos (by omega)]
  have hlt : targettedDivisor b t < 2 ^ 31 := by
    unfold targettedDivisor
    split_ifs <;> omega
  rw [sdGetClockDivider, htarget]
  generalize targettedDivisor b t = x at *
  by_cases h0 : x = 0
  · subst h0
    decide +kernel
  by_cases h1 : x = 1
  · subst h1
    decide +kernel
  have hclog : Nat.clog 2 x ≤ 31 := (Nat.clog_le_iff_le_pow one_lt_two).mpr hlt.le
  have hclog0 : Nat.clog 2 x ≠ 0 := (Nat.clog_pos one_lt_two (by omega)).ne'
  have hclog32 : ¬ Nat.clog 2 x ≥ 32 := by omega
  rw [firstBit_eq (Nat.pos_of_ne_zero h0) (by omega), Option.getD_some, divisorOf, if_neg h0, if_neg h1,
    if_neg hclog32, if_pos hclog0, Nat.one_shiftLeft]
  have hmin : (if 2 ^ (Nat.clog 2 x - 1) ≥ 0x400 then 0x3ff else 2 ^ (Nat.clog 2 x - 1)) =
      min (2 ^ (Nat.clog 2 x - 1)) 0x3ff := by
    split_ifs <;> omega
  rw [hmin]
  exact encodedDivisor_encode _ (by omega)

/-! ## The limit -/

/-- The clock is slow enough when it is divided enough. -/
theorem sdClock_le_iff {b t d : ℕ} : sdClock b d ≤ t ↔ b ≤ (if d = 0 then 1 else 2 * d) * t := by
  rw [sdClock]
  split_ifs with hd
  · rw [Nat.one_mul, Nat.cast_le]
  · have hpos : (0 : ℚ) < 2 * d := by positivity
    rw [div_le_iff₀ hpos, mul_comm]
    exact_mod_cast Iff.rfl

/-- By what the clock is divided. -/
theorem factor_divisorOf (x : ℕ) : (if divisorOf x = 0 then 1 else 2 * divisorOf x) =
    if x = 0 then 2046 else min (2 ^ Nat.clog 2 x) 2046 := by
  by_cases h0 : x = 0
  · subst h0
    decide
  by_cases h1 : x = 1
  · subst h1
    decide
  obtain ⟨k, hk⟩ : ∃ k, Nat.clog 2 x = k + 1 :=
    Nat.exists_eq_add_one.mpr (Nat.clog_pos one_lt_two (by omega))
  have hpow : 0 < 2 ^ k := Nat.two_pow_pos k
  rw [divisorOf, if_neg h0, if_neg h1, if_neg h0, hk, Nat.add_sub_cancel, if_neg (by omega), Nat.pow_succ]
  omega

/-- A quotient with a remainder. -/
theorem le_mul_iff_of_mod_ne_zero {b t k : ℕ} (ht : 0 < t) (hmod : b % t ≠ 0) :
    b ≤ k * t ↔ b / t < k := by
  rw [Nat.div_lt_iff_lt_mul ht, Nat.le_iff_lt_or_eq, or_iff_left]
  rintro rfl
  exact hmod (Nat.mul_mod_left k t)

/-- The logarithm of the number before `q`, rounded up, is too small for `q` just when one of the two is a
power of two. -/
theorem lt_two_pow_clog_pred_iff {q : ℕ} (hq : 2 ≤ q) :
    q < 2 ^ Nat.clog 2 (q - 1) ↔ (∀ k, q ≠ 2 ^ k) ∧ ∀ k, q - 1 ≠ 2 ^ k := by
  have hle := Nat.le_pow_clog one_lt_two (q - 1)
  constructor
  · refine fun hlt => ⟨fun k hk => ?_, fun k hk => ?_⟩
    · have hclog : Nat.clog 2 (q - 1) ≤ k := (Nat.clog_le_iff_le_pow one_lt_two).mpr (by omega)
      have := Nat.pow_le_pow_right two_pos hclog
      omega
    · rw [hk, Nat.clog_pow 2 k one_lt_two] at hlt
      omega
  · rintro ⟨hpow, hpred⟩
    have h₁ := hpow (Nat.clog 2 (q - 1))
    have h₂ := hpred (Nat.clog 2 (q - 1))
    omega

/-- The base clock of 62.5 MHz is not divided for a rate of 25 MHz. -/
theorem sd_clock_too_fast : 0 < sdClockNormal ∧ sdClockNormal ≤ 62500000 ∧ 62500000 ≤ 2046 * sdClockNormal ∧
    ¬ sdClock 62500000 (encodedDivisor (sdGetClockDivider 62500000 sdClockNormal)) ≤ sdClockNormal := by
  have hd : encodedDivisor (sdGetClockDivider 62500000 sdClockNormal) = 0 := by decide +kernel
  refine ⟨by decide, by decide, by decide, ?_⟩
  rw [hd, sdClock_le_iff]
  decide

/-- **The clock of the card** does not exceed the target rate if and only if the rates divide, or differ by
less than a factor of two, or neither their quotient nor the number before it is a power of two. -/
theorem sd_clock_limit_iff {b t : ℕ} (ht : 0 < t) (hle : t ≤ b) (hmax : b ≤ 2046 * t) :
    sdClock b (encodedDivisor (sdGetClockDivider b t)) ≤ t ↔
      t ∣ b ∨ b < 2 * t ∨ (∀ k, b / t ≠ 2 ^ k) ∧ ∀ k, b / t - 1 ≠ 2 ^ k := by
  have hq : b / t ≤ 2046 := Nat.div_le_of_le_mul (by rwa [Nat.mul_comm])
  have hpos : 0 < b / t := Nat.div_pos hle ht
  rw [encodedDivisor_sdGetClockDivider hle (by omega) hpos, sdClock_le_iff, factor_divisorOf,
    targettedDivisor]
  by_cases hmod : b % t = 0
  · -- the quotient is targeted
    have hclog := Nat.le_pow_clog one_lt_two (b / t)
    rw [if_neg (not_not.mpr hmod), if_neg hpos.ne']
    refine iff_of_true ?_ (Or.inl (Nat.dvd_of_mod_eq_zero hmod))
    calc b = b / t * t := (Nat.div_mul_cancel (Nat.dvd_of_mod_eq_zero hmod)).symm
      _ ≤ min (2 ^ Nat.clog 2 (b / t)) 2046 * t := Nat.mul_le_mul_right t (le_min hclog hq)
  · -- one less than the quotient is targeted
    have hlt : b / t < 2046 := (le_mul_iff_of_mod_ne_zero ht hmod).mp hmax
    have hdvd : ¬ t ∣ b := mt Nat.mod_eq_zero_of_dvd hmod
    rw [if_pos hmod, le_mul_iff_of_mod_ne_zero ht hmod, or_iff_right hdvd, ← Nat.div_lt_iff_lt_mul ht]
    by_cases hone : b / t = 1
    · rw [hone]
      exact iff_of_true (by decide) (Or.inl (by decide))
    · rw [if_neg (by omega), or_iff_right (by omega), ← lt_two_pow_clog_pred_iff (by omega), lt_min_iff,
        and_iff_left hlt]

/-- 100 MHz are divided by 256 for a rate of 400 kHz. -/
theorem sd_clock_limit_iff_id :
    sdClock 100000000 (encodedDivisor (sdGetClockDivider 100000000 sdClockId)) ≤ sdClockId :=
  (sd_clock_limit_iff (by decide) (by decide) (by decide)).mpr (Or.inl (by decide))

end RpiBoot
