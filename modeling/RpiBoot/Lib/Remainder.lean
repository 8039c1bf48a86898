import Mathlib
import RpiBoot.Lib.Lfsr

/-!
# A shift register divides polynomials

The register is a polynomial over the field of two elements, its lowest bit the coefficient of the highest
power, and a message is one whose first bit is the coefficient of the highest power.

* `poly`, `msgPoly`, `generator`: the polynomials of a register, of a message and of the feedback.
* `X_mul_poly`: a step multiplies by `X` and subtracts the generator when the power is too high.
* **`feed_eq_modByMonic`**: what is left in the register is the remainder of the division.
-/

namespace Lfsr

open Polynomial

variable {w : ℕ} {g : BitVec w}

/-- A bit as a coefficient. -/
noncomputable def coefficient (b : Bool) : (ZMod 2)[X] := if b then 1 else 0

/-- The polynomial of a register. -/
noncomputable def poly (s : BitVec w) : (ZMod 2)[X] :=
  ∑ i ∈ Finset.range w, coefficient (s.getLsbD i) * X ^ (w - 1 - i)

/-- The polynomial of a message. -/
noncomputable def msgPoly : List Bool → (ZMod 2)[X]
  | [] => 0
  | b :: bits => coefficient b * X ^ bits.length + msgPoly bits

/-- The polynomial whose lower powers are fed back. -/
noncomputable def generator (g : BitVec w) : (ZMod 2)[X] := X ^ w + poly g

theorem coefficient_xor (a b : Bool) : coefficient (a ^^ b) = coefficient a + coefficient b := by
  cases a <;> cases b <;> simp [coefficient, CharTwo.add_self_eq_zero]

theorem poly_xor (s t : BitVec w) : poly (s ^^^ t) = poly s + poly t := by
  unfold poly
  rw [← Finset.sum_add_distrib]
  refine Finset.sum_congr rfl fun i _ => ?_
  rw [BitVec.getLsbD_xor, coefficient_xor, add_mul]

theorem poly_zero : poly (0#w) = 0 := by
  unfold poly
  exact Finset.sum_eq_zero fun i _ => by simp [coefficient]

theorem poly_ite (b : Bool) (g : BitVec w) : poly (if b then g else 0#w) = coefficient b * poly g := by
  cases b <;> simp [coefficient, poly_zero]

/-- Moving down is multiplying by `X`, but for the bit that falls out. -/
theorem poly_ushiftRight (s : BitVec w) :
    X * poly s = poly (s >>> 1) + coefficient (s.getLsbD 0) * X ^ w := by
  cases w with
  | zero => simp [poly, coefficient]
  | succ n =>
    have hup : ∀ i ∈ Finset.range n, X * (coefficient (s.getLsbD (i + 1)) * X ^ (n + 1 - 1 - (i + 1))) =
        coefficient (s.getLsbD (i + 1)) * X ^ (n - i) := by
      intro i hi
      have hi := Finset.mem_range.mp hi
      rw [mul_left_comm, ← pow_succ', show n + 1 - 1 - (i + 1) + 1 = n - i by omega]
    have htop : s.getLsbD (1 + n) = false := BitVec.getLsbD_of_ge _ _ (by omega)
    have hdown : poly (s >>> 1) = ∑ i ∈ Finset.range n, coefficient (s.getLsbD (i + 1)) * X ^ (n - i) := by
      unfold poly
      rw [Finset.sum_range_succ, BitVec.getLsbD_ushiftRight, htop]
      simp [coefficient, Nat.add_comm 1]
    rw [hdown, poly, Finset.sum_range_succ', mul_add, Finset.mul_sum, Finset.sum_congr rfl hup]
    rw [mul_left_comm, ← pow_succ', show n + 1 - 1 - 0 + 1 = n + 1 by omega]

/-- **A step**: times `X`, less the generator if the power is too high. -/
theorem X_mul_poly (g s : BitVec w) :
    X * poly s = poly (step g s) + generator g * coefficient (s.getLsbD 0) := by
  have htwo : coefficient (s.getLsbD 0) * poly g + coefficient (s.getLsbD 0) * poly g = 0 :=
    CharTwo.add_self_eq_zero _
  calc X * poly s = poly (s >>> 1) + coefficient (s.getLsbD 0) * X ^ w := poly_ushiftRight s
    _ = poly (s >>> 1) + coefficient (s.getLsbD 0) * X ^ w +
        (coefficient (s.getLsbD 0) * poly g + coefficient (s.getLsbD 0) * poly g) := by
      rw [htwo, add_zero]
    _ = poly (step g s) + generator g * coefficient (s.getLsbD 0) := by
      rw [step, poly_xor, poly_ite, generator]
      ring

theorem X_mul_poly_low (h : 0 < w) (b : Bool) : X * poly (low w b) = coefficient b * X ^ w := by
  have hdown : low w b >>> 1 = 0#w := by
    apply BitVec.eq_of_getLsbD_eq
    intro i hi
    simp [low]
  have hbit : (low w b).getLsbD 0 = b := by simp [low, h]
  rw [poly_ushiftRight, hdown, hbit, poly_zero, zero_add]

theorem degree_poly_lt (s : BitVec w) : (poly s).degree < w := by
  rw [← mem_degreeLT]
  refine Submodule.sum_mem _ fun i hi => ?_
  have hi := Finset.mem_range.mp hi
  rw [mem_degreeLT]
  cases s.getLsbD i
  · simp [coefficient]
  · simp only [coefficient, if_true, one_mul, degree_X_pow]
    exact_mod_cast (show w - 1 - i < w by omega)

theorem generator_monic (g : BitVec w) : (generator g).Monic :=
  monic_X_pow_add (degree_poly_lt g)

theorem degree_generator (g : BitVec w) : (generator g).degree = w := by
  rw [generator, degree_add_eq_left_of_degree_lt] <;> rw [degree_X_pow]
  exact degree_poly_lt g

/-- Taking bits in is dividing, with some quotient. -/
theorem exists_quotient (h : 0 < w) (g s : BitVec w) (bits : List Bool) : ∃ q,
    poly (feed g s bits) + generator g * q = X ^ bits.length * poly s + X ^ w * msgPoly bits := by
  induction bits generalizing s with
  | nil => exact ⟨0, by simp [feed, msgPoly]⟩
  | cons b bits ih =>
    obtain ⟨q, hq⟩ := ih (step g (s ^^^ low w b))
    refine ⟨q + X ^ bits.length * coefficient ((s ^^^ low w b).getLsbD 0), ?_⟩
    have hstep := X_mul_poly g (s ^^^ low w b)
    rw [poly_xor, mul_add, X_mul_poly_low h] at hstep
    calc poly (feed g s (b :: bits)) +
          generator g * (q + X ^ bits.length * coefficient ((s ^^^ low w b).getLsbD 0))
        = poly (feed g (step g (s ^^^ low w b)) bits) + generator g * q +
          X ^ bits.length * (generator g * coefficient ((s ^^^ low w b).getLsbD 0)) := by
          rw [show feed g s (b :: bits) = feed g (step g (s ^^^ low w b)) bits from rfl]
          ring
      _ = X ^ w * msgPoly bits + X ^ bits.length * (poly (step g (s ^^^ low w b)) +
          generator g * coefficient ((s ^^^ low w b).getLsbD 0)) := by
          rw [hq]
          ring
      _ = X ^ (b :: bits).length * poly s + X ^ w * msgPoly (b :: bits) := by
          rw [← hstep, List.length_cons, msgPoly]
          ring

/-- **The register divides**: after a message, it holds the remainder of what it held and of the message,
moved up. -/
theorem feed_eq_modByMonic (h : 0 < w) (g s : BitVec w) (bits : List Bool) :
    poly (feed g s bits) = (X ^ bits.length * poly s + X ^ w * msgPoly bits) %ₘ generator g := by
  obtain ⟨q, hq⟩ := exists_quotient h g s bits
  have hdegree : (poly (feed g s bits)).degree < (generator g).degree := by
    rw [degree_generator]
    exact degree_poly_lt _
  exact (div_modByMonic_unique q _ (generator_monic g) ⟨hq, hdegree⟩).2.symm

end Lfsr
