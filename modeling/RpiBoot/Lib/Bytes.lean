import Mathlib.Data.Nat.Notation
import Mathlib.Data.List.Basic
import Mathlib.Tactic.Common
import Mathlib.Tactic.Ring

/-!
# Numbers as bytes, the least significant first

* `toBytes k n`: the `k` lowest bytes of `n`. `ofBytes l`: the number with the bytes `l`.
* **`ofBytes_toBytes`**, **`toBytes_ofBytes`**: the two are inverse, up to the number of bytes.
* `toBytes_inj`: numbers that have the same bytes.
* `or_shiftLeft`, `add_mul_lt`: a number put together byte by byte.
-/

namespace Bytes

/-- The `k` lowest bytes of a number, the least significant first. -/
def toBytes : ℕ → ℕ → List UInt8
  | 0, _ => []
  | k + 1, n => UInt8.ofNat n :: toBytes k (n / 256)

/-- The number with the given bytes, the least significant first. -/
def ofBytes : List UInt8 → ℕ
  | [] => 0
  | b :: l => b.toNat + 256 * ofBytes l

@[simp] theorem length_toBytes (k n : ℕ) : (toBytes k n).length = k := by
  induction k generalizing n with
  | zero => rfl
  | succ k ih => rw [toBytes, List.length_cons, ih]

theorem ofBytes_lt (l : List UInt8) : ofBytes l < 256 ^ l.length := by
  induction l with
  | nil => simp [ofBytes]
  | cons b l ih =>
    have hb := b.toNat_lt
    rw [ofBytes, List.length_cons, Nat.pow_succ]
    omega

/-- **The number of the bytes of a number.** -/
theorem ofBytes_toBytes (k n : ℕ) : ofBytes (toBytes k n) = n % 256 ^ k := by
  induction k generalizing n with
  | zero => simp [toBytes, ofBytes, Nat.mod_one]
  | succ k ih =>
    rw [toBytes, ofBytes, ih, UInt8.toNat_ofNat', Nat.pow_succ' (n := k), Nat.mod_mul]

/-- **The bytes of the number of some bytes.** -/
theorem toBytes_ofBytes (l : List UInt8) : toBytes l.length (ofBytes l) = l := by
  induction l with
  | nil => rfl
  | cons b l ih =>
    have hb := b.toNat_lt
    have hdiv : (b.toNat + 256 * ofBytes l) / 256 = ofBytes l := by omega
    have hmod : UInt8.ofNat (b.toNat + 256 * ofBytes l) = b := by
      apply UInt8.toNat_inj.mp
      rw [UInt8.toNat_ofNat']
      omega
    rw [ofBytes, List.length_cons, toBytes, hdiv, ih, hmod]

theorem toBytes_mod (k n : ℕ) : toBytes k (n % 256 ^ k) = toBytes k n := by
  have h := toBytes_ofBytes (toBytes k n)
  rwa [length_toBytes, ofBytes_toBytes] at h

theorem toBytes_inj {k m n : ℕ} : toBytes k m = toBytes k n ↔ m % 256 ^ k = n % 256 ^ k := by
  constructor
  · intro h
    rw [← ofBytes_toBytes, h, ofBytes_toBytes]
  · intro h
    rw [← toBytes_mod, h, toBytes_mod]

theorem toBytes_inj_of_lt {k m n : ℕ} (hm : m < 256 ^ k) (hn : n < 256 ^ k) :
    toBytes k m = toBytes k n ↔ m = n := by
  rw [toBytes_inj, Nat.mod_eq_of_lt hm, Nat.mod_eq_of_lt hn]

/-- The next byte is put above the ones that are there. -/
theorem or_shiftLeft {i ret b : ℕ} (h : ret < 256 ^ i) : ret ||| b <<< (8 * i) = ret + 256 ^ i * b := by
  have hpow : (2 : ℕ) ^ (8 * i) = 256 ^ i := by rw [Nat.pow_mul]
  rw [Nat.or_comm, ← Nat.shiftLeft_add_eq_or_of_lt (by rwa [hpow]), Nat.shiftLeft_eq, hpow]
  ring

theorem add_mul_lt {i ret : ℕ} (h : ret < 256 ^ i) (b : UInt8) :
    ret + 256 ^ i * b.toNat < 256 ^ (i + 1) := by
  have hb : b.toNat + 1 ≤ 256 := b.toNat_lt
  calc ret + 256 ^ i * b.toNat < 256 ^ i + 256 ^ i * b.toNat := Nat.add_lt_add_right h _
    _ = 256 ^ i * (b.toNat + 1) := by ring
    _ ≤ 256 ^ i * 256 := Nat.mul_le_mul_left _ hb
    _ = 256 ^ (i + 1) := (Nat.pow_succ ..).symm

end Bytes
