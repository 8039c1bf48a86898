import Mathlib

/-!
# Shift registers with feedback

A register of `w` bits moves down by one bit in a step, and is exclusive-ored with the generator `g` when
a one falls out. A cyclic checksum is the register after the bits of a message have gone through it.

* `step`, `steps`, `feed`: one step, some steps, and the steps in which bits are taken in.
* `step_xor`, `step_injective`: a step is linear, and loses nothing if the generator has its top bit.
* **`feed_eq_steps`**: up to `w` bits may be taken in at once.
* **`steps_eq_table`**: the steps of the low bits can be looked up.
* **`feed_check`**: when the bits that follow a message are its checksum.
* **`feed_burst`**: messages that differ only within `w` consecutive bits have different checksums.
-/

namespace Lfsr

variable {w : ℕ} (g : BitVec w)

/-- One step. -/
def step (s : BitVec w) : BitVec w := s >>> 1 ^^^ if s.getLsbD 0 then g else 0#w

/-- Some steps. -/
def steps (n : ℕ) (s : BitVec w) : BitVec w := (step g)^[n] s

/-- A bit as the lowest of the register. -/
def low (w : ℕ) (b : Bool) : BitVec w := (BitVec.ofBool b).setWidth w

/-- The register after some bits have been taken in. -/
def feed (s : BitVec w) (bits : List Bool) : BitVec w := bits.foldl (fun s b => step g (s ^^^ low w b)) s

/-- Some bits as a word, the first one lowest. -/
def word (w : ℕ) : List Bool → BitVec w
  | [] => 0#w
  | b :: bits => low w b ^^^ word w bits <<< 1

variable {g}

/-! ## Steps -/

/-- A step is linear. -/
theorem step_xor (s t : BitVec w) : step g (s ^^^ t) = step g s ^^^ step g t := by
  unfold step
  rw [BitVec.ushiftRight_xor_distrib, BitVec.getLsbD_xor]
  cases s.getLsbD 0 <;> cases t.getLsbD 0
  · simp
  · simp [BitVec.xor_assoc]
  · simp only [Bool.xor_false, if_true, if_false, Bool.false_eq_true, BitVec.xor_zero]
    ac_rfl
  · simp only [Bool.xor_self, if_true, if_false, Bool.false_eq_true, BitVec.xor_zero]
    rw [BitVec.xor_assoc (s >>> 1), BitVec.xor_comm g, BitVec.xor_assoc (t >>> 1), BitVec.xor_self,
      BitVec.xor_zero]

/-- The bit that falls out becomes the top bit. -/
theorem msb_step (hg : g.msb = true) (s : BitVec w) : (step g s).msb = s.getLsbD 0 := by
  have hw : 0 < w := by
    by_contra h
    obtain rfl : w = 0 := by omega
    exact absurd hg (by simp [BitVec.msb_eq_getLsbD_last])
  have hshift : (s >>> 1).msb = false := by
    rw [BitVec.msb_eq_getLsbD_last, BitVec.getLsbD_ushiftRight]
    exact BitVec.getLsbD_of_ge _ _ (by omega)
  rw [step, BitVec.msb_xor, hshift]
  cases s.getLsbD 0 <;> simp [hg]

/-- A step loses nothing. -/
theorem step_injective (hg : g.msb = true) : Function.Injective (step g) := by
  intro s t h
  have hlow : s.getLsbD 0 = t.getLsbD 0 := by rw [← msb_step hg, h, msb_step hg]
  have hshift : s >>> 1 = t >>> 1 := by
    unfold step at h
    rw [hlow] at h
    exact (BitVec.xor_left_inj _).mp h
  ext i hi
  cases i with
  | zero => exact hlow
  | succ i =>
    have h := congrArg (fun x => x.getLsbD i) hshift
    simp only [BitVec.getLsbD_ushiftRight] at h
    rw [← BitVec.getLsbD_eq_getElem, ← BitVec.getLsbD_eq_getElem, Nat.add_comm, h]

theorem steps_succ (n : ℕ) (s : BitVec w) : steps g (n + 1) s = steps g n (step g s) := rfl

theorem steps_xor (n : ℕ) (s t : BitVec w) : steps g n (s ^^^ t) = steps g n s ^^^ steps g n t := by
  induction n generalizing s t with
  | zero => rfl
  | succ n ih => rw [steps_succ, step_xor, ih, steps_succ, steps_succ]

theorem steps_injective (hg : g.msb = true) (n : ℕ) : Function.Injective (steps g n) :=
  (step_injective hg).iterate n

/-- While no one falls out, the register moves down. -/
theorem steps_of_low {n : ℕ} {s : BitVec w} (h : ∀ i < n, s.getLsbD i = false) : steps g n s = s >>> n := by
  induction n generalizing s with
  | zero => simp [steps]
  | succ n ih =>
    have hstep : step g s = s >>> 1 := by simp [step, h 0 (by omega)]
    have hlow : ∀ i < n, (s >>> 1).getLsbD i = false := by
      intro i hi
      rw [BitVec.getLsbD_ushiftRight]
      exact h _ (by omega)
    rw [steps_succ, hstep, ih hlow, ← BitVec.shiftRight_add, Nat.add_comm]

/-- **The steps of the low bits can be looked up**; the other bits only move down. -/
theorem steps_eq_table (n : ℕ) (s : BitVec w) :
    steps g n s = steps g n (s &&& BitVec.ofNat w (2 ^ n - 1)) ^^^ s >>> n := by
  have hmask : ∀ i, (BitVec.ofNat w (2 ^ n - 1)).getLsbD i = decide (i < w ∧ i < n) := by
    intro i
    rw [BitVec.getLsbD_ofNat, Nat.testBit_two_pow_sub_one, Bool.decide_and]
  have hsplit : s = (s &&& BitVec.ofNat w (2 ^ n - 1)) ^^^ (s &&& ~~~BitVec.ofNat w (2 ^ n - 1)) := by
    ext i hi
    simp only [BitVec.getElem_xor, BitVec.getElem_and, BitVec.getElem_not]
    cases s[i] <;> simp
  have hhigh : (s &&& ~~~BitVec.ofNat w (2 ^ n - 1)) >>> n = s >>> n := by
    apply BitVec.eq_of_getLsbD_eq
    intro i hi
    simp only [BitVec.getLsbD_ushiftRight, BitVec.getLsbD_and, BitVec.getLsbD_not, hmask]
    by_cases h : n + i < w
    · simp [h]
    · simp [BitVec.getLsbD_of_ge s _ (Nat.le_of_not_lt h)]
  have hlow : ∀ i < n, (s &&& ~~~BitVec.ofNat w (2 ^ n - 1)).getLsbD i = false := by
    intro i hi
    simp only [BitVec.getLsbD_and, BitVec.getLsbD_not, hmask]
    simp [hi]
  conv_lhs => rw [hsplit, steps_xor, steps_of_low hlow, hhigh]

/-! ## Bits that are taken in -/

theorem feed_append (s : BitVec w) (a b : List Bool) : feed g s (a ++ b) = feed g (feed g s a) b :=
  List.foldl_append ..

theorem feed_injective (hg : g.msb = true) (bits : List Bool) :
    Function.Injective fun s => feed g s bits := by
  induction bits with
  | nil => exact fun s t h => h
  | cons b bits ih => exact fun s t h => (BitVec.xor_left_inj _).mp (step_injective hg (ih h))

/-- The bits of a word. -/
theorem getLsbD_word {bits : List Bool} (h : bits.length ≤ w) (i : ℕ) :
    (word w bits).getLsbD i = bits.getD i false := by
  induction bits generalizing i with
  | nil => simp [word]
  | cons b bits ih =>
    rw [List.length_cons] at h
    rw [word, BitVec.getLsbD_xor, BitVec.getLsbD_shiftLeft, ih (by omega)]
    cases i with
    | zero => simp [low, show 0 < w by omega]
    | succ i =>
      by_cases hi : i + 1 < w
      · simp [low, hi]
      · simp [low, hi, List.getElem?_eq_none (show bits.length ≤ i by omega)]

theorem word_injective {a b : List Bool} (hlen : a.length = b.length) (h : a.length ≤ w)
    (hword : word w a = word w b) : a = b := by
  apply List.ext_getElem hlen
  intro i hia hib
  have hbit := congrArg (fun x => x.getLsbD i) hword
  simp only [getLsbD_word h, getLsbD_word (hlen ▸ h)] at hbit
  simpa [hia, hib] using hbit

/-- **As many bits as there are places may be taken in at once.** -/
theorem feed_eq_steps {bits : List Bool} (h : bits.length ≤ w) (s : BitVec w) :
    feed g s bits = steps g bits.length (s ^^^ word w bits) := by
  induction bits generalizing s with
  | nil => simp [feed, steps, word]
  | cons b bits ih =>
    rw [List.length_cons] at h
    have hdown : step g (word w bits <<< 1) = word w bits := by
      have hzero : (word w bits <<< 1).getLsbD 0 = false := by simp
      rw [step, hzero]
      apply BitVec.eq_of_getLsbD_eq
      intro i hi
      simp only [Bool.false_eq_true, if_false, BitVec.xor_zero, BitVec.getLsbD_ushiftRight,
        BitVec.getLsbD_shiftLeft, getLsbD_word (show bits.length ≤ w by omega)]
      by_cases hi' : 1 + i < w
      · simp [hi']
      · simp [hi', List.getElem?_eq_none (show bits.length ≤ i by omega)]
    calc feed g s (b :: bits) = feed g (step g (s ^^^ low w b)) bits := rfl
      _ = steps g bits.length (step g (s ^^^ low w b) ^^^ step g (word w bits <<< 1)) := by
        rw [ih (by omega), hdown]
      _ = steps g (bits.length + 1) (s ^^^ word w (b :: bits)) := by
        rw [← step_xor, steps_succ, word, BitVec.xor_assoc]

/-! ## Checksums -/

/-- **The bits that follow a message are its checksum**, with the places that `c` inverts, just when the
register ends as it does for `c`. -/
theorem feed_check (hg : g.msb = true) {s c : BitVec w} {m t : List Bool} (ht : t.length = w) :
    feed g s (m ++ t) = steps g w c ↔ word w t = feed g s m ^^^ c := by
  rw [feed_append, feed_eq_steps (Nat.le_of_eq ht), ht, (steps_injective hg w).eq_iff]
  constructor
  · rintro rfl
    rw [← BitVec.xor_assoc, BitVec.xor_self, BitVec.zero_xor]
  · intro h
    rw [h, ← BitVec.xor_assoc, BitVec.xor_self, BitVec.zero_xor]

/-- Two messages that differ only within some consecutive bits. -/
def Burst (n : ℕ) (x y : List Bool) : Prop :=
  ∃ a u v z, x = a ++ u ++ z ∧ y = a ++ v ++ z ∧ u.length = v.length ∧ u.length ≤ n ∧ u ≠ v

theorem Burst.length_eq {n : ℕ} {x y : List Bool} (h : Burst n x y) : x.length = y.length := by
  obtain ⟨a, u, v, z, rfl, rfl, hlen, -, -⟩ := h
  simp only [List.length_append, hlen]

/-- A burst is behind a place, or ends within its length from there. -/
theorem Burst.take_or_drop {n : ℕ} {x y : List Bool} (h : Burst n x y) (k : ℕ) :
    x.take k = y.take k ∨ x.drop (k + n) = y.drop (k + n) := by
  obtain ⟨a, u, v, z, rfl, rfl, hlen, hle, -⟩ := h
  by_cases hk : k ≤ a.length
  · left
    rw [List.append_assoc, List.append_assoc, List.take_append_of_le_length hk,
      List.take_append_of_le_length hk]
  · right
    obtain ⟨m, hm⟩ := Nat.exists_eq_add_of_le (show (a ++ u).length ≤ k + n by
      rw [List.length_append]
      omega)
    have hm' : k + n = (a ++ v).length + m := by rw [hm, List.length_append, List.length_append, hlen]
    conv_lhs => rw [hm, List.drop_length_add_append]
    rw [hm', List.drop_length_add_append]

/-- **A burst changes the checksum.** -/
theorem feed_burst (hg : g.msb = true) (s : BitVec w) {x y : List Bool} (h : Burst w x y) :
    feed g s x ≠ feed g s y := by
  obtain ⟨a, u, v, z, rfl, rfl, hlen, hle, hne⟩ := h
  intro h
  simp only [feed_append] at h
  have h : feed g (feed g s a) u = feed g (feed g s a) v := feed_injective hg z h
  rw [feed_eq_steps hle (feed g s a), feed_eq_steps (hlen ▸ hle) (feed g s a), hlen] at h
  have h := (BitVec.xor_right_inj _).mp (steps_injective hg _ h)
  exact hne (word_injective hlen hle h)

end Lfsr
