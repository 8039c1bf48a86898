import RpiBoot.Cstring
import RpiBoot.Word

/-!
# `strtol` (`strtol.c`)

The digits are accumulated in an `unsigned long` up to a cutoff that depends on the sign, so that the
value fits a `long`. A string is the list of its characters; `errno` is part of the result.

* `strtol`: the function, with `strtolLoop` for its loop.
* `denoted`: the number that a string denotes in the notation of `base` 0, of any size.
* `gt_cutoff_iff`: the test against the cutoff is exact.
* **`strtol_denoted`**, **`strtol_junk`**: the result for a string that denotes a number, and for any other.
-/

namespace RpiBoot

/-- The value of a digit; letters follow the decimal digits. -/
def digitValue (c : UInt8) : Option ℕ :=
  if c ≥ 0x30 ∧ c ≤ 0x39 then some (c - 0x30).toNat
  else if c ≥ 0x41 ∧ c ≤ 0x5a then some (c - (0x41 - 10)).toNat
  else if c ≥ 0x61 ∧ c ≤ 0x7a then some (c - (0x61 - 10)).toNat
  else none

/-- A digit of a hexadecimal number, as `strtol` tests it behind `0x`. -/
def isHexDigit (c : UInt8) : Bool :=
  (c ≥ 0x30 && c ≤ 0x39) || (c ≥ 0x41 && c ≤ 0x46) || (c ≥ 0x61 && c ≤ 0x66)

/-- The values of `errno` that `strtol` sets. -/
inductive Errno where
  | einval | erange
deriving DecidableEq

/-- What `strtol` returns, what it sets `errno` to, and the string at `*endptr`. -/
structure StrtolResult where
  val : ℤ
  errno : Option Errno
  endptr : List UInt8
deriving DecidableEq

/-- The sign, and what follows it. -/
def takeSign (s : List UInt8) : Bool × List UInt8 :=
  if s.head? = some 0x2d then (true, s.drop 1)
  else if s.head? = some 0x2b then (false, s.drop 1)
  else (false, s)

/-- The base, and the digits: `0x` is skipped when a hexadecimal digit follows. -/
def takeBase (base : ℕ) (s : List UInt8) : ℕ × List UInt8 :=
  if (base = 0 ∨ base = 16) ∧ s.head? = some 0x30 ∧ (s[1]? = some 0x78 ∨ s[1]? = some 0x58) ∧
      s[2]?.any isHexDigit then (16, s.drop 2)
  else if base = 0 then (if s.head? = some 0x30 then 8 else 10, s)
  else (base, s)

/-- The loop of `strtol`: `any`, `acc` and the string at `s - 1`. -/
def strtolLoop (base cutoff cutlim : ℕ) : (any : ℤ) → (acc : ℕ) → List UInt8 → ℤ × ℕ × List UInt8
  | any, acc, [] => (any, acc, [])
  | any, acc, c :: s =>
    match digitValue c with
    | none => (any, acc, c :: s)
    | some d =>
      if d ≥ base then (any, acc, c :: s)
      else if any < 0 ∨ acc > cutoff ∨ acc = cutoff ∧ d > cutlim then
        strtolLoop base cutoff cutlim (-1) acc s
      else strtolLoop base cutoff cutlim 1 (u32 (u32 (acc * base) + d)) s

/-- `LONG_MAX`, or the absolute value of `LONG_MIN`. -/
def longLimit (neg : Bool) : ℕ := if neg then 2 ^ 31 else 2 ^ 31 - 1

/-- The part of `strtol` behind the sign and the prefix of the digits. -/
def strtolDigits (nptr : List UInt8) (neg : Bool) (base : ℕ) (s : List UInt8) : StrtolResult :=
  if base < 2 ∨ base > 36 then ⟨0, some .einval, nptr⟩
  else
    let cutoff := longLimit neg
    let r := strtolLoop base (cutoff / base) (cutoff % base) 0 0 s
    let any := r.1
    let acc := r.2.1
    if any < 0 then ⟨i32 (longLimit neg), some .erange, r.2.2⟩
    else if any = 0 then ⟨0, some .einval, nptr⟩
    else ⟨i32 (if neg then sub32 0 acc else acc), none, r.2.2⟩

/-- `strtol(nptr, &endptr, base)`. -/
def strtol (nptr : List UInt8) (base : ℕ) : StrtolResult :=
  let sign := takeSign (nptr.dropWhile isspace)
  let digits := takeBase base sign.2
  strtolDigits nptr sign.1 digits.1 digits.2

/-! ## Numbers of any size -/

/-- The number with the given digits behind the number `acc`. -/
def numeral (base : ℕ) : (acc : ℕ) → List UInt8 → Option ℕ
  | acc, [] => some acc
  | acc, c :: s => (digitValue c).bind fun d => if d < base then numeral base (acc * base + d) s else none

/-- A number with its sign. -/
def withSign (neg : Bool) (n : ℕ) : ℤ := if neg then -(n : ℤ) else n

/-- The number that a string denotes: white space, a sign, and the digits in the base that they start
with. -/
def denoted (nptr : List UInt8) : Option ℤ :=
  let sign := takeSign (nptr.dropWhile isspace)
  let digits := takeBase 0 sign.2
  if digits.2 = [] then none else (numeral digits.1 0 digits.2).map (withSign sign.1)

/-! ## The loop -/

/-- **The cutoff.** A further digit takes a number beyond `limit` just when the test says so. -/
theorem gt_cutoff_iff {limit base acc d : ℕ} (hd : d < base) :
    limit < acc * base + d ↔ acc > limit / base ∨ acc = limit / base ∧ d > limit % base := by
  have hdiv := Nat.div_add_mod limit base
  have hmod := Nat.mod_lt limit (show base > 0 by omega)
  rw [Nat.mul_comm] at hdiv
  rcases Nat.lt_trichotomy acc (limit / base) with h | h | h
  · have := Nat.mul_le_mul_right base (show acc + 1 ≤ limit / base from h)
    rw [Nat.succ_mul] at this
    omega
  · rw [h]
    omega
  · have := Nat.mul_le_mul_right base (show limit / base + 1 ≤ acc from h)
    rw [Nat.succ_mul] at this
    omega

/-- A digit in a base. -/
def isDigit (base : ℕ) (c : UInt8) : Bool := (digitValue c).any (· < base)

theorem isDigit_iff {base : ℕ} {c : UInt8} : isDigit base c = true ↔ ∃ d < base, digitValue c = some d := by
  cases h : digitValue c <;> simp [isDigit, h]

theorem numeral_cons_eq_some {base acc n : ℕ} {c : UInt8} {s : List UInt8} :
    numeral base acc (c :: s) = some n ↔
      ∃ d < base, digitValue c = some d ∧ numeral base (acc * base + d) s = some n := by
  rw [numeral, Option.bind_eq_some_iff]
  constructor
  · rintro ⟨d, hc, h⟩
    split_ifs at h with hd
    exact ⟨d, hd, hc, h⟩
  · rintro ⟨d, hd, hc, h⟩
    exact ⟨d, hc, by rwa [if_pos hd]⟩

/-- The characters of a number are digits. -/
theorem all_of_numeral {base acc n : ℕ} {s : List UInt8} (h : numeral base acc s = some n) :
    s.all (isDigit base) = true := by
  induction s generalizing acc with
  | nil => rfl
  | cons c s ih =>
    obtain ⟨d, hd, hc, h⟩ := numeral_cons_eq_some.mp h
    rw [List.all_cons, isDigit_iff.mpr ⟨d, hd, hc⟩, ih h, Bool.true_and]

/-- Digits make a number. -/
theorem numeral_of_all {base : ℕ} {s : List UInt8} (h : s.all (isDigit base) = true) (acc : ℕ) :
    ∃ n, numeral base acc s = some n := by
  induction s generalizing acc with
  | nil => exact ⟨acc, rfl⟩
  | cons c s ih =>
    rw [List.all_cons, Bool.and_eq_true] at h
    obtain ⟨d, hd, hc⟩ := isDigit_iff.mp h.1
    obtain ⟨n, hn⟩ := ih h.2 (acc * base + d)
    exact ⟨n, numeral_cons_eq_some.mpr ⟨d, hd, hc, hn⟩⟩

theorem le_numeral {base acc n : ℕ} {s : List UInt8} (h : numeral base acc s = some n) : acc ≤ n := by
  induction s generalizing acc with
  | nil => exact (Option.some.inj h).le
  | cons c s ih =>
    obtain ⟨d, hd, -, h⟩ := numeral_cons_eq_some.mp h
    have hle := ih h
    have := Nat.le_mul_of_pos_right acc (show 0 < base by omega)
    omega

section Loop

variable {base limit : ℕ}

/-- The round of the loop on a digit. -/
theorem strtolLoop_digit {any : ℤ} {acc d : ℕ} {c : UInt8} {s : List UInt8} (hd : d < base)
    (hc : digitValue c = some d) :
    strtolLoop base (limit / base) (limit % base) any acc (c :: s) =
      if any < 0 ∨ limit < acc * base + d then strtolLoop base (limit / base) (limit % base) (-1) acc s
      else strtolLoop base (limit / base) (limit % base) 1 (u32 (u32 (acc * base) + d)) s := by
  rw [strtolLoop, hc]
  simp only [if_neg (show ¬ d ≥ base by omega), gt_cutoff_iff hd]

/-- The loop stops at the first character that is no digit. -/
theorem strtolLoop_endptr (cutoff cutlim : ℕ) (any : ℤ) (acc : ℕ) (s : List UInt8) :
    (strtolLoop base cutoff cutlim any acc s).2.2 = s.dropWhile (isDigit base) := by
  induction s generalizing any acc with
  | nil => rfl
  | cons c s ih =>
    rw [strtolLoop, List.dropWhile_cons]
    cases hc : digitValue c with
    | none => simp [isDigit, hc]
    | some d =>
      by_cases hd : d < base
      · simp only [isDigit, hc, Option.any_some, hd, decide_true, if_true, if_neg (show ¬ d ≥ base by omega)]
        split_ifs
        · exact ih _ _
        · exact ih _ _
      · simp [isDigit, hc, hd, not_lt.mp hd]

/-- A number that has overflowed stays so. -/
theorem strtolLoop_overflowed {acc : ℕ} {s : List UInt8} (h : s.all (isDigit base) = true) :
    strtolLoop base (limit / base) (limit % base) (-1) acc s = (-1, acc, []) := by
  induction s with
  | nil => rfl
  | cons c s ih =>
    rw [List.all_cons, Bool.and_eq_true] at h
    obtain ⟨d, hd, hc⟩ := isDigit_iff.mp h.1
    rw [strtolLoop_digit hd hc, if_pos (Or.inl (by norm_num)), ih h.2]

/-- A number within the limit is accumulated. -/
theorem strtolLoop_fits (hl : limit < 2 ^ 32) {any : ℤ} {acc n : ℕ} {s : List UInt8} (hany : 0 ≤ any)
    (h : numeral base acc s = some n) (hn : n ≤ limit) :
    strtolLoop base (limit / base) (limit % base) any acc s = (if s = [] then any else 1, n, []) := by
  induction s generalizing any acc with
  | nil =>
    obtain rfl : acc = n := Option.some.inj h
    rfl
  | cons c s ih =>
    obtain ⟨d, hd, hc, h⟩ := numeral_cons_eq_some.mp h
    have hle := le_numeral h
    rw [strtolLoop_digit hd hc, if_neg (by omega), u32_of_lt (show acc * base < 2 ^ 32 by omega),
      u32_of_lt (by omega), ih (by norm_num) h]
    simp

/-- A number beyond the limit sets `any` to `-1`. -/
theorem strtolLoop_overflows (hl : limit < 2 ^ 32) {any : ℤ} {acc n : ℕ} {s : List UInt8}
    (hacc : acc ≤ limit) (h : numeral base acc s = some n) (hn : limit < n) :
    ∃ acc', strtolLoop base (limit / base) (limit % base) any acc s = (-1, acc', []) := by
  induction s generalizing any acc with
  | nil =>
    obtain rfl : acc = n := Option.some.inj h
    omega
  | cons c s ih =>
    obtain ⟨d, hd, hc, h⟩ := numeral_cons_eq_some.mp h
    rw [strtolLoop_digit hd hc]
    split_ifs with hover
    · exact ⟨acc, strtolLoop_overflowed (all_of_numeral h)⟩
    · rw [u32_of_lt (show acc * base < 2 ^ 32 by omega), u32_of_lt (by omega)]
      exact ih (by omega) h

end Loop

/-! ## The function -/

theorem longLimit_lt (neg : Bool) : longLimit neg < 2 ^ 32 := by
  cases neg <;> decide

/-- In the notation of `base` 0 the base is 8, 10 or 16. -/
theorem takeBase_zero (s : List UInt8) : 8 ≤ (takeBase 0 s).1 ∧ (takeBase 0 s).1 ≤ 16 := by
  have hbase : ∀ base t, takeBase 0 s = (base, t) → 8 ≤ base ∧ base ≤ 16 := by
    intro base t h
    simp only [takeBase, if_true] at h
    split_ifs at h <;> cases h <;> decide
  exact hbase _ _ rfl

/-- The numbers within the limit of their sign are those that fit a `long`. -/
theorem le_longLimit_iff {neg : Bool} {n : ℕ} :
    n ≤ longLimit neg ↔ -2 ^ 31 ≤ withSign neg n ∧ withSign neg n < 2 ^ 31 := by
  cases neg with
  | false => simp only [longLimit, withSign, Bool.false_eq_true, if_false]; omega
  | true => simp only [longLimit, withSign, if_true]; omega

/-- The value that is returned, with the sign. -/
theorem i32_withSign {neg : Bool} {n : ℕ} (hn : n ≤ longLimit neg) :
    i32 (if neg then sub32 0 n else n) = withSign neg n := by
  cases neg with
  | false =>
    simp only [longLimit, withSign, Bool.false_eq_true, if_false] at hn ⊢
    exact i32_of_lt (by omega)
  | true =>
    simp only [longLimit, withSign, if_true] at hn ⊢
    unfold i32 sub32 u32
    split_ifs <;> omega

section Digits

variable {nptr s : List UInt8} {neg : Bool} {base : ℕ}

theorem strtolDigits_fits (hb : 2 ≤ base ∧ base ≤ 36) (hs : s ≠ []) {n : ℕ} (hn : numeral base 0 s = some n)
    (hle : n ≤ longLimit neg) : strtolDigits nptr neg base s = ⟨withSign neg n, none, []⟩ := by
  have hloop := strtolLoop_fits (longLimit_lt neg) le_rfl hn hle
  rw [if_neg hs] at hloop
  unfold strtolDigits
  dsimp only
  rw [if_neg (by omega), hloop, if_neg (by norm_num), if_neg (by norm_num), i32_withSign hle]

theorem strtolDigits_overflows (hb : 2 ≤ base ∧ base ≤ 36) {n : ℕ} (hn : numeral base 0 s = some n)
    (hlt : longLimit neg < n) : (strtolDigits nptr neg base s).errno = some .erange := by
  have hloop : ∃ acc, strtolLoop base (longLimit neg / base) (longLimit neg % base) 0 0 s = (-1, acc, []) :=
    strtolLoop_overflows (longLimit_lt neg) (Nat.zero_le _) hn hlt
  obtain ⟨acc, hloop⟩ := hloop
  unfold strtolDigits
  dsimp only
  rw [if_neg (by omega), hloop, if_pos (by norm_num)]

theorem strtolDigits_junk (hs : s = [] ∨ numeral base 0 s = none) :
    (strtolDigits nptr neg base s).errno ≠ none ∨ (strtolDigits nptr neg base s).endptr ≠ [] := by
  have hend : (strtolLoop base (longLimit neg / base) (longLimit neg % base) 0 0 s).2.2 =
      s.dropWhile (isDigit base) := strtolLoop_endptr _ _ _ _ _
  unfold strtolDigits
  dsimp only
  by_cases hb : base < 2 ∨ base > 36
  · rw [if_pos hb]
    exact Or.inl nofun
  rw [if_neg hb]
  generalize hloop : strtolLoop base (longLimit neg / base) (longLimit neg % base) 0 0 s = r at hend ⊢
  by_cases hneg : r.1 < 0
  · rw [if_pos hneg]
    exact Or.inl nofun
  by_cases hany : r.1 = 0
  · rw [if_neg hneg, if_pos hany]
    exact Or.inl nofun
  rw [if_neg hneg, if_neg hany]
  refine Or.inr fun hnil => ?_
  -- nothing is left: there is a character, and all of them are digits
  have hall : s.all (isDigit base) = true :=
    List.all_eq_true.mpr (List.dropWhile_eq_nil_iff.mp (hend.symm.trans hnil))
  rcases hs with rfl | hs
  · exact hany (by rw [← hloop]; rfl)
  · obtain ⟨n, hn⟩ := numeral_of_all hall 0
    rw [hn] at hs
    cases hs

end Digits

/-- **A string that denotes a number** gives it when it fits a `long`, else a range error. -/
theorem strtol_denoted {nptr : List UInt8} {z : ℤ} (h : denoted nptr = some z) :
    (-2 ^ 31 ≤ z ∧ z < 2 ^ 31 → strtol nptr 0 = ⟨z, none, []⟩) ∧
      (¬ (-2 ^ 31 ≤ z ∧ z < 2 ^ 31) → (strtol nptr 0).errno = some .erange) := by
  have hrange := takeBase_zero (takeSign (nptr.dropWhile isspace)).2
  unfold denoted at h
  dsimp only at h
  split_ifs at h with hnil
  obtain ⟨n, hn, rfl⟩ := Option.map_eq_some_iff.mp h
  rw [← le_longLimit_iff]
  constructor
  · intro hle
    exact strtolDigits_fits (by omega) hnil hn hle
  · intro hlt
    exact strtolDigits_overflows (by omega) hn (by omega)

/-- **Any other string** gives an error, or something is left of it. -/
theorem strtol_junk {nptr : List UInt8} (h : denoted nptr = none) :
    (strtol nptr 0).errno ≠ none ∨ (strtol nptr 0).endptr ≠ [] := by
  apply strtolDigits_junk
  unfold denoted at h
  dsimp only at h
  split_ifs at h with hnil
  · exact Or.inl hnil
  · exact Or.inr (Option.map_eq_none_iff.mp h)

/-! ## Writing numbers -/

theorem isHexDigit_of_isDigit : ∀ c, isDigit 16 c = true → isHexDigit c = true :=
  forall_char (by decide +kernel)

/-- A digit is neither white space nor a sign. -/
theorem plain_of_isDigit : ∀ c, isDigit 16 c = true → isspace c = false ∧ c ≠ 0x2d ∧ c ≠ 0x2b :=
  forall_char (by decide +kernel)

/-- Digits behind digits. -/
theorem numeral_append {base acc n : ℕ} {s t : List UInt8} (h : numeral base acc s = some n) :
    numeral base acc (s ++ t) = numeral base n t := by
  induction s generalizing acc with
  | nil =>
    obtain rfl : acc = n := Option.some.inj h
    rfl
  | cons c s ih =>
    obtain ⟨d, hd, hc, h⟩ := numeral_cons_eq_some.mp h
    rw [List.cons_append, numeral, hc, Option.bind_some, if_pos hd, ih h]

/-- Every number has a numeral. -/
theorem exists_numeral {base : ℕ} (hb : 1 < base) (hdigit : ∀ d < base, ∃ c, digitValue c = some d) (n : ℕ) :
    ∃ s, s ≠ [] ∧ numeral base 0 s = some n := by
  induction n using Nat.strong_induction_on with
  | _ n ih =>
    obtain ⟨c, hc⟩ := hdigit (n % base) (Nat.mod_lt _ (by omega))
    have hlast : ∀ q, q * base + n % base = n → numeral base q [c] = some n := fun q hq =>
      numeral_cons_eq_some.mpr ⟨_, Nat.mod_lt _ (by omega), hc, by rw [hq]; rfl⟩
    rcases Nat.lt_or_ge n base with hlt | hge
    · exact ⟨[c], List.cons_ne_nil _ _, hlast 0 (by rw [Nat.zero_mul, Nat.zero_add, Nat.mod_eq_of_lt hlt])⟩
    · obtain ⟨s, -, hs⟩ := ih (n / base) (Nat.div_lt_self (by omega) hb)
      refine ⟨s ++ [c], by simp, ?_⟩
      rw [numeral_append hs, hlast]
      rw [Nat.mul_comm]
      exact Nat.div_add_mod n base

end RpiBoot
