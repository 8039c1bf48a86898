import RpiBoot.Multiboot.Model
import RpiBoot.Strtol

/-!
# The address commands

`entry_addr` and `binary_load_addr` take their argument from `strtol`, whose value is a signed `long`,
to an unsigned address.

* `strtolAddr`: how the two methods take their argument.
* `strtolAddr_iff`: the arguments that are taken, and the addresses.
* `AddressForm`: an address in hexadecimal or decimal digits.
* **`address_args_iff`**: the commands treat an address as they should just when it fits a `long`.
-/

namespace RpiBoot

variable {σ : Type}

/-- The address of an argument, as the two methods take it. -/
def strtolAddr (args : List UInt8) : Option ℕ :=
  let r := strtol args 0
  if r.errno = none ∧ args ≠ [] ∧ r.endptr = [] then some (toU32 r.val) else none

/-- The loader with `strtol`. -/
def BootEnv.withStrtol (env : BootEnv σ) : BootEnv σ := { env with parseAddr := strtolAddr }

/-! ## The argument -/

/-- **The arguments that are taken** denote a number that fits a `long`. -/
theorem strtolAddr_iff {args : List UInt8} {a : ℕ} :
    strtolAddr args = some a ↔
      ∃ z, denoted args = some z ∧ (-2 ^ 31 ≤ z ∧ z < 2 ^ 31) ∧ a = toU32 z := by
  have hne : ∀ z, denoted args = some z → args ≠ [] := by
    rintro z h rfl
    cases h
  unfold strtolAddr
  dsimp only
  cases h : denoted args with
  | none =>
    rw [if_neg fun hok => ?_]
    · simp
    · exact (strtol_junk h).elim (fun he => he hok.1) fun he => he hok.2.2
  | some z =>
    obtain ⟨hfits, hover⟩ := strtol_denoted h
    by_cases hz : -2 ^ 31 ≤ z ∧ z < 2 ^ 31
    · rw [hfits hz, if_pos ⟨rfl, hne z h, rfl⟩]
      simp only [Option.some.injEq, ↓existsAndEq, true_and, hz, and_self, eq_comm]
    · rw [if_neg fun hok => by rw [hover hz] at hok; cases hok.1]
      simp only [reduceCtorEq, Option.some.injEq, false_iff]
      rintro ⟨z', rfl, hz', -⟩
      exact hz hz'

/-! ## The forms of an address -/

/-- The digits of `v` behind `0x`, or its decimal digits, which do not start with `0`. -/
def AddressForm (v : ℕ) (args : List UInt8) : Prop :=
  (∃ l, l ≠ [] ∧ numeral 16 0 l = some v ∧ args = 0x30 :: 0x78 :: l) ∨
    (args ≠ [] ∧ args.head? ≠ some 0x30 ∧ numeral 10 0 args = some v)

theorem denoted_hex {v : ℕ} {l : List UInt8} (hl : l ≠ []) (h : numeral 16 0 l = some v) :
    denoted (0x30 :: 0x78 :: l) = some (v : ℤ) := by
  obtain ⟨c, s, rfl⟩ := List.exists_cons_of_ne_nil hl
  have hall := all_of_numeral h
  rw [List.all_cons, Bool.and_eq_true] at hall
  have hhex := isHexDigit_of_isDigit c hall.1
  have hspace : (0x30 :: 0x78 :: c :: s).dropWhile isspace = 0x30 :: 0x78 :: c :: s := rfl
  have hsign : takeSign (0x30 :: 0x78 :: c :: s) = (false, 0x30 :: 0x78 :: c :: s) := rfl
  have hbase : takeBase 0 (0x30 :: 0x78 :: c :: s) = (16, c :: s) := by simp [takeBase, hhex]
  simp only [denoted, hspace, hsign, hbase, reduceCtorEq, if_false, h]
  rfl

theorem denoted_decimal {v : ℕ} {l : List UInt8} (hl : l ≠ []) (hzero : l.head? ≠ some 0x30)
    (h : numeral 10 0 l = some v) : denoted l = some (v : ℤ) := by
  obtain ⟨c, s, rfl⟩ := List.exists_cons_of_ne_nil hl
  have hall := all_of_numeral h
  rw [List.all_cons, Bool.and_eq_true] at hall
  obtain ⟨d, hd, hc⟩ := isDigit_iff.mp hall.1
  obtain ⟨hspace, hminus, hplus⟩ := plain_of_isDigit c (isDigit_iff.mpr ⟨d, by omega, hc⟩)
  rw [List.head?_cons] at hzero
  have hdrop : (c :: s).dropWhile isspace = c :: s := by simp [hspace]
  have hsign : takeSign (c :: s) = (false, c :: s) := by simp [takeSign, hminus, hplus]
  have hbase : takeBase 0 (c :: s) = (10, c :: s) := by simp [takeBase, hzero]
  simp only [denoted, hdrop, hsign, hbase, reduceCtorEq, if_false, h]
  rfl

theorem AddressForm.denoted_eq {v : ℕ} {args : List UInt8} (h : AddressForm v args) :
    denoted args = some (v : ℤ) := by
  rcases h with ⟨l, hl, hv, rfl⟩ | ⟨hl, hzero, hv⟩
  · exact denoted_hex hl hv
  · exact denoted_decimal hl hzero hv

/-- Every number can be written as an address. -/
theorem exists_addressForm (v : ℕ) : ∃ args, AddressForm v args := by
  have hdigit : ∀ d < 16, ∃ c, digitValue c = some d := fun d hd =>
    ⟨UInt8.ofNat (if d < 10 then 0x30 + d else 0x57 + d), by revert d; decide⟩
  obtain ⟨l, hl, hv⟩ := exists_numeral (by norm_num) hdigit v
  exact ⟨_, Or.inl ⟨l, hl, hv, rfl⟩⟩

/-! ## The commands -/

section Commands

variable (env : BootEnv σ) (b : Boot σ)

/-- Both commands take the argument for the address `v`. -/
def TakesAddr (args : List UInt8) (v : ℕ) : Prop :=
  methodEntryAddr env args b = (0, { b with entryAddr := v }) ∧
    methodBinaryLoadAddr env args b = (0, { b with binaryLoadAddr := v })

/-- Both commands reject the argument, and nothing is changed. -/
def RejectsAddr (args : List UInt8) : Prop :=
  methodEntryAddr env args b = (-1, b) ∧ methodBinaryLoadAddr env args b = (-1, b)

/-- The argument is empty, has something that is no part of a number, or is too big for an address. -/
def BadAddress (args : List UInt8) : Prop := ∀ z, denoted args = some z → 2 ^ 32 ≤ z

variable {env b}

theorem takesAddr_of_some {args : List UInt8} {v : ℕ} (hv : strtolAddr args = some v) :
    TakesAddr env.withStrtol b args v := by
  simp [TakesAddr, methodEntryAddr, methodBinaryLoadAddr, BootEnv.withStrtol, hv]

theorem rejectsAddr_of_none {args : List UInt8} (h : strtolAddr args = none) :
    RejectsAddr env.withStrtol b args := by
  simp [RejectsAddr, methodEntryAddr, methodBinaryLoadAddr, BootEnv.withStrtol, h]

theorem rejectsAddr_bad {args : List UInt8} (h : BadAddress args) : RejectsAddr env.withStrtol b args := by
  apply rejectsAddr_of_none
  rw [Option.eq_none_iff_forall_ne_some]
  intro a ha
  obtain ⟨z, hz, hrange, -⟩ := strtolAddr_iff.mp ha
  have := h z hz
  omega

end Commands

/-- **Address arguments.** Every form of the address `v` is taken and gives exactly `v`, and every bad
argument is rejected with nothing changed, if and only if `v` fits a `long`. -/
theorem address_args_iff (env : BootEnv σ) (b : Boot σ) (v : ℕ) :
    (∀ args, AddressForm v args → TakesAddr env.withStrtol b args v) ∧
        (∀ args, BadAddress args → RejectsAddr env.withStrtol b args) ↔ v < 2 ^ 31 := by
  constructor
  · rintro ⟨htakes, -⟩
    obtain ⟨args, hargs⟩ := exists_addressForm v
    by_contra hv
    have hnone : strtolAddr args = none := by
      rw [Option.eq_none_iff_forall_ne_some]
      intro a ha
      obtain ⟨z, hz, hrange, -⟩ := strtolAddr_iff.mp ha
      rw [hargs.denoted_eq] at hz
      cases hz
      omega
    have hrej : RejectsAddr env.withStrtol b args := rejectsAddr_of_none hnone
    have h0 := (htakes args hargs).1.symm.trans hrej.1
    have := congrArg Prod.fst h0
    norm_num at this
  · intro hv
    refine ⟨fun args hargs => ?_, fun args hbad => rejectsAddr_bad hbad⟩
    apply takesAddr_of_some
    exact strtolAddr_iff.mpr ⟨v, hargs.denoted_eq, by omega, (toU32_natCast (by omega)).symm⟩

/-- `entry_addr 0x80000000` is rejected. -/
theorem address_args_broken :
    AddressForm 0x80000000 [0x30, 0x78, 0x38, 0x30, 0x30, 0x30, 0x30, 0x30, 0x30, 0x30] ∧
      ∀ b : Boot Unit, methodEntryAddr (filesEnv fun _ => none).withStrtol
        [0x30, 0x78, 0x38, 0x30, 0x30, 0x30, 0x30, 0x30, 0x30, 0x30] b = (-1, b) := by
  refine ⟨Or.inl ⟨_, List.cons_ne_nil _ _, by decide, rfl⟩, fun b => ?_⟩
  have hnone : strtolAddr [0x30, 0x78, 0x38, 0x30, 0x30, 0x30, 0x30, 0x30, 0x30, 0x30] = none := by decide
  exact (rejectsAddr_of_none hnone).1

end RpiBoot
