import Mathlib.Data.List.TakeWhile
import RpiBoot.Lib.Str
import RpiBoot.Copy

/-!
# Strings in memory (`stdlib.c`, `ctype.c`)

A `char *` is an address, or `none` for the constant `empty_string`. `char` is unsigned.

* `isspace`, `tolower`, `strlwr`, `strcmp`: the functions, on the characters of a string.
* `stringAt`: the characters that a pointer leads to; `Points` says which they are.
* `strcmp_eq_zero`: strings compare equal when they are.
-/

namespace RpiBoot

open Store

def isspace (c : UInt8) : Bool :=
  c == 0x20 || c == 0x0c || c == 0x0a || c == 0x0d || c == 0x09 || c == 0x0b

def tolower (c : UInt8) : UInt8 := if c ≥ 0x41 ∧ c ≤ 0x5a then 0x61 + (c - 0x41) else c

def strlwr (s : List UInt8) : List UInt8 := s.map tolower

/-- A property of all characters. -/
theorem forall_char {p : UInt8 → Prop} (h : ∀ n < 256, p (UInt8.ofNat n)) (c : UInt8) : p c := by
  have := h c.toNat c.toNat_lt
  rwa [UInt8.ofNat_toNat] at this

/-- `strcmp(s1, s2)`; the end of a string reads `0`. -/
def strcmp : List UInt8 → List UInt8 → UInt8
  | [], [] => 0
  | c :: s₁, [] => if c - 0 ≠ 0 then c - 0 else strcmp s₁ []
  | [], c :: s₂ => if 0 - c ≠ 0 then 0 - c else strcmp [] s₂
  | c₁ :: s₁, c₂ :: s₂ => if c₁ - c₂ ≠ 0 then c₁ - c₂ else strcmp s₁ s₂

/-- The string that a pointer leads to; `none` when it does not end within `n` characters. -/
def stringAt (n : ℕ) (mem : Mem) : Option ℕ → Option (List UInt8)
  | none => some []
  | some p => (scan (· == 0) mem n p).map fun stop => slice mem p (stop - p)

/-- The string `s` is what the pointer leads to. -/
def Points (mem : Mem) : Option ℕ → List UInt8 → Prop
  | none, s => s = []
  | some p, s => Str 0 mem p s

theorem strcmp_eq_zero {s t : List UInt8} (hs : 0 ∉ s) (ht : 0 ∉ t) : strcmp s t = 0 ↔ s = t := by
  induction s generalizing t with
  | nil =>
    cases t with
    | nil => simp [strcmp]
    | cons c t =>
      have hc : c ≠ 0 := fun h => ht (h ▸ List.mem_cons_self)
      simp [strcmp, hc]
  | cons c s ih =>
    have hc : c ≠ 0 := fun h => hs (h ▸ List.mem_cons_self)
    have hs : 0 ∉ s := fun h => hs (List.mem_cons_of_mem c h)
    cases t with
    | nil => simp [strcmp, hc]
    | cons d t =>
      have ht : 0 ∉ t := fun h => ht (List.mem_cons_of_mem d h)
      by_cases hcd : c = d
      · simp [strcmp, hcd, ih hs ht]
      · have hne : c - d ≠ 0 := fun h => hcd (by simpa using UInt8.sub_eq_iff_eq_add.mp h)
        simp [strcmp, hcd, hne]

theorem stringAt_eq {n : ℕ} {mem : Mem} {p : Option ℕ} {s : List UInt8} (h : Points mem p s)
    (hn : s.length < n) : stringAt n mem p = some s := by
  cases p with
  | none =>
    obtain rfl : s = [] := h
    rfl
  | some p =>
    have h : Str 0 mem p s := h
    have hall : s.takeWhile (fun c => !(c == 0)) = s :=
      List.takeWhile_eq_self_iff.mpr fun c hc => by
        have : c ≠ 0 := fun h0 => h.notMem (h0 ▸ hc)
        simpa using this
    rw [stringAt, scan_str h rfl hn, hall, Option.map_some, Nat.add_sub_cancel_left, h.slice_eq]

/-- A string that no cell of which is changed. -/
theorem Points.congr {mem mem' : Mem} {p : Option ℕ} {s : List UInt8} (h : Points mem p s)
    (hmem : ∀ q ∈ p, ∀ i, q ≤ i → i ≤ q + s.length → mem' i = mem i) : Points mem' p s := by
  cases p with
  | none => exact h
  | some p => exact Str.congr h (hmem p rfl)

theorem tolower_ne_zero {c : UInt8} (h : c ≠ 0) : tolower c ≠ 0 := by
  unfold tolower
  split_ifs with hc
  · intro h0
    have h₁ := UInt8.le_iff_toNat_le.mp hc.1
    have h₂ := UInt8.le_iff_toNat_le.mp hc.2
    have h₃ := congrArg UInt8.toNat h0
    rw [UInt8.toNat_add, UInt8.toNat_sub_of_le _ _ hc.1] at h₃
    simp at h₁ h₂ h₃
    omega
  · exact h

end RpiBoot
