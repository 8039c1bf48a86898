import RpiBoot.Lib.Store
import RpiBoot.Word

/-!
# Copying memory (`stdlib.c`, `util.h`, `boot.s`)

Memory is a store of bytes. Objects do not run past the end of the address space, so addresses are
not wrapped.

* `clearMem`: `memset` with zeros.
* `memcpy`: byte by byte, upwards.
* `quickMemcpy`: the assembly loop. It copies 16 bytes before it looks at the count, so a copy of
  length `0` moves 16 bytes.
* `qmemcpy`: the choice between the two; `copyCount` is the number of bytes it moves.
* **`qmemcpy_of_pos`**, **`qmemcpy_zero`**: what a copy leaves in memory.
-/

namespace RpiBoot

open Store

/-- Byte-addressed memory. -/
abbrev Mem := ℕ → UInt8

/-- The little-endian halfword at `a`. -/
def le16 (mem : Mem) (a : ℕ) : ℕ := (mem a).toNat + 2 ^ 8 * (mem (a + 1)).toNat

/-- The little-endian word at `a`. -/
def le32 (mem : Mem) (a : ℕ) : ℕ := le16 mem a + 2 ^ 16 * le16 mem (a + 2)

theorem le16_lt (mem : Mem) (a : ℕ) : le16 mem a < 2 ^ 16 := by
  have h₁ := (mem a).toNat_lt
  have h₂ := (mem (a + 1)).toNat_lt
  unfold le16; omega

theorem le32_lt (mem : Mem) (a : ℕ) : le32 mem a < 2 ^ 32 := by
  have h₁ := le16_lt mem a
  have h₂ := le16_lt mem (a + 2)
  unfold le32; omega

theorem le16_congr {f g : Mem} {a b n : ℕ} (h : slice f a n = slice g b n) {i : ℕ} (hi : i + 2 ≤ n) :
    le16 f (a + i) = le16 g (b + i) := by
  have h := slice_eq_iff.mp h
  rw [le16, le16, h i (by omega), Nat.add_assoc, h (i + 1) (by omega), Nat.add_assoc]

theorem le32_congr {f g : Mem} {a b n : ℕ} (h : slice f a n = slice g b n) {i : ℕ} (hi : i + 4 ≤ n) :
    le32 f (a + i) = le32 g (b + i) := by
  rw [le32, le32, le16_congr h (by omega), Nat.add_assoc, Nat.add_assoc b, le16_congr h (by omega)]

/-- `memset(a, 0, n)`. -/
def clearMem (a n : ℕ) (mem : Mem) : Mem := patch mem a (List.replicate n 0)

/-- `memcpy(dest, src, n)`. -/
def memcpy (mem : Mem) (dest src : ℕ) : ℕ → Mem
  | 0 => mem
  | n + 1 => memcpy (Function.update mem dest (mem src)) (dest + 1) (src + 1) n

/-- The loop of `quick_memcpy`: load and store four words (`ldm` and `stm`, so that the addresses are word
aligned), subtract 16 from the count, repeat while the unsigned result is higher. -/
def quickLoop (mem : Mem) (dest src n : ℕ) : ℕ → Mem
  | 0 => mem
  | fuel + 1 =>
    let mem' := patch mem dest (slice mem src 16)
    if n > 16 then quickLoop mem' (dest + 16) (src + 16) (n - 16) fuel else mem'

/-- `quick_memcpy(dest, src, n)` of word-aligned addresses; `n + 1` rounds are never used up. -/
def quickMemcpy (mem : Mem) (dest src n : ℕ) : Mem := quickLoop mem dest src n (n + 1)

/-- `dest`, `src` and `n` are multiples of 16. -/
def Aligned16 (dest src n : ℕ) : Prop := dest % 16 = 0 ∧ src % 16 = 0 ∧ n % 16 = 0

instance (dest src n : ℕ) : Decidable (Aligned16 dest src n) := by
  unfold Aligned16; infer_instance

/-- `qmemcpy(dest, src, n)`. -/
def qmemcpy (mem : Mem) (dest src n : ℕ) : Mem :=
  if Aligned16 dest src n then quickMemcpy mem dest src n else memcpy mem dest src n

/-- The number of bytes that `qmemcpy` moves. -/
def copyCount (dest src n : ℕ) : ℕ := if Aligned16 dest src n ∧ n = 0 then 16 else n

theorem le_copyCount (dest src n : ℕ) : n ≤ copyCount dest src n := by
  unfold copyCount; split_ifs <;> omega

/-! ## Copies between ranges that do not overlap -/

theorem memcpy_eq : ∀ (n : ℕ) (mem : Mem) (dest src : ℕ), dest + n ≤ src ∨ src + n ≤ dest →
    memcpy mem dest src n = patch mem dest (slice mem src n)
  | 0, mem, dest, src, _ => by simp [memcpy]
  | n + 1, mem, dest, src, h => by
    have hu : Function.update mem dest (mem src) = patch mem dest (slice mem src 1) :=
      (patch_singleton mem dest (mem src)).symm
    rw [memcpy, memcpy_eq n _ _ _ (by omega), hu,
      slice_patch_of_disjoint (by rw [length_slice]; omega), Nat.add_comm n 1, slice_add, patch_append,
      length_slice]

theorem quickLoop_eq : ∀ (fuel n : ℕ) (mem : Mem) (dest src : ℕ), 16 * n + 16 < 16 * fuel + 16 →
    0 < n → dest + 16 * n ≤ src ∨ src + 16 * n ≤ dest →
    quickLoop mem dest src (16 * n) fuel = patch mem dest (slice mem src (16 * n))
  | 0, n, mem, dest, src, hf, _, _ => by omega
  | fuel + 1, n, mem, dest, src, hf, hn, h => by
    rw [quickLoop]
    split_ifs with h16
    · obtain ⟨m, rfl⟩ : ∃ m, n = m + 1 := ⟨n - 1, by omega⟩
      rw [show 16 * (m + 1) - 16 = 16 * m by omega,
        quickLoop_eq fuel m _ _ _ (by omega) (by omega) (by omega),
        slice_patch_of_disjoint (by rw [length_slice]; omega),
        show 16 * (m + 1) = 16 + 16 * m by ring, slice_add, patch_append, length_slice]
    · rw [show 16 * n = 16 by omega]

theorem quickMemcpy_of_pos (mem : Mem) {dest src n : ℕ} (hn : 0 < n) (hdvd : n % 16 = 0)
    (h : dest + n ≤ src ∨ src + n ≤ dest) :
    quickMemcpy mem dest src n = patch mem dest (slice mem src n) := by
  obtain ⟨m, rfl⟩ : ∃ m, n = 16 * m := ⟨n / 16, by omega⟩
  exact quickLoop_eq _ m mem dest src (by omega) (by omega) h

/-- **A copy of positive length** between ranges that do not overlap. -/
theorem qmemcpy_of_pos (mem : Mem) {dest src n : ℕ} (hn : 0 < n)
    (h : dest + n ≤ src ∨ src + n ≤ dest) :
    qmemcpy mem dest src n = patch mem dest (slice mem src n) := by
  unfold qmemcpy
  split_ifs with ha
  · exact quickMemcpy_of_pos mem hn ha.2.2 h
  · exact memcpy_eq n mem dest src h

/-- **A copy of length `0`** moves 16 bytes between aligned addresses, and nothing otherwise. -/
theorem qmemcpy_zero (mem : Mem) (dest src : ℕ) :
    qmemcpy mem dest src 0 = patch mem dest (slice mem src (copyCount dest src 0)) := by
  by_cases ha : Aligned16 dest src 0
  · rw [qmemcpy, if_pos ha, copyCount, if_pos ⟨ha, rfl⟩]
    rfl
  · rw [qmemcpy, if_neg ha, copyCount, if_neg (fun h => ha h.1), slice_zero, patch_nil]
    rfl

end RpiBoot
