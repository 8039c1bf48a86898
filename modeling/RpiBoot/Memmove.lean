import RpiBoot.Copy

/-!
# Moving memory (`stdlib.c`)

`memmove` copies upwards when the destination is above the source, and downwards otherwise. A byte that is
read may have been written before, so where the ranges overlap the bytes come from the one end of the source.

* `memcpyDown`, `memmove`: the copies.
* `memcpy_at`, `memcpyDown_at`: a byte of the destination is the byte of the source at the time it is read.
* `MovedTo`: what a move should do.
* **`memmove_moved_iff`**: it does so when the overlap of the source with itself, shifted by the distance of
  the addresses, has equal bytes; so of ranges that do not overlap.
-/

namespace RpiBoot

/-- The loop of `memmove` that begins behind the last byte. -/
def memcpyDown (mem : Mem) (dest src : ℕ) : ℕ → Mem
  | 0 => mem
  | n + 1 => memcpyDown (Function.update mem (dest + n) (mem (src + n))) dest src n

/-- `memmove(dest, src, n)`. -/
def memmove (mem : Mem) (dest src n : ℕ) : Mem :=
  if dest > src then memcpy mem dest src n else memcpyDown mem dest src n

/-! ## Bytes at the time they are read -/

section Order

variable {a i n : ℕ}

theorem memcpy_of_notMem : ∀ (n : ℕ) (mem : Mem) (dest src : ℕ), a < dest ∨ dest + n ≤ a →
    memcpy mem dest src n a = mem a
  | 0, _, _, _, _ => rfl
  | n + 1, mem, dest, src, h => by
    rw [memcpy, memcpy_of_notMem n _ _ _ (by omega), Function.update_of_ne (by omega)]

theorem memcpyDown_of_notMem : ∀ (n : ℕ) (mem : Mem) (dest src : ℕ), a < dest ∨ dest + n ≤ a →
    memcpyDown mem dest src n a = mem a
  | 0, _, _, _, _ => rfl
  | n + 1, mem, dest, src, h => by
    rw [memcpyDown, memcpyDown_of_notMem n _ _ _ (by omega), Function.update_of_ne (by omega)]

theorem memcpy_at : ∀ (n : ℕ) (mem : Mem) (dest src : ℕ) {i : ℕ}, i < n →
    memcpy mem dest src n (dest + i) = memcpy mem dest src i (src + i)
  | n + 1, mem, dest, src, 0, _ => by
    have := memcpy_of_notMem (a := dest) n (Function.update mem dest (mem src)) (dest + 1) (src + 1)
      (by omega)
    rwa [Function.update_self] at this
  | n + 1, mem, dest, src, i + 1, h => by
    have := memcpy_at n (Function.update mem dest (mem src)) (dest + 1) (src + 1) (i := i) (by omega)
    rwa [Nat.add_assoc, Nat.add_comm 1, Nat.add_assoc, Nat.add_comm 1] at this

theorem memcpyDown_at : ∀ (n : ℕ) (mem : Mem) (dest src : ℕ) {i : ℕ}, i < n →
    memcpyDown mem dest src n (dest + i) =
      memcpyDown mem (dest + (i + 1)) (src + (i + 1)) (n - (i + 1)) (src + i)
  | n + 1, mem, dest, src, i, h => by
    rw [memcpyDown]
    by_cases hi : i < n
    · rw [memcpyDown_at n _ dest src hi, show n + 1 - (i + 1) = n - (i + 1) + 1 by omega, memcpyDown,
        show dest + (i + 1) + (n - (i + 1)) = dest + n by omega,
        show src + (i + 1) + (n - (i + 1)) = src + n by omega]
    · obtain rfl : i = n := by omega
      rw [memcpyDown_of_notMem _ _ _ _ (by omega), Function.update_self, Nat.sub_self]
      rfl

/-- Upwards, the bytes repeat those below the destination. -/
theorem memcpy_overlap (mem : Mem) (src : ℕ) {g : ℕ} (hg : 0 < g) (hi : i < n) :
    memcpy mem (src + g) src n (src + g + i) =
      if i < g then mem (src + i) else memcpy mem (src + g) src n (src + g + (i - g)) := by
  rw [memcpy_at n _ _ _ hi]
  split_ifs with h
  · exact memcpy_of_notMem i _ _ _ (by omega)
  · have := memcpy_at i mem (src + g) src (i := i - g) (by omega)
    rw [show src + g + (i - g) = src + i by omega] at this
    rw [memcpy_at n _ _ _ (by omega), this]

/-- Downwards, the bytes repeat those above the destination. -/
theorem memcpyDown_overlap (mem : Mem) (dest : ℕ) {g : ℕ} (hi : i < n) :
    memcpyDown mem dest (dest + g) n (dest + i) =
      if 0 < g ∧ i + g < n then memcpyDown mem dest (dest + g) n (dest + (i + g))
      else mem (dest + g + i) := by
  rw [memcpyDown_at n _ _ _ hi]
  split_ifs with h
  · have := memcpyDown_at (n - (i + 1)) mem (dest + (i + 1)) (dest + g + (i + 1)) (i := g - 1) (by omega)
    rw [show dest + (i + 1) + (g - 1) = dest + g + i by omega] at this
    rw [memcpyDown_at n _ _ _ h.2, this, show g - 1 + 1 = g by omega,
      show dest + (i + 1) + g = dest + (i + g + 1) by omega,
      show dest + g + (i + 1) + g = dest + g + (i + g + 1) by omega,
      show n - (i + 1) - g = n - (i + g + 1) by omega,
      show dest + g + (i + 1) + (g - 1) = dest + g + (i + g) by omega]
  · exact memcpyDown_of_notMem _ _ _ _ (by omega)

end Order

/-! ## What a move should do -/

/-- The bytes that were at `src` are at `dest`, and the rest of memory is unchanged. -/
structure MovedTo (mem mem' : Mem) (dest src n : ℕ) : Prop where
  bytes : ∀ i < n, mem' (dest + i) = mem (src + i)
  rest : ∀ a, a < dest ∨ dest + n ≤ a → mem' a = mem a

/-- A byte of the source that lies in the other copy of the range is also there. -/
def Repeats (mem : Mem) (src n gap : ℕ) : Prop :=
  ∀ i, i + gap < n → mem (src + i) = mem (src + (i + gap))

variable {mem : Mem} {g n : ℕ}

theorem memcpy_moved_iff (src : ℕ) (hg : 0 < g) :
    MovedTo mem (memcpy mem (src + g) src n) (src + g) src n ↔ Repeats mem src n g := by
  constructor
  · intro h i hi
    have := memcpy_overlap mem src hg hi
    rw [if_neg (by omega), h.bytes _ hi, Nat.add_sub_cancel, h.bytes i (by omega)] at this
    exact this.symm
  · intro h
    refine ⟨fun i => ?_, fun a => memcpy_of_notMem n mem _ _⟩
    induction i using Nat.strong_induction_on with
    | _ i ih =>
      intro hi
      rw [memcpy_overlap mem src hg hi]
      split_ifs with hlt
      · rfl
      · have := h (i - g) (by omega)
        rw [ih (i - g) (by omega) (by omega), this, Nat.sub_add_cancel (by omega)]

theorem memcpyDown_moved_iff (dest : ℕ) :
    MovedTo mem (memcpyDown mem dest (dest + g) n) dest (dest + g) n ↔ Repeats mem (dest + g) n g := by
  rcases Nat.eq_zero_or_pos g with rfl | hg
  · refine ⟨fun _ _ _ => rfl, fun _ => ⟨fun i hi => ?_, fun a => memcpyDown_of_notMem n mem _ _⟩⟩
    rw [memcpyDown_overlap mem dest hi, if_neg fun h => absurd h.1 (lt_irrefl 0)]
  constructor
  · intro h i hi
    have := memcpyDown_overlap mem dest (g := g) (show i < n by omega)
    rwa [if_pos ⟨hg, hi⟩, h.bytes _ hi, h.bytes i (by omega)] at this
  · intro h
    refine ⟨fun i hi => ?_, fun a => memcpyDown_of_notMem n mem _ _⟩
    -- downwards: on the number of bytes above
    induction hk : n - i using Nat.strong_induction_on generalizing i with
    | _ k ih =>
      rw [memcpyDown_overlap mem dest hi]
      split_ifs with hlt
      · rw [ih (n - (i + g)) (by omega) (i + g) hlt.2 rfl]
        exact (h i hlt.2).symm
      · rfl

/-- **A move** does what it should exactly when the source, shifted by the distance of the addresses, has
equal bytes where it meets itself. -/
theorem memmove_moved_iff (mem : Mem) (dest src n : ℕ) :
    MovedTo mem (memmove mem dest src n) dest src n ↔
      Repeats mem src n (max dest src - min dest src) := by
  rw [memmove]
  split_ifs with h
  · obtain ⟨g, hg, rfl⟩ : ∃ g, 0 < g ∧ dest = src + g := ⟨dest - src, by omega, by omega⟩
    rw [memcpy_moved_iff src hg, show max (src + g) src - min (src + g) src = g by omega]
  · obtain ⟨g, rfl⟩ : ∃ g, src = dest + g := ⟨src - dest, by omega⟩
    rw [memcpyDown_moved_iff, show max dest (dest + g) - min dest (dest + g) = g by omega]

theorem memmove_not_moved :
    ¬∀ (mem : Mem) (dest src n : ℕ), MovedTo mem (memmove mem dest src n) dest src n := by
  intro h
  have := (h (fun a => if a = 0 then 1 else 0) 1 0 2).bytes 1 (by decide)
  exact absurd this (by decide)

end RpiBoot
