import Mathlib.Data.BitVec
import RpiBoot.Copy

/-!
# Fast copies on both processors (`boot.s`, `boot64.s`, `util.h`)

The loops of `quick_memcpy` copy 16 bytes, subtract 16 from the count and branch on the flags. Here
addresses and counts are the words of the processor, and wrap.

* `Processor`: the two builds, with their words and branches.
* `quickMemcpyOn`, `memcpyOn`, `qmemcpyOn`: the copies.
* `blocks`: memory after a number of rounds. `blocks_eq`: of a copy between ranges that do not overlap;
  `blocks_eq_self_iff`: when rounds change nothing.
* **`qmemcpy_iff`**: `qmemcpy` is `memcpy` but for copies of length `0` between aligned addresses, which move
  16 bytes on the one processor, and all of memory on the other.
* **`quickMemcpyOn_flat`**: where addresses do not wrap, the loop is that of `Copy`.
-/

namespace RpiBoot

open Store

/-- Memory, addressed by words. -/
abbrev WordMem (w : ℕ) := BitVec w → UInt8

/-- The condition `hi` of a branch. -/
def higher (flags : Bool × Bool) : Bool := flags.1 && !flags.2

/-- The flags of a subtraction: the carry, which is clear when it borrows, and the zero flag. -/
def subFlags {w : ℕ} (a b : BitVec w) : Bool × Bool := (decide (b ≤ a), decide (a - b = 0))

/-- The builds: `boot.s` is assembled for the one, `boot64.s` for the other. -/
inductive Processor where
  | arm
  | arm64
deriving DecidableEq

namespace Processor

/-- The width of a word. -/
abbrev width : Processor → ℕ
  | arm => 32
  | arm64 => 64

/-- Whether `bhi` is taken behind the subtraction from the count `n`. It looks at the flags of `subs`, or of
a comparison of the difference with `0`. -/
def again : (p : Processor) → BitVec p.width → Bool
  | arm, n => higher (subFlags n 16)
  | arm64, n => higher (subFlags (n - 16) 0)

end Processor

section Copies

variable {w : ℕ}

/-- Load 16 bytes, and store them. -/
def copy16 (mem : WordMem w) (dest src : BitVec w) : WordMem w := fun a =>
  if (a - dest).toNat < 16 then mem (src + (a - dest)) else mem a

/-- `memcpy(dest, src, n)`. -/
def memcpyOn (mem : WordMem w) (dest src : BitVec w) : ℕ → WordMem w
  | 0 => mem
  | n + 1 => memcpyOn (Function.update mem dest (mem src)) (dest + 1) (src + 1) n

end Copies

variable (p : Processor)

/-- `quick_memcpy(dest, src, n)`; `none` when it is not over after so many rounds. -/
def quickMemcpyOn : ℕ → WordMem p.width → (dest src n : BitVec p.width) → Option (WordMem p.width)
  | 0, _, _, _, _ => none
  | fuel + 1, mem, dest, src, n =>
    let mem' := copy16 mem dest src
    if p.again n then quickMemcpyOn fuel mem' (dest + 16) (src + 16) (n - 16) else some mem'

/-- `qmemcpy(dest, src, n)`. -/
def qmemcpyOn (fuel : ℕ) (mem : WordMem p.width) (dest src n : BitVec p.width) :
    Option (WordMem p.width) :=
  if dest &&& 0xf = 0 ∧ src &&& 0xf = 0 ∧ n &&& 0xf = 0 then quickMemcpyOn p fuel mem dest src n
  else some (memcpyOn mem dest src n.toNat)

/-! ## Ranges of words -/

section Ranges

variable {w : ℕ} {mem : WordMem w} {dest src a : BitVec w} {k m n : ℕ}

/-- Memory with `n` bytes from `src` on also at `dest`. -/
def copied (mem : WordMem w) (dest src : BitVec w) (n : ℕ) : WordMem w := fun a =>
  if (a - dest).toNat < n then mem (src + (a - dest)) else mem a

/-- The ranges of `n` bytes do not overlap. -/
def ApartOn (dest src : BitVec w) (n : ℕ) : Prop :=
  ∀ i < n, ∀ j < n, dest + BitVec.ofNat w i ≠ src + BitVec.ofNat w j

theorem ApartOn.shift (h : ApartOn dest src (m + n)) :
    ApartOn (dest + BitVec.ofNat w m) (src + BitVec.ofNat w m) n := by
  intro i hi j hj
  rw [BitVec.add_assoc, BitVec.add_assoc, ← BitVec.ofNat_add, ← BitVec.ofNat_add]
  exact h (m + i) (by omega) (m + j) (by omega)

/-- Where an address lies in a range that starts later. -/
theorem toNat_sub_add (hm : m < 2 ^ w) : (a - (dest + BitVec.ofNat w m)).toNat =
    if m ≤ (a - dest).toNat then (a - dest).toNat - m else 2 ^ w + (a - dest).toNat - m := by
  have hlt := (a - dest).isLt
  rw [← BitVec.sub_sub, BitVec.toNat_sub, BitVec.toNat_ofNat, Nat.mod_eq_of_lt hm]
  split_ifs with h
  · rw [show 2 ^ w - m + (a - dest).toNat = (a - dest).toNat - m + 2 ^ w by omega, Nat.add_mod_right,
      Nat.mod_eq_of_lt (by omega)]
  · rw [Nat.mod_eq_of_lt (by omega)]
    omega

/-- **Two copies**, the second behind the first. -/
theorem copied_copied (hlen : m + n ≤ 2 ^ w) (h : ApartOn dest src (m + n)) :
    copied (copied mem dest src m) (dest + BitVec.ofNat w m) (src + BitVec.ofNat w m) n =
      copied mem dest src (m + n) := by
  rcases Nat.eq_zero_or_pos n with rfl | hn
  · exact funext fun a => if_neg (Nat.not_lt_zero _)
  funext a
  have hy : (a - (dest + BitVec.ofNat w m)).toNat = _ := toNat_sub_add (by omega)
  have hx := (a - dest).isLt
  have hb : src + BitVec.ofNat w m + (a - (dest + BitVec.ofNat w m)) = src + (a - dest) := by
    rw [← BitVec.sub_sub, BitVec.add_assoc, BitVec.add_comm (BitVec.ofNat w m), BitVec.sub_add_cancel]
  rw [copied, hb, hy, copied]
  by_cases hin : m ≤ (a - dest).toNat ∧ (a - dest).toNat < m + n
  · -- the source byte of the second copy is not among those that the first one has written
    have hout : ¬(src + (a - dest) - dest).toNat < m := by
      intro hlt
      refine h _ (lt_of_lt_of_le hlt (Nat.le_add_right m n)) _ hin.2 ?_
      rw [BitVec.ofNat_toNat, BitVec.ofNat_toNat, BitVec.setWidth_eq, BitVec.setWidth_eq,
        BitVec.add_comm, BitVec.sub_add_cancel]
    rw [if_pos hin.1, if_pos (by omega), if_neg hout]
    exact (if_pos hin.2).symm
  · rw [if_neg (by split_ifs <;> omega), copied]
    by_cases hm : (a - dest).toNat < m
    · rw [if_pos hm]
      exact (if_pos (by omega)).symm
    · rw [if_neg hm]
      exact (if_neg (by omega)).symm

theorem copied_zero (mem : WordMem w) (dest src : BitVec w) : copied mem dest src 0 = mem :=
  funext fun _ => if_neg (Nat.not_lt_zero _)

theorem copied_one (mem : WordMem w) (dest src : BitVec w) :
    copied mem dest src 1 = Function.update mem dest (mem src) := by
  funext a
  rw [copied, Function.update_apply]
  by_cases ha : a = dest
  · rw [if_pos ha, ha, BitVec.sub_self, if_pos (by simp), BitVec.add_zero]
  · have hne : (a - dest).toNat ≠ 0 := fun h0 => ha (sub_eq_zero.mp (BitVec.eq_of_toNat_eq h0))
    rw [if_neg ha, if_neg (by omega)]

theorem memcpyOn_eq : ∀ (n : ℕ) (mem : WordMem w) (dest src : BitVec w), n ≤ 2 ^ w →
    ApartOn dest src n → memcpyOn mem dest src n = copied mem dest src n
  | 0, mem, dest, src, _, _ => (copied_zero mem dest src).symm
  | n + 1, mem, dest, src, hn, h => by
    rw [Nat.add_comm] at h hn
    rw [Nat.add_comm, ← copied_copied hn h, copied_one, Nat.add_comm]
    exact memcpyOn_eq n _ _ _ (by omega) h.shift

/-- Memory after `k` rounds of `quick_memcpy`. -/
def blocks : ℕ → WordMem w → BitVec w → BitVec w → WordMem w
  | 0, mem, _, _ => mem
  | k + 1, mem, dest, src => blocks k (copy16 mem dest src) (dest + 16) (src + 16)

theorem blocks_eq : ∀ (k : ℕ) (mem : WordMem w) (dest src : BitVec w), 16 * k ≤ 2 ^ w →
    ApartOn dest src (16 * k) → blocks k mem dest src = copied mem dest src (16 * k)
  | 0, mem, dest, src, _, _ => (copied_zero mem dest src).symm
  | k + 1, mem, dest, src, hk, h => by
    rw [Nat.mul_succ, Nat.add_comm] at h hk
    rw [Nat.mul_succ, Nat.add_comm (16 * k), ← copied_copied hk h]
    exact blocks_eq k _ _ _ (by omega) h.shift

/-- Rounds further up leave the bytes in front of them. -/
theorem blocks_of_lt : ∀ (k : ℕ) (mem : WordMem w) {m : ℕ}, m + 16 * k ≤ 2 ^ w →
    (a - dest).toNat < m →
    ∀ src : BitVec w, blocks k mem (dest + BitVec.ofNat w m) src a = mem a
  | 0, mem, m, _, _, src => rfl
  | k + 1, mem, m, hk, ha, src => by
    rw [blocks, show (16 : BitVec w) = BitVec.ofNat w 16 from rfl, BitVec.add_assoc, ← BitVec.ofNat_add,
      blocks_of_lt k _ (by omega) (by omega), copy16, toNat_sub_add (by omega),
      if_neg (by rw [if_neg (by omega)]; omega)]

/-- **When rounds change nothing**: what they move is there already. -/
theorem blocks_eq_self_iff : ∀ (k : ℕ) (mem : WordMem w) (dest src : BitVec w), 16 * k ≤ 2 ^ w →
    (blocks k mem dest src = mem ↔
      ∀ i < 16 * k, mem (dest + BitVec.ofNat w i) = mem (src + BitVec.ofNat w i))
  | 0, mem, dest, src, _ => ⟨fun _ i hi => by omega, fun _ => rfl⟩
  | k + 1, mem, dest, src, hk => by
    have hfst : ∀ i < 16, blocks (k + 1) mem dest src (dest + BitVec.ofNat w i) =
        mem (src + BitVec.ofNat w i) := by
      intro i hi
      have hsub : dest + BitVec.ofNat w i - dest = BitVec.ofNat w i := by
        rw [BitVec.add_comm, BitVec.add_sub_cancel]
      have hi' : (BitVec.ofNat w i).toNat = i := by
        rw [BitVec.toNat_ofNat, Nat.mod_eq_of_lt (by omega)]
      have hlt : (dest + BitVec.ofNat w i - dest).toNat < 16 := by rw [hsub, hi']; exact hi
      rw [blocks, show dest + 16 = dest + BitVec.ofNat w 16 from rfl,
        blocks_of_lt k _ (by omega) hlt, copy16, if_pos hlt, hsub]
    have hstep : (∀ i < 16, mem (dest + BitVec.ofNat w i) = mem (src + BitVec.ofNat w i)) →
        copy16 mem dest src = mem := by
      intro hs
      funext a
      rw [copy16]
      split_ifs with ha
      · have := hs _ ha
        rw [BitVec.ofNat_toNat, BitVec.setWidth_eq, BitVec.add_comm, BitVec.sub_add_cancel] at this
        exact this.symm
      · rfl
    have ih := blocks_eq_self_iff k mem (dest + 16) (src + 16) (by omega)
    have hshift : ∀ (x : BitVec w) (i : ℕ), x + 16 + BitVec.ofNat w i = x + BitVec.ofNat w (16 + i) :=
      fun x i => by rw [BitVec.ofNat_add, ← BitVec.add_assoc]; rfl
    constructor
    · intro h i hi
      have hs : ∀ i < 16, mem (dest + BitVec.ofNat w i) = mem (src + BitVec.ofNat w i) :=
        fun i hi => by rw [← hfst i hi, h]
      by_cases hi16 : i < 16
      · exact hs i hi16
      · rw [blocks, hstep hs] at h
        have := ih.mp h (i - 16) (by omega)
        rwa [hshift, hshift, show 16 + (i - 16) = i by omega] at this
    · intro h
      rw [blocks, hstep fun i hi => h i (by omega)]
      refine ih.mpr fun i hi => ?_
      rw [hshift, hshift]
      exact h (16 + i) (by omega)

end Ranges

/-! ## The loop -/

/-- The bytes that a copy of length `0` moves, between aligned addresses. -/
def Processor.overrun : Processor → ℕ
  | .arm => 16
  | .arm64 => 2 ^ 64

/-- The rounds of a copy of `n` bytes. -/
def Processor.rounds (n : BitVec p.width) : ℕ :=
  if n.toNat = 0 then p.overrun / 16 else n.toNat / 16

variable {p} {n : BitVec p.width}

theorem toNat_mod_of_and (h : n &&& 0xf = 0) : n.toNat % 16 = 0 := by
  have h' := congrArg BitVec.toNat h
  rw [BitVec.toNat_and] at h'
  cases p <;> exact (Nat.and_two_pow_sub_one_eq_mod n.toNat 4).symm.trans h'

theorem higher_subFlags {w : ℕ} (a b : BitVec w) : higher (subFlags a b) = decide (b.toNat < a.toNat) := by
  rw [Bool.eq_iff_iff, decide_eq_true_iff, higher, subFlags, Bool.and_eq_true, Bool.not_eq_true',
    decide_eq_true_iff, decide_eq_false_iff_not, sub_eq_zero, ← BitVec.toNat_inj, BitVec.le_def]
  omega

theorem again_arm (n : BitVec 32) : Processor.arm.again n = decide (16 < n.toNat) :=
  higher_subFlags n 16

/-- The comparison with `0` never borrows, so the difference counts as higher when it has wrapped, too. -/
theorem again_arm64 (n : BitVec 64) : Processor.arm64.again n = decide (n.toNat ≠ 16) := by
  have h := higher_subFlags (n - 16) 0
  rw [BitVec.toNat_sub] at h
  refine h.trans (decide_eq_decide.mpr ?_)
  have hlt := n.isLt
  change 0 < (2 ^ 64 - 16 + n.toNat) % 2 ^ 64 ↔ n.toNat ≠ 16
  omega

theorem rounds_of_again (hn : n.toNat % 16 = 0) (h : p.again n = true) :
    p.rounds n = p.rounds (n - 16) + 1 := by
  rw [Processor.rounds, Processor.rounds, BitVec.toNat_sub]
  have hlt := n.isLt
  cases p with
  | arm =>
    have h := of_decide_eq_true ((again_arm n).symm.trans h)
    change n.toNat < 2 ^ 32 at hlt
    change _ = (if (2 ^ 32 - 16 + n.toNat) % 2 ^ 32 = 0 then _ else (2 ^ 32 - 16 + n.toNat) % 2 ^ 32 / 16) + 1
    rw [if_neg (by omega), if_neg (by omega)]
    omega
  | arm64 =>
    have h := of_decide_eq_true ((again_arm64 n).symm.trans h)
    change n.toNat < 2 ^ 64 at hlt
    have hne : (2 ^ 64 - 16 + n.toNat) % 2 ^ 64 ≠ 0 := by omega
    change (if n.toNat = 0 then 1152921504606846976 else n.toNat / 16) =
      (if (2 ^ 64 - 16 + n.toNat) % 2 ^ 64 = 0 then _ else (2 ^ 64 - 16 + n.toNat) % 2 ^ 64 / 16) + 1
    rw [if_neg hne]
    split_ifs <;> omega

theorem rounds_of_not_again (hn : n.toNat % 16 = 0) (h : p.again n = false) : p.rounds n = 1 := by
  rw [Processor.rounds]
  cases p with
  | arm =>
    have h := of_decide_eq_false ((again_arm n).symm.trans h)
    change (if n.toNat = 0 then 1 else n.toNat / 16) = 1
    split_ifs <;> omega
  | arm64 =>
    have h := of_decide_eq_false ((again_arm64 n).symm.trans h)
    rw [if_neg (by omega)]
    omega

/-- **The loop** is over behind its rounds. -/
theorem quickMemcpyOn_eq : ∀ (fuel : ℕ) (mem : WordMem p.width) (dest src n : BitVec p.width),
    n.toNat % 16 = 0 → p.rounds n ≤ fuel →
    quickMemcpyOn p fuel mem dest src n = some (blocks (p.rounds n) mem dest src)
  | 0, mem, dest, src, n, hn, hf => by
    cases ha : p.again n with
    | true => rw [rounds_of_again hn ha] at hf; omega
    | false => rw [rounds_of_not_again hn ha] at hf; omega
  | fuel + 1, mem, dest, src, n, hn, hf => by
    rw [quickMemcpyOn]
    cases ha : p.again n with
    | true =>
      have hn' : (n - 16).toNat % 16 = 0 := by
        rw [BitVec.toNat_sub]
        cases p
        · change (2 ^ 32 - 16 + n.toNat) % 2 ^ 32 % 16 = 0
          omega
        · change (2 ^ 64 - 16 + n.toNat) % 2 ^ 64 % 16 = 0
          omega
      have hr := rounds_of_again hn ha
      rw [if_pos rfl, quickMemcpyOn_eq fuel _ _ _ _ hn' (by omega), hr, blocks]
    | false =>
      rw [if_neg Bool.false_ne_true, rounds_of_not_again hn ha]
      rfl

variable (p) in
/-- **The fast copy** leaves the memory that the plain copy leaves, except for copies of length `0` between
aligned addresses: those move bytes, and may change them. -/
theorem qmemcpy_iff (mem : WordMem p.width) (dest src n : BitVec p.width)
    (h : ApartOn dest src n.toNat) :
    (∃ N, ∀ fuel, N ≤ fuel →
      qmemcpyOn p fuel mem dest src n = some (memcpyOn mem dest src n.toNat)) ↔
    (n = 0 → dest &&& 0xf = 0 → src &&& 0xf = 0 →
      ∀ i < p.overrun, mem (dest + BitVec.ofNat _ i) = mem (src + BitVec.ofNat _ i)) := by
  by_cases ha : dest &&& 0xf = 0 ∧ src &&& 0xf = 0 ∧ n &&& 0xf = 0
  · have hmod := toNat_mod_of_and ha.2.2
    have hq : (∃ N, ∀ fuel, N ≤ fuel →
        qmemcpyOn p fuel mem dest src n = some (memcpyOn mem dest src n.toNat)) ↔
        blocks (p.rounds n) mem dest src = memcpyOn mem dest src n.toNat := by
      constructor
      · rintro ⟨N, hN⟩
        have := hN (max N (p.rounds n)) (le_max_left ..)
        rw [qmemcpyOn, if_pos ha, quickMemcpyOn_eq _ _ _ _ _ hmod (le_max_right ..)] at this
        exact Option.some.inj this
      · intro heq
        refine ⟨p.rounds n, fun fuel hf => ?_⟩
        rw [qmemcpyOn, if_pos ha, quickMemcpyOn_eq _ _ _ _ _ hmod hf, heq]
    rw [hq]
    by_cases hn : n = 0
    · subst hn
      have hr : 16 * p.rounds 0 = p.overrun := by cases p <;> rfl
      have ho : p.overrun ≤ 2 ^ p.width := by cases p <;> decide
      have := blocks_eq_self_iff (p.rounds 0) mem dest src (by omega)
      rw [hr] at this
      exact this.trans ⟨fun h _ _ _ => h, fun h => h rfl ha.1 ha.2.1⟩
    · have h0 : n.toNat ≠ 0 := mt (fun h => BitVec.eq_of_toNat_eq (h.trans rfl)) hn
      have hr : 16 * p.rounds n = n.toNat := by
        rw [Processor.rounds, if_neg h0]
        omega
      rw [blocks_eq _ _ _ _ (by rw [hr]; exact n.isLt.le) (by rwa [hr]), hr,
        memcpyOn_eq _ _ _ _ n.isLt.le h]
      exact ⟨fun _ h => absurd h hn, fun _ => rfl⟩
  · refine ⟨fun _ hn hd hs => absurd ⟨hd, hs, ?_⟩ ha, fun _ => ⟨0, fun fuel _ => if_neg ha⟩⟩
    rw [hn]
    exact BitVec.zero_and

/-- Memory with the address at each address. -/
def addressMem : WordMem 32 := fun a => UInt8.ofNat a.toNat

theorem qmemcpy_iff_block : ApartOn (0 : BitVec 32) 16 16 ∧
    ∃ N, ∀ fuel, N ≤ fuel → qmemcpyOn .arm fuel addressMem 0 16 16 = some (memcpyOn addressMem 0 16 16) := by
  have h : ApartOn (0 : BitVec 32) 16 16 := by
    intro i hi j hj
    bv_omega
  exact ⟨h, (qmemcpy_iff (p := .arm) addressMem 0 16 16 h).mpr fun h0 => absurd h0 (by decide)⟩

theorem qmemcpy_not_memcpy :
    ¬∀ (p : Processor) (mem : WordMem p.width) (dest src n : BitVec p.width),
      ApartOn dest src n.toNat → ∃ N, ∀ fuel, N ≤ fuel →
        qmemcpyOn p fuel mem dest src n = some (memcpyOn mem dest src n.toNat) := by
  intro h
  have hapart : ApartOn (0 : BitVec 32) 16 0 := fun i hi => absurd hi (Nat.not_lt_zero i)
  obtain ⟨N, hN⟩ := h .arm (fun a => if a = (16 : BitVec 32) then 1 else 0) 0 (16 : BitVec 32) 0 hapart
  have hmem := congrFun (Option.some.inj (hN (N + 1) (Nat.le_succ N))) (0 : BitVec 32)
  exact absurd hmem (by decide)

/-! ## Copies that do not wrap -/

section Flat

variable {w : ℕ} {mem : WordMem w} {flat : Mem} {dest src : BitVec w}

/-- The same memory, addressed by words and by numbers. -/
def SameBytes (mem : WordMem w) (flat : Mem) : Prop := ∀ a, mem a = flat a.toNat

theorem SameBytes.copy16 (h : SameBytes mem flat) (hd : dest.toNat + 16 ≤ 2 ^ w)
    (hs : src.toNat + 16 ≤ 2 ^ w) :
    SameBytes (copy16 mem dest src)
      (patch flat dest.toNat (slice flat src.toNat 16)) := by
  intro a
  have ha := a.isLt
  have hlen : (slice flat src.toNat 16).length = 16 := length_slice ..
  rw [RpiBoot.copy16]
  by_cases hin : dest.toNat ≤ a.toNat ∧ a.toNat - dest.toNat < 16
  · have hoff : (a - dest).toNat = a.toNat - dest.toNat :=
      BitVec.toNat_sub_of_le (BitVec.le_def.mpr hin.1)
    rw [if_pos (by omega), h, patch_apply_of_mem _ _ _ hin.1 (by omega), getElem_slice,
      BitVec.toNat_add_of_lt (by omega), hoff]
  · have hout : ¬(a - dest).toNat < 16 := by
      rcases Nat.lt_or_ge a.toNat dest.toNat with hlt | hge
      · rw [BitVec.toNat_sub, Nat.mod_eq_of_lt (by omega)]
        omega
      · rw [BitVec.toNat_sub_of_le (BitVec.le_def.mpr hge)]
        omega
    rw [if_neg hout, h, patch_apply_of_notMem _ _ _ (by omega)]

end Flat

/-- **The loop of the 32-bit build**, of addresses that do not wrap, is `quickLoop`. -/
theorem quickMemcpyOn_flat : ∀ (fuel : ℕ) {mem : WordMem 32} {flat : Mem} {dest src n : BitVec 32},
    SameBytes mem flat → n.toNat % 16 = 0 → max n.toNat 16 ≤ 16 * fuel →
    dest.toNat + max n.toNat 16 ≤ 2 ^ 32 → src.toNat + max n.toNat 16 ≤ 2 ^ 32 →
    ∃ mem', quickMemcpyOn .arm fuel mem dest src n = some mem' ∧
      SameBytes mem' (quickLoop flat dest.toNat src.toNat n.toNat fuel)
  | 0, _, _, _, _, _, _, _, hf, _, _ => by omega
  | fuel + 1, mem, flat, dest, src, n, h, hn, hf, hd, hs => by
    have h16 : (16 : BitVec 32).toNat = 16 := rfl
    have hcopy : SameBytes (copy16 mem dest src) (patch flat dest.toNat (slice flat src.toNat 16)) :=
      h.copy16 (by omega) (by omega)
    rw [quickMemcpyOn, quickLoop, again_arm]
    by_cases hgt : 16 < n.toNat
    · rw [if_pos (decide_eq_true hgt), if_pos hgt]
      have hsub : (n - 16).toNat = n.toNat - 16 := by
        rw [BitVec.toNat_sub_of_le (BitVec.le_def.mpr (by omega)), h16]
      have hadd : ∀ x : BitVec 32, x.toNat + max n.toNat 16 ≤ 2 ^ 32 →
          (x + 16).toNat = x.toNat + 16 := by
        intro x hx
        rw [BitVec.toNat_add_of_lt (by omega), h16]
      have := @quickMemcpyOn_flat fuel _ _ (dest + 16) (src + 16) (n - 16) hcopy
        (by omega) (by omega) (by rw [hadd dest hd]; omega) (by rw [hadd src hs]; omega)
      rwa [hadd dest hd, hadd src hs, hsub] at this
    · rw [if_neg (by rwa [decide_eq_true_iff]), if_neg hgt]
      exact ⟨_, rfl, hcopy⟩

end RpiBoot
