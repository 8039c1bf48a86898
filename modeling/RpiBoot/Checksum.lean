import RpiBoot.Crc32
import RpiBoot.Lib.Remainder
import RpiBoot.Raspbootin.Protocol

/-!
# What the CRC-32 is for (`crc32.c`)

The table is that of the polynomial which the source names, taken backwards: the functions divide by it,
eight bits at a time, each byte from its lowest bit on, as a serial line sends it.

* `byteBits`, `bufBits`: bytes as they go over a line.
* `crc32Append_eq`: the bytes go through a shift register bit by bit.
* **`crc32_remainder`**: the checksum is the complement of a remainder.
* `check_iff`: when the four bytes after a message are its checksum.
* **`crc32_ne_of_burst`**: behind a burst of at most 32 bits, the comparison of checksums fails.
-/

namespace RpiBoot

open Bytes Lfsr Polynomial

/-- The polynomial without its highest power, the coefficient of `X ^ 31` in the lowest bit. -/
def crcPoly : BitVec 32 := 0xedb88320#32

/-- The bits of a byte, the lowest first. -/
def byteBits (b : UInt8) : List Bool := (List.range 8).map b.toNat.testBit

/-- The bits of some bytes. -/
def bufBits (buf : List UInt8) : List Bool := buf.flatMap byteBits

theorem length_bufBits (buf : List UInt8) : (bufBits buf).length = 8 * buf.length := by
  induction buf with
  | nil => rfl
  | cons b buf ih =>
    rw [bufBits, List.flatMap_cons, List.length_append, ← bufBits, ih, byteBits, List.length_map,
      List.length_range, List.length_cons]
    omega

theorem bufBits_append (a b : List UInt8) : bufBits (a ++ b) = bufBits a ++ bufBits b :=
  List.flatMap_append

theorem bufBits_take {buf : List UInt8} {n : ℕ} (h : n ≤ buf.length) :
    bufBits (buf.take n) = (bufBits buf).take (8 * n) := by
  conv_rhs => rw [← List.take_append_drop n buf, bufBits_append]
  rw [List.take_left' (by rw [length_bufBits, List.length_take, Nat.min_eq_left h])]

theorem bufBits_drop {buf : List UInt8} {n : ℕ} (h : n ≤ buf.length) :
    bufBits (buf.drop n) = (bufBits buf).drop (8 * n) := by
  conv_rhs => rw [← List.take_append_drop n buf, bufBits_append]
  rw [List.drop_left' (by rw [length_bufBits, List.length_take, Nat.min_eq_left h])]

/-- The bits of some bytes are those of the number with these bytes. -/
theorem getD_bufBits (buf : List UInt8) (i : ℕ) :
    (bufBits buf).getD i false = (ofBytes buf).testBit i := by
  induction buf generalizing i with
  | nil => simp [bufBits, ofBytes]
  | cons b buf ih =>
    have hlen : (byteBits b).length = 8 := by simp [byteBits]
    have hb : b.toNat < 2 ^ 8 := b.toNat_lt
    rw [ofBytes, Nat.add_comm, show (256 : ℕ) = 2 ^ 8 from rfl, Nat.testBit_two_pow_mul_add _ hb, bufBits,
      List.flatMap_cons, ← bufBits]
    by_cases hi : i < 8
    · rw [if_pos hi, List.getD_append _ _ _ _ (by omega), byteBits]
      simp [hi]
    · rw [if_neg hi, List.getD_append_right _ _ _ _ (by omega), hlen, ih]

theorem bufBits_inj {a b : List UInt8} (h : bufBits a = bufBits b) : a = b := by
  have hlen : a.length = b.length := by
    have h := congrArg List.length h
    rw [length_bufBits, length_bufBits] at h
    omega
  have hnum : ofBytes a = ofBytes b :=
    Nat.eq_of_testBit_eq fun i => by rw [← getD_bufBits, h, getD_bufBits]
  rw [← toBytes_ofBytes a, hnum, hlen, toBytes_ofBytes]

/-- Up to four bytes as a word. -/
theorem word_bufBits {buf : List UInt8} (h : buf.length ≤ 4) :
    word 32 (bufBits buf) = BitVec.ofNat 32 (ofBytes buf) := by
  apply BitVec.eq_of_getLsbD_eq
  intro i hi
  rw [getLsbD_word (by rw [length_bufBits]; omega), getD_bufBits, BitVec.getLsbD_ofNat, decide_eq_true hi,
    Bool.true_and]

/-! ## The table -/

/-- An entry of the table is eight steps. -/
theorem crc32Tab_eq : ∀ i < 256, crc32Tab.getD i 0 = (steps crcPoly 8 (BitVec.ofNat 32 i)).toNat := by
  decide +kernel

theorem crc32Step_eq (s : BitVec 32) (b : UInt8) :
    crc32Step s.toNat b = (feed crcPoly s (byteBits b)).toNat := by
  have hb : b.toNat < 256 := b.toNat_lt
  have hword : word 32 (byteBits b) = BitVec.ofNat 32 b.toNat := by
    have h := word_bufBits (show [b].length ≤ 4 by simp)
    rwa [bufBits, List.flatMap_singleton, ofBytes, ofBytes, Nat.mul_zero, Nat.add_zero] at h
  have hxor : (s ^^^ BitVec.ofNat 32 b.toNat).toNat = s.toNat ^^^ b.toNat := by
    rw [BitVec.toNat_xor, BitVec.toNat_ofNat, Nat.mod_eq_of_lt (by omega)]
  have hindex : (s.toNat ^^^ b.toNat) &&& 0xff < 256 := Nat.and_lt_two_pow _ (n := 8) (by decide)
  have hlow : (s ^^^ BitVec.ofNat 32 b.toNat) &&& BitVec.ofNat 32 (2 ^ 8 - 1) =
      BitVec.ofNat 32 ((s.toNat ^^^ b.toNat) &&& 0xff) := by
    apply BitVec.eq_of_toNat_eq
    rw [BitVec.toNat_and, hxor, BitVec.toNat_ofNat, BitVec.toNat_ofNat,
      Nat.mod_eq_of_lt (show 2 ^ 8 - 1 < 2 ^ 32 by decide), Nat.mod_eq_of_lt (Nat.lt_trans hindex (by decide))]
    rfl
  have hshift : (s.toNat ^^^ b.toNat) >>> 8 = s.toNat >>> 8 := by
    rw [Nat.shiftRight_xor_distrib, Nat.shiftRight_eq_div_pow b.toNat, Nat.div_eq_of_lt hb, Nat.xor_zero]
  rw [feed_eq_steps (by simp [byteBits]), hword, show (byteBits b).length = 8 by simp [byteBits],
    steps_eq_table, hlow, BitVec.toNat_xor, ← crc32Tab_eq _ hindex, BitVec.toNat_ushiftRight, hxor, hshift,
    crc32Step]

/-- The bytes go through the register bit by bit. -/
theorem crc32Append_eq (s : BitVec 32) (buf : List UInt8) :
    crc32Append s.toNat buf = (feed crcPoly s (bufBits buf)).toNat := by
  induction buf generalizing s with
  | nil => rfl
  | cons b buf ih =>
    rw [bufBits, List.flatMap_cons, feed_append, ← bufBits, ← ih, ← crc32Step_eq]
    rfl

theorem crc32_eq_feed (buf : List UInt8) :
    BitVec.ofNat 32 (crc32 buf) = feed crcPoly (BitVec.allOnes 32) (bufBits buf) ^^^ BitVec.allOnes 32 := by
  apply BitVec.eq_of_toNat_eq
  rw [BitVec.toNat_ofNat, Nat.mod_eq_of_lt (crc32_lt buf), BitVec.toNat_xor, ← crc32Append_eq]
  rfl

/-! ## The remainder -/

/-- The polynomial that the source names. -/
noncomputable def crcGenerator : (ZMod 2)[X] :=
  X ^ 32 + X ^ 26 + X ^ 23 + X ^ 22 + X ^ 16 + X ^ 12 + X ^ 11 + X ^ 10 + X ^ 8 + X ^ 7 + X ^ 5 + X ^ 4 +
    X ^ 2 + X ^ 1 + X ^ 0

theorem generator_crcPoly : generator crcPoly = crcGenerator := by
  have hbits : ∀ i < 32, crcPoly.getLsbD i =
      ([31, 30, 29, 27, 26, 24, 23, 21, 20, 19, 15, 9, 8, 5].contains i) := by decide
  have hpoly : poly crcPoly = X ^ 26 + X ^ 23 + X ^ 22 + X ^ 16 + X ^ 12 + X ^ 11 + X ^ 10 + X ^ 8 + X ^ 7 +
      X ^ 5 + X ^ 4 + X ^ 2 + X ^ 1 + X ^ 0 := by
    rw [poly, Finset.sum_congr rfl fun i hi => by rw [hbits i (Finset.mem_range.mp hi)]]
    simp [Finset.sum_range_succ, coefficient]
  rw [generator, hpoly, crcGenerator]
  ring

theorem poly_allOnes (w : ℕ) : poly (BitVec.allOnes w) = ∑ i ∈ Finset.range w, X ^ i := by
  rw [poly, ← Finset.sum_range_reflect]
  refine Finset.sum_congr rfl fun i hi => ?_
  have hi := Finset.mem_range.mp hi
  rw [BitVec.getLsbD_allOnes, decide_eq_true (by omega), coefficient, if_pos rfl, one_mul,
    Nat.sub_sub_self (by omega)]

/-- **The checksum is a remainder.** The message follows thirty-two ones and is moved up by as many places;
the remainder of its division by the polynomial is complemented. -/
theorem crc32_remainder (buf : List UInt8) : poly (BitVec.ofNat 32 (crc32 buf)) =
    (X ^ (8 * buf.length) * ∑ i ∈ Finset.range 32, X ^ i + X ^ 32 * msgPoly (bufBits buf)) %ₘ crcGenerator +
      ∑ i ∈ Finset.range 32, X ^ i := by
  rw [crc32_eq_feed, poly_xor, feed_eq_modByMonic (by decide), poly_allOnes, length_bufBits, generator_crcPoly]

/-! ## Bursts -/

theorem crcPoly_msb : crcPoly.msb = true := by decide

/-- Four bytes are the checksum of what is before them just when the register ends as it does for no
message and no checksum. -/
theorem check_iff {msg t : List UInt8} (ht : t.length = 4) : t = toBytes 4 (crc32 msg) ↔
    feed crcPoly (BitVec.allOnes 32) (bufBits (msg ++ t)) = steps crcPoly 32 (BitVec.allOnes 32) := by
  have hlen : (bufBits t).length = 32 := by rw [length_bufBits, ht]
  have ht' : ofBytes t < 2 ^ 32 := by
    have h := ofBytes_lt t
    rwa [ht] at h
  rw [bufBits_append, feed_check crcPoly_msb hlen, ← crc32_eq_feed, word_bufBits (Nat.le_of_eq ht)]
  constructor
  · rintro rfl
    rw [ofBytes_toBytes, Nat.mod_eq_of_lt (show crc32 msg < 256 ^ 4 from crc32_lt msg)]
  · intro h
    have h := congrArg BitVec.toNat h
    rw [BitVec.toNat_ofNat, BitVec.toNat_ofNat, Nat.mod_eq_of_lt ht', Nat.mod_eq_of_lt (crc32_lt msg)] at h
    rw [← h, ← ht, toBytes_ofBytes]

theorem feed_crcSuffix (msg : List UInt8) : feed crcPoly (BitVec.allOnes 32) (bufBits (crcSuffix msg)) =
    steps crcPoly 32 (BitVec.allOnes 32) :=
  (check_iff (length_toBytes ..)).mp rfl

/-- Two messages with their checksums are not a burst apart. -/
theorem not_burst_crcSuffix {msg msg' : List UInt8} :
    ¬ Burst 32 (bufBits (crcSuffix msg)) (bufBits (crcSuffix msg')) := fun h =>
  feed_burst crcPoly_msb (BitVec.allOnes 32) h (by rw [feed_crcSuffix, feed_crcSuffix])

/-- **The comparison of checksums** fails behind a burst: the last four bytes are not the checksum of those
before them. -/
theorem crc32_ne_of_burst {msg data word : List UInt8}
    (h : Burst 32 (bufBits (crcSuffix msg)) (bufBits (data ++ word))) (hword : word.length = 4) :
    ofBytes word ≠ crc32 data := by
  intro hcrc
  have hline : data ++ word = crcSuffix data := by rw [crcSuffix, ← hcrc, ← hword, toBytes_ofBytes]
  rw [hline] at h
  exact not_burst_crcSuffix h

end RpiBoot
