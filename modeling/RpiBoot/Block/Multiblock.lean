import RpiBoot.Block.Healthy

/-!
# Requests for several blocks

A device that supports it is asked for several blocks at once, and its count is returned. Else it is
asked for one block after another, and `block_read` and `block_write` count what they have asked for.

* `Counts`: a device that fails, or transfers what lies on it of a request and returns how much that is.
* `BlockDevice.counted`: a device that adds up the bytes that it transfers.
* `byBlocks`: what becomes of the requests for one block after another.
* `readLoop_counted`, `writeLoop_counted`: the loops go by these; **`le_byBlocks_iff`**: when the bytes
  that are counted have been transferred.
* **`block_multi_iff`**: the counts agree and are not too large just when the requests fail alike, and
  those that do not fail end on the device.
-/

namespace RpiBoot

open Store

variable {σ : Type}

/-- A device of `cap` bytes. A request fails, or transfers what lies on the device of it, and returns the
number of these bytes. -/
structure Counts (dev : BlockDevice σ) (inv : σ → Prop) (content : σ → Mem) (cap : ℕ) : Prop where
  cap_lt : cap < 2 ^ 32 * dev.blockSize
  read : ∀ rd, dev.read = some rd → ∀ s buf n b, inv s →
    inv (rd s buf n b).2 ∧ content (rd s buf n b).2 = content s ∧
      (-2 ^ 31 ≤ (rd s buf n b).1.ret ∧ (rd s buf n b).1.ret < 0 ∨
        served dev.blockSize cap n b < 2 ^ 31 ∧
          (rd s buf n b).1 = ⟨served dev.blockSize cap n b,
            slice (content s) (b * dev.blockSize) (served dev.blockSize cap n b)⟩)
  write : ∀ wr, dev.write = some wr → ∀ s mem buf n b, inv s →
    inv (wr s mem buf n b).2 ∧ (-2 ^ 31 ≤ (wr s mem buf n b).1.ret ∧ (wr s mem buf n b).1.ret < 0 ∨
      served dev.blockSize cap n b < 2 ^ 31 ∧ (wr s mem buf n b).1.ret = served dev.blockSize cap n b)

/-- A driver's `read`, with the number of bytes that have been delivered. -/
def countedRead (rd : ReadFn σ) : ReadFn (σ × ℕ) := fun s buf n b =>
  ((rd s.1 buf n b).1, (rd s.1 buf n b).2, s.2 + (rd s.1 buf n b).1.data.length)

/-- A driver's `write`, with the number of bytes that have been accepted. -/
def countedWrite (wr : WriteFn σ) : WriteFn (σ × ℕ) := fun s mem buf n b =>
  ((wr s.1 mem buf n b).1, (wr s.1 mem buf n b).2, s.2 + (wr s.1 mem buf n b).1.ret.toNat)

namespace BlockDevice

variable (dev : BlockDevice σ)

/-- The device, with the flag `supports_multiple_block_read` set or not. -/
def multi (m : Bool) : BlockDevice σ := { dev with supportsMultipleBlockRead := m }

/-- The device, with the number of bytes that it has delivered or accepted. -/
def counted : BlockDevice (σ × ℕ) :=
  { dev with read := dev.read.map countedRead, write := dev.write.map countedWrite }

end BlockDevice

/-- The requests that make up a request, by their offsets, sizes and blocks: what they return. -/
abbrev Requests (σ : Type) := σ → (off n b : ℕ) → ℤ × σ

/-- The reads into a buffer. -/
def readRequests (rd : ReadFn σ) (buf : ℕ) : Requests σ := fun s off n b =>
  ((rd s (buf + off) n b).1.ret, (rd s (buf + off) n b).2)

/-- The writes from a buffer. -/
def writeRequests (wr : WriteFn σ) (mem : Mem) (buf : ℕ) : Requests σ := fun s off n b =>
  ((wr s mem (buf + off) n b).1.ret, (wr s mem (buf + off) n b).2)

/-- What becomes of requests for one block after another, of `n` bytes in all: the first error, and the
number of bytes transferred before it. -/
def byBlocks (bs start : ℕ) (req : Requests σ) : ℕ → σ → (n off j : ℕ) → Option ℤ × ℕ
  | 0, _, _, _, _ => (none, 0)
  | fuel + 1, s, n, off, j =>
    let r := req s off (min n bs) (u32 (start + j))
    if r.1 < 0 then (some r.1, 0)
    else if bs < n then
      let t := byBlocks bs start req fuel r.2 (n - bs) (off + bs) (j + 1)
      (t.1, r.1.toNat + t.2)
    else (none, r.1.toNat)

/-- The error of one request, if it fails. -/
def errorOf (ret : ℤ) : Option ℤ := if ret < 0 then some ret else none

section Transfers

variable (dev : BlockDevice σ) (s : σ) (mem : Mem) (buf n b : ℕ)

/-- The first error, when `n` bytes are read from block `b` on by one block after another. -/
def firstReadError (rd : ReadFn σ) : Option ℤ :=
  (byBlocks dev.blockSize b (readRequests rd buf) (n + 1) s n 0 0).1

/-- The first error, when `n` bytes are written from block `b` on by one block after another. -/
def firstWriteError (wr : WriteFn σ) : Option ℤ :=
  (byBlocks dev.blockSize b (writeRequests wr mem buf) (n + 1) s n 0 0).1

/-- `block_read` and `block_write` of `n` bytes from block `b` on: the bytes and the count are the same
whether or not the device supports several blocks, and the counts do not exceed what has been
transferred. A result below `0` is an error. -/
structure TransfersAgree : Prop where
  count_eq : (blockRead (dev.multi true) s mem buf n b).1 = (blockRead (dev.multi false) s mem buf n b).1
  bytes_eq : 0 ≤ i32 (blockRead (dev.multi true) s mem buf n b).1 →
    (blockRead (dev.multi true) s mem buf n b).2.1 = (blockRead (dev.multi false) s mem buf n b).2.1
  read_le : ∀ m, 0 ≤ i32 (blockRead (dev.multi m).counted (s, 0) mem buf n b).1 →
    (blockRead (dev.multi m).counted (s, 0) mem buf n b).1 ≤
      (blockRead (dev.multi m).counted (s, 0) mem buf n b).2.2.2
  write_le : 0 ≤ i32 (blockWrite dev.counted (s, 0) mem buf n b).1 →
    (blockWrite dev.counted (s, 0) mem buf n b).1 ≤ (blockWrite dev.counted (s, 0) mem buf n b).2.2

/-- A request for two blocks or more fails as its blocks do, and where no block fails, the request ends on
the device. -/
structure RequestFits (cap : ℕ) : Prop where
  errors_eq : ∀ rd, dev.read = some rd → 2 * dev.blockSize ≤ n →
    errorOf (rd s buf n b).1.ret = firstReadError dev s buf n b rd
  read_le : ∀ rd, dev.read = some rd → firstReadError dev s buf n b rd = none → n ≤ cap - b * dev.blockSize
  write_le : ∀ wr, dev.write = some wr → firstWriteError dev s mem buf n b wr = none →
    n ≤ cap - b * dev.blockSize

end Transfers

variable {dev : BlockDevice σ} {inv : σ → Prop} {content : σ → Mem} {bs cap : ℕ} {s : σ}

/-! ## The loops -/

/-- One round of `block_read`. -/
theorem blockReadLoop_succ (rd : ReadFn σ) (buf start fuel : ℕ) (s : σ) (mem : Mem) (n off j : ℕ) :
    blockReadLoop dev rd buf start (fuel + 1) s mem n off j =
      let r := rd s (buf + off) (min n dev.blockSize) (u32 (start + j))
      if r.1.ret < 0 then (toU32 r.1.ret, patch mem (buf + off) r.1.data, r.2)
      else if dev.blockSize < n then blockReadLoop dev rd buf start fuel r.2
        (patch mem (buf + off) r.1.data) (n - dev.blockSize) (off + dev.blockSize) (j + 1)
      else (off + n, patch mem (buf + off) r.1.data, r.2) := by
  have hlen : (if n > dev.blockSize then dev.blockSize else n) = min n dev.blockSize := by
    split_ifs <;> omega
  have hleft : (if n < dev.blockSize then 0 else n - dev.blockSize) = n - dev.blockSize := by
    split_ifs <;> omega
  simp only [blockReadLoop, hlen, hleft, gt_iff_lt, Nat.sub_pos_iff_lt]
  split_ifs with hneg hmore
  · rfl
  · rw [min_eq_right hmore.le]
  · rw [min_eq_left (not_lt.mp hmore)]

/-- One round of `block_write`. -/
theorem blockWriteLoop_succ (wr : WriteFn σ) (mem : Mem) (buf start fuel : ℕ) (s : σ) (n off j : ℕ) :
    blockWriteLoop dev wr mem buf start (fuel + 1) s n off j =
      let r := wr s mem (buf + off) (min n dev.blockSize) (u32 (start + j))
      if r.1.ret < 0 then (toU32 r.1.ret, r.2)
      else if dev.blockSize < n then blockWriteLoop dev wr mem buf start fuel r.2 (n - dev.blockSize)
        (off + dev.blockSize) (j + 1)
      else (off + n, r.2) := by
  have hlen : (if n > dev.blockSize then dev.blockSize else n) = min n dev.blockSize := by
    split_ifs <;> omega
  have hleft : (if n < dev.blockSize then 0 else n - dev.blockSize) = n - dev.blockSize := by
    split_ifs <;> omega
  simp only [blockWriteLoop, hlen, hleft, gt_iff_lt, Nat.sub_pos_iff_lt]
  split_ifs with hneg hmore
  · rfl
  · rw [min_eq_right hmore.le]
  · rw [min_eq_left (not_lt.mp hmore)]

/-- The count of a loop. -/
def countOf (total : ℕ) : Option ℤ → ℕ
  | some e => toU32 e
  | none => total

variable {start : ℕ} {req : Requests σ}

/-- A request that fails, or transfers what lies on the device. -/
def Replies (bs cap : ℕ) (inv : σ → Prop) (req : Requests σ) : Prop :=
  ∀ s off n b, inv s → inv (req s off n b).2 ∧
    (-2 ^ 31 ≤ (req s off n b).1 ∧ (req s off n b).1 < 0 ∨ (req s off n b).1 = served bs cap n b)

theorem Counts.readReplies (h : Counts dev inv content cap) {rd : ReadFn σ} (hrd : dev.read = some rd)
    (buf : ℕ) : Replies dev.blockSize cap inv (readRequests rd buf) := by
  intro s off n b hs
  obtain ⟨hi, -, hres⟩ := h.read rd hrd s (buf + off) n b hs
  exact ⟨hi, hres.imp_right fun hok => congrArg ReadReply.ret hok.2⟩

theorem Counts.writeReplies (h : Counts dev inv content cap) {wr : WriteFn σ} (hwr : dev.write = some wr)
    (mem : Mem) (buf : ℕ) : Replies dev.blockSize cap inv (writeRequests wr mem buf) := by
  intro s off n b hs
  obtain ⟨hi, hres⟩ := h.write wr hwr s mem (buf + off) n b hs
  exact ⟨hi, hres.imp_right And.right⟩

/-- An error is a negative `int`. -/
theorem byBlocks_error (h : Replies bs cap inv req) {e : ℤ} : ∀ {fuel : ℕ} {s : σ} {n off j : ℕ}, inv s →
    (byBlocks bs start req fuel s n off j).1 = some e → -2 ^ 31 ≤ e ∧ e < 0 := by
  intro fuel
  induction fuel with
  | zero => exact fun _ he => nomatch he
  | succ fuel ih =>
    intro s n off j hs he
    obtain ⟨hi, hres⟩ := h s off (min n bs) (u32 (start + j)) hs
    rw [byBlocks] at he
    dsimp only at he
    split_ifs at he with hneg hmore
    · obtain rfl := Option.some.inj he
      exact hres.resolve_right fun hok => by omega
    · exact ih hi he

/-- No more is transferred than is asked for. -/
theorem byBlocks_le (h : Replies bs cap inv req) : ∀ {fuel : ℕ} {s : σ} {n off j : ℕ}, inv s →
    (byBlocks bs start req fuel s n off j).2 ≤ n := by
  intro fuel
  induction fuel with
  | zero => exact fun _ => Nat.zero_le _
  | succ fuel ih =>
    intro s n off j hs
    obtain ⟨hi, hres⟩ := h s off (min n bs) (u32 (start + j)) hs
    have hle : served bs cap (min n bs) (u32 (start + j)) ≤ min n bs := min_le_left _ _
    rw [byBlocks]
    dsimp only
    split_ifs with hneg hmore
    · exact Nat.zero_le _
    · have hrest : (byBlocks bs start req fuel (req s off (min n bs) (u32 (start + j))).2 (n - bs)
          (off + bs) (j + 1)).2 ≤ n - bs := ih hi
      dsimp only
      omega
    · dsimp only
      omega

/-- **All bytes are transferred**, when no request fails, just when they lie on the device. -/
theorem le_byBlocks_iff (h : Replies bs cap inv req) (hcap : cap < 2 ^ 32 * bs) :
    ∀ {fuel : ℕ} {s : σ} {n off j : ℕ}, inv s → n < fuel → start + j < 2 ^ 32 →
      (byBlocks bs start req fuel s n off j).1 = none →
      (n ≤ (byBlocks bs start req fuel s n off j).2 ↔ n ≤ cap - (start + j) * bs) := by
  intro fuel
  induction fuel with
  | zero => exact fun _ hn => absurd hn (Nat.not_lt_zero _)
  | succ fuel ih =>
    intro s n off j hs hn hj hok
    obtain ⟨hi, hres⟩ := h s off (min n bs) (u32 (start + j)) hs
    rw [u32_of_lt hj] at hi hres
    rw [byBlocks, u32_of_lt hj] at hok ⊢
    dsimp only at hok ⊢
    by_cases hneg : (req s off (min n bs) (start + j)).1 < 0
    · rw [if_pos hneg] at hok
      cases hok
    rw [if_neg hneg] at hok ⊢
    have hret := hres.resolve_left fun hno => hneg hno.2
    rw [hret, Int.toNat_natCast, served]
    by_cases hmore : bs < n
    · rw [if_pos hmore] at hok ⊢
      have hle : (byBlocks bs start req fuel (req s off (min n bs) (start + j)).2 (n - bs) (off + bs)
          (j + 1)).2 ≤ n - bs := byBlocks_le h hi
      have hnext : bs ≤ cap - (start + j) * bs → start + (j + 1) < 2 ^ 32 := fun hfits => by
        have : (start + (j + 1)) * bs < 2 ^ 32 * bs := by
          rw [← Nat.add_assoc, Nat.succ_mul]
          omega
        exact lt_of_mul_lt_mul_right this (Nat.zero_le _)
      have hrest := fun hfits => ih hi (by omega) (hnext hfits) hok
      rw [← Nat.add_assoc, Nat.succ_mul] at hrest
      dsimp only
      constructor
      · intro hall
        have := hrest (by omega)
        omega
      · intro hfits
        have := hrest (by omega)
        omega
    · rw [if_neg hmore]
      dsimp only
      omega

/-- **The loop of `block_read`**: its count, and that of a device that counts. -/
theorem readLoop_counted (h : Counts dev inv content cap) {rd : ReadFn σ} (hrd : dev.read = some rd)
    (buf start : ℕ) : ∀ (fuel : ℕ) (s : σ) (mem : Mem) (n off j c : ℕ), inv s → n < fuel →
      (blockReadLoop dev rd buf start fuel s mem n off j).1 =
        countOf (off + n) (byBlocks dev.blockSize start (readRequests rd buf) fuel s n off j).1 ∧
      (blockReadLoop dev.counted (countedRead rd) buf start fuel (s, c) mem n off j).1 =
        countOf (off + n) (byBlocks dev.blockSize start (readRequests rd buf) fuel s n off j).1 ∧
      ((byBlocks dev.blockSize start (readRequests rd buf) fuel s n off j).1 = none →
        (blockReadLoop dev.counted (countedRead rd) buf start fuel (s, c) mem n off j).2.2.2 =
          c + (byBlocks dev.blockSize start (readRequests rd buf) fuel s n off j).2) := by
  intro fuel
  induction fuel with
  | zero => exact fun _ _ _ _ _ _ _ hn => absurd hn (Nat.not_lt_zero _)
  | succ fuel ih =>
    intro s mem n off j c hs hn
    have hbs := dev.blockSize_pos
    obtain ⟨hi, -, hres⟩ := h.read rd hrd s (buf + off) (min n dev.blockSize) (u32 (start + j)) hs
    have hcounted : countedRead rd (s, c) (buf + off) (min n dev.blockSize) (u32 (start + j)) =
        ((rd s (buf + off) (min n dev.blockSize) (u32 (start + j))).1,
          (rd s (buf + off) (min n dev.blockSize) (u32 (start + j))).2,
          c + (rd s (buf + off) (min n dev.blockSize) (u32 (start + j))).1.data.length) := rfl
    have hreq : readRequests rd buf s off (min n dev.blockSize) (u32 (start + j)) =
        ((rd s (buf + off) (min n dev.blockSize) (u32 (start + j))).1.ret,
          (rd s (buf + off) (min n dev.blockSize) (u32 (start + j))).2) := rfl
    have hblock : dev.counted.blockSize = dev.blockSize := rfl
    rw [blockReadLoop_succ, blockReadLoop_succ, byBlocks, hblock, hcounted, hreq]
    generalize rd s (buf + off) (min n dev.blockSize) (u32 (start + j)) = r at *
    dsimp only
    split_ifs with hneg hmore
    · exact ⟨rfl, rfl, fun hno => nomatch hno⟩
    · have hok := (hres.resolve_left fun hno => hneg hno.2).2
      obtain ⟨hcount, hcount', htotal⟩ := ih r.2 (patch mem (buf + off) r.1.data) (n - dev.blockSize)
        (off + dev.blockSize) (j + 1) (c + r.1.data.length) hi (by omega)
      rw [show off + dev.blockSize + (n - dev.blockSize) = off + n by omega] at hcount hcount'
      refine ⟨hcount, hcount', fun hnone => ?_⟩
      rw [htotal hnone, hok, length_slice, Int.toNat_natCast, Nat.add_assoc]
    · have hok := (hres.resolve_left fun hno => hneg hno.2).2
      refine ⟨rfl, rfl, fun _ => ?_⟩
      rw [hok, length_slice, Int.toNat_natCast]

/-- The bytes that the loop of `block_read` delivers. -/
theorem readLoop_bytes (h : Counts dev inv content cap) {rd : ReadFn σ} (hrd : dev.read = some rd)
    (buf start : ℕ) : ∀ (fuel : ℕ) (s : σ) (mem : Mem) (n off j : ℕ), inv s → n < fuel →
      start + j < 2 ^ 32 → n ≤ cap - (start + j) * dev.blockSize →
      (byBlocks dev.blockSize start (readRequests rd buf) fuel s n off j).1 = none →
      (blockReadLoop dev rd buf start fuel s mem n off j).2.1 =
        patch mem (buf + off) (slice (content s) ((start + j) * dev.blockSize) n) := by
  intro fuel
  induction fuel with
  | zero => exact fun _ _ _ _ _ _ hn => absurd hn (Nat.not_lt_zero _)
  | succ fuel ih =>
    intro s mem n off j hs hn hj hfits hnone
    have hbs := dev.blockSize_pos
    obtain ⟨hi, hc, hres⟩ := h.read rd hrd s (buf + off) (min n dev.blockSize) (start + j) hs
    have hserved : served dev.blockSize cap (min n dev.blockSize) (start + j) = min n dev.blockSize := by
      rw [served]
      omega
    have hreq : readRequests rd buf s off (min n dev.blockSize) (start + j) =
        ((rd s (buf + off) (min n dev.blockSize) (start + j)).1.ret,
          (rd s (buf + off) (min n dev.blockSize) (start + j)).2) := rfl
    rw [byBlocks, u32_of_lt hj, hreq] at hnone
    rw [blockReadLoop_succ, u32_of_lt hj]
    rw [hserved] at hres
    generalize rd s (buf + off) (min n dev.blockSize) (start + j) = r at *
    dsimp only at hnone ⊢
    split_ifs at hnone ⊢ with hneg hmore
    · have hok := (hres.resolve_left fun hno => hneg hno.2).2
      have hlt : (start + (j + 1)) * dev.blockSize < 2 ^ 32 * dev.blockSize := by
        have := h.cap_lt
        rw [← Nat.add_assoc, Nat.succ_mul]
        omega
      have hrest := ih r.2 (patch mem (buf + off) r.1.data) (n - dev.blockSize) (off + dev.blockSize)
        (j + 1) hi (by omega) (lt_of_mul_lt_mul_right hlt (Nat.zero_le _))
        (by rw [← Nat.add_assoc, Nat.succ_mul]; omega) hnone
      have hsplit : n = dev.blockSize + (n - dev.blockSize) := by omega
      have hnext : (start + (j + 1)) * dev.blockSize = (start + j) * dev.blockSize + dev.blockSize := by ring
      rw [hrest, hc, hok, min_eq_right hmore.le, hnext, ← Nat.add_assoc buf]
      conv_rhs => rw [hsplit, slice_add, patch_append, length_slice]
    · have hok := (hres.resolve_left fun hno => hneg hno.2).2
      dsimp only
      rw [hok, min_eq_left (not_lt.mp hmore)]

/-- **The loop of `block_write`** on a device that counts. -/
theorem writeLoop_counted (h : Counts dev inv content cap) {wr : WriteFn σ} (hwr : dev.write = some wr)
    (mem : Mem) (buf start : ℕ) : ∀ (fuel : ℕ) (s : σ) (n off j c : ℕ), inv s → n < fuel →
      (blockWriteLoop dev.counted (countedWrite wr) mem buf start fuel (s, c) n off j).1 =
        countOf (off + n) (byBlocks dev.blockSize start (writeRequests wr mem buf) fuel s n off j).1 ∧
      ((byBlocks dev.blockSize start (writeRequests wr mem buf) fuel s n off j).1 = none →
        (blockWriteLoop dev.counted (countedWrite wr) mem buf start fuel (s, c) n off j).2.2 =
          c + (byBlocks dev.blockSize start (writeRequests wr mem buf) fuel s n off j).2) := by
  intro fuel
  induction fuel with
  | zero => exact fun _ _ _ _ _ _ hn => absurd hn (Nat.not_lt_zero _)
  | succ fuel ih =>
    intro s n off j c hs hn
    have hbs := dev.blockSize_pos
    obtain ⟨hi, -⟩ := h.write wr hwr s mem (buf + off) (min n dev.blockSize) (u32 (start + j)) hs
    have hcounted : countedWrite wr (s, c) mem (buf + off) (min n dev.blockSize) (u32 (start + j)) =
        ((wr s mem (buf + off) (min n dev.blockSize) (u32 (start + j))).1,
          (wr s mem (buf + off) (min n dev.blockSize) (u32 (start + j))).2,
          c + (wr s mem (buf + off) (min n dev.blockSize) (u32 (start + j))).1.ret.toNat) := rfl
    have hreq : writeRequests wr mem buf s off (min n dev.blockSize) (u32 (start + j)) =
        ((wr s mem (buf + off) (min n dev.blockSize) (u32 (start + j))).1.ret,
          (wr s mem (buf + off) (min n dev.blockSize) (u32 (start + j))).2) := rfl
    have hblock : dev.counted.blockSize = dev.blockSize := rfl
    rw [blockWriteLoop_succ, byBlocks, hblock, hcounted, hreq]
    generalize wr s mem (buf + off) (min n dev.blockSize) (u32 (start + j)) = r at *
    dsimp only
    split_ifs with hneg hmore
    · exact ⟨rfl, fun hno => nomatch hno⟩
    · obtain ⟨hcount, htotal⟩ := ih r.2 (n - dev.blockSize) (off + dev.blockSize) (j + 1)
        (c + r.1.ret.toNat) hi (by omega)
      rw [show off + dev.blockSize + (n - dev.blockSize) = off + n by omega] at hcount
      refine ⟨hcount, fun hnone => ?_⟩
      rw [htotal hnone, Nat.add_assoc]
    · exact ⟨rfl, fun _ => rfl⟩

/-! ## `block_read` and `block_write` -/

theorem blockReadLoop_multi (m : Bool) (rd : ReadFn σ) (buf start : ℕ) : ∀ (fuel : ℕ) (s : σ) (mem : Mem)
    (n off j : ℕ), blockReadLoop (dev.multi m) rd buf start fuel s mem n off j =
      blockReadLoop dev rd buf start fuel s mem n off j := by
  intro fuel
  induction fuel with
  | zero => exact fun _ _ _ _ _ => rfl
  | succ fuel ih =>
    intro s mem n off j
    have hblock : (dev.multi m).blockSize = dev.blockSize := rfl
    simp only [blockReadLoop_succ, hblock, ih]

theorem Counts.multi (h : Counts dev inv content cap) (m : Bool) : Counts (dev.multi m) inv content cap :=
  ⟨h.cap_lt, h.read, h.write⟩

theorem one_lt_div_iff {n : ℕ} : n / dev.blockSize > 1 ↔ 2 * dev.blockSize ≤ n :=
  Nat.le_div_iff_mul_le dev.blockSize_pos

/-- `block_read` of a device that supports several blocks, or does not. -/
theorem blockRead_multi {rd : ReadFn σ} (hrd : dev.read = some rd) (m : Bool) (s : σ) (mem : Mem)
    (buf n b : ℕ) : blockRead (dev.multi m) s mem buf n b =
      if m = true ∧ 2 * dev.blockSize ≤ n then
        (toU32 (rd s buf n b).1.ret, patch mem buf (rd s buf n b).1.data, (rd s buf n b).2)
      else blockReadLoop dev rd buf b (n + 1) s mem n 0 0 := by
  have hread : (dev.multi m).read = some rd := hrd
  have hif : ((dev.multi m).supportsMultipleBlockRead = true ∧ n / (dev.multi m).blockSize > 1) ↔
      (m = true ∧ 2 * dev.blockSize ≤ n) := and_congr_right fun _ => one_lt_div_iff
  rw [blockRead, hread]
  simp only [hif, blockReadLoop_multi]

theorem errorOf_of_neg {z : ℤ} (h : z < 0) : errorOf z = some z := if_pos h

theorem errorOf_of_nonneg {z : ℤ} (h : 0 ≤ z) : errorOf z = none := if_neg (not_lt.mpr h)

/-- The count of a loop is a count if no request has failed. -/
theorem countOf_le_iff {e : Option ℤ} {n total : ℕ} (hn : n < 2 ^ 31)
    (he : ∀ z, e = some z → -2 ^ 31 ≤ z ∧ z < 0) :
    (0 ≤ i32 (countOf n e) → countOf n e ≤ total) ↔ (e = none → n ≤ total) := by
  cases e with
  | none =>
    rw [countOf, i32_of_lt hn]
    exact ⟨fun h _ => h (Int.natCast_nonneg n), fun h _ => h rfl⟩
  | some z =>
    obtain ⟨hlo, hneg⟩ := he z rfl
    rw [countOf, i32_toU32 hlo (by omega)]
    exact iff_of_true (fun h => absurd h (not_le.mpr hneg)) fun h => nomatch h

/-- A request that fails has the result of the loop just when that has failed with the same error. -/
theorem toU32_eq_countOf_iff {z : ℤ} {e : Option ℤ} {n : ℕ} (hlo : -2 ^ 31 ≤ z) (hneg : z < 0) (hn : n < 2 ^ 31)
    (he : ∀ z, e = some z → -2 ^ 31 ≤ z ∧ z < 0) : toU32 z = countOf n e ↔ some z = e := by
  have hz := toU32_of_neg hlo hneg
  cases e with
  | none =>
    refine iff_of_false (fun heq => ?_) (Option.some_ne_none z)
    rw [countOf] at heq
    omega
  | some z' =>
    obtain ⟨hlo', hneg'⟩ := he z' rfl
    have hz' := toU32_of_neg hlo' hneg'
    rw [countOf, Option.some_inj]
    omega

/-- A count is the result of the loop just when that has not failed, and has asked for as much. -/
theorem eq_countOf_iff {k n : ℕ} {e : Option ℤ} (hk : k < 2 ^ 31)
    (he : ∀ z, e = some z → -2 ^ 31 ≤ z ∧ z < 0) : k = countOf n e ↔ e = none ∧ k = n := by
  cases e with
  | none => exact (and_iff_right rfl).symm
  | some z =>
    obtain ⟨hlo, hneg⟩ := he z rfl
    have hz := toU32_of_neg hlo hneg
    refine iff_of_false (fun heq => ?_) fun hno => nomatch hno.1
    rw [countOf] at heq
    omega

section Agree

variable {mem : Mem} {buf n b : ℕ}

/-- The counts of `block_read`, on a device that does not support several blocks. -/
theorem readLoop_le_iff (h : Counts dev inv content cap) {rd : ReadFn σ} (hrd : dev.read = some rd)
    (hs : inv s) (hn : n < 2 ^ 31) (hb : b < 2 ^ 32) :
    (0 ≤ i32 (blockReadLoop dev.counted (countedRead rd) buf b (n + 1) (s, 0) mem n 0 0).1 →
      (blockReadLoop dev.counted (countedRead rd) buf b (n + 1) (s, 0) mem n 0 0).1 ≤
        (blockReadLoop dev.counted (countedRead rd) buf b (n + 1) (s, 0) mem n 0 0).2.2.2) ↔
      (firstReadError dev s buf n b rd = none → n ≤ cap - b * dev.blockSize) := by
  obtain ⟨-, hcount, htotal⟩ := readLoop_counted h hrd buf b (n + 1) s mem n 0 0 0 hs n.lt_succ_self
  have herror : ∀ z, firstReadError dev s buf n b rd = some z → -2 ^ 31 ≤ z ∧ z < 0 :=
    fun z hz => byBlocks_error (h.readReplies hrd buf) hs hz
  have hle (hnone : firstReadError dev s buf n b rd = none) :=
    le_byBlocks_iff (h.readReplies hrd buf) h.cap_lt hs n.lt_succ_self hb hnone
  rw [Nat.zero_add] at hcount
  rw [hcount]
  refine (countOf_le_iff hn herror).trans (forall_congr' fun hnone => ?_)
  rw [htotal hnone, Nat.zero_add, hle hnone, Nat.add_zero]

/-- **`block_read`**: the bytes and the counts. -/
theorem read_agree_iff (h : Counts dev inv content cap) {rd : ReadFn σ} (hrd : dev.read = some rd)
    (hs : inv s) (hn : n < 2 ^ 31) (hb : b < 2 ^ 32) :
    ((blockRead (dev.multi true) s mem buf n b).1 = (blockRead (dev.multi false) s mem buf n b).1 ∧
      (0 ≤ i32 (blockRead (dev.multi true) s mem buf n b).1 →
        (blockRead (dev.multi true) s mem buf n b).2.1 = (blockRead (dev.multi false) s mem buf n b).2.1) ∧
      ∀ m, 0 ≤ i32 (blockRead (dev.multi m).counted (s, 0) mem buf n b).1 →
        (blockRead (dev.multi m).counted (s, 0) mem buf n b).1 ≤
          (blockRead (dev.multi m).counted (s, 0) mem buf n b).2.2.2) ↔
    (2 * dev.blockSize ≤ n → errorOf (rd s buf n b).1.ret = firstReadError dev s buf n b rd) ∧
      (firstReadError dev s buf n b rd = none → n ≤ cap - b * dev.blockSize) := by
  have hslow : (0 ≤ i32 (blockReadLoop dev.counted (countedRead rd) buf b (n + 1) (s, 0) mem n 0 0).1 →
      (blockReadLoop dev.counted (countedRead rd) buf b (n + 1) (s, 0) mem n 0 0).1 ≤
        (blockReadLoop dev.counted (countedRead rd) buf b (n + 1) (s, 0) mem n 0 0).2.2.2) ↔
      (firstReadError dev s buf n b rd = none → n ≤ cap - b * dev.blockSize) :=
    readLoop_le_iff h hrd hs hn hb
  obtain ⟨hcount, -, -⟩ := readLoop_counted h hrd buf b (n + 1) s mem n 0 0 0 hs n.lt_succ_self
  have herror : ∀ z, firstReadError dev s buf n b rd = some z → -2 ^ 31 ≤ z ∧ z < 0 :=
    fun z hz => byBlocks_error (h.readReplies hrd buf) hs hz
  have hbytes := readLoop_bytes h hrd buf b (n + 1) s mem n 0 0 hs n.lt_succ_self hb
  have hread : dev.counted.read = some (countedRead rd) := by
    rw [BlockDevice.counted, hrd]
    rfl
  have hblock : dev.counted.blockSize = dev.blockSize := rfl
  have hcounted : ∀ m, blockRead (dev.multi m).counted (s, 0) mem buf n b =
      if m = true ∧ 2 * dev.blockSize ≤ n then (toU32 (rd s buf n b).1.ret,
        patch mem buf (rd s buf n b).1.data, (rd s buf n b).2, 0 + (rd s buf n b).1.data.length)
      else blockReadLoop dev.counted (countedRead rd) buf b (n + 1) (s, 0) mem n 0 0 := fun m =>
    blockRead_multi hread m (s, 0) mem buf n b
  rw [Nat.zero_add] at hcount
  rw [Nat.add_zero, Nat.add_zero] at hbytes
  simp only [hcounted, blockRead_multi hrd]
  by_cases hmulti : 2 * dev.blockSize ≤ n
  swap
  · -- the request is cut into blocks either way
    simp only [hmulti, and_false, if_false, hslow]
    simp
  obtain ⟨-, -, hres⟩ := h.read rd hrd s buf n b hs
  rw [Bool.forall_bool]
  simp only [hmulti, and_true, if_true, Bool.false_eq_true, if_false, hslow, hcount, forall_const]
  rw [firstReadError] at herror ⊢
  generalize rd s buf n b = r at *
  generalize (byBlocks dev.blockSize b (readRequests rd buf) (n + 1) s n 0 0).1 = e at *
  rcases hres with ⟨hlo, hneg⟩ | ⟨hlt, hok⟩
  · -- the request as a whole fails
    have hno : ¬ 0 ≤ i32 (toU32 r.1.ret) := by
      rw [i32_toU32 hlo (by omega)]
      exact not_le.mpr hneg
    rw [errorOf_of_neg hneg, toU32_eq_countOf_iff hlo hneg hn herror]
    constructor
    · rintro ⟨heq, -, hfits, -⟩
      exact ⟨heq, hfits⟩
    · rintro ⟨heq, hfits⟩
      exact ⟨heq, fun h => absurd h hno, hfits, fun h => absurd h hno⟩
  · -- it transfers what lies on the device
    rw [hok]
    dsimp only
    rw [errorOf_of_nonneg (Int.natCast_nonneg _), toU32_natCast (by omega), eq_countOf_iff hlt herror,
      length_slice, Nat.zero_add]
    constructor
    · rintro ⟨⟨hnone, -⟩, -, hfits, -⟩
      exact ⟨hnone.symm, hfits⟩
    · rintro ⟨hnone, hfits⟩
      have hserved : served dev.blockSize cap n b = n := min_eq_left (hfits hnone.symm)
      rw [hserved, hbytes (hfits hnone.symm) hnone.symm]
      exact ⟨⟨hnone.symm, rfl⟩, fun _ => rfl, hfits, fun _ => le_rfl⟩

/-- **`block_write`**: the count. -/
theorem write_le_iff (h : Counts dev inv content cap) {wr : WriteFn σ} (hwr : dev.write = some wr)
    (hs : inv s) (hn : n < 2 ^ 31) (hb : b < 2 ^ 32) :
    (0 ≤ i32 (blockWrite dev.counted (s, 0) mem buf n b).1 →
      (blockWrite dev.counted (s, 0) mem buf n b).1 ≤ (blockWrite dev.counted (s, 0) mem buf n b).2.2) ↔
      (firstWriteError dev s mem buf n b wr = none → n ≤ cap - b * dev.blockSize) := by
  obtain ⟨hcount, htotal⟩ := writeLoop_counted h hwr mem buf b (n + 1) s n 0 0 0 hs n.lt_succ_self
  have herror : ∀ z, firstWriteError dev s mem buf n b wr = some z → -2 ^ 31 ≤ z ∧ z < 0 :=
    fun z hz => byBlocks_error (h.writeReplies hwr mem buf) hs hz
  have hle (hnone : firstWriteError dev s mem buf n b wr = none) :=
    le_byBlocks_iff (h.writeReplies hwr mem buf) h.cap_lt hs n.lt_succ_self hb hnone
  have hwrite : dev.counted.write = some (countedWrite wr) := by
    rw [BlockDevice.counted, hwr]
    rfl
  rw [Nat.zero_add] at hcount
  rw [blockWrite, hwrite]
  dsimp only
  rw [hcount]
  refine (countOf_le_iff hn herror).trans (forall_congr' fun hnone => ?_)
  rw [htotal hnone, Nat.zero_add, hle hnone, Nat.add_zero]

end Agree

theorem storeDevice_counts {numBlocks : ℕ} (h : numBlocks < 2 ^ 22) :
    Counts (storeDevice numBlocks) (fun _ => True) (fun c => c) (numBlocks * 512) := by
  have hlt : ∀ n b, served 512 (numBlocks * 512) n b < 2 ^ 31 := fun n b =>
    (min_le_right _ _).trans_lt (by omega)
  refine ⟨Nat.mul_lt_mul_of_pos_right (by omega) sector_pos, ?_, ?_⟩
  · rintro rd hrd s buf n b -
    obtain rfl := Option.some.inj hrd
    exact ⟨trivial, rfl, Or.inr ⟨hlt n b, rfl⟩⟩
  · rintro wr hwr s mem buf n b -
    obtain rfl := Option.some.inj hwr
    exact ⟨trivial, Or.inr ⟨hlt n b, rfl⟩⟩

/-- A device of four blocks that has been asked for two blocks from its last block on. -/
theorem block_multi_broken : Counts (storeDevice 4) (fun _ => True) (fun c => c) (4 * 512) ∧
    ¬ TransfersAgree (storeDevice 4) (fun _ => 0) (fun _ => 0) 0x1000 1024 3 := by
  refine ⟨storeDevice_counts (by decide), fun h => ?_⟩
  have hmulti : (blockRead ((storeDevice 4).multi true) (fun _ => 0) (fun _ => 0) 0x1000 1024 3).1 = 512 := by
    decide +kernel
  have hblocks : (blockRead ((storeDevice 4).multi false) (fun _ => 0) (fun _ => 0) 0x1000 1024 3).1 =
      1024 := by decide +kernel
  have heq := h.count_eq
  rw [hmulti, hblocks] at heq
  exact absurd heq (by decide)

/-- **Requests for several blocks.** On every device that fails or transfers what lies on it, the bytes and
the counts of a request agree, and the counts are not too large, if and only if the request fails as its
blocks do and, where no block fails, it ends on the device. -/
theorem block_multi_iff (h : Counts dev inv content cap) (hs : inv s) (mem : Mem) (buf : ℕ) {n b : ℕ}
    (hn : n < 2 ^ 31) (hb : b < 2 ^ 32) :
    TransfersAgree dev s mem buf n b ↔ RequestFits dev s mem buf n b cap := by
  constructor
  · rintro ⟨hcount, hbytes, hread, hwrite⟩
    have hreads := fun rd (hrd : dev.read = some rd) =>
      (read_agree_iff h hrd hs hn hb).mp ⟨hcount, hbytes, hread⟩
    exact ⟨fun rd hrd => (hreads rd hrd).1, fun rd hrd => (hreads rd hrd).2,
      fun wr hwr => (write_le_iff h hwr hs hn hb).mp hwrite⟩
  · rintro ⟨herrors, hread, hwrite⟩
    have hwrites : 0 ≤ i32 (blockWrite dev.counted (s, 0) mem buf n b).1 →
        (blockWrite dev.counted (s, 0) mem buf n b).1 ≤
          (blockWrite dev.counted (s, 0) mem buf n b).2.2 := by
      cases hwr : dev.write with
      | none =>
        have hnone : dev.counted.write = none := by
          rw [BlockDevice.counted, hwr]
          rfl
        rw [blockWrite, hnone]
        exact fun _ => le_rfl
      | some wr => exact (write_le_iff h hwr hs hn hb).mpr (hwrite wr hwr)
    cases hrd : dev.read with
    | none =>
      have hnone : ∀ m, (dev.multi m).read = none := fun m => hrd
      have hnone' : ∀ m, (dev.multi m).counted.read = none := fun m => by
        rw [BlockDevice.counted, hnone]
        rfl
      refine ⟨?_, fun _ => ?_, fun m _ => ?_, hwrites⟩
      · rw [blockRead, blockRead, hnone, hnone]
      · rw [blockRead, blockRead, hnone, hnone]
      · rw [blockRead, hnone']
    | some rd =>
      obtain ⟨hcount, hbytes, hcounts⟩ :=
        (read_agree_iff h hrd hs hn hb).mpr ⟨herrors rd hrd, hread rd hrd⟩
      exact ⟨hcount, hbytes, hcounts, hwrites⟩

/-- The same device has been asked for its last two blocks. -/
theorem block_multi_iff_store :
    TransfersAgree (storeDevice 4) (fun _ => 0) (fun _ => 0) 0x1000 1024 2 := by
  refine (block_multi_iff (storeDevice_counts (by decide)) trivial (fun _ => 0) 0x1000 (by decide)
    (by decide)).mpr ⟨?_, ?_, ?_⟩
  · intro rd hrd _
    obtain rfl := Option.some.inj hrd
    decide +kernel
  · exact fun _ _ _ => by decide
  · exact fun _ _ _ => by decide

end RpiBoot
