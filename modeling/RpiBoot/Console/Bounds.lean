import RpiBoot.QuickCopy

/-!
# What the console touches

`fb_init` may fail at several places, and output goes to the framebuffer in any case. Here `int` and
`uint32_t` are words that wrap, and so are addresses; `Framebuffer.Words` links them with the numbers of
the terminal.

* `fbInit`: the variables of `fb.c` behind each return, for any responses of the mailbox.
* `Access`: a store, and a read of the font.
* `charAccesses`, `newlineAccesses`, `putcAccesses`, `textAccesses`: the accesses of a text.
* `FbState.Fits`: the screen has a row and a column, and its lines lie in the buffer.
* `CursorOk`: the cursor is on the screen; every character keeps it there.
* **`console_safe_when`**: on a screen that fits, a text is safe when the font has its characters; on one
  whose lines do not, some text is not.
-/

namespace RpiBoot

/-- The static variables of `fb.c`. -/
structure FbState where
  physW : BitVec 32
  physH : BitVec 32
  virtW : BitVec 32
  virtH : BitVec 32
  pitch : BitVec 32
  fbAddr : BitVec 32
  fbSize : BitVec 32
deriving DecidableEq

def mboxSuccess : BitVec 32 := 0x80000000

/-- The size of the display; 640 by 480 pixels if there is none. -/
def displaySize (w h : BitVec 32) : BitVec 32 × BitVec 32 := if w = 0 ∧ h = 0 then (640, 480) else (w, h)

/-- `fb_init()`. `mailbuffer k` is the mailbox buffer behind response number `k`. -/
def fbInit (mailbuffer : ℕ → ℕ → BitVec 32) : ℤ × FbState :=
  let fb : FbState := ⟨0, 0, 0, 0, 0, 0, 0⟩
  let m := mailbuffer 0
  if m 1 ≠ mboxSuccess then (-1, fb)
  else
    let size := displaySize (m 5) (m 6)
    let fb := { fb with physW := size.1, physH := size.2 }
    if fb.physW = 0 ∨ fb.physH = 0 then (-2, fb)
    else
      let fb := { fb with virtW := fb.physW, virtH := fb.physH }
      let m := mailbuffer 1
      if m 1 ≠ mboxSuccess then (-3, fb)
      else if m 18 ≠ mboxSuccess ||| 8 then (-5, fb)
      else
        let fb := { fb with fbAddr := m 19, fbSize := m 20 }
        if fb.fbAddr = 0 ∨ fb.fbSize = 0 then (-6, fb)
        else
          let m := mailbuffer 2
          if m 1 ≠ mboxSuccess then (-7, fb)
          else if m 4 ≠ mboxSuccess ||| 4 then (-7, fb)
          else
            let fb := { fb with pitch := m 5 }
            if fb.pitch = 0 then (-8, fb) else (0, fb)

/-- A store of `n` bytes from `a` on, or a read of the byte `i` of the font. -/
inductive Access where
  | store (a : BitVec 32) (n : ℕ)
  | glyph (i : ℤ)
deriving DecidableEq

/-- The cursor. -/
structure Cursor where
  curX : BitVec 32
  curY : BitVec 32

/-- The stores of `quick_memcpy(dest, src, n)`. -/
def quickStores : ℕ → (dest n : BitVec 32) → List Access
  | 0, _, _ => []
  | fuel + 1, dest, n =>
    .store dest 16 :: if Processor.arm.again n then quickStores fuel (dest + 16) (n - 16) else []

/-- The values of a loop `for(int line = first; line < last; line++)`. -/
def intRange (first last : BitVec 32) : List (BitVec 32) :=
  (List.range (last.toInt - first.toInt).toNat).map fun k => first + BitVec.ofNat 32 k

namespace FbState

variable (fb : FbState)

/-- `line_byte_width`. -/
def lineByteWidth : BitVec 32 := fb.virtW * 2

/-- `&fb[line * pitch]`. -/
def lineAddr (line : BitVec 32) : BitVec 32 := fb.fbAddr + line * fb.pitch

/-- The accesses of `newline()` where it scrolls. A count below `2 ^ 32` takes `2 ^ 28` rounds at most. -/
def scrollAccesses : List Access :=
  ((intRange 0 (fb.virtH - 8)).flatMap fun line =>
      quickStores (2 ^ 28) (fb.lineAddr line) fb.lineByteWidth) ++
    (intRange (fb.virtH - 8) fb.virtH).map fun line =>
      .store (fb.lineAddr line) fb.lineByteWidth.toNat

/-- `newline()`. -/
def newlineAccesses (st : Cursor) : Cursor × List Access :=
  let curY := st.curY + 1
  if curY = fb.virtH.sdiv 8 then (⟨0, curY - 1⟩, fb.scrollAccesses) else (⟨0, curY⟩, [])

/-- The loop of `draw_char` over `n` pixels of a line. -/
def pixelAccesses : ℕ → (dOffset sOffset : BitVec 32) → List Access
  | 0, _, _ => []
  | n + 1, dOffset, sOffset =>
    .glyph (sOffset.sdiv 8).toInt ::
      ((List.range 2).map fun i => .store (fb.fbAddr + (dOffset + BitVec.ofNat 32 i)) 1) ++
        pixelAccesses n (dOffset + 2) (sOffset + 1)

/-- The loop of `draw_char` over `n` lines. -/
def lineAccesses : ℕ → (lineDOffset sOffset : BitVec 32) → List Access
  | 0, _, _ => []
  | n + 1, lineDOffset, sOffset =>
    fb.pixelAccesses 8 lineDOffset sOffset ++ lineAccesses n (lineDOffset + fb.pitch) (sOffset + 8)

/-- `draw_char(c, x, y, fore, back)`. -/
def charAccesses (c : UInt8) (x y : BitVec 32) : List Access :=
  fb.lineAccesses 8 (y * 8 * fb.pitch + x * 2 * 8) (BitVec.ofNat 32 c.toNat * 8 * 8)

/-- `console_putc(c)`. -/
def putcAccesses (st : Cursor) (c : UInt8) : Cursor × List Access :=
  let lineW := fb.virtW.sdiv 8
  if c = 0x0a then fb.newlineAccesses st
  else
    let acc := fb.charAccesses c st.curX st.curY
    let st := { st with curX := st.curX + 1 }
    if st.curX = lineW then
      let r := fb.newlineAccesses st
      (r.1, acc ++ r.2)
    else (st, acc)

/-- The accesses of a text. -/
def textAccesses : Cursor → List UInt8 → List Access
  | _, [] => []
  | st, c :: text =>
    let r := fb.putcAccesses st c
    r.2 ++ textAccesses r.1 text

/-- Byte `off` lies in the buffer. -/
def Holds (off : BitVec 32) : Prop := off.toNat < fb.fbSize.toNat

/-- The access is to the buffer, or to the font. -/
def Inside : Access → Prop
  | .store a n => ∀ i < n, fb.Holds (a + BitVec.ofNat 32 i - fb.fbAddr)
  | .glyph i => 0 ≤ i ∧ i < 1024

/-- A text that is written from the top left on is safe. -/
def Safe (text : List UInt8) : Prop := ∀ a ∈ fb.textAccesses ⟨0, 0⟩ text, fb.Inside a

/-- There is a row and a column of characters, and the buffer holds the lines of the screen, as far as they
are written. Copies are of blocks of 16 bytes. -/
structure Fits : Prop where
  cols : 8 ≤ fb.virtW.toInt
  rows : 8 ≤ fb.virtH.toInt
  line : ∀ l < fb.virtH.toNat, ∀ b < 2 * fb.virtW.toNat,
    fb.Holds (BitVec.ofNat 32 l * fb.pitch + BitVec.ofNat 32 b)
  block : ∀ l, l + 8 < fb.virtH.toNat → ∀ b < 16 * ((2 * fb.virtW.toNat + 15) / 16),
    fb.Holds (BitVec.ofNat 32 l * fb.pitch + BitVec.ofNat 32 b)

end FbState

/-! ## Words -/

section Words

variable {x : BitVec 32} {k : ℕ}

theorem toInt_of_le {n : ℕ} (h : (n : ℤ) ≤ x.toInt) : x.toInt = x.toNat := by
  have := x.isLt
  rw [BitVec.toInt_eq_toNat_cond] at h ⊢
  split_ifs at h ⊢ <;> omega

theorem toNat_lt_of_le {n : ℕ} (h : (n : ℤ) ≤ x.toInt) : x.toNat < 2 ^ 31 := by
  have := BitVec.toInt_lt (x := x)
  rw [toInt_of_le h] at this
  omega

theorem toNat_sdiv_of_le {n : ℕ} (h : (n : ℤ) ≤ x.toInt) : (x.sdiv 8).toNat = x.toNat / 8 := by
  have hlt := toNat_lt_of_le h
  have hmsb : x.msb = false := by
    rw [BitVec.msb_eq_false_iff_two_mul_lt]
    omega
  rw [BitVec.sdiv_eq, hmsb]
  exact BitVec.toNat_udiv

/-- What a division by 8 gives only for larger numbers. -/
def eighthLimit (x : BitVec 32) : ℕ := if 8 ≤ x.toInt then x.toNat / 8 else 2 ^ 31

theorem ofNat_ne_sdiv (h0 : 0 < k) (hk : k < eighthLimit x) : BitVec.ofNat 32 k ≠ x.sdiv 8 := by
  intro he
  have hx := x.isLt
  have hnat := congrArg BitVec.toNat he
  rw [BitVec.toNat_ofNat] at hnat
  unfold eighthLimit at hk
  split_ifs at hk with h8
  · rw [toNat_sdiv_of_le h8, Nat.mod_eq_of_lt (by omega)] at hnat
    omega
  · have hint := congrArg BitVec.toInt he
    have hk' : (BitVec.ofNat 32 k).toInt = k := by
      rw [BitVec.toInt_ofNat', Int.bmod_eq_of_le (by omega) (by omega)]
    rw [BitVec.toInt_sdiv_of_ne_or_ne _ _ (Or.inr (by decide)), hk'] at hint
    have hle : x.toInt.tdiv 8 ≤ 0 := by
      rcases lt_or_ge x.toInt 0 with hneg | hpos
      · have := Int.tdiv_nonneg (a := -x.toInt) (b := 8) (by omega) (by decide)
        rw [Int.neg_tdiv] at this
        omega
      · rw [Int.tdiv_eq_ediv_of_nonneg hpos]
        omega
    change (k : ℤ) = x.toInt.tdiv 8 at hint
    omega

theorem mem_intRange {first last a : BitVec 32} : a ∈ intRange first last ↔
    ∃ k : ℕ, (k : ℤ) < last.toInt - first.toInt ∧ a = first + BitVec.ofNat 32 k := by
  rw [intRange, List.mem_map]
  constructor
  · rintro ⟨k, hk, rfl⟩
    exact ⟨k, by have := List.mem_range.mp hk; omega, rfl⟩
  · rintro ⟨k, hk, rfl⟩
    exact ⟨k, List.mem_range.mpr (by omega), rfl⟩

end Words

/-! ## The accesses of the loops -/

/-- The blocks that are copied for a count of `n` bytes. -/
def blockCount (n : ℕ) : ℕ := max 1 ((n + 15) / 16)

theorem mem_quickStores {acc : Access} : ∀ (fuel : ℕ) (dest n : BitVec 32), blockCount n.toNat ≤ fuel →
    (acc ∈ quickStores fuel dest n ↔
      ∃ k < blockCount n.toNat, acc = .store (dest + BitVec.ofNat 32 (16 * k)) 16)
  | 0, _, _, h => by
    unfold blockCount at h
    omega
  | fuel + 1, dest, n, h => by
    rw [quickStores, List.mem_cons, again_arm]
    by_cases hn : 16 < n.toNat
    · have hsub : (n - 16).toNat = n.toNat - 16 :=
        BitVec.toNat_sub_of_le (BitVec.le_def.mpr hn.le)
      have hcount : blockCount n.toNat = blockCount (n - 16).toNat + 1 := by
        rw [hsub]
        unfold blockCount
        omega
      rw [if_pos (decide_eq_true hn), mem_quickStores fuel _ _ (by omega), hcount]
      have hshift : ∀ k, dest + 16 + BitVec.ofNat 32 (16 * k) = dest + BitVec.ofNat 32 (16 * (k + 1)) := by
        intro k
        rw [Nat.mul_succ, Nat.add_comm, BitVec.ofNat_add, ← BitVec.add_assoc]
        rfl
      constructor
      · rintro (rfl | ⟨k, hk, rfl⟩)
        · exact ⟨0, Nat.succ_pos _, by rw [Nat.mul_zero, BitVec.add_zero]⟩
        · exact ⟨k + 1, Nat.succ_lt_succ hk, by rw [hshift]⟩
      · rintro ⟨_ | k, hk, rfl⟩
        · left
          rw [Nat.mul_zero, BitVec.add_zero]
        · exact Or.inr ⟨k, Nat.lt_of_succ_lt_succ hk, by rw [hshift]⟩
    · have hcount : blockCount n.toNat = 1 := by
        unfold blockCount
        omega
      rw [if_neg (by rwa [decide_eq_true_iff]), hcount]
      constructor
      · rintro (rfl | h)
        · exact ⟨0, Nat.one_pos, by rw [Nat.mul_zero, BitVec.add_zero]⟩
        · exact absurd h List.not_mem_nil
      · rintro ⟨k, hk, rfl⟩
        obtain rfl : k = 0 := by omega
        left
        rw [Nat.mul_zero, BitVec.add_zero]

namespace FbState

variable {fb : FbState} {acc : Access}

theorem inside_quickStores_iff {dest n : BitVec 32} (hn : 0 < n.toNat) :
    (∀ acc ∈ quickStores (2 ^ 28) dest n, fb.Inside acc) ↔
      ∀ b < 16 * ((n.toNat + 15) / 16), fb.Holds (dest + BitVec.ofNat 32 b - fb.fbAddr) := by
  have hlt := n.isLt
  have hcount : blockCount n.toNat = (n.toNat + 15) / 16 := by
    unfold blockCount
    omega
  have hmem (acc : Access) := @mem_quickStores acc (2 ^ 28) dest n (by omega)
  rw [hcount] at hmem
  constructor
  · intro h b hb
    have := h _ ((hmem _).mpr ⟨b / 16, by omega, rfl⟩) (b % 16) (Nat.mod_lt _ (by decide))
    rwa [BitVec.add_assoc, ← BitVec.ofNat_add, Nat.div_add_mod] at this
  · intro h acc hacc
    obtain ⟨k, hk, rfl⟩ := (hmem _).mp hacc
    intro i hi
    rw [BitVec.add_assoc, ← BitVec.ofNat_add]
    exact h _ (by omega)

theorem mem_pixelAccesses : ∀ (n : ℕ) (d s : BitVec 32), acc ∈ fb.pixelAccesses n d s ↔
    ∃ k < n, acc = .glyph ((s + BitVec.ofNat 32 k).sdiv 8).toInt ∨
      ∃ i < 2, acc = .store (fb.fbAddr + (d + BitVec.ofNat 32 (2 * k + i))) 1
  | 0, d, s => by simp [pixelAccesses]
  | n + 1, d, s => by
    have hs : ∀ k, s + 1 + BitVec.ofNat 32 k = s + BitVec.ofNat 32 (k + 1) := by
      intro k
      rw [Nat.add_comm, BitVec.ofNat_add, ← BitVec.add_assoc]
      rfl
    have hd : ∀ k i, d + 2 + BitVec.ofNat 32 (2 * k + i) = d + BitVec.ofNat 32 (2 * (k + 1) + i) := by
      intro k i
      rw [show 2 * (k + 1) + i = 2 + (2 * k + i) by omega, BitVec.ofNat_add 2, ← BitVec.add_assoc]
      rfl
    rw [pixelAccesses, List.cons_append, List.mem_cons, List.mem_append, List.mem_map,
      mem_pixelAccesses n]
    simp only [hs, hd, List.mem_range]
    constructor
    · rintro (rfl | ⟨i, hi, rfl⟩ | ⟨k, hk, h⟩)
      · exact ⟨0, Nat.succ_pos n, Or.inl (by rw [BitVec.add_zero])⟩
      · exact ⟨0, Nat.succ_pos n, Or.inr ⟨i, hi, by rw [Nat.mul_zero, Nat.zero_add]⟩⟩
      · exact ⟨k + 1, Nat.succ_lt_succ hk, h⟩
    · rintro ⟨_ | k, hk, h⟩
      · rcases h with rfl | ⟨i, hi, rfl⟩
        · exact Or.inl (by rw [BitVec.add_zero])
        · exact Or.inr (Or.inl ⟨i, hi, by rw [Nat.mul_zero, Nat.zero_add]⟩)
      · exact Or.inr (Or.inr ⟨k, Nat.lt_of_succ_lt_succ hk, h⟩)

theorem mem_lineAccesses : ∀ (n : ℕ) (d s : BitVec 32), acc ∈ fb.lineAccesses n d s ↔
    ∃ j < n, acc ∈ fb.pixelAccesses 8 (d + BitVec.ofNat 32 j * fb.pitch) (s + BitVec.ofNat 32 (8 * j))
  | 0, d, s => by simp [lineAccesses]
  | n + 1, d, s => by
    have hs : ∀ j, s + 8 + BitVec.ofNat 32 (8 * j) = s + BitVec.ofNat 32 (8 * (j + 1)) := by
      intro j
      rw [Nat.mul_succ, Nat.add_comm, BitVec.ofNat_add, ← BitVec.add_assoc]
      rfl
    have hd : ∀ j, d + fb.pitch + BitVec.ofNat 32 j * fb.pitch = d + BitVec.ofNat 32 (j + 1) * fb.pitch := by
      intro j
      rw [BitVec.ofNat_add, show BitVec.ofNat 32 1 = 1 from rfl]
      ring
    rw [lineAccesses, List.mem_append, mem_lineAccesses n]
    simp only [hs, hd]
    constructor
    · rintro (h | ⟨j, hj, h⟩)
      · exact ⟨0, Nat.succ_pos n, by simpa using h⟩
      · exact ⟨j + 1, Nat.succ_lt_succ hj, h⟩
    · rintro ⟨_ | j, hj, h⟩
      · exact Or.inl (by simpa using h)
      · exact Or.inr ⟨j, Nat.lt_of_succ_lt_succ hj, h⟩

/-- The accesses for a character, pixel by pixel. -/
theorem mem_charAccesses (c : UInt8) (x y : BitVec 32) : acc ∈ fb.charAccesses c x y ↔
    ∃ j < 8, ∃ k < 8, acc = .glyph (8 * c.toNat + j : ℕ) ∨ ∃ i < 2, acc = .store (fb.fbAddr +
      (BitVec.ofNat 32 (8 * y.toNat + j) * fb.pitch + BitVec.ofNat 32 (16 * x.toNat + (2 * k + i)))) 1 := by
  have hx : BitVec.ofNat 32 x.toNat = x := by rw [BitVec.ofNat_toNat, BitVec.setWidth_eq]
  have hy : BitVec.ofNat 32 y.toNat = y := by rw [BitVec.ofNat_toNat, BitVec.setWidth_eq]
  have hstore : ∀ j k i, y * 8 * fb.pitch + x * 2 * 8 + BitVec.ofNat 32 j * fb.pitch +
      BitVec.ofNat 32 (2 * k + i) = BitVec.ofNat 32 (8 * y.toNat + j) * fb.pitch +
        BitVec.ofNat 32 (16 * x.toNat + (2 * k + i)) := by
    intro j k i
    rw [BitVec.ofNat_add (8 * y.toNat), BitVec.ofNat_mul, hy, BitVec.ofNat_add (16 * x.toNat),
      BitVec.ofNat_mul, hx, show BitVec.ofNat 32 8 = 8 from rfl, show BitVec.ofNat 32 16 = 2 * 8 from rfl]
    ring
  have hglyph : ∀ j k, k < 8 → j < 8 → ((BitVec.ofNat 32 c.toNat * 8 * 8 + BitVec.ofNat 32 (8 * j) +
      BitVec.ofNat 32 k).sdiv 8).toInt = (8 * c.toNat + j : ℕ) := by
    intro j k hk hj
    have hc := c.toNat_lt
    have hsum : BitVec.ofNat 32 c.toNat * 8 * 8 + BitVec.ofNat 32 (8 * j) + BitVec.ofNat 32 k =
        BitVec.ofNat 32 (c.toNat * 8 * 8 + 8 * j + k) := by
      rw [BitVec.ofNat_add, BitVec.ofNat_add, BitVec.ofNat_mul (c.toNat * 8), BitVec.ofNat_mul c.toNat]
      rfl
    have hint : (BitVec.ofNat 32 (c.toNat * 8 * 8 + 8 * j + k)).toInt =
        (c.toNat * 8 * 8 + 8 * j + k : ℕ) := by
      rw [BitVec.toInt_ofNat', Int.bmod_eq_of_le (by omega) (by omega)]
    rw [hsum, BitVec.toInt_sdiv_of_ne_or_ne _ _ (Or.inr (by decide)), hint]
    change (_ : ℤ).tdiv 8 = _
    rw [Int.tdiv_eq_ediv_of_nonneg (by omega)]
    omega
  rw [charAccesses, mem_lineAccesses]
  refine exists_congr fun j => and_congr_right fun hj => ?_
  rw [mem_pixelAccesses]
  refine exists_congr fun k => and_congr_right fun hk => ?_
  rw [hglyph j k hk hj]
  refine or_congr_right (exists_congr fun i => and_congr_right fun _ => ?_)
  rw [hstore]

/-! ## The cursor -/

/-- The cursor is on the screen. -/
structure CursorOk (fb : FbState) (st : Cursor) : Prop where
  curX_lt : st.curX.toNat < fb.virtW.toNat / 8
  curY_lt : st.curY.toNat < fb.virtH.toNat / 8

theorem holds_line_iff (line : BitVec 32) (b : ℕ) :
    fb.Holds (fb.lineAddr line + BitVec.ofNat 32 b - fb.fbAddr) ↔
      fb.Holds (line * fb.pitch + BitVec.ofNat 32 b) := by
  rw [lineAddr, show fb.fbAddr + line * fb.pitch + BitVec.ofNat 32 b - fb.fbAddr =
    line * fb.pitch + BitVec.ofNat 32 b by ring]

/-- The lines below the others are cleared, and the others are copied to. -/
theorem mem_scrollAccesses (hrows : 8 ≤ fb.virtH.toInt) : acc ∈ fb.scrollAccesses ↔
    (∃ l, l + 8 < fb.virtH.toNat ∧
      acc ∈ quickStores (2 ^ 28) (fb.lineAddr (BitVec.ofNat 32 l)) fb.lineByteWidth) ∨
    ∃ l < fb.virtH.toNat, fb.virtH.toNat ≤ l + 8 ∧
      acc = .store (fb.lineAddr (BitVec.ofNat 32 l)) fb.lineByteWidth.toNat := by
  have hH := toInt_of_le hrows
  have hlt := toNat_lt_of_le hrows
  have hsub : (fb.virtH - 8).toNat = fb.virtH.toNat - 8 :=
    BitVec.toNat_sub_of_le (BitVec.le_def.mpr (by change 8 ≤ _; omega))
  have hsubInt : (fb.virtH - 8).toInt = fb.virtH.toNat - 8 := by
    rw [BitVec.toInt_eq_toNat_of_lt (by omega), hsub]
    omega
  have hlow : ∀ k, fb.virtH - 8 + BitVec.ofNat 32 k = BitVec.ofNat 32 (fb.virtH.toNat - 8 + k) := by
    intro k
    rw [BitVec.ofNat_add, ← hsub, BitVec.ofNat_toNat, BitVec.setWidth_eq]
  rw [scrollAccesses, List.mem_append, List.mem_flatMap, List.mem_map]
  simp only [mem_intRange, hsubInt, hH, hlow]
  refine or_congr ⟨?_, ?_⟩ ⟨?_, ?_⟩
  · rintro ⟨_, ⟨l, hl, rfl⟩, h⟩
    change (l : ℤ) < _ - 0 at hl
    rw [zero_add] at h
    exact ⟨l, by omega, h⟩
  · rintro ⟨l, hl, h⟩
    refine ⟨_, ⟨l, ?_, rfl⟩, by rwa [zero_add]⟩
    change (l : ℤ) < _ - 0
    omega
  · rintro ⟨_, ⟨k, hk, rfl⟩, rfl⟩
    exact ⟨_, by omega, by omega, rfl⟩
  · rintro ⟨l, hl, hge, rfl⟩
    refine ⟨_, ⟨l - (fb.virtH.toNat - 8), by omega, rfl⟩, ?_⟩
    rw [Nat.add_sub_cancel' (by omega)]

/-- **The lines of the screen** are what scrolling writes. -/
theorem inside_scroll_iff (hcols : 8 ≤ fb.virtW.toInt) (hrows : 8 ≤ fb.virtH.toInt) :
    (∀ acc ∈ fb.scrollAccesses, fb.Inside acc) ↔ fb.Fits := by
  have hW := toInt_of_le hcols
  have hlt := toNat_lt_of_le hcols
  have hwidth : fb.lineByteWidth.toNat = 2 * fb.virtW.toNat := by
    rw [lineByteWidth, BitVec.toNat_mul]
    change fb.virtW.toNat * 2 % 2 ^ 32 = _
    omega
  have hpos : 0 < fb.lineByteWidth.toNat := by omega
  have hblocks (dest : BitVec 32) := @inside_quickStores_iff fb dest _ hpos
  simp only [mem_scrollAccesses hrows]
  constructor
  · intro h
    have hblock : ∀ l, l + 8 < fb.virtH.toNat → ∀ b < 16 * ((2 * fb.virtW.toNat + 15) / 16),
        fb.Holds (BitVec.ofNat 32 l * fb.pitch + BitVec.ofNat 32 b) := by
      intro l hl b hb
      rw [← holds_line_iff]
      exact (hblocks _).mp (fun acc hacc => h acc (Or.inl ⟨l, hl, hacc⟩)) b (by rwa [hwidth])
    refine ⟨hcols, hrows, fun l hl b hb => ?_, hblock⟩
    by_cases hlow : l + 8 < fb.virtH.toNat
    · exact hblock l hlow b (by omega)
    · rw [← holds_line_iff]
      exact h _ (Or.inr ⟨l, hl, by omega, rfl⟩) b (by omega)
  · rintro h acc (⟨l, hl, hacc⟩ | ⟨l, hl, -, rfl⟩)
    · refine (hblocks _).mpr (fun b hb => ?_) acc hacc
      rw [holds_line_iff]
      exact h.block l hl b (by rwa [hwidth] at hb)
    · intro b hb
      rw [holds_line_iff]
      exact h.line l hl b (by omega)

theorem Fits.newline {st : Cursor} (h : fb.Fits) (hst : st.curY.toNat < fb.virtH.toNat / 8) :
    CursorOk fb (fb.newlineAccesses st).1 ∧ ∀ acc ∈ (fb.newlineAccesses st).2, fb.Inside acc := by
  have hW := toInt_of_le h.cols
  have hH := toInt_of_le h.rows
  have hcols := h.cols
  have hrows := h.rows
  have hlt := toNat_lt_of_le h.rows
  have hadd : (st.curY + 1).toNat = st.curY.toNat + 1 := by
    rw [BitVec.toNat_add_of_lt]
    · rfl
    · change _ + 1 < _
      omega
  have hx : (0 : BitVec 32).toNat < fb.virtW.toNat / 8 := by
    change 0 < _
    omega
  rw [newlineAccesses]
  split_ifs with hend
  · refine ⟨⟨hx, ?_⟩, (inside_scroll_iff h.cols h.rows).mpr h⟩
    dsimp only
    rwa [BitVec.add_sub_cancel]
  · refine ⟨⟨hx, ?_⟩, fun acc hacc => absurd hacc List.not_mem_nil⟩
    have := mt BitVec.eq_of_toNat_eq hend
    rw [toNat_sdiv_of_le h.rows, hadd] at this
    change (st.curY + 1).toNat < _
    omega

/-- The accesses for a character on the screen. -/
theorem Fits.char {st : Cursor} (h : fb.Fits) (hst : CursorOk fb st) (c : UInt8) :
    (∀ acc ∈ fb.charAccesses c st.curX st.curY, fb.Inside acc) ↔ c.toNat < 128 := by
  have hx := hst.curX_lt
  have hy := hst.curY_lt
  simp only [mem_charAccesses]
  constructor
  · intro hall
    obtain ⟨-, hlt⟩ := hall _ ⟨0, by decide, 0, by decide, Or.inl rfl⟩
    omega
  · rintro hc acc ⟨j, hj, k, hk, rfl | ⟨i, hi, rfl⟩⟩
    · exact ⟨by omega, by omega⟩
    · intro n hn
      obtain rfl : n = 0 := by omega
      have := h.line (8 * st.curY.toNat + j) (by omega) (16 * st.curX.toNat + (2 * k + i)) (by omega)
      rwa [BitVec.add_zero, BitVec.add_comm, BitVec.add_sub_cancel]

/-- **One character**: the cursor stays on the screen. -/
theorem Fits.putc {st : Cursor} (h : fb.Fits) (hst : CursorOk fb st) (c : UInt8) :
    CursorOk fb (fb.putcAccesses st c).1 ∧
      ((∀ acc ∈ (fb.putcAccesses st c).2, fb.Inside acc) ↔ c.toNat < 128) := by
  have hW := toInt_of_le h.cols
  have hlt := toNat_lt_of_le h.cols
  have hx := hst.curX_lt
  have hadd : (st.curX + 1).toNat = st.curX.toNat + 1 := by
    rw [BitVec.toNat_add_of_lt]
    · rfl
    · change _ + 1 < _
      omega
  rw [putcAccesses]
  by_cases hc : c = 0x0a
  · rw [if_pos hc]
    obtain ⟨hcur, hin⟩ := h.newline hst.curY_lt
    exact ⟨hcur, iff_of_true hin (by rw [hc]; decide)⟩
  · rw [if_neg hc]
    by_cases hend : st.curX + 1 = fb.virtW.sdiv 8
    · rw [if_pos hend]
      obtain ⟨hcur, hin⟩ := @Fits.newline fb { st with curX := st.curX + 1 } h hst.curY_lt
      refine ⟨hcur, ?_⟩
      rw [← h.char hst c]
      refine ⟨fun hall acc hacc => hall acc (List.mem_append_left _ hacc), fun hall acc hacc => ?_⟩
      exact (List.mem_append.mp hacc).elim (hall acc) (hin acc)
    · rw [if_neg hend]
      refine ⟨⟨?_, hst.curY_lt⟩, h.char hst c⟩
      have := mt BitVec.eq_of_toNat_eq hend
      rw [toNat_sdiv_of_le h.cols, hadd] at this
      change (st.curX + 1).toNat < _
      omega

/-- **A text**, on a screen that fits. -/
theorem Fits.text (h : fb.Fits) : ∀ (text : List UInt8) {st : Cursor}, CursorOk fb st →
    ((∀ acc ∈ fb.textAccesses st text, fb.Inside acc) ↔ ∀ c ∈ text, c.toNat < 128)
  | [], st, _ => by simp [textAccesses]
  | c :: text, st, hst => by
    obtain ⟨hcur, hin⟩ := h.putc hst c
    rw [textAccesses, List.forall_mem_append, List.forall_mem_cons, hin, h.text text hcur]

/-! ## Screens that do not fit -/

/-- A line without end, on a screen without a column. -/
theorem putc_space (hcols : fb.virtW.toInt < 8) {x : ℕ} (hx : x + 1 < 2 ^ 31) (c : UInt8) (hc : c ≠ 0x0a) :
    fb.putcAccesses ⟨BitVec.ofNat 32 x, 0⟩ c =
      (⟨BitVec.ofNat 32 (x + 1), 0⟩, fb.charAccesses c (BitVec.ofNat 32 x) 0) := by
  have hne : BitVec.ofNat 32 (x + 1) ≠ fb.virtW.sdiv 8 := by
    refine ofNat_ne_sdiv (Nat.succ_pos x) ?_
    rw [eighthLimit, if_neg (by omega)]
    exact hx
  rw [putcAccesses, if_neg hc]
  dsimp only
  rw [show BitVec.ofNat 32 x + 1 = BitVec.ofNat 32 (x + 1) by rw [BitVec.ofNat_add]; rfl, if_neg hne]

theorem mem_textAccesses_spaces (hcols : fb.virtW.toInt < 8) : ∀ (n x : ℕ), x + n + 1 < 2 ^ 31 →
    acc ∈ fb.charAccesses 0x20 (BitVec.ofNat 32 (x + n)) 0 →
    acc ∈ fb.textAccesses ⟨BitVec.ofNat 32 x, 0⟩ (List.replicate (n + 1) 0x20)
  | 0, x, hn, hacc => by
    rw [List.replicate_succ, textAccesses, putc_space hcols (by omega) _ (by decide)]
    exact List.mem_append_left _ hacc
  | n + 1, x, hn, hacc => by
    rw [List.replicate_succ, textAccesses, putc_space hcols (by omega) _ (by decide)]
    refine List.mem_append_right _ (mem_textAccesses_spaces hcols n (x + 1) (by omega) ?_)
    rwa [Nat.add_assoc, Nat.add_comm 1]

/-- Line feeds, above the last row. -/
theorem newline_above {y : ℕ} (hy : y + 1 < eighthLimit fb.virtH) (x : BitVec 32) :
    fb.putcAccesses ⟨x, BitVec.ofNat 32 y⟩ 0x0a = (⟨0, BitVec.ofNat 32 (y + 1)⟩, []) := by
  rw [putcAccesses, if_pos rfl, newlineAccesses]
  dsimp only
  rw [show BitVec.ofNat 32 y + 1 = BitVec.ofNat 32 (y + 1) by rw [BitVec.ofNat_add]; rfl,
    if_neg (ofNat_ne_sdiv (Nat.succ_pos y) hy)]

theorem textAccesses_newlines : ∀ (n y : ℕ) (x : BitVec 32), y + n < eighthLimit fb.virtH →
    fb.textAccesses ⟨x, BitVec.ofNat 32 y⟩ (List.replicate n 0x0a) = []
  | 0, _, _, _ => rfl
  | n + 1, y, x, h => by
    rw [List.replicate_succ, textAccesses, newline_above (by omega), List.nil_append]
    exact textAccesses_newlines n (y + 1) 0 (by omega)

/-- The line feed of the last row scrolls. -/
theorem textAccesses_newlines_scroll (hrows : 8 ≤ fb.virtH.toInt) : ∀ (n y : ℕ) (x : BitVec 32),
    y + n + 1 = fb.virtH.toNat / 8 →
    fb.textAccesses ⟨x, BitVec.ofNat 32 y⟩ (List.replicate (n + 1) 0x0a) = fb.scrollAccesses
  | 0, y, x, h => by
    have hend : BitVec.ofNat 32 y + 1 = fb.virtH.sdiv 8 := by
      have hlt := fb.virtH.isLt
      rw [show BitVec.ofNat 32 y + 1 = BitVec.ofNat 32 (y + 1) by rw [BitVec.ofNat_add]; rfl]
      refine BitVec.eq_of_toNat_eq ?_
      rw [toNat_sdiv_of_le hrows, BitVec.toNat_ofNat, Nat.mod_eq_of_lt (by omega)]
      exact h
    rw [List.replicate_succ, textAccesses, putcAccesses, if_pos rfl, newlineAccesses]
    dsimp only
    rw [if_pos hend]
    exact List.append_nil _
  | n + 1, y, x, h => by
    have hlimit : eighthLimit fb.virtH = fb.virtH.toNat / 8 := if_pos hrows
    rw [List.replicate_succ, textAccesses, newline_above (by omega), List.nil_append]
    exact textAccesses_newlines_scroll hrows n (y + 1) 0 (by omega)

/-- **A screen that does not fit**: a line that is too long, or the first time that the screen scrolls. -/
theorem exists_not_safe (hrows : 8 ≤ fb.virtH.toInt) (h : ¬fb.Fits) :
    ∃ text, (∀ c ∈ text, c.toNat < 128) ∧ ¬fb.Safe text := by
  rcases lt_or_ge fb.virtW.toInt 8 with hcols | hcols
  · -- the byte behind the buffer
    refine ⟨List.replicate (fb.fbSize.toNat / 16 + 1) 0x20, ?_, fun hsafe => ?_⟩
    · intro c hc
      rw [List.eq_of_mem_replicate hc]
      decide
    · have hsize := fb.fbSize.isLt
      have hmem : Access.store (fb.fbAddr + (0 * fb.pitch + fb.fbSize)) 1 ∈
          fb.charAccesses 0x20 (BitVec.ofNat 32 (0 + fb.fbSize.toNat / 16)) 0 := by
        refine (mem_charAccesses ..).mpr ⟨0, by decide, fb.fbSize.toNat % 16 / 2, by omega,
          Or.inr ⟨fb.fbSize.toNat % 2, by omega, ?_⟩⟩
        rw [BitVec.toNat_ofNat, Nat.mod_eq_of_lt (by omega), show 16 * (0 + fb.fbSize.toNat / 16) +
          (2 * (fb.fbSize.toNat % 16 / 2) + fb.fbSize.toNat % 2) = fb.fbSize.toNat by omega,
          BitVec.ofNat_toNat, BitVec.setWidth_eq]
        rfl
      have := hsafe _ (mem_textAccesses_spaces hcols _ 0 (by omega) hmem) 0 Nat.one_pos
      rw [BitVec.add_zero, BitVec.add_comm, BitVec.add_sub_cancel, zero_mul, zero_add] at this
      exact lt_irrefl _ this
  · refine ⟨List.replicate (fb.virtH.toNat / 8 - 1 + 1) 0x0a, ?_, fun hsafe => ?_⟩
    · intro c hc
      rw [List.eq_of_mem_replicate hc]
      decide
    · have hH := toInt_of_le hrows
      have hscroll := textAccesses_newlines_scroll hrows (fb.virtH.toNat / 8 - 1) 0 0 (by omega)
      refine h ((inside_scroll_iff hcols hrows).mp fun acc hacc => hsafe acc ?_)
      rw [← hscroll] at hacc
      exact hacc

/-- Every character is drawn. -/
theorem exists_store {st : Cursor} {c : UInt8} (hc : c ≠ 0x0a) :
    ∃ a, Access.store a 1 ∈ (fb.putcAccesses st c).2 := by
  have hmem : ∃ a, Access.store a 1 ∈ fb.charAccesses c st.curX st.curY :=
    ⟨_, (mem_charAccesses ..).mpr ⟨0, by decide, 0, by decide, Or.inr ⟨0, by decide, rfl⟩⟩⟩
  obtain ⟨a, ha⟩ := hmem
  refine ⟨a, ?_⟩
  rw [putcAccesses, if_neg hc]
  dsimp only
  split_ifs
  · exact List.mem_append_left _ ha
  · exact ha

/-- **Without a buffer**, only line feeds are safe. -/
theorem eq_newline_of_inside (hsize : fb.fbSize = 0) : ∀ (text : List UInt8) {st : Cursor},
    (∀ acc ∈ fb.textAccesses st text, fb.Inside acc) → ∀ c ∈ text, c = 0x0a
  | [], _, _ => fun c hc => absurd hc List.not_mem_nil
  | c :: text, st, h => by
    rw [textAccesses, List.forall_mem_append] at h
    refine List.forall_mem_cons.mpr ⟨?_, eq_newline_of_inside hsize text h.2⟩
    by_contra hc
    obtain ⟨a, ha⟩ : ∃ a, Access.store a 1 ∈ (fb.putcAccesses st c).2 := exists_store hc
    have := h.1 _ ha 0 Nat.one_pos
    rw [Holds, hsize] at this
    exact Nat.not_lt_zero _ this

/-- **A buffer of as many bytes as the lines have** holds the screen. -/
theorem fits_of_le (hcols : 8 ≤ fb.virtW.toInt) (hrows : 8 ≤ fb.virtH.toInt)
    (hpitch : 2 * fb.virtW.toNat ≤ fb.pitch.toNat)
    (hsize : fb.virtH.toNat * fb.pitch.toNat ≤ fb.fbSize.toNat) : fb.Fits := by
  have hW := toInt_of_le hcols
  have hlt := fb.fbSize.isLt
  have hholds : ∀ l b, l * fb.pitch.toNat + b < fb.fbSize.toNat →
      fb.Holds (BitVec.ofNat 32 l * fb.pitch + BitVec.ofNat 32 b) := by
    intro l b h
    have hsum : BitVec.ofNat 32 l * fb.pitch + BitVec.ofNat 32 b =
        BitVec.ofNat 32 (l * fb.pitch.toNat + b) := by
      rw [BitVec.ofNat_add, BitVec.ofNat_mul, BitVec.ofNat_toNat, BitVec.setWidth_eq]
    rwa [hsum, Holds, BitVec.toNat_ofNat, Nat.mod_eq_of_lt (by omega)]
  have hline : ∀ {l n : ℕ}, l + n ≤ fb.virtH.toNat →
      l * fb.pitch.toNat + n * fb.pitch.toNat ≤ fb.fbSize.toNat := by
    intro l n h
    rw [← Nat.add_mul]
    exact (Nat.mul_le_mul_right _ h).trans hsize
  refine ⟨hcols, hrows, fun l hl b hb => hholds l b ?_, fun l hl b hb => hholds l b ?_⟩
  · have := hline (l := l) (n := 1) hl
    omega
  · have := hline (l := l) (n := 2) (by omega)
    omega

end FbState

/-- Without a buffer, as behind most of the failures. -/
theorem fbInit_fbSize {mailbuffer : ℕ → ℕ → BitVec 32}
    (h : (fbInit mailbuffer).1 ∈ ([-1, -2, -3, -5] : List ℤ)) : (fbInit mailbuffer).2.fbSize = 0 := by
  unfold fbInit at h ⊢
  dsimp only at h ⊢
  by_cases h1 : mailbuffer 0 1 ≠ mboxSuccess
  · rw [if_pos h1]
  rw [if_neg h1] at h ⊢
  by_cases h2 : (displaySize (mailbuffer 0 5) (mailbuffer 0 6)).1 = 0 ∨
      (displaySize (mailbuffer 0 5) (mailbuffer 0 6)).2 = 0
  · rw [if_pos h2]
  rw [if_neg h2] at h ⊢
  by_cases h3 : mailbuffer 1 1 ≠ mboxSuccess
  · rw [if_pos h3]
  rw [if_neg h3] at h ⊢
  by_cases h5 : mailbuffer 1 18 ≠ mboxSuccess ||| 8
  · rw [if_pos h5]
  -- behind the second answer the result is another one
  rw [if_neg h5] at h
  split_ifs at h <;> exact absurd h (of_decide_eq_false rfl)

/-- **Safety of the console**, whatever the mailbox has answered. Texts of characters of the font are safe on
a screen that fits, and line feeds above the last row on any screen. Where the screen fits, no other character
is safe, and where it has a row but does not fit, some text is not. Without a buffer, no character is. -/
theorem console_safe_when (mailbuffer : ℕ → ℕ → BitVec 32) :
    (∀ text, (fbInit mailbuffer).2.Fits ∧ (∀ c ∈ text, c.toNat < 128) ∨
        (∀ c ∈ text, c = 0x0a) ∧ text.length < eighthLimit (fbInit mailbuffer).2.virtH →
      (fbInit mailbuffer).2.Safe text) ∧
    ((fbInit mailbuffer).2.Fits → ∀ text, (fbInit mailbuffer).2.Safe text →
      ∀ c ∈ text, c.toNat < 128) ∧
    (8 ≤ (fbInit mailbuffer).2.virtH.toInt → ¬(fbInit mailbuffer).2.Fits →
      ∃ text, (∀ c ∈ text, c.toNat < 128) ∧ ¬(fbInit mailbuffer).2.Safe text) ∧
    ((fbInit mailbuffer).2.fbSize = 0 → ∀ text, (fbInit mailbuffer).2.Safe text →
      ∀ c ∈ text, c = 0x0a) := by
  have hstart : (fbInit mailbuffer).2.Fits → FbState.CursorOk (fbInit mailbuffer).2 ⟨0, 0⟩ := by
    intro h
    have hW := toInt_of_le h.cols
    have hH := toInt_of_le h.rows
    have hcols := h.cols
    have hrows := h.rows
    constructor
    · change 0 < _
      omega
    · change 0 < _
      omega
  refine ⟨?_, fun hfits text => (hfits.text text (hstart hfits)).mp, FbState.exists_not_safe,
    fun hsize text => FbState.eq_newline_of_inside hsize text⟩
  rintro text (⟨hfits, htext⟩ | ⟨htext, hlen⟩)
  · exact (hfits.text text (hstart hfits)).mpr htext
  · intro acc hacc
    rw [List.eq_replicate_of_mem htext] at hacc
    rw [show (0 : BitVec 32) = BitVec.ofNat 32 0 from rfl,
      FbState.textAccesses_newlines _ 0 _ (by rwa [Nat.zero_add])] at hacc
    exact absurd hacc List.not_mem_nil

/-- The answers for a screen of 640 by 480 pixels. -/
def vgaMailbuffer : ℕ → ℕ → BitVec 32
  | _, 1 => mboxSuccess
  | 0, 5 => 640
  | 0, 6 => 480
  | 1, 18 => mboxSuccess ||| 8
  | 1, 19 => 0x1e000000
  | 1, 20 => 614400
  | 2, 4 => mboxSuccess ||| 4
  | 2, 5 => 1280
  | _, _ => 0

theorem console_safe_when_vga :
    (fbInit vgaMailbuffer).1 = 0 ∧ (fbInit vgaMailbuffer).2.Safe [0x52, 0x70, 0x69, 0x0a] := by
  have hfits : (fbInit vgaMailbuffer).2.Fits :=
    FbState.fits_of_le (by decide) (by decide) (by decide) (by decide)
  exact ⟨by decide, (console_safe_when vgaMailbuffer).1 _ (Or.inl ⟨hfits, by simp⟩)⟩

/-- The mailbox answers nothing: the first character is written to address `0`. And on a screen, a character
of the second half is not in the font. -/
theorem console_unsafe :
    (∃ mailbuffer, (fbInit mailbuffer).1 = -1 ∧ ¬(fbInit mailbuffer).2.Safe [0x57]) ∧
      ∃ mailbuffer, (fbInit mailbuffer).1 = 0 ∧ ¬(fbInit mailbuffer).2.Safe [0x80] := by
  refine ⟨⟨fun _ _ => 0, by decide, fun h => ?_⟩, vgaMailbuffer, by decide, fun h => ?_⟩
  · exact absurd (FbState.eq_newline_of_inside (by decide) _ h 0x57 List.mem_cons_self) (by decide)
  · have := h (.glyph 1024) (by decide +kernel)
    exact absurd this.2 (by decide)

end RpiBoot
