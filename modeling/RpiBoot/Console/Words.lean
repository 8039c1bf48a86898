import RpiBoot.Console.Bounds
import RpiBoot.Console.Terminal

/-!
# The console in words

The console of numbers, whose pixels a terminal has, and the console of words, whose accesses are safe, are
one: the cursor is at the same place, and only bytes are changed that the words store.

* `Framebuffer.Words`: the words of `fb.c` that describe a framebuffer.
* `Access.Writes`: the bytes that a store writes.
* `clearLines_frame`, `scrollLines_frame`, `drawChar_frame`: what the loops leave alone.
* `Words.newline`, `Words.putc`: one character.
* **`Words.text`**: a text changes no byte that it does not store to.
* **`outside_text`**: on a screen that fits, nothing outside the buffer.
-/

namespace RpiBoot

open Store

/-- The words hold the numbers of the framebuffer, which ends at or below 4 GiB. -/
structure Framebuffer.Words (fb : Framebuffer) (w : FbState) : Prop where
  width : w.virtW.toNat = fb.width
  height : w.virtH.toNat = fb.height
  pitch : w.pitch.toNat = fb.pitch
  addr : w.fbAddr.toNat = fb.addr
  width_lt : fb.width < 2 ^ 30
  height_lt : fb.height < 2 ^ 31
  end_le : fb.addr + fb.height * fb.pitch ≤ 2 ^ 32

/-- The cursor is at the same place. -/
structure Console.At (st : Console) (cur : Cursor) : Prop where
  curX : st.curX = cur.curX.toNat
  curY : st.curY = cur.curY.toNat

/-- The byte at `a` is written. -/
def Access.Writes (a : ℕ) : Access → Prop
  | .store dest n => ∃ i < n, (dest + BitVec.ofNat 32 i).toNat = a
  | .glyph _ => False

/-! ## What the loops leave alone -/

namespace Framebuffer

variable {fb : Framebuffer} {q : ℕ}

/-- A line that is replaced. -/
theorem patch_line_frame {line : ℕ} (hq : ∀ b < fb.lineByteWidth, q ≠ fb.byteAddr line b) (mem : Mem)
    {l : List UInt8} (hl : l.length = fb.lineByteWidth) : patch mem (fb.lineAddr line) l q = mem q := by
  refine patch_apply_of_notMem _ _ _ ?_
  by_contra hin
  refine hq (q - fb.lineAddr line) (by omega) ?_
  unfold byteAddr
  omega

theorem clearLines_frame : ∀ (n : ℕ) (mem : Mem) (start : ℕ),
    (∀ line, start ≤ line → line < start + n → ∀ b < fb.lineByteWidth, q ≠ fb.byteAddr line b) →
      fb.clearLines n mem start q = mem q
  | 0, _, _, _ => rfl
  | n + 1, mem, start, hq => by
    rw [clearLines, clearLines_frame n _ _ fun line hl hl' => hq line (by omega) (by omega), clearMem,
      patch_line_frame (hq start le_rfl (by omega)) mem List.length_replicate]

theorem scrollLines_frame : ∀ (n : ℕ) (mem : Mem) (start : ℕ),
    (∀ line, start ≤ line → line < start + n → ∀ b < fb.lineByteWidth, q ≠ fb.byteAddr line b) →
      fb.scrollLines n mem start q = mem q
  | 0, _, _, _ => rfl
  | n + 1, mem, start, hq => by
    have hpos := fb.width_pos
    have hmod := fb.width_mod
    have hwidth := fb.lineByteWidth_eq
    have hapart : fb.byteAddr start (fb.lineByteWidth - 1) < fb.lineAddr (start + charH) :=
      byteAddr_lt (by omega) (Nat.lt_add_of_pos_right (by decide))
    rw [scrollLines, scrollLines_frame n _ _ fun line hl hl' => hq line (by omega) (by omega),
      quickMemcpy_of_pos _ (by omega) (by omega) (Or.inl (by unfold byteAddr at hapart; omega)),
      patch_line_frame (hq start le_rfl (by omega)) mem (length_slice _ _ _)]

theorem drawLines_frame {o : ℕ} : ∀ (n : ℕ) (mem : Mem) {d : ℤ} (top s : ℕ),
    (fb.addr : ℤ) + d = fb.byteAddr top o →
    (∀ j < n, ∀ b < 2 * charW, q ≠ fb.byteAddr (top + j) (o + b)) →
      fb.drawLines defFore defBack n mem d s q = mem q
  | 0, _, _, _, _, _, _ => rfl
  | n + 1, mem, d, top, s, hd, hq => by
    have hd' : (fb.addr : ℤ) + (d + fb.pitch) = fb.byteAddr (top + 1) o := by
      have : fb.byteAddr (top + 1) o = fb.byteAddr top o + fb.pitch := by
        unfold byteAddr lineAddr
        ring
      omega
    have hout : ¬ (fb.byteAddr top o ≤ q ∧ q < fb.byteAddr top o + 2 * charW) := by
      intro hin
      refine hq 0 (Nat.succ_pos n) (q - fb.byteAddr top o) (by omega) ?_
      rw [Nat.add_zero]
      unfold byteAddr at *
      omega
    rw [drawLines, drawLines_frame n _ _ _ hd' fun j hj b hb => ?_, (drawPixels_apply charW mem s hd).2 q,
      if_neg hout]
    have := hq (j + 1) (by omega) b hb
    rwa [Nat.add_comm j, ← Nat.add_assoc] at this

theorem drawChar_frame {row col : ℕ} (c : ℕ) (mem : Mem)
    (hq : ∀ j < 8, ∀ b < 16, q ≠ fb.byteAddr (8 * row + j) (16 * col + b)) :
    fb.drawChar defFore defBack c col row mem q = mem q := by
  have hd : (fb.addr : ℤ) + ((row : ℤ) * charH * fb.pitch + (col : ℤ) * (fbGetBpp >>> 3 : ℕ) * charW) =
      fb.byteAddr (8 * row) (16 * col) := by
    rw [show fbGetBpp >>> 3 = 2 from rfl, show charH = 8 from rfl, show charW = 8 from rfl]
    unfold byteAddr lineAddr
    push_cast
    ring
  exact drawLines_frame charH mem (8 * row) _ hd hq

end Framebuffer

/-! ## The stores of the words -/

namespace Framebuffer.Words

variable {fb : Framebuffer} {w : FbState} {st : Console} {cur : Cursor}

theorem cols (h : fb.Words w) : w.virtW.toInt = fb.width := by
  have hlt := h.width_lt
  rw [BitVec.toInt_eq_toNat_of_lt (by rw [h.width]; omega), h.width]

theorem rows (h : fb.Words w) : w.virtH.toInt = fb.height := by
  have hlt := h.height_lt
  rw [BitVec.toInt_eq_toNat_of_lt (by rw [h.height]; omega), h.height]

theorem lineByteWidth (h : fb.Words w) : w.lineByteWidth.toNat = fb.lineByteWidth := by
  have hlt := h.width_lt
  rw [FbState.lineByteWidth, BitVec.toNat_mul, h.width, Framebuffer.lineByteWidth_eq]
  change fb.width * 2 % 2 ^ 32 = _
  omega

/-- A byte of the screen has its address in words. -/
theorem byte (h : fb.Words w) {line b : ℕ} (hline : line < fb.height) (hb : b < fb.lineByteWidth) :
    (w.fbAddr + (BitVec.ofNat 32 line * w.pitch + BitVec.ofNat 32 b)).toNat = fb.byteAddr line b := by
  have hend := h.end_le
  have hpitch := fb.pitch_le
  have hwidth := fb.lineByteWidth_eq
  have hmul := Nat.mul_le_mul_right fb.pitch (show line + 1 ≤ fb.height from hline)
  have hsum : w.fbAddr + (BitVec.ofNat 32 line * w.pitch + BitVec.ofNat 32 b) =
      BitVec.ofNat 32 (fb.byteAddr line b) := by
    rw [Framebuffer.byteAddr, Framebuffer.lineAddr, BitVec.ofNat_add, BitVec.ofNat_add, BitVec.ofNat_mul,
      ← h.pitch, ← h.addr, BitVec.ofNat_toNat, BitVec.ofNat_toNat, BitVec.setWidth_eq, BitVec.setWidth_eq,
      BitVec.add_assoc]
  rw [Nat.add_mul, Nat.one_mul] at hmul
  rw [hsum, BitVec.toNat_ofNat, Nat.mod_eq_of_lt]
  unfold Framebuffer.byteAddr Framebuffer.lineAddr
  omega

/-- All bytes of the screen are stored to when it scrolls. -/
theorem scroll (h : fb.Words w) {line b : ℕ} (hline : line < fb.height) (hb : b < fb.lineByteWidth) :
    ∃ acc ∈ w.scrollAccesses, acc.Writes (fb.byteAddr line b) := by
  have hheight := fb.height_le
  have hrows : 8 ≤ w.virtH.toInt := by
    rw [h.rows]
    omega
  have hbyte := h.byte hline hb
  rw [← BitVec.add_assoc] at hbyte
  by_cases hlow : line + 8 < fb.height
  · -- the block with the byte is copied
    have hlt := h.width_lt
    have hwidth := fb.lineByteWidth_eq
    have hcount : b / 16 < blockCount w.lineByteWidth.toNat := by
      rw [h.lineByteWidth]
      unfold blockCount
      omega
    have hfuel : blockCount w.lineByteWidth.toNat ≤ 2 ^ 28 := by
      rw [h.lineByteWidth]
      unfold blockCount
      omega
    refine ⟨_, (FbState.mem_scrollAccesses hrows).mpr (Or.inl ⟨line, by rw [h.height]; omega,
      (mem_quickStores (2 ^ 28) _ _ hfuel).mpr ⟨b / 16, hcount, rfl⟩⟩), b % 16, Nat.mod_lt _ (by decide), ?_⟩
    rw [BitVec.add_assoc, ← BitVec.ofNat_add, Nat.div_add_mod, FbState.lineAddr, hbyte]
  · refine ⟨_, (FbState.mem_scrollAccesses hrows).mpr (Or.inr ⟨line, by rw [h.height]; omega,
      by rw [h.height]; omega, rfl⟩), b, by rw [h.lineByteWidth]; exact hb, ?_⟩
    rw [FbState.lineAddr, hbyte]

/-- **A new row.** -/
theorem newline (h : fb.Words w) (hrow : cur.curY.toNat < fb.height / 8) (hY : st.curY = cur.curY.toNat) :
    (fb.newline st).At (w.newlineAccesses cur).1 ∧
      ∀ a, (∀ acc ∈ (w.newlineAccesses cur).2, ¬ acc.Writes a) → (fb.newline st).mem a = st.mem a := by
  have hheight := fb.height_le
  have hlt := h.height_lt
  have hrows : 8 ≤ w.virtH.toInt := by
    rw [h.rows]
    omega
  have hadd : (cur.curY + 1).toNat = cur.curY.toNat + 1 := by
    rw [BitVec.toNat_add_of_lt]
    · rfl
    · change _ + 1 < _
      omega
  have hiff : st.curY + 1 = ((fb.height / charH : ℕ) : ℤ) ↔ cur.curY + 1 = w.virtH.sdiv 8 := by
    rw [← BitVec.toNat_inj, toNat_sdiv_of_le hrows, hadd, h.height, hY]
    unfold charH
    omega
  unfold Framebuffer.newline FbState.newlineAccesses
  dsimp only
  by_cases hend : cur.curY + 1 = w.virtH.sdiv 8
  · rw [if_pos (hiff.mpr hend), if_pos hend]
    refine ⟨⟨rfl, ?_⟩, fun a ha => ?_⟩
    · dsimp only
      rw [BitVec.add_sub_cancel, hY]
      omega
    · have hout : ∀ line < fb.height, ∀ b < fb.lineByteWidth, a ≠ fb.byteAddr line b := by
        rintro line hline b hb rfl
        obtain ⟨acc, hacc, hwrites⟩ := h.scroll hline hb
        exact ha acc hacc hwrites
      dsimp only
      rw [Framebuffer.clearLines_frame, Framebuffer.scrollLines_frame]
      · exact fun line _ hl => hout line (by omega)
      · exact fun line _ hl => hout line (by unfold charH at *; omega)
  · rw [if_neg (hiff.not.mpr hend), if_neg hend]
    refine ⟨⟨rfl, ?_⟩, fun a _ => rfl⟩
    dsimp only
    rw [hadd, hY]
    rfl

/-- **A glyph.** -/
theorem char (h : fb.Words w) (hcur : FbState.CursorOk w cur) (hat : st.At cur) (c : UInt8) {a : ℕ}
    (ha : ∀ acc ∈ w.charAccesses c cur.curX cur.curY, ¬ acc.Writes a) :
    fb.drawChar defFore defBack c.toNat st.curX st.curY st.mem a = st.mem a := by
  have hx := hcur.curX_lt
  have hy := hcur.curY_lt
  rw [h.width] at hx
  rw [h.height] at hy
  rw [hat.curX, hat.curY]
  refine Framebuffer.drawChar_frame c.toNat st.mem ?_
  rintro j hj b hb rfl
  have hwidth := fb.lineByteWidth_eq
  have hline : 8 * cur.curY.toNat + j < fb.height := by omega
  have hbyte := h.byte hline (show 16 * cur.curX.toNat + b < fb.lineByteWidth by omega)
  refine ha _ ((FbState.mem_charAccesses c _ _).mpr ⟨j, hj, b / 2 % 8, Nat.mod_lt _ (by decide),
    Or.inr ⟨b % 2, Nat.mod_lt _ (by decide), rfl⟩⟩) ⟨0, Nat.one_pos, ?_⟩
  rw [show 2 * (b / 2 % 8) + b % 2 = b by omega, BitVec.add_zero, hbyte]

/-- **One character.** -/
theorem putc (h : fb.Words w) (hcur : FbState.CursorOk w cur) (hat : st.At cur) (c : UInt8) :
    (fb.consolePutc st c.toNat).At (w.putcAccesses cur c).1 ∧
      ∀ a, (∀ acc ∈ (w.putcAccesses cur c).2, ¬ acc.Writes a) →
        (fb.consolePutc st c.toNat).mem a = st.mem a := by
  have hx := hcur.curX_lt
  have hy := hcur.curY_lt
  have hlt := h.width_lt
  rw [h.width] at hx
  rw [h.height] at hy
  have hcols : 8 ≤ w.virtW.toInt := by
    rw [h.cols]
    omega
  have hadd : (cur.curX + 1).toNat = cur.curX.toNat + 1 := by
    rw [BitVec.toNat_add_of_lt]
    · rfl
    · change _ + 1 < _
      omega
  have hnl : c.toNat = '\n'.toNat ↔ c = 0x0a := UInt8.toNat_inj (b := 0x0a)
  have hiff : st.curX + 1 = ((fb.width / charW : ℕ) : ℤ) ↔ cur.curX + 1 = w.virtW.sdiv 8 := by
    rw [← BitVec.toNat_inj, toNat_sdiv_of_le hcols, hadd, h.width, hat.curX]
    unfold charW
    omega
  unfold Framebuffer.consolePutc FbState.putcAccesses
  dsimp only
  by_cases hc : c = 0x0a
  · rw [if_pos (hnl.mpr hc), if_pos hc]
    exact h.newline hy hat.curY
  rw [if_neg (hnl.not.mpr hc), if_neg hc]
  by_cases hend : cur.curX + 1 = w.virtW.sdiv 8
  · rw [if_pos (hiff.mpr hend), if_pos hend]
    let drawn : Console := ⟨fb.drawChar defFore defBack c.toNat st.curX st.curY st.mem, st.curX + 1, st.curY⟩
    have hrow : (⟨cur.curX + 1, cur.curY⟩ : Cursor).curY.toNat < fb.height / 8 := hy
    have hY : drawn.curY = (⟨cur.curX + 1, cur.curY⟩ : Cursor).curY.toNat := hat.curY
    obtain ⟨hat', hframe⟩ := h.newline hrow hY
    refine ⟨hat', fun a ha => ?_⟩
    rw [hframe a fun acc hacc => ha acc (List.mem_append_right _ hacc)]
    exact h.char hcur hat c fun acc hacc => ha acc (List.mem_append_left _ hacc)
  · rw [if_neg (hiff.not.mpr hend), if_neg hend]
    refine ⟨⟨?_, hat.curY⟩, fun a ha => h.char hcur hat c ha⟩
    dsimp only
    rw [hadd, hat.curX]
    rfl

/-- **A text** changes no byte that it does not store to. -/
theorem text (h : fb.Words w) (hfits : w.Fits) : ∀ (text : List UInt8) {st : Console} {cur : Cursor},
    FbState.CursorOk w cur → st.At cur → ∀ a, (∀ acc ∈ w.textAccesses cur text, ¬ acc.Writes a) →
      (text.foldl (fun st c => fb.consolePutc st c.toNat) st).mem a = st.mem a
  | [], _, _, _, _ => fun _ _ => rfl
  | c :: text, st, cur, hcur, hat => fun a ha => by
    obtain ⟨hat', hframe⟩ := h.putc hcur hat c
    rw [List.foldl_cons, h.text hfits text (hfits.putc hcur c).1 hat' a fun acc hacc =>
      ha acc (List.mem_append_right _ hacc), hframe a fun acc hacc => ha acc (List.mem_append_left _ hacc)]

end Framebuffer.Words

/-- An access within the buffer writes no byte outside. -/
theorem FbState.Inside.not_writes {w : FbState} {acc : Access} (h : w.Inside acc)
    (hend : w.fbAddr.toNat + w.fbSize.toNat ≤ 2 ^ 32) {a : ℕ}
    (ha : a < w.fbAddr.toNat ∨ w.fbAddr.toNat + w.fbSize.toNat ≤ a) : ¬ acc.Writes a := by
  cases acc with
  | glyph i => exact id
  | store dest n =>
    rintro ⟨i, hi, rfl⟩
    have hholds := h i hi
    have hlt := (dest + BitVec.ofNat 32 i).isLt
    rw [Holds, BitVec.toNat_sub] at hholds
    omega

/-- **Outside the buffer** a text from the top left on changes nothing, on a screen that fits, when the font
has its characters. -/
theorem outside_text {fb : Framebuffer} {w : FbState} (h : fb.Words w) (hfits : w.Fits)
    (hend : w.fbAddr.toNat + w.fbSize.toNat ≤ 2 ^ 32) {text : List UInt8} (htext : ∀ c ∈ text, c.toNat < 128)
    (mem : Mem) {a : ℕ} (ha : a < w.fbAddr.toNat ∨ w.fbAddr.toNat + w.fbSize.toNat ≤ a) :
    (text.foldl (fun st c => fb.consolePutc st c.toNat) ⟨mem, 0, 0⟩).mem a = mem a := by
  have hwidth := fb.width_pos
  have hmod := fb.width_mod
  have hheight := fb.height_le
  have hcur : FbState.CursorOk w ⟨0, 0⟩ := by
    constructor
    · rw [h.width]
      exact Nat.div_pos (by omega) (by decide)
    · rw [h.height]
      exact Nat.div_pos hheight (by decide)
  refine h.text hfits text hcur ⟨rfl, rfl⟩ a fun acc hacc => ?_
  exact FbState.Inside.not_writes ((hfits.text text hcur).mpr htext acc hacc) hend ha

/-- The screen of 640 by 480 pixels. -/
example : (default : Framebuffer).Words ⟨640, 480, 640, 480, 1280, 0x1e000000, 614400⟩ :=
  ⟨by decide, by decide, by decide, by decide, by decide, by decide, by decide⟩

end RpiBoot
