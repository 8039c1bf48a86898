import Mathlib.Data.List.Basic
import RpiBoot.Console.Model

/-!
# The console as a terminal

A terminal of `cols` columns breaks its text into rows, and shows the last `n` of them. The pixels of the
framebuffer are always those of the terminal that has been given the same characters.

* `Terminal.put`, `Terminal.shown`: the terminal.
* `screenByte`: the byte of a framebuffer line that shows some rows of text.
* `clearLines_apply`, `scrollLines_apply`, `drawChar_apply`: what the loops of the console do to a byte.
* `Shows`, `shows_newline`, **`shows_consolePutc`**: the framebuffer shows rows of text, and what a
  character makes of them.
* **`console_shows`**: from a cleared screen, after any text.
-/

namespace RpiBoot

open Store

/-! ## Terminals -/

/-- The finished rows of a text, and the row of the cursor. -/
structure Terminal where
  rows : List (List ℕ)
  cur : List ℕ

namespace Terminal

def blank : Terminal := ⟨[], []⟩

/-- A new row. -/
def newRow (t : Terminal) : Terminal := ⟨t.rows ++ [t.cur], []⟩

/-- A character: a new row at a line feed, and as soon as the row has `cols` characters. -/
def put (cols : ℕ) (t : Terminal) (c : ℕ) : Terminal :=
  if c = '\n'.toNat then t.newRow
  else if t.cur.length + 1 = cols then Terminal.newRow ⟨t.rows, t.cur ++ [c]⟩
  else ⟨t.rows, t.cur ++ [c]⟩

/-- The rows of the text. -/
def text (t : Terminal) : List (List ℕ) := t.rows ++ [t.cur]

/-- The last `n` rows. -/
def shown (n : ℕ) (t : Terminal) : List (List ℕ) := t.text.drop (t.text.length - n)

end Terminal

/-- Bit `i` of the font, counted from the left of its first byte. -/
def fontBit (i : ℕ) : Bool := (vgafont8.getD (i / 8) 0).toNat.testBit (7 - i % 8)

/-- Line `y` of the glyph of a character has a pixel at column `x`. -/
def glyph (c y x : ℕ) : Bool := (vgafont8.getD (8 * c + y) 0).toNat.testBit (7 - x)

/-- Byte `b` of line `line` of a framebuffer that shows rows of text from its top: `0xff` in the pixels of
the glyphs, which are two bytes wide, and `0` elsewhere. -/
def screenByte (rows : List (List ℕ)) (line b : ℕ) : UInt8 :=
  match rows[line / 8]?.bind (·[b / 16]?) with
  | some c => if glyph c (line % 8) (b / 2 % 8) then 0xff else 0
  | none => 0

/-! ## The bytes of the lines -/

namespace Framebuffer

variable (fb : Framebuffer)

/-- Byte `b` of a line. -/
def byteAddr (line b : ℕ) : ℕ := fb.lineAddr line + b

theorem lineByteWidth_eq : fb.lineByteWidth = fb.width * 2 := rfl

variable {fb}

/-- Lines do not overlap. -/
theorem byteAddr_lt {line line' b : ℕ} (hb : b < fb.lineByteWidth) (h : line < line') :
    fb.byteAddr line b < fb.lineAddr line' := by
  have hpitch := fb.pitch_le
  have := Nat.mul_le_mul_right fb.pitch (show line + 1 ≤ line' from h)
  rw [lineByteWidth_eq] at hb
  rw [Nat.add_mul, Nat.one_mul] at this
  unfold byteAddr lineAddr
  omega

/-- A line of the screen and no other is written. -/
theorem patch_line {mem : Mem} {l : List UInt8} (hl : l.length = fb.lineByteWidth) {line' line b : ℕ}
    {v : UInt8} (hb : b < fb.lineByteWidth) (hv : l[b]? = some v) :
    patch mem (fb.lineAddr line') l (fb.byteAddr line b) =
      if line = line' then v else mem (fb.byteAddr line b) := by
  rcases Nat.lt_trichotomy line line' with hlt | rfl | hlt
  · rw [if_neg (by omega), patch_apply_of_notMem _ _ _ (Or.inl (byteAddr_lt hb hlt))]
  · obtain ⟨hb', rfl⟩ := List.getElem?_eq_some_iff.mp hv
    rw [if_pos rfl, byteAddr, patch_apply_add _ _ _ hb']
  · have hlast : fb.lineByteWidth - 1 < fb.lineByteWidth := by omega
    have := byteAddr_lt hlast hlt
    rw [if_neg (by omega), patch_apply_of_notMem _ _ _ (Or.inr ?_)]
    unfold byteAddr at *
    omega

/-- **Clearing lines.** -/
theorem clearLines_apply {b : ℕ} (hb : b < fb.lineByteWidth) (line : ℕ) :
    ∀ (n : ℕ) (mem : Mem) (start : ℕ), fb.clearLines n mem start (fb.byteAddr line b) =
      if start ≤ line ∧ line < start + n then 0 else mem (fb.byteAddr line b)
  | 0, mem, start => by rw [clearLines, if_neg (by omega)]
  | n + 1, mem, start => by
    have hv : (List.replicate fb.lineByteWidth (0 : UInt8))[b]? = some 0 := by
      rw [List.getElem?_replicate, if_pos hb]
    rw [clearLines, clearLines_apply hb line n, clearMem, patch_line List.length_replicate hb hv]
    split_ifs <;> first | rfl | omega

/-- **Scrolling lines.** -/
theorem scrollLines_apply {b : ℕ} (hb : b < fb.lineByteWidth) :
    ∀ (n : ℕ) (mem : Mem) (start line : ℕ), fb.scrollLines n mem start (fb.byteAddr line b) =
      if start ≤ line ∧ line < start + n then mem (fb.byteAddr (line + charH) b)
      else mem (fb.byteAddr line b)
  | 0, mem, start, line => by rw [scrollLines, if_neg (by omega)]
  | n + 1, mem, start, line => by
    have hmod := fb.width_mod
    have hlast : fb.lineByteWidth - 1 < fb.lineByteWidth := by omega
    have hapart := byteAddr_lt hlast (Nat.lt_add_of_pos_right (n := start) (k := charH) (by decide))
    have hcopy : ∀ line', quickMemcpy mem (fb.lineAddr start) (fb.lineAddr (start + charH))
        fb.lineByteWidth (fb.byteAddr line' b) =
        if line' = start then mem (fb.byteAddr (start + charH) b) else mem (fb.byteAddr line' b) := by
      intro line'
      rw [quickMemcpy_of_pos _ (by omega) (by rw [lineByteWidth_eq]; omega)
        (Or.inl (by unfold byteAddr at hapart; omega)),
        patch_line (length_slice _ _ _) hb (getElem?_slice_of_lt _ _ _ hb)]
      rfl
    rw [scrollLines, scrollLines_apply hb n]
    simp only [hcopy]
    by_cases hline : line = start
    · subst hline
      rw [if_neg (by omega), if_pos rfl, if_pos (by omega)]
    · have hne : start + 1 ≤ line → line + charH ≠ start := fun h => by omega
      rw [if_neg hline]
      split_ifs <;> first | rfl | omega

/-! ## Glyphs -/

theorem patch_pair (mem : Mem) (a q : ℕ) (v : UInt8) :
    patch mem a [v, v] q = if a ≤ q ∧ q < a + 2 then v else mem q := by
  split_ifs with h
  · obtain rfl | rfl : q = a ∨ q = a + 1 := by omega
    · exact patch_apply_add (i := 0) mem q [v, v] Nat.zero_lt_two
    · exact patch_apply_add (i := 1) mem a [v, v] Nat.one_lt_two
  · exact patch_apply_of_notMem _ _ _ (by dsimp only [List.length]; omega)

/-- The two bytes of a pixel. -/
theorem drawBytes_apply {mem : Mem} {d : ℤ} {a colour : ℕ} {v : UInt8} (ha : (fb.addr : ℤ) + d = a)
    (h₁ : UInt8.ofNat (colour &&& 0xff) = v) (h₂ : UInt8.ofNat (colour >>> 8 &&& 0xff) = v) :
    fb.drawBytes (fbGetBpp >>> 3) mem d colour = patch mem a [v, v] := by
  have ha' : (fb.addr : ℤ) + (d + 1) = (a + 1 : ℕ) := by omega
  change fb.drawBytes 2 mem d colour = _
  rw [drawBytes, drawBytes, drawBytes, ha, ha', Int.toNat_natCast, Int.toNat_natCast, h₁, h₂, patch_cons,
    patch_singleton]

/-- **A line of a glyph.** -/
theorem drawPixels_apply : ∀ (n : ℕ) (mem : Mem) {d : ℤ} {a : ℕ} (s : ℕ), (fb.addr : ℤ) + d = a →
    (fb.drawPixels defFore defBack n mem d s).2 = s + n ∧
    ∀ q, (fb.drawPixels defFore defBack n mem d s).1 q =
      if a ≤ q ∧ q < a + 2 * n then if fontBit (s + (q - a) / 2) then 0xff else 0 else mem q
  | 0, mem, d, a, s, _ => ⟨rfl, fun q => by rw [drawPixels, if_neg (by omega)]⟩
  | n + 1, mem, d, a, s, ha => by
    have hpixel : fb.drawBytes (fbGetBpp >>> 3) mem d (if ((vgafont8.getD (s / 8) 0).toNat >>> (7 - s % 8)) &&&
        1 ≠ 0 then defFore else defBack) =
        patch mem a [if fontBit s then 0xff else 0, if fontBit s then 0xff else 0] := by
      have hbit : ((vgafont8.getD (s / 8) 0).toNat >>> (7 - s % 8)) &&& 1 ≠ 0 ↔ fontBit s = true := by
        rw [fontBit, Nat.testBit, bne_iff_ne, Nat.and_comm]
      by_cases h : fontBit s = true
      · rw [if_pos (hbit.mpr h), if_pos h]
        exact drawBytes_apply ha rfl rfl
      · rw [if_neg (hbit.not.mpr h), if_neg h]
        exact drawBytes_apply ha rfl rfl
    have ha' : (fb.addr : ℤ) + (d + (fbGetBpp >>> 3 : ℕ)) = (a + 2 : ℕ) := by
      rw [show fbGetBpp >>> 3 = 2 from rfl]; omega
    obtain ⟨h₂, h₁⟩ := drawPixels_apply n (fb.drawBytes (fbGetBpp >>> 3) mem d
      (if ((vgafont8.getD (s / 8) 0).toNat >>> (7 - s % 8)) &&& 1 ≠ 0 then defFore else defBack)) (s + 1) ha'
    refine ⟨by rw [drawPixels, h₂]; omega, fun q => ?_⟩
    rw [drawPixels, h₁, hpixel, patch_pair]
    by_cases hfirst : a ≤ q ∧ q < a + 2
    · have hall : a ≤ q ∧ q < a + 2 * (n + 1) := by omega
      rw [if_neg (by omega), if_pos hfirst, if_pos hall, show (q - a) / 2 = 0 by omega, Nat.add_zero]
    · rw [if_neg hfirst]
      by_cases hrest : a + 2 ≤ q ∧ q < a + 2 + 2 * n
      · have hall : a ≤ q ∧ q < a + 2 * (n + 1) := by omega
        rw [if_pos hrest, if_pos hall, show s + 1 + (q - (a + 2)) / 2 = s + (q - a) / 2 by omega]
      · rw [if_neg hrest, if_neg (by omega)]

/-- **The lines of a glyph**, from byte `o` of line `top` on. -/
theorem drawLines_apply {o : ℕ} (ho : o + 2 * charW ≤ fb.lineByteWidth) {line b : ℕ}
    (hb : b < fb.lineByteWidth) : ∀ (n : ℕ) {mem : Mem} {d : ℤ} (top s : ℕ),
    (fb.addr : ℤ) + d = fb.byteAddr top o →
    fb.drawLines defFore defBack n mem d s (fb.byteAddr line b) =
      if (top ≤ line ∧ line < top + n) ∧ o ≤ b ∧ b < o + 2 * charW then
        if fontBit (s + charW * (line - top) + (b - o) / 2) then 0xff else 0
      else mem (fb.byteAddr line b)
  | 0, mem, d, top, s, _ => by rw [drawLines, if_neg (by omega)]
  | n + 1, mem, d, top, s, hd => by
    have hd' : (fb.addr : ℤ) + (d + fb.pitch) = fb.byteAddr (top + 1) o := by
      have : fb.byteAddr (top + 1) o = fb.byteAddr top o + fb.pitch := by
        unfold byteAddr lineAddr
        ring
      omega
    obtain ⟨hs, hline⟩ := drawPixels_apply charW mem s hd
    have hin : fb.byteAddr top o ≤ fb.byteAddr line b ∧
        fb.byteAddr line b < fb.byteAddr top o + 2 * charW ↔ line = top ∧ o ≤ b ∧ b < o + 2 * charW := by
      have hlast : o + 2 * charW - 1 < fb.lineByteWidth := by unfold charW at *; omega
      rcases Nat.lt_trichotomy line top with hlt | rfl | hlt
      · have := byteAddr_lt hb hlt
        unfold byteAddr charW at *
        omega
      · unfold byteAddr
        omega
      · have := byteAddr_lt hlast hlt
        unfold byteAddr charW at *
        omega
    rw [drawLines, drawLines_apply ho hb n _ _ hd', hs, hline]
    by_cases hfirst : line = top ∧ o ≤ b ∧ b < o + 2 * charW
    · obtain ⟨rfl, hb₁, hb₂⟩ := id hfirst
      have hall : (line ≤ line ∧ line < line + (n + 1)) ∧ o ≤ b ∧ b < o + 2 * charW := by omega
      rw [if_neg (by omega), if_pos (hin.mpr hfirst), if_pos hall, Nat.sub_self, Nat.mul_zero,
        Nat.add_zero, show fb.byteAddr line b - fb.byteAddr line o = b - o by unfold byteAddr; omega]
    · rw [if_neg (hin.not.mpr hfirst)]
      by_cases hrest : (top + 1 ≤ line ∧ line < top + 1 + n) ∧ o ≤ b ∧ b < o + 2 * charW
      · have hall : (top ≤ line ∧ line < top + (n + 1)) ∧ o ≤ b ∧ b < o + 2 * charW := by omega
        rw [if_pos hrest, if_pos hall,
          show s + charW + charW * (line - (top + 1)) = s + charW * (line - top) by unfold charW; omega]
      · rw [if_neg hrest, if_neg (by omega)]

/-- **`draw_char`** at a cell of the screen. -/
theorem drawChar_apply {c row col : ℕ} (hcol : (col + 1) * 16 ≤ fb.lineByteWidth) (mem : Mem) {line b : ℕ}
    (hb : b < fb.lineByteWidth) :
    fb.drawChar defFore defBack c col row mem (fb.byteAddr line b) =
      if line / 8 = row ∧ b / 16 = col then
        if glyph c (line % 8) (b / 2 % 8) then 0xff else 0
      else mem (fb.byteAddr line b) := by
  have hd : (fb.addr : ℤ) + ((row : ℤ) * charH * fb.pitch + (col : ℤ) * (fbGetBpp >>> 3 : ℕ) * charW) =
      fb.byteAddr (8 * row) (16 * col) := by
    rw [show fbGetBpp >>> 3 = 2 from rfl, show charH = 8 from rfl, show charW = 8 from rfl]
    unfold byteAddr lineAddr
    push_cast
    ring
  rw [drawChar, drawLines_apply (by unfold charW; omega) hb charH _ _ hd]
  have hcell : (8 * row ≤ line ∧ line < 8 * row + charH) ∧ 16 * col ≤ b ∧ b < 16 * col + 2 * charW ↔
      line / 8 = row ∧ b / 16 = col := by
    unfold charH charW
    omega
  by_cases h : line / 8 = row ∧ b / 16 = col
  · rw [if_pos (hcell.mpr h), if_pos h]
    obtain ⟨rfl, rfl⟩ := h
    have hbit : fontBit (c * charW * charH + charW * (line - 8 * (line / 8)) + (b - 16 * (b / 16)) / 2) =
        glyph c (line % 8) (b / 2 % 8) := by
      unfold fontBit glyph charW charH
      congr 2
      · congr 1
        omega
      · omega
    rw [hbit]
  · rw [if_neg (hcell.not.mpr h), if_neg h]

end Framebuffer

/-! ## The simulation -/

/-- The screen shows the rows `above` from its top, then the row `cur` with the cursor behind it. -/
structure Shows (fb : Framebuffer) (above : List (List ℕ)) (cur : List ℕ) (st : Console) : Prop where
  curX_eq : st.curX = cur.length
  curY_eq : st.curY = above.length
  cur_lt : cur.length < fb.width / charW
  above_lt : above.length < fb.height / charH
  bytes : ∀ line < fb.height, ∀ b < fb.lineByteWidth,
    st.mem (fb.byteAddr line b) = screenByte (above ++ [cur]) line b

variable {fb : Framebuffer} {above : List (List ℕ)} {cur : List ℕ} {st : Console}

/-- The rows above the cursor once it has gone to a new row. -/
def scrolled (n : ℕ) (rows : List (List ℕ)) : List (List ℕ) := rows.drop (rows.length + 1 - n)

/-- An empty row below the others is blank. -/
theorem bind_append_nil (rows : List (List ℕ)) (i j : ℕ) :
    (rows ++ [[]])[i]?.bind (·[j]?) = rows[i]?.bind (·[j]?) := by
  rw [List.getElem?_append]
  split_ifs with h
  · rfl
  · rw [List.getElem?_eq_none (l := rows) (by omega), Option.bind_none, List.getElem?_singleton]
    split_ifs <;> rfl

/-- A character behind the last row. -/
theorem bind_append_char (above : List (List ℕ)) (cur : List ℕ) (c i j : ℕ) :
    (above ++ [cur ++ [c]])[i]?.bind (·[j]?) =
      if i = above.length ∧ j = cur.length then some c
      else (above ++ [cur])[i]?.bind (·[j]?) := by
  rcases Nat.lt_trichotomy i above.length with hlt | rfl | hlt
  · rw [if_neg (by omega), List.getElem?_append_left hlt, List.getElem?_append_left hlt]
  · simp only [List.getElem?_concat_length, Option.bind_some, true_and]
    split_ifs with hj
    · rw [hj, List.getElem?_concat_length]
    · rcases Nat.lt_or_ge j cur.length with hlt | hge
      · rw [List.getElem?_append_left hlt]
      · rw [List.getElem?_eq_none (by rw [List.length_append, List.length_singleton]; omega),
          List.getElem?_eq_none hge]
  · rw [if_neg (by omega), List.getElem?_eq_none (by rw [List.length_append, List.length_singleton]; omega),
      List.getElem?_eq_none (by rw [List.length_append, List.length_singleton]; omega)]

/-- A new row appears blank. -/
theorem screenByte_append_nil (rows : List (List ℕ)) (line b : ℕ) :
    screenByte (rows ++ [[]]) line b = screenByte rows line b := by
  simp only [screenByte, bind_append_nil]

/-- Moving up by a row. -/
theorem screenByte_drop_one (rows : List (List ℕ)) (line b : ℕ) :
    screenByte (rows.drop 1) line b = screenByte rows (line + 8) b := by
  have h₁ : (line + 8) / 8 = 1 + line / 8 := by omega
  have h₂ : (line + 8) % 8 = line % 8 := by omega
  simp only [screenByte, List.getElem?_drop, h₁, h₂]

/-- Nothing is shown below the rows. -/
theorem screenByte_below {rows : List (List ℕ)} {line : ℕ} (h : rows.length ≤ line / 8) (b : ℕ) :
    screenByte rows line b = 0 := by
  rw [screenByte, List.getElem?_eq_none h, Option.bind_none]

/-- **A new row.** The cursor may stand behind the last column. -/
theorem shows_newline (hY : st.curY = above.length) (habove : above.length < fb.height / charH)
    (hbytes : ∀ line < fb.height, ∀ b < fb.lineByteWidth,
      st.mem (fb.byteAddr line b) = screenByte (above ++ [cur]) line b) :
    Shows fb (scrolled (fb.height / charH) (above ++ [cur])) [] (fb.newline st) := by
  have hwidth := fb.width_pos
  have hmod := fb.width_mod
  have hheight := fb.height_le
  have hcols : 0 < fb.width / charW := Nat.div_pos (by unfold charW; omega) (by decide)
  have hlen : (above ++ [cur]).length = above.length + 1 := List.length_append
  unfold Framebuffer.newline scrolled
  rw [hY, hlen]
  by_cases hfull : above.length + 1 = fb.height / charH
  · -- the top row leaves the screen
    have hcond : (above.length : ℤ) + 1 = (fb.height / charH : ℕ) := by omega
    have hdrop : above.length + 1 + 1 - fb.height / charH = 1 := by omega
    rw [if_pos hcond, hdrop]
    refine ⟨rfl, ?_, hcols, ?_, fun line hline b hb => ?_⟩
    · rw [List.length_drop, hlen, Nat.add_sub_cancel]
      dsimp only
      omega
    · rw [List.length_drop, hlen]
      omega
    · dsimp only
      rw [screenByte_append_nil, Framebuffer.clearLines_apply hb, Framebuffer.scrollLines_apply hb]
      unfold charH at *
      split_ifs with h₁ h₂
      · rw [screenByte_below]
        rw [List.length_drop, hlen]
        omega
      · rw [hbytes _ (by omega) b hb, screenByte_drop_one]
      · omega
  · have hcond : ¬ (above.length : ℤ) + 1 = (fb.height / charH : ℕ) := by omega
    have hdrop : above.length + 1 + 1 - fb.height / charH = 0 := by omega
    rw [if_neg hcond, hdrop, List.drop_zero]
    refine ⟨rfl, ?_, hcols, by rw [hlen]; omega, fun line hline b hb => ?_⟩
    · rw [hlen]
      push_cast
      rfl
    · rw [screenByte_append_nil]
      exact hbytes line hline b hb

/-- **A character on the row of the cursor.** -/
theorem bytes_drawChar (h : Shows fb above cur st) {c line b : ℕ} (hline : line < fb.height)
    (hb : b < fb.lineByteWidth) :
    fb.drawChar defFore defBack c st.curX st.curY st.mem (fb.byteAddr line b) =
      screenByte (above ++ [cur ++ [c]]) line b := by
  have hcur := h.cur_lt
  have hmul := Nat.div_mul_le_self fb.width charW
  have hcol : (cur.length + 1) * 16 ≤ fb.lineByteWidth := by
    rw [Framebuffer.lineByteWidth_eq]
    unfold charW at *
    omega
  rw [h.curX_eq, h.curY_eq, Framebuffer.drawChar_apply hcol st.mem hb, h.bytes line hline b hb]
  unfold screenByte
  rw [bind_append_char]
  by_cases hcell : line / 8 = above.length ∧ b / 16 = cur.length
  · rw [if_pos hcell, if_pos hcell]
  · rw [if_neg hcell, if_neg hcell]

/-- **`console_putc` keeps the screen.** -/
theorem shows_consolePutc (h : Shows fb above cur st) (c : ℕ) :
    if c = '\n'.toNat then
      Shows fb (scrolled (fb.height / charH) (above ++ [cur])) [] (fb.consolePutc st c)
    else if cur.length + 1 = fb.width / charW then
      Shows fb (scrolled (fb.height / charH) (above ++ [cur ++ [c]])) [] (fb.consolePutc st c)
    else Shows fb above (cur ++ [c]) (fb.consolePutc st c) := by
  unfold Framebuffer.consolePutc
  have hX := h.curX_eq
  split_ifs with hnl hlast
  · exact shows_newline h.curY_eq h.above_lt h.bytes
  · have hcond : st.curX + 1 = ((fb.width / charW : ℕ) : ℤ) := by omega
    simp only [if_pos hcond]
    exact shows_newline h.curY_eq h.above_lt fun line hline b hb => bytes_drawChar h hline hb
  · have hcond : ¬ st.curX + 1 = ((fb.width / charW : ℕ) : ℤ) := by omega
    have hcur := h.cur_lt
    simp only [if_neg hcond]
    refine ⟨?_, h.curY_eq, ?_, h.above_lt, fun line hline b hb => bytes_drawChar h hline hb⟩
    · rw [List.length_append, List.length_singleton, Nat.cast_add, ← hX]
      rfl
    · rw [List.length_append, List.length_singleton]
      omega

/-- The cleared screen. -/
theorem shows_clear (fb : Framebuffer) (st : Console) : Shows fb [] [] (fb.clear st) := by
  have hwidth := fb.width_pos
  have hmod := fb.width_mod
  have hheight := fb.height_le
  refine ⟨rfl, rfl, Nat.div_pos (by unfold charW; omega) (by decide),
    Nat.div_pos (by unfold charH; omega) (by decide), fun line hline b hb => ?_⟩
  dsimp only [Framebuffer.clear]
  rw [Framebuffer.clearLines_apply hb, if_pos (by omega), screenByte_append_nil]
  rfl

/-! ## The terminal -/

/-- The rows above the cursor of a terminal. -/
theorem shown_eq (n : ℕ) (hn : 0 < n) (t : Terminal) :
    t.shown n = scrolled n t.rows ++ [t.cur] := by
  unfold Terminal.shown Terminal.text scrolled
  rw [List.length_append, List.length_singleton, List.drop_append_of_le_length (by omega)]

theorem scrolled_append (n : ℕ) (rows : List (List ℕ)) (cur : List ℕ) (hn : 0 < n) :
    scrolled n (scrolled n rows ++ [cur]) = scrolled n (rows ++ [cur]) := by
  unfold scrolled
  have hdrop : (rows ++ [cur]).drop (rows.length + 1 - n) = rows.drop (rows.length + 1 - n) ++ [cur] :=
    List.drop_append_of_le_length (by omega)
  rw [← hdrop, List.drop_drop, List.length_drop, List.length_append, List.length_singleton]
  congr 1
  omega

/-- The framebuffer shows the terminal. -/
def ShowsTerminal (fb : Framebuffer) (t : Terminal) (st : Console) : Prop :=
  Shows fb (scrolled (fb.height / charH) t.rows) t.cur st

theorem showsTerminal_clear (fb : Framebuffer) (st : Console) :
    ShowsTerminal fb Terminal.blank (fb.clear st) := by
  have hrows : scrolled (fb.height / charH) [] = [] := List.drop_nil
  unfold ShowsTerminal Terminal.blank
  rw [hrows]
  exact shows_clear fb st

theorem showsTerminal_consolePutc {t : Terminal} (h : ShowsTerminal fb t st) (c : ℕ) :
    ShowsTerminal fb (t.put (fb.width / charW) c) (fb.consolePutc st c) := by
  have hrows : 0 < fb.height / charH := Nat.lt_of_le_of_lt (Nat.zero_le _) h.above_lt
  have hput := shows_consolePutc h c
  simp only [scrolled_append _ _ _ hrows] at hput
  unfold ShowsTerminal Terminal.put
  split_ifs at hput ⊢ <;> exact hput

theorem showsTerminal_foldl (text : List ℕ) {t : Terminal} (h : ShowsTerminal fb t st) :
    ShowsTerminal fb (text.foldl (Terminal.put (fb.width / charW)) t)
      (text.foldl fb.consolePutc st) := by
  induction text generalizing t st with
  | nil => exact h
  | cons c text ih => exact ih (showsTerminal_consolePutc h c)

/-- **The console is a terminal.** After any text on a cleared screen, the cursor is on the screen, behind
the last character of the terminal, and the screen shows the last rows of the text. -/
theorem console_shows (fb : Framebuffer) (st : Console) (text : List ℕ) :
    let t := text.foldl (Terminal.put (fb.width / 8)) Terminal.blank
    let st' := text.foldl fb.consolePutc (fb.clear st)
    (0 ≤ st'.curX ∧ st'.curX < (fb.width / 8 : ℕ)) ∧ (0 ≤ st'.curY ∧ st'.curY < (fb.height / 8 : ℕ)) ∧
      st'.curX = t.cur.length ∧ st'.curY + 1 = (t.shown (fb.height / 8)).length ∧
      ∀ line < fb.height, ∀ b < fb.width * 2,
        st'.mem (fb.byteAddr line b) = screenByte (t.shown (fb.height / 8)) line b := by
  intro t st'
  have h : ShowsTerminal fb t st' := showsTerminal_foldl text (showsTerminal_clear fb st)
  have hrows : 0 < fb.height / charH := Nat.lt_of_le_of_lt (Nat.zero_le _) h.above_lt
  have hX := h.curX_eq
  have hY := h.curY_eq
  have hcur : t.cur.length < fb.width / 8 := h.cur_lt
  have habove : (scrolled (fb.height / 8) t.rows).length < fb.height / 8 := h.above_lt
  have hshown : t.shown (fb.height / 8) = scrolled (fb.height / 8) t.rows ++ [t.cur] := shown_eq _ hrows t
  rw [hX, hY, hshown, List.length_append, List.length_singleton]
  refine ⟨⟨by omega, by omega⟩, ⟨by omega, ?_⟩, rfl, by push_cast; rfl, h.bytes⟩
  exact_mod_cast habove

end RpiBoot
