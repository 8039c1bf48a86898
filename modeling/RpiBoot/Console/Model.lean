import RpiBoot.Console.Font
import RpiBoot.Copy

/-!
# The framebuffer console (`console.c`, `fb.c`)

* `Framebuffer`: what `fb_init` has set up, with pixels of 16 bits.
* `drawChar`: a glyph of the font, in two colours.
* `clear`, `newline`, `consolePutc`: the screen and its cursor.
-/

namespace RpiBoot

/-- The framebuffer, which `fb_get_framebuffer` and the other functions of `fb.c` describe. Whole
characters fit on its lines, and one row at least on its height. It lies in memory, so the offsets in
it fit an `int`. -/
structure Framebuffer where
  addr : ℕ
  width : ℕ
  height : ℕ
  pitch : ℕ
  width_pos : 0 < width
  width_mod : width % 8 = 0
  height_le : 8 ≤ height
  pitch_le : width * 2 ≤ pitch

/-- The size that `fb_init` requests where the display has none. -/
instance : Inhabited Framebuffer :=
  ⟨⟨0x1e000000, 640, 480, 1280, by decide, by decide, by decide, by decide⟩⟩

/-- `fb_get_bpp()`. -/
def fbGetBpp : ℕ := 16

def charW : ℕ := 8
def charH : ℕ := 8

def defFore : ℕ := 0xffffffff
def defBack : ℕ := 0x00000000

/-- Memory and the static variables of the cursor. -/
structure Console where
  mem : Mem
  curX : ℤ
  curY : ℤ

namespace Framebuffer

variable (fb : Framebuffer)

/-- `line_byte_width`. -/
def lineByteWidth : ℕ := fb.width * (fbGetBpp >>> 3)

/-- The address of a line. -/
def lineAddr (line : ℕ) : ℕ := fb.addr + line * fb.pitch

/-- The loops that clear `n` lines from `line` on. -/
def clearLines : ℕ → Mem → (line : ℕ) → Mem
  | 0, mem, _ => mem
  | n + 1, mem, line => clearLines n (clearMem (fb.lineAddr line) fb.lineByteWidth mem) (line + 1)

/-- The loop that moves `n` lines from `line` on up by a row. -/
def scrollLines : ℕ → Mem → (line : ℕ) → Mem
  | 0, mem, _ => mem
  | n + 1, mem, line =>
    scrollLines n (quickMemcpy mem (fb.lineAddr line) (fb.lineAddr (line + charH)) fb.lineByteWidth)
      (line + 1)

/-- `clear()`. -/
def clear (st : Console) : Console := ⟨fb.clearLines fb.height st.mem 0, 0, 0⟩

/-- `newline()`. -/
def newline (st : Console) : Console :=
  let curY := st.curY + 1
  if curY = (fb.height / charH : ℕ) then
    let mem := fb.scrollLines (fb.height - charH) st.mem 0
    let mem := fb.clearLines charH mem (fb.height - charH)
    ⟨mem, 0, curY - 1⟩
  else ⟨st.mem, 0, curY⟩

/-- The innermost loop of `draw_char`: the `n` bytes of a colour. -/
def drawBytes : ℕ → Mem → (dOffset : ℤ) → (colour : ℕ) → Mem
  | 0, mem, _, _ => mem
  | n + 1, mem, dOffset, colour =>
    drawBytes n (Function.update mem (fb.addr + dOffset).toNat (UInt8.ofNat (colour &&& 0xff)))
      (dOffset + 1) (colour >>> 8)

section Colours

variable (fore back : ℕ)

/-- The loop of `draw_char` over `n` pixels of a line; also `s_offset` behind it. The font has the
characters below 128. -/
def drawPixels : ℕ → Mem → (dOffset : ℤ) → (sOffset : ℕ) → Mem × ℕ
  | 0, mem, _, sOffset => (mem, sOffset)
  | n + 1, mem, dOffset, sOffset =>
    let sByte := (vgafont8.getD (sOffset / 8) 0).toNat
    let colour := if (sByte >>> (7 - sOffset % 8)) &&& 1 ≠ 0 then fore else back
    drawPixels n (fb.drawBytes (fbGetBpp >>> 3) mem dOffset colour) (dOffset + (fbGetBpp >>> 3 : ℕ))
      (sOffset + 1)

/-- The loop of `draw_char` over `n` lines. -/
def drawLines : ℕ → Mem → (lineDOffset : ℤ) → (sOffset : ℕ) → Mem
  | 0, mem, _, _ => mem
  | n + 1, mem, lineDOffset, sOffset =>
    let r := fb.drawPixels fore back charW mem lineDOffset sOffset
    drawLines n r.1 (lineDOffset + fb.pitch) r.2

/-- `draw_char(c, x, y, fore, back)`. -/
def drawChar (c : ℕ) (x y : ℤ) (mem : Mem) : Mem :=
  fb.drawLines fore back charH mem (y * charH * fb.pitch + x * (fbGetBpp >>> 3 : ℕ) * charW)
    (c * charW * charH)

end Colours

/-- `console_putc(c)`, without its result `c`. -/
def consolePutc (st : Console) (c : ℕ) : Console :=
  let lineW : ℤ := (fb.width / charW : ℕ)
  if c = '\n'.toNat then fb.newline st
  else
    let mem := fb.drawChar defFore defBack c st.curX st.curY st.mem
    let st := { st with mem := mem, curX := st.curX + 1 }
    if st.curX = lineW then fb.newline st else st

end Framebuffer

end RpiBoot
