import Uesi.Library.Loop

namespace Uesi.Libchar

open Library (countedLoop)

/-- A framebuffer that shows at least one character, with rows of whole words that hold all columns. -/
structure Framebuffer where
  width : BitVec 64
  height : BitVec 64
  pitch : BitVec 64
  wide : 8 ≤ width.toNat
  tall : 18 ≤ height.toNat
  words : 4 ∣ pitch.toNat
  holds : 4 * width.toNat ≤ pitch.toNat

/-- The `tty_t` with the statics of `tty_cursor.c`, the words of the framebuffer, and those touched so far. -/
structure Tty where
  fb : Framebuffer
  cursorX : BitVec 64
  cursorY : BitVec 64
  cursorVisible : Bool
  fgColor : BitVec 32
  bgColor : BitVec 32
  lastCursorX : BitVec 64
  lastCursorY : BitVec 64
  cursorDrawn : Bool
  buffer : BitVec 64 → BitVec 32
  touched : List (BitVec 64)

namespace Framebuffer

def cols (fb : Framebuffer) : BitVec 64 := fb.width / 8

def rows (fb : Framebuffer) : BitVec 64 := fb.height / 18

/-- The index of a pixel in the buffer. -/
def index (fb : Framebuffer) (row col : BitVec 64) : BitVec 64 := row * (fb.pitch / 4) + col

end Framebuffer

/-- A store to a word of the framebuffer. -/
def poke (index : BitVec 64) (color : BitVec 32) (tty : Tty) : Tty :=
  { tty with buffer := Function.update tty.buffer index color, touched := index :: tty.touched }

def ttyPutpixel (x y : BitVec 64) (color : BitVec 32) (tty : Tty) : Tty :=
  if tty.fb.width ≤ x ∨ tty.fb.height ≤ y then tty
  else if tty.fb.height * tty.fb.pitch / 4 ≤ tty.fb.index y x then tty
  else poke (tty.fb.index y x) color tty

def ttyFillRect (x y w h : BitVec 64) (color : BitVec 32) (tty : Tty) : Tty :=
  if tty.fb.width ≤ x ∨ tty.fb.height ≤ y then tty
  else
    let w := if tty.fb.width < x + w then tty.fb.width - x else w
    let h := if tty.fb.height < y + h then tty.fb.height - y else h
    countedLoop (fun dy => countedLoop (fun dx =>
      poke (tty.fb.index (y + BitVec.ofNat 64 dy) x + BitVec.ofNat 64 dx) color) w.toNat) h.toNat tty

/-- The loop over the two lowest rows of a character cell, which draws or erases a cursor. -/
def underline (x y : BitVec 64) (color : BitVec 32) (tty : Tty) : Tty :=
  countedLoop (fun col tty =>
    ttyPutpixel (x * 8 + BitVec.ofNat 64 col) (y * 18 + 18 - 2) color
      (ttyPutpixel (x * 8 + BitVec.ofNat 64 col) (y * 18 + 18 - 1) color tty)) 8 tty

/-- The branch of `tty_draw_cursor` for a cursor that has moved. -/
def eraseMoved (tty : Tty) : Tty :=
  if tty.cursorDrawn ∧ (tty.lastCursorX ≠ tty.cursorX ∨ tty.lastCursorY ≠ tty.cursorY) then
    underline tty.lastCursorX tty.lastCursorY tty.bgColor tty
  else tty

def ttyDrawCursor (tty : Tty) : Tty :=
  if tty.cursorVisible then
    let drawn := underline tty.cursorX tty.cursorY tty.fgColor (eraseMoved tty)
    { drawn with lastCursorX := tty.cursorX, lastCursorY := tty.cursorY, cursorDrawn := true }
  else tty

def ttySetCursor (x y : BitVec 64) (tty : Tty) : Tty :=
  if x < tty.fb.cols ∧ y < tty.fb.rows then
    let tty := if tty.cursorDrawn ∧ tty.cursorVisible then
      underline tty.lastCursorX tty.lastCursorY tty.bgColor tty else tty
    ttyDrawCursor { tty with cursorX := x, cursorY := y }
  else tty

def ttyShowCursor (visible : Bool) (tty : Tty) : Tty :=
  let tty := if tty.cursorVisible ∧ ¬ visible ∧ tty.cursorDrawn then
    { underline tty.lastCursorX tty.lastCursorY tty.bgColor tty with cursorDrawn := false } else tty
  ttyDrawCursor { tty with cursorVisible := visible }

def ttyClear (tty : Tty) : Tty :=
  let tty := ttyFillRect 0 0 tty.fb.width tty.fb.height tty.bgColor tty
  ttyDrawCursor { tty with cursorX := 0, cursorY := 0 }

/-- The copy of a word in `tty_scroll`, which reads one word and writes another. -/
def copyWord (src dst : BitVec 64) (tty : Tty) : Tty :=
  poke dst (tty.buffer src) { tty with touched := src :: tty.touched }

def ttyScroll (tty : Tty) : Tty :=
  let fb := tty.fb
  let scrolled := countedLoop (fun y => countedLoop (fun x =>
    copyWord (fb.index (BitVec.ofNat 64 y + 18) (BitVec.ofNat 64 x))
      (fb.index (BitVec.ofNat 64 y) (BitVec.ofNat 64 x))) fb.width.toNat) (fb.height - 18).toNat tty
  ttyFillRect 0 ((fb.rows - 1) * 18) fb.width 18 tty.bgColor scrolled

def ttyClearToEnd (tty : Tty) : Tty :=
  let px := tty.cursorX * 8
  let py := tty.cursorY * 18
  let cleared := ttyFillRect px py (tty.fb.width - px) 18 tty.bgColor tty
  if tty.cursorY < tty.fb.rows - 1 then
    let nextLineY := (tty.cursorY + 1) * 18
    ttyFillRect 0 nextLineY tty.fb.width (tty.fb.height - nextLineY) tty.bgColor cleared
  else cleared

def ttyClearToCursor (tty : Tty) : Tty :=
  let cleared := if 0 < tty.cursorY then
    ttyFillRect 0 0 tty.fb.width (tty.cursorY * 18) tty.bgColor tty else tty
  ttyFillRect 0 (tty.cursorY * 18) ((tty.cursorX + 1) * 8) 18 tty.bgColor cleared

/-- The `tty_draw_char` function for a table of glyphs with a byte for each row. -/
def ttyDrawChar (font : BitVec 8 → Nat → BitVec 8) (c : BitVec 8) (x y : BitVec 64) (fg bg : BitVec 32)
    (tty : Tty) : Tty :=
  if c < 32 ∨ 126 < c then tty
  else if tty.fb.width < x + 8 ∨ tty.fb.height < y + 14 then tty
  else countedLoop (fun cy => countedLoop (fun dx =>
    poke (tty.fb.index (y + BitVec.ofNat 64 cy) x + BitVec.ofNat 64 dx)
      (if (font c cy).getLsbD (7 - dx) then fg else bg)) 8) 14 tty

/-- The `switch` of `tty_putchar`. The signed comparisons leave out the bytes from 127 on. -/
def putGlyph (font : BitVec 8 → Nat → BitVec 8) (c : BitVec 8) (tty : Tty) : Tty :=
  if c = 0x0A then { tty with cursorX := 0, cursorY := tty.cursorY + 1 }
  else if c = 0x0D then { tty with cursorX := 0 }
  else if c = 0x09 then
    let nextTab := (tty.cursorX / 8 + 1) * 8
    if tty.fb.cols ≤ nextTab then { tty with cursorX := 0, cursorY := tty.cursorY + 1 }
    else { tty with cursorX := nextTab }
  else if c = 0x08 then
    if 0 < tty.cursorX then
      let tty := { tty with cursorX := tty.cursorX - 1 }
      ttyFillRect (tty.cursorX * 8) (tty.cursorY * 18) 8 18 tty.bgColor tty
    else tty
  else if 32 ≤ c ∧ c ≤ 126 then
    let px := tty.cursorX * 8
    let py := tty.cursorY * 18
    let drawn := if px < tty.fb.width ∧ py < tty.fb.height then
      ttyDrawChar font c px py tty.fgColor tty.bgColor tty else tty
    { drawn with cursorX := drawn.cursorX + 1 }
  else tty

/-- The checks of `tty_putchar` that bring the cursor back on the screen. -/
def wrapCursor (tty : Tty) : Tty :=
  let tty := if tty.fb.cols ≤ tty.cursorX then { tty with cursorX := 0, cursorY := tty.cursorY + 1 } else tty
  if tty.fb.rows ≤ tty.cursorY then { ttyScroll tty with cursorY := tty.fb.rows - 1 } else tty

def ttyPutchar (font : BitVec 8 → Nat → BitVec 8) (c : BitVec 8) (tty : Tty) : Tty :=
  if tty.cursorVisible then
    let hidden := underline tty.cursorX tty.cursorY tty.bgColor { tty with cursorVisible := false }
    ttyDrawCursor { wrapCursor (putGlyph font c hidden) with cursorVisible := true }
  else wrapCursor (putGlyph font c tty)

def ttyWrite (font : BitVec 8 → Nat → BitVec 8) (str : List (BitVec 8)) (len : Nat) (tty : Tty) : Tty :=
  ((str.take len).takeWhile (· ≠ 0)).foldl (fun tty c => ttyPutchar font c tty) tty

/-- The state after `tty_init`. -/
def ttyInit (fb : Framebuffer) (buffer : BitVec 64 → BitVec 32) : Tty :=
  ttyClear ⟨fb, 0, 0, true, 0xFFFFFF, 0x000000, 0, 0, false, buffer, []⟩

/-- A call on the terminal. -/
inductive Op where
  | putchar (c : BitVec 8)
  | write (str : List (BitVec 8)) (len : Nat)
  | setCursor (x y : BitVec 64)
  | showCursor (visible : Bool)
  | clear
  | scroll
  | clearToEnd
  | clearToCursor

def Tty.step (font : BitVec 8 → Nat → BitVec 8) (tty : Tty) : Op → Tty
  | .putchar c => ttyPutchar font c tty
  | .write str len => ttyWrite font str len tty
  | .setCursor x y => ttySetCursor x y tty
  | .showCursor visible => ttyShowCursor visible tty
  | .clear => ttyClear tty
  | .scroll => ttyScroll tty
  | .clearToEnd => ttyClearToEnd tty
  | .clearToCursor => ttyClearToCursor tty

end Uesi.Libchar
