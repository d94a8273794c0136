import OsU.Kernel.Vesa

/-!
# `gfxcon.c` — the graphics console

Text drawn with the font of the graphics driver. The cursor is two `int`s, integers
here: what is added to one before it is compared with the size of the console is at most
8, and `gfxcon_set_cursor` takes what it is given to the nearest cell, so that no sum
can wrap.

The loops of `scroll_up` run on `vesa_framebuffer`, whatever the driver's target is,
while the characters go to the target. With the back buffer enabled the two are
different memory; the kernel enables it only while the desktop runs, which has no
console, and `onFramebuffer` keeps the difference all the same.

Scrolling copies what is on the screen. It does not know characters, and that it moves
rows of them is a result (`Proof/Scrolling`): the strip of pixels below the last whole
row, if the height is not a multiple of 16, takes part in it.
-/

set_option autoImplicit false

namespace OsU

/-- The globals of `gfxcon.c`, and those of the driver below it. -/
structure Gfxcon where
  vesa : Vesa
  gfxActive : Bool
  cursorRow : Int
  cursorCol : Int
  fgColor : UInt32
  bgColor : UInt32
  gfxCols : Int
  gfxRows : Int

/-- What `f` does with `vesa_framebuffer` as its target. -/
def Vesa.onFramebuffer (f : Vesa → Vesa) (s : Vesa) : Vesa :=
  { f { s with useBackbuffer := false } with useBackbuffer := s.useBackbuffer }

/-- The loops of `scroll_up` over words: every row of pixels takes the one 16 further
down, and the last 16 are filled. -/
def scrollUp32 (bgColor : UInt32) (s : Vesa) : Vesa :=
  let rowPixels := BitVec.ofNat 32 (s.pitch.toNat / 4)
  let width := BitVec.ofNat 32 s.width.toNat
  let height := BitVec.ofNat 32 s.height.toNat
  -- Copy each row up by 16 pixels (one character height)
  let s := forInt 0 (height - 16) (fun y s => forInt 0 width (fun x s =>
    s.poke32 (y * rowPixels + x).toNat (s.peek32 ((y + 16) * rowPixels + x).toNat)) s) s
  -- Clear the last row
  forInt (height - 16) height (fun y s => forInt 0 width (fun x s =>
    s.poke32 (y * rowPixels + x).toNat bgColor) s) s

/-- The loops of `scroll_up` over bytes, three for each pixel. -/
def scrollUp24 (bgColor : UInt32) (s : Vesa) : Vesa :=
  let pitch := BitVec.ofNat 32 s.pitch.toNat
  let width := BitVec.ofNat 32 s.width.toNat
  let height := BitVec.ofNat 32 s.height.toNat
  let s := forInt 0 (height - 16) (fun y s => forInt 0 (width * 3) (fun x s =>
    s.poke (y * pitch + x).toNat (s.peek ((y + 16) * pitch + x).toNat)) s) s
  forInt (height - 16) height (fun y s => forInt 0 width (fun x s =>
    s.poke24 (y * pitch + x * 3).toNat bgColor) s) s

namespace Gfxcon

def scrollUp (g : Gfxcon) : Gfxcon :=
  if g.gfxActive = false then g
  else
    let bpp := g.vesa.bpp.toNat / 8
    if bpp = 4 then { g with vesa := g.vesa.onFramebuffer (scrollUp32 g.bgColor) }
    else if bpp = 3 then { g with vesa := g.vesa.onFramebuffer (scrollUp24 g.bgColor) }
    else g

/-- The call of `vesa_put_char` at the cursor. -/
def drawChar (c : UInt8) (g : Gfxcon) : Gfxcon :=
  { g with
    vesa := vesaPutChar (BitVec.ofInt 32 (g.cursorCol * 8)) (BitVec.ofInt 32 (g.cursorRow * 16)) c
      g.fgColor g.bgColor g.vesa }

/-- `while (cursor_row >= gfx_rows)`, for `n` rounds at most. One is enough between two
calls, where the cursor is at most one row too far. -/
def scrollLoop : Nat → Gfxcon → Gfxcon
  | 0, g => g
  | n + 1, g =>
    if g.cursorRow ≥ g.gfxRows then
      scrollLoop n { g.scrollUp with cursorRow := g.cursorRow - 1 }
    else g

end Gfxcon

def gfxconClear (g : Gfxcon) : Gfxcon :=
  if g.gfxActive = false then g
  else { g with vesa := vesaClear g.bgColor g.vesa, cursorRow := 0, cursorCol := 0 }

def gfxconInit (g : Gfxcon) : Gfxcon :=
  if g.vesa.enabled = false then { g with gfxActive := false }
  else
    let cols := g.vesa.width.toNat / 8
    let rows := g.vesa.height.toNat / 16
    gfxconClear { g with
      gfxActive := true
      cursorRow := 0
      cursorCol := 0
      fgColor := 0x00FF00
      bgColor := 0x000000
      gfxCols := if cols ≤ 0 then 100 else cols
      gfxRows := if rows ≤ 0 then 37 else rows }

def gfxconPutc (c : UInt8) (g : Gfxcon) : Gfxcon :=
  if g.gfxActive = false then g
  else
    let g :=
      if c = 0x0A then { g with cursorCol := 0, cursorRow := g.cursorRow + 1 }
      else if c = 0x0D then { g with cursorCol := 0 }
      else if c = 0x09 then { g with cursorCol := (g.cursorCol + 8) / 8 * 8 }
      else if c = 0x08 then
        if g.cursorCol > 0 then { g with cursorCol := g.cursorCol - 1 }.drawChar 0x20 else g
      else if 32 ≤ c ∧ c < 128 then -- a `char` from 128 on is negative
        { g.drawChar c with cursorCol := g.cursorCol + 1 }
      else g
    -- Handle line wrap
    let g := if g.cursorCol ≥ g.gfxCols then
        { g with cursorCol := 0, cursorRow := g.cursorRow + 1 }
      else g
    g.scrollLoop (g.cursorRow - g.gfxRows + 1).toNat

def gfxconPuts (s : List UInt8) (g : Gfxcon) : Gfxcon :=
  (s.takeWhile (· ≠ 0)).foldl (fun g c => gfxconPutc c g) g

def gfxconSetFg (color : UInt32) (g : Gfxcon) : Gfxcon := { g with fgColor := color }

def gfxconSetBg (color : UInt32) (g : Gfxcon) : Gfxcon := { g with bgColor := color }

def gfxconSetCursor (row col : Int) (g : Gfxcon) : Gfxcon :=
  let row := if row < 0 then 0 else row
  let row := if row ≥ g.gfxRows then g.gfxRows - 1 else row
  let col := if col < 0 then 0 else col
  let col := if col ≥ g.gfxCols then g.gfxCols - 1 else col
  { g with cursorRow := row, cursorCol := col }

/-! ## Runs -/

/-- A call of the console, as the results about sequences of calls have them. -/
inductive ConOp where
  | putc (c : UInt8)
  | puts (s : List UInt8)
  | clear
  | setFg (color : UInt32)
  | setBg (color : UInt32)
  | setCursor (row col : Int)

def ConOp.step (g : Gfxcon) : ConOp → Gfxcon
  | putc c => gfxconPutc c g
  | puts s => gfxconPuts s g
  | clear => gfxconClear g
  | setFg color => gfxconSetFg color g
  | setBg color => gfxconSetBg color g
  | setCursor row col => gfxconSetCursor row col g

/-- The calls, one after the other. -/
def conRun (ops : List ConOp) (g : Gfxcon) : Gfxcon := ops.foldl ConOp.step g

end OsU
