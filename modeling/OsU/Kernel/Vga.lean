import OsU.Lib.Cells

/-!
# `vga.c` — the text console

The console in text mode, where `gfxcon_active()` is 0: in graphics mode `vga_putc`
hands the character to `gfxcon.c`, which has a module of its own. The screen is the
array of 16-bit cells at 0xB8000, as large as it is used; `hwCursor` is the position
`update_cursor` last gave the hardware, which is what a user sees blink.

The coordinates of the cursor are bytes and wrap as such. They stay below 80 and 25
between two calls, which is proved and not built in: `vga_putc` moves the cursor first
and scrolls behind.
-/

set_option autoImplicit false

namespace OsU

def vgaWidth : Nat := 80

def vgaHeight : Nat := 25

/-- The globals of `vga.c`, the memory behind them and the two cursor registers as one
position. -/
structure Vga where
  mem : Cells UInt16
  cursorX : UInt8
  cursorY : UInt8
  color : UInt8
  hwCursor : UInt16

def makeCell (c col : UInt8) : UInt16 := c.toUInt16 ||| col.toUInt16 <<< 8

namespace Vga

/-- The index of the cell at the cursor. -/
def pos (v : Vga) : Nat := v.cursorY.toNat * vgaWidth + v.cursorX.toNat

def updateCursor (v : Vga) : Vga := { v with hwCursor := UInt16.ofNat v.pos }

section UpdateCursor

variable (v : Vga)

@[simp] theorem updateCursor_mem : v.updateCursor.mem = v.mem := rfl

@[simp] theorem updateCursor_cursorX : v.updateCursor.cursorX = v.cursorX := rfl

@[simp] theorem updateCursor_cursorY : v.updateCursor.cursorY = v.cursorY := rfl

@[simp] theorem updateCursor_color : v.updateCursor.color = v.color := rfl

@[simp] theorem updateCursor_pos : v.updateCursor.pos = v.pos := rfl

@[simp] theorem updateCursor_hwCursor : v.updateCursor.hwCursor = UInt16.ofNat v.pos := rfl

end UpdateCursor

def scrollIfNeeded (v : Vga) : Vga :=
  if v.cursorY.toNat < vgaHeight then v
  else
    -- the copy loop runs over y from 1
    let mem := (List.range (vgaHeight - 1)).foldl
      (fun m y => m.copyUp (y * vgaWidth) ((y + 1) * vgaWidth) vgaWidth) v.mem
    { v with
      mem := mem.fill ((vgaHeight - 1) * vgaWidth) vgaWidth (makeCell 0x20 v.color)
      cursorY := UInt8.ofNat (vgaHeight - 1) }

end Vga

def vgaClear (v : Vga) : Vga :=
  { v with
    mem := v.mem.fill 0 (vgaWidth * vgaHeight) (makeCell 0x20 v.color)
    cursorX := 0
    cursorY := 0 }.updateCursor

def vgaPutc (c : UInt8) (v : Vga) : Vga :=
  let v :=
    if c = 0x0A then { v with cursorX := 0, cursorY := v.cursorY + 1 }
    else if c = 0x0D then { v with cursorX := 0 }
    else if c = 0x08 then
      if v.cursorX > 0 then
        let v := { v with cursorX := v.cursorX - 1 }
        { v with mem := v.mem.set v.pos (makeCell 0x20 v.color) }
      else v
    else { v with mem := v.mem.set v.pos (makeCell c v.color), cursorX := v.cursorX + 1 }
  let v := if v.cursorX.toNat ≥ vgaWidth then { v with cursorX := 0, cursorY := v.cursorY + 1 } else v
  v.scrollIfNeeded.updateCursor

/-- `vga_puts`, on the bytes in front of the terminating zero. -/
def vgaPuts (str : List UInt8) (v : Vga) : Vga :=
  (str.takeWhile (· ≠ 0)).foldl (fun v c => vgaPutc c v) v

/-- `vga_set_cursor` -/
def vgaSetCursor (x y : Nat) (v : Vga) : Vga :=
  { v with
    cursorX := UInt8.ofNat (if x ≥ vgaWidth then vgaWidth - 1 else x)
    cursorY := UInt8.ofNat (if y ≥ vgaHeight then vgaHeight - 1 else y) }.updateCursor

end OsU
