import OsU.Lib.Cells

/-!
# `vesa.c` — the graphics driver

The mode is what the boot loader left at 0x8000. `vesa_init` believes it: it asks for a
frame buffer, a width and 24 or 32 bits, and takes width, height and pitch as they are.
Nothing in this file assumes that a row has room for its pixels, or that the rows fit
the back buffer; both are conditions of the results that need them.

## The two targets

With the back buffer enabled the drawing functions write to `vesa_backbuffer_store`,
which is an array of its own here: its `top` is above every byte offset written, so that
"stays inside the array" is a statement about `top`. Without it they write to the frame
buffer. All of them do so through `poke`, which stands for `vesa_target()`.

## Arithmetic

An `int` is 32 bits wide and wraps; the sums and products in a `uint32_t` are taken
modulo `2 ^ 32`. The index `y * (vesa_pitch / 4) + x` is below `2 ^ 31` behind the
clipping, and is a natural number. In 24 bits the offset is in bytes and does wrap.

## Loops

A `for` over `int` is `forInt`, over `uint32_t` it is `forNat`; the body is a function
of the index and the state. `vesa_present` is such a loop with its round as a
definition, since interrupts are enabled while it copies and the desktop is modelled one
byte at a time. The loop of `vesa_draw_line` ends when the second point is met, which is
a theorem and not a property of the loop, so it is given a number of rounds to be seen
for.
-/

set_option autoImplicit false

namespace OsU

/-- VESA_BACKBUFFER_MAX -/
def vesaBackbufferMax : Nat := 800 * 600 * 4

/-- The fields of `vbe_mode_info_t` that `vesa_init` reads. The others are not read by
the kernel. -/
structure ModeInfo where
  framebuffer : UInt32
  width : UInt16
  height : UInt16
  pitch : UInt16
  bpp : UInt8
  deriving DecidableEq, Repr

/-- The globals of `vesa.c`, with the memory behind `vesa_framebuffer`. -/
structure Vesa where
  framebuffer : UInt32
  width : UInt16
  height : UInt16
  pitch : UInt16
  bpp : UInt8
  enabled : Bool
  useBackbuffer : Bool
  /-- Whether `vesa_backbuffer` points to the store. -/
  backbuffer : Bool
  backbufferSize : Nat
  /-- `vesa_backbuffer_store` -/
  store : Cells UInt8
  frame : Cells UInt8

/-- `vesa_init`, on the information at VBE_INFO_ADDR. The back buffer is set up for
every mode that is accepted, whatever its size: `vesa_backbuffer_size` is that of the
array, and only `vesa_present` compares with it. -/
def vesaInit (info : ModeInfo) (s : Vesa) : Vesa :=
  if info.framebuffer = 0 ∨ info.width = 0 ∨ (info.bpp ≠ 24 ∧ info.bpp ≠ 32) then
    { s with enabled := false }
  else
    { s with
      framebuffer := info.framebuffer
      width := info.width
      height := info.height
      pitch := info.pitch
      bpp := info.bpp
      enabled := true
      backbuffer := true
      backbufferSize := vesaBackbufferMax
      useBackbuffer := false }

/-- `vesa_set_backbuffer` -/
def vesaSetBackbuffer (enable : Bool) (s : Vesa) : Vesa := { s with useBackbuffer := enable }

namespace Vesa

/-- `vesa_target()[a] = b` -/
def poke (a : Nat) (b : UInt8) (s : Vesa) : Vesa :=
  if s.useBackbuffer ∧ s.backbuffer then { s with store := s.store.set a b }
  else { s with frame := s.frame.set a b }

/-- `((uint32_t *)vesa_target())[i] = color` -/
def poke32 (i : Nat) (color : UInt32) (s : Vesa) : Vesa :=
  (((s.poke (4 * i) color.toUInt8).poke (4 * i + 1) (color >>> 8).toUInt8).poke (4 * i + 2)
    (color >>> 16).toUInt8).poke (4 * i + 3) (color >>> 24).toUInt8

/-- The three bytes of a color, at `offset`. -/
def poke24 (offset : Nat) (color : UInt32) (s : Vesa) : Vesa :=
  ((s.poke offset color.toUInt8).poke ((offset + 1) % 2 ^ 32) (color >>> 8).toUInt8).poke
    ((offset + 2) % 2 ^ 32) (color >>> 16).toUInt8

/-- `vesa_target()[a]` -/
def peek (a : Nat) (s : Vesa) : UInt8 :=
  if s.useBackbuffer ∧ s.backbuffer then s.store.val a else s.frame.val a

/-- `((uint32_t *)vesa_target())[i]` -/
def peek32 (i : Nat) (s : Vesa) : UInt32 :=
  (s.peek (4 * i + 3)).toUInt32 <<< 24 ||| (s.peek (4 * i + 2)).toUInt32 <<< 16 |||
    (s.peek (4 * i + 1)).toUInt32 <<< 8 ||| (s.peek (4 * i)).toUInt32

/-- The color in the three bytes at `offset`. -/
def peek24 (offset : Nat) (s : Vesa) : UInt32 :=
  (s.peek ((offset + 2) % 2 ^ 32)).toUInt32 <<< 16 |||
    (s.peek ((offset + 1) % 2 ^ 32)).toUInt32 <<< 8 ||| (s.peek offset).toUInt32

end Vesa

/-- `vesa_put_pixel`. The clipping is in pixels, against width and height; the byte
offset is then computed from the pitch. A pitch below the row's pixels makes rows
overlap, and the clipping does not see it. -/
def vesaPutPixel (x y : BitVec 32) (color : UInt32) (s : Vesa) : Vesa :=
  if s.enabled = false then s
  else if x.toInt < 0 ∨ x.toInt ≥ s.width.toNat ∨ y.toInt < 0 ∨ y.toInt ≥ s.height.toNat then s
  else
    let offset := (y.toNat * s.pitch.toNat + x.toNat * (s.bpp.toNat / 8)) % 2 ^ 32
    if s.bpp = 32 then s.poke32 (y.toNat * (s.pitch.toNat / 4) + x.toNat) color
    else s.poke24 offset color

/-- `vesa_get_pixel` -/
def vesaGetPixel (x y : BitVec 32) (s : Vesa) : UInt32 :=
  if s.enabled = false then 0
  else if x.toInt < 0 ∨ x.toInt ≥ s.width.toNat ∨ y.toInt < 0 ∨ y.toInt ≥ s.height.toNat then 0
  else
    let offset := (y.toNat * s.pitch.toNat + x.toNat * (s.bpp.toNat / 8)) % 2 ^ 32
    if s.bpp = 32 then s.peek32 (y.toNat * (s.pitch.toNat / 4) + x.toNat)
    else s.peek24 offset

/-! ## Loops -/

/-- `n` rounds of a loop body, from index `i` on. -/
def rounds {σ : Type} (body : BitVec 32 → σ → σ) : Nat → BitVec 32 → σ → σ
  | 0, _, s => s
  | n + 1, i, s => rounds body n (i + 1) (body i s)

/-- `for (int i = a; i < b; i++)` -/
def forInt {σ : Type} (a b : BitVec 32) (body : BitVec 32 → σ → σ) (s : σ) : σ :=
  rounds body (b.toInt - a.toInt).toNat a s

/-- `for (uint32_t i = 0; i < n; i++)`, by recursion on the list of its indices: an
invariant goes through by `List.foldl`'s own induction. -/
def forNat {σ : Type} (n : Nat) (body : Nat → σ → σ) (s : σ) : σ :=
  (List.range n).foldl (fun s i => body i s) s

/-- `vesa_fill_rect` -/
def vesaFillRect (x y w h : BitVec 32) (color : UInt32) (s : Vesa) : Vesa :=
  if s.enabled = false then s
  else forInt y (y + h) (fun py s => forInt x (x + w) (fun px s => vesaPutPixel px py color s) s) s

/-- `vesa_clear`. In 32 bits it goes over the words of all rows, the padding included;
in 24 bits over the pixels of each row. -/
def vesaClear (color : UInt32) (s : Vesa) : Vesa :=
  if s.enabled = false then s
  else if s.bpp = 32 then
    forNat (s.pitch.toNat / 4 * s.height.toNat) (fun i s => s.poke32 i color) s
  else
    forNat s.height.toNat (fun y s =>
      forNat s.width.toNat (fun x s => s.poke24 ((y * s.pitch.toNat + x * 3) % 2 ^ 32) color) s) s

/-- The bytes that `vesa_present` copies: as many as the rows have, if the back buffer does. -/
def Vesa.presentTotal (s : Vesa) : Nat :=
  if s.enabled = false ∨ s.useBackbuffer = false ∨ s.backbuffer = false then 0
  else
    let total := s.pitch.toNat * s.height.toNat % 2 ^ 32
    if total > s.backbufferSize then s.backbufferSize else total

/-- A round of its loop. -/
def Vesa.presentByte (i : Nat) (s : Vesa) : Vesa :=
  { s with store := s.store.use i, frame := s.frame.set i (s.store.val i) }

/-- `vesa_present` -/
def vesaPresent (s : Vesa) : Vesa := forNat s.presentTotal Vesa.presentByte s

/-- Each character of the font is sixteen rows of eight pixels, from the blank on. -/
def font8x16 : List (List UInt8) := [
  [0x00,0x00,0x00,0x00,0x00,0x00,0x00,0x00,0x00,0x00,0x00,0x00,0x00,0x00,0x00,0x00],
  [0x00,0x00,0x18,0x3C,0x3C,0x3C,0x18,0x18,0x18,0x00,0x18,0x18,0x00,0x00,0x00,0x00],
  [0x00,0x66,0x66,0x66,0x24,0x00,0x00,0x00,0x00,0x00,0x00,0x00,0x00,0x00,0x00,0x00],
  [0x00,0x00,0x00,0x6C,0x6C,0xFE,0x6C,0x6C,0x6C,0xFE,0x6C,0x6C,0x00,0x00,0x00,0x00],
  [0x18,0x18,0x7C,0xC6,0xC2,0xC0,0x7C,0x06,0x06,0x86,0xC6,0x7C,0x18,0x18,0x00,0x00],
  [0x00,0x00,0x00,0x00,0xC2,0xC6,0x0C,0x18,0x30,0x60,0xC6,0x86,0x00,0x00,0x00,0x00],
  [0x00,0x00,0x38,0x6C,0x6C,0x38,0x76,0xDC,0xCC,0xCC,0xCC,0x76,0x00,0x00,0x00,0x00],
  [0x00,0x30,0x30,0x30,0x60,0x00,0x00,0x00,0x00,0x00,0x00,0x00,0x00,0x00,0x00,0x00],
  [0x00,0x00,0x0C,0x18,0x30,0x30,0x30,0x30,0x30,0x30,0x18,0x0C,0x00,0x00,0x00,0x00],
  [0x00,0x00,0x30,0x18,0x0C,0x0C,0x0C,0x0C,0x0C,0x0C,0x18,0x30,0x00,0x00,0x00,0x00],
  [0x00,0x00,0x00,0x00,0x00,0x66,0x3C,0xFF,0x3C,0x66,0x00,0x00,0x00,0x00,0x00,0x00],
  [0x00,0x00,0x00,0x00,0x00,0x18,0x18,0x7E,0x18,0x18,0x00,0x00,0x00,0x00,0x00,0x00],
  [0x00,0x00,0x00,0x00,0x00,0x00,0x00,0x00,0x00,0x18,0x18,0x18,0x30,0x00,0x00,0x00],
  [0x00,0x00,0x00,0x00,0x00,0x00,0x00,0xFE,0x00,0x00,0x00,0x00,0x00,0x00,0x00,0x00],
  [0x00,0x00,0x00,0x00,0x00,0x00,0x00,0x00,0x00,0x00,0x18,0x18,0x00,0x00,0x00,0x00],
  [0x00,0x00,0x00,0x00,0x02,0x06,0x0C,0x18,0x30,0x60,0xC0,0x80,0x00,0x00,0x00,0x00],
  [0x00,0x00,0x38,0x6C,0xC6,0xC6,0xD6,0xD6,0xC6,0xC6,0x6C,0x38,0x00,0x00,0x00,0x00],
  [0x00,0x00,0x18,0x38,0x78,0x18,0x18,0x18,0x18,0x18,0x18,0x7E,0x00,0x00,0x00,0x00],
  [0x00,0x00,0x7C,0xC6,0x06,0x0C,0x18,0x30,0x60,0xC0,0xC6,0xFE,0x00,0x00,0x00,0x00],
  [0x00,0x00,0x7C,0xC6,0x06,0x06,0x3C,0x06,0x06,0x06,0xC6,0x7C,0x00,0x00,0x00,0x00],
  [0x00,0x00,0x0C,0x1C,0x3C,0x6C,0xCC,0xFE,0x0C,0x0C,0x0C,0x1E,0x00,0x00,0x00,0x00],
  [0x00,0x00,0xFE,0xC0,0xC0,0xC0,0xFC,0x06,0x06,0x06,0xC6,0x7C,0x00,0x00,0x00,0x00],
  [0x00,0x00,0x38,0x60,0xC0,0xC0,0xFC,0xC6,0xC6,0xC6,0xC6,0x7C,0x00,0x00,0x00,0x00],
  [0x00,0x00,0xFE,0xC6,0x06,0x06,0x0C,0x18,0x30,0x30,0x30,0x30,0x00,0x00,0x00,0x00],
  [0x00,0x00,0x7C,0xC6,0xC6,0xC6,0x7C,0xC6,0xC6,0xC6,0xC6,0x7C,0x00,0x00,0x00,0x00],
  [0x00,0x00,0x7C,0xC6,0xC6,0xC6,0x7E,0x06,0x06,0x06,0x0C,0x78,0x00,0x00,0x00,0x00],
  [0x00,0x00,0x00,0x00,0x18,0x18,0x00,0x00,0x00,0x18,0x18,0x00,0x00,0x00,0x00,0x00],
  [0x00,0x00,0x00,0x00,0x18,0x18,0x00,0x00,0x00,0x18,0x18,0x30,0x00,0x00,0x00,0x00],
  [0x00,0x00,0x00,0x06,0x0C,0x18,0x30,0x60,0x30,0x18,0x0C,0x06,0x00,0x00,0x00,0x00],
  [0x00,0x00,0x00,0x00,0x00,0x7E,0x00,0x00,0x7E,0x00,0x00,0x00,0x00,0x00,0x00,0x00],
  [0x00,0x00,0x00,0x60,0x30,0x18,0x0C,0x06,0x0C,0x18,0x30,0x60,0x00,0x00,0x00,0x00],
  [0x00,0x00,0x7C,0xC6,0xC6,0x0C,0x18,0x18,0x18,0x00,0x18,0x18,0x00,0x00,0x00,0x00],
  [0x00,0x00,0x00,0x7C,0xC6,0xC6,0xDE,0xDE,0xDE,0xDC,0xC0,0x7C,0x00,0x00,0x00,0x00],
  [0x00,0x00,0x10,0x38,0x6C,0xC6,0xC6,0xFE,0xC6,0xC6,0xC6,0xC6,0x00,0x00,0x00,0x00],
  [0x00,0x00,0xFC,0x66,0x66,0x66,0x7C,0x66,0x66,0x66,0x66,0xFC,0x00,0x00,0x00,0x00],
  [0x00,0x00,0x3C,0x66,0xC2,0xC0,0xC0,0xC0,0xC0,0xC2,0x66,0x3C,0x00,0x00,0x00,0x00],
  [0x00,0x00,0xF8,0x6C,0x66,0x66,0x66,0x66,0x66,0x66,0x6C,0xF8,0x00,0x00,0x00,0x00],
  [0x00,0x00,0xFE,0x66,0x62,0x68,0x78,0x68,0x60,0x62,0x66,0xFE,0x00,0x00,0x00,0x00],
  [0x00,0x00,0xFE,0x66,0x62,0x68,0x78,0x68,0x60,0x60,0x60,0xF0,0x00,0x00,0x00,0x00],
  [0x00,0x00,0x3C,0x66,0xC2,0xC0,0xC0,0xDE,0xC6,0xC6,0x66,0x3A,0x00,0x00,0x00,0x00],
  [0x00,0x00,0xC6,0xC6,0xC6,0xC6,0xFE,0xC6,0xC6,0xC6,0xC6,0xC6,0x00,0x00,0x00,0x00],
  [0x00,0x00,0x3C,0x18,0x18,0x18,0x18,0x18,0x18,0x18,0x18,0x3C,0x00,0x00,0x00,0x00],
  [0x00,0x00,0x1E,0x0C,0x0C,0x0C,0x0C,0x0C,0xCC,0xCC,0xCC,0x78,0x00,0x00,0x00,0x00],
  [0x00,0x00,0xE6,0x66,0x66,0x6C,0x78,0x78,0x6C,0x66,0x66,0xE6,0x00,0x00,0x00,0x00],
  [0x00,0x00,0xF0,0x60,0x60,0x60,0x60,0x60,0x60,0x62,0x66,0xFE,0x00,0x00,0x00,0x00],
  [0x00,0x00,0xC6,0xEE,0xFE,0xFE,0xD6,0xC6,0xC6,0xC6,0xC6,0xC6,0x00,0x00,0x00,0x00],
  [0x00,0x00,0xC6,0xE6,0xF6,0xFE,0xDE,0xCE,0xC6,0xC6,0xC6,0xC6,0x00,0x00,0x00,0x00],
  [0x00,0x00,0x7C,0xC6,0xC6,0xC6,0xC6,0xC6,0xC6,0xC6,0xC6,0x7C,0x00,0x00,0x00,0x00],
  [0x00,0x00,0xFC,0x66,0x66,0x66,0x7C,0x60,0x60,0x60,0x60,0xF0,0x00,0x00,0x00,0x00],
  [0x00,0x00,0x7C,0xC6,0xC6,0xC6,0xC6,0xC6,0xC6,0xD6,0xDE,0x7C,0x0C,0x0E,0x00,0x00],
  [0x00,0x00,0xFC,0x66,0x66,0x66,0x7C,0x6C,0x66,0x66,0x66,0xE6,0x00,0x00,0x00,0x00],
  [0x00,0x00,0x7C,0xC6,0xC6,0x60,0x38,0x0C,0x06,0xC6,0xC6,0x7C,0x00,0x00,0x00,0x00],
  [0x00,0x00,0x7E,0x7E,0x5A,0x18,0x18,0x18,0x18,0x18,0x18,0x3C,0x00,0x00,0x00,0x00],
  [0x00,0x00,0xC6,0xC6,0xC6,0xC6,0xC6,0xC6,0xC6,0xC6,0xC6,0x7C,0x00,0x00,0x00,0x00],
  [0x00,0x00,0xC6,0xC6,0xC6,0xC6,0xC6,0xC6,0xC6,0x6C,0x38,0x10,0x00,0x00,0x00,0x00],
  [0x00,0x00,0xC6,0xC6,0xC6,0xC6,0xD6,0xD6,0xD6,0xFE,0xEE,0x6C,0x00,0x00,0x00,0x00],
  [0x00,0x00,0xC6,0xC6,0x6C,0x7C,0x38,0x38,0x7C,0x6C,0xC6,0xC6,0x00,0x00,0x00,0x00],
  [0x00,0x00,0x66,0x66,0x66,0x66,0x3C,0x18,0x18,0x18,0x18,0x3C,0x00,0x00,0x00,0x00],
  [0x00,0x00,0xFE,0xC6,0x86,0x0C,0x18,0x30,0x60,0xC2,0xC6,0xFE,0x00,0x00,0x00,0x00],
  [0x00,0x00,0x3C,0x30,0x30,0x30,0x30,0x30,0x30,0x30,0x30,0x3C,0x00,0x00,0x00,0x00],
  [0x00,0x00,0x00,0x80,0xC0,0xE0,0x70,0x38,0x1C,0x0E,0x06,0x02,0x00,0x00,0x00,0x00],
  [0x00,0x00,0x3C,0x0C,0x0C,0x0C,0x0C,0x0C,0x0C,0x0C,0x0C,0x3C,0x00,0x00,0x00,0x00],
  [0x10,0x38,0x6C,0xC6,0x00,0x00,0x00,0x00,0x00,0x00,0x00,0x00,0x00,0x00,0x00,0x00],
  [0x00,0x00,0x00,0x00,0x00,0x00,0x00,0x00,0x00,0x00,0x00,0x00,0x00,0xFF,0x00,0x00],
  [0x30,0x30,0x18,0x00,0x00,0x00,0x00,0x00,0x00,0x00,0x00,0x00,0x00,0x00,0x00,0x00],
  [0x00,0x00,0x00,0x00,0x00,0x78,0x0C,0x7C,0xCC,0xCC,0xCC,0x76,0x00,0x00,0x00,0x00],
  [0x00,0x00,0xE0,0x60,0x60,0x78,0x6C,0x66,0x66,0x66,0x66,0x7C,0x00,0x00,0x00,0x00],
  [0x00,0x00,0x00,0x00,0x00,0x7C,0xC6,0xC0,0xC0,0xC0,0xC6,0x7C,0x00,0x00,0x00,0x00],
  [0x00,0x00,0x1C,0x0C,0x0C,0x3C,0x6C,0xCC,0xCC,0xCC,0xCC,0x76,0x00,0x00,0x00,0x00],
  [0x00,0x00,0x00,0x00,0x00,0x7C,0xC6,0xFE,0xC0,0xC0,0xC6,0x7C,0x00,0x00,0x00,0x00],
  [0x00,0x00,0x38,0x6C,0x64,0x60,0xF0,0x60,0x60,0x60,0x60,0xF0,0x00,0x00,0x00,0x00],
  [0x00,0x00,0x00,0x00,0x00,0x76,0xCC,0xCC,0xCC,0xCC,0xCC,0x7C,0x0C,0xCC,0x78,0x00],
  [0x00,0x00,0xE0,0x60,0x60,0x6C,0x76,0x66,0x66,0x66,0x66,0xE6,0x00,0x00,0x00,0x00],
  [0x00,0x00,0x18,0x18,0x00,0x38,0x18,0x18,0x18,0x18,0x18,0x3C,0x00,0x00,0x00,0x00],
  [0x00,0x00,0x06,0x06,0x00,0x0E,0x06,0x06,0x06,0x06,0x06,0x06,0x66,0x66,0x3C,0x00],
  [0x00,0x00,0xE0,0x60,0x60,0x66,0x6C,0x78,0x78,0x6C,0x66,0xE6,0x00,0x00,0x00,0x00],
  [0x00,0x00,0x38,0x18,0x18,0x18,0x18,0x18,0x18,0x18,0x18,0x3C,0x00,0x00,0x00,0x00],
  [0x00,0x00,0x00,0x00,0x00,0xEC,0xFE,0xD6,0xD6,0xD6,0xD6,0xC6,0x00,0x00,0x00,0x00],
  [0x00,0x00,0x00,0x00,0x00,0xDC,0x66,0x66,0x66,0x66,0x66,0x66,0x00,0x00,0x00,0x00],
  [0x00,0x00,0x00,0x00,0x00,0x7C,0xC6,0xC6,0xC6,0xC6,0xC6,0x7C,0x00,0x00,0x00,0x00],
  [0x00,0x00,0x00,0x00,0x00,0xDC,0x66,0x66,0x66,0x66,0x66,0x7C,0x60,0x60,0xF0,0x00],
  [0x00,0x00,0x00,0x00,0x00,0x76,0xCC,0xCC,0xCC,0xCC,0xCC,0x7C,0x0C,0x0C,0x1E,0x00],
  [0x00,0x00,0x00,0x00,0x00,0xDC,0x76,0x66,0x60,0x60,0x60,0xF0,0x00,0x00,0x00,0x00],
  [0x00,0x00,0x00,0x00,0x00,0x7C,0xC6,0x60,0x38,0x0C,0xC6,0x7C,0x00,0x00,0x00,0x00],
  [0x00,0x00,0x10,0x30,0x30,0xFC,0x30,0x30,0x30,0x30,0x36,0x1C,0x00,0x00,0x00,0x00],
  [0x00,0x00,0x00,0x00,0x00,0xCC,0xCC,0xCC,0xCC,0xCC,0xCC,0x76,0x00,0x00,0x00,0x00],
  [0x00,0x00,0x00,0x00,0x00,0x66,0x66,0x66,0x66,0x66,0x3C,0x18,0x00,0x00,0x00,0x00],
  [0x00,0x00,0x00,0x00,0x00,0xC6,0xC6,0xD6,0xD6,0xD6,0xFE,0x6C,0x00,0x00,0x00,0x00],
  [0x00,0x00,0x00,0x00,0x00,0xC6,0x6C,0x38,0x38,0x38,0x6C,0xC6,0x00,0x00,0x00,0x00],
  [0x00,0x00,0x00,0x00,0x00,0xC6,0xC6,0xC6,0xC6,0xC6,0xC6,0x7E,0x06,0x0C,0xF8,0x00],
  [0x00,0x00,0x00,0x00,0x00,0xFE,0xCC,0x18,0x30,0x60,0xC6,0xFE,0x00,0x00,0x00,0x00],
  [0x00,0x00,0x0E,0x18,0x18,0x18,0x70,0x18,0x18,0x18,0x18,0x0E,0x00,0x00,0x00,0x00],
  [0x00,0x00,0x18,0x18,0x18,0x18,0x00,0x18,0x18,0x18,0x18,0x18,0x00,0x00,0x00,0x00],
  [0x00,0x00,0x70,0x18,0x18,0x18,0x0E,0x18,0x18,0x18,0x18,0x70,0x00,0x00,0x00,0x00],
  [0x00,0x00,0x76,0xDC,0x00,0x00,0x00,0x00,0x00,0x00,0x00,0x00,0x00,0x00,0x00,0x00],
  [0x00,0x00,0x00,0x00,0x00,0x00,0x00,0x00,0x00,0x00,0x00,0x00,0x00,0x00,0x00,0x00]]

/-- `vesa_put_char`. A character without a glyph is shown as `?`. Each of the 8 times 16
pixels is drawn, in the color of the letter or of its ground, so what was there before
is covered. -/
def vesaPutChar (x y : BitVec 32) (c : UInt8) (fg bg : UInt32) (s : Vesa) : Vesa :=
  if s.enabled = false then s
  else
    let uc := if c < 32 ∨ c > 127 then 0x3F else c
    let glyph := font8x16.getD (uc.toNat - 32) []
    forNat 16 (fun row s =>
      forNat 8 (fun col s =>
        let color := if glyph.getD row 0 &&& (0x80 >>> UInt8.ofNat col) ≠ 0 then fg else bg
        vesaPutPixel (x + BitVec.ofNat 32 col) (y + BitVec.ofNat 32 row) color s) s) s

/-- The loop of `vesa_draw_line`, `n` rounds of it at most. `e2` is compared twice in a
round, so that a step can go in both directions. -/
def lineLoop (x1 y1 dx dy sx sy : BitVec 32) (color : UInt32) :
    Nat → BitVec 32 → BitVec 32 → BitVec 32 → Vesa → Vesa
  | 0, _, _, _, s => s
  | n + 1, x0, y0, err, s =>
    let s := vesaPutPixel x0 y0 color s
    if x0 = x1 ∧ y0 = y1 then s
    else
      let e2 := 2 * err
      let stepX := (-dy).slt e2
      let stepY := e2.slt dx
      let err := if stepX then err - dy else err
      let x0 := if stepX then x0 + sx else x0
      let y0 := if stepY then y0 + sy else y0
      lineLoop x1 y1 dx dy sx sy color n x0 y0 (if stepY then err + dx else err) s

/-- `vesa_draw_line`, seen for `n` rounds of its loop. The loop ends at the other end
point; how many rounds that takes is proved and not built in. The arithmetic is that of
32 bits, as the distance of two far points may not be a number of that size. -/
def vesaDrawLine (n : Nat) (x0 y0 x1 y1 : BitVec 32) (color : UInt32) (s : Vesa) : Vesa :=
  if s.enabled = false then s
  else
    let dx := x1 - x0
    let dy := y1 - y0
    let sx := if (0 : BitVec 32).slt dx then 1 else -1
    let sy := if (0 : BitVec 32).slt dy then 1 else -1
    let dx := if dx.slt 0 then -dx else dx
    let dy := if dy.slt 0 then -dy else dy
    lineLoop x1 y1 dx dy sx sy color n x0 y0 (dx - dy) s

/-! ## Runs -/

/-- A call of a drawing function; a line is seen for `n` rounds, whether it ends by then
or not, so that a statement about all calls holds in the middle of a line too. -/
inductive DrawOp where
  | putPixel (x y : BitVec 32) (color : UInt32)
  | fillRect (x y w h : BitVec 32) (color : UInt32)
  | clear (color : UInt32)
  | drawLine (n : Nat) (x0 y0 x1 y1 : BitVec 32) (color : UInt32)
  | putChar (x y : BitVec 32) (c : UInt8) (fg bg : UInt32)

def DrawOp.step (s : Vesa) : DrawOp → Vesa
  | putPixel x y color => vesaPutPixel x y color s
  | fillRect x y w h color => vesaFillRect x y w h color s
  | clear color => vesaClear color s
  | drawLine n x0 y0 x1 y1 color => vesaDrawLine n x0 y0 x1 y1 color s
  | putChar x y c fg bg => vesaPutChar x y c fg bg s

/-- The calls, one after the other. -/
def drawRun (ops : List DrawOp) (s : Vesa) : Vesa := ops.foldl DrawOp.step s

end OsU
