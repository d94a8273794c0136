import OsU.Kernel.Vga
import OsU.Lib.ByteMem

/-!
# `keyboard_readline`

The loop that reads a line, one key at a time. It keeps the line in the caller's buffer
and shows it on the console, which keeps its own cursor. The console is in text mode.

The two are kept in step by the loop alone: a key that is stored is printed, and the
rubout that takes a character back moves the cursor one cell to the left. The console
stops at the left edge and the line does not, so the two can part; nothing here says
that they agree.
-/

set_option autoImplicit false

namespace OsU

/-- The buffer and the screen between two keys. `returned` says that the call is over; a
key after that is not one of this call. -/
structure Readline where
  buf : ByteMem
  i : Nat
  vga : Vga
  returned : Bool

/-- The state in which `keyboard_readline` waits for the first key; with no room for the
terminating zero (`max_len` 0) it returns at once and stores nothing. -/
def readlineStart (buf : ByteMem) (maxLen : Nat) (vga : Vga) : Readline :=
  { buf := buf, i := 0, vga := vga, returned := maxLen = 0 }

/-- What the loop does with a key. A carriage return is passed over, a newline ends the
line, a rubout takes one character back, and of the others only the printable ones are
stored, as long as there is room for the zero behind them. -/
def readlineKey (maxLen : Nat) (c : UInt8) (s : Readline) : Readline :=
  if s.returned then s
  else if c = 0x0D then s
  else if c = 0x0A then
    { s with vga := vgaPutc 0x0A s.vga, buf := s.buf.put s.i 0, returned := true }
  else if c = 0x08 then
    if s.i > 0 then { s with i := s.i - 1, vga := vgaPutc 0x08 s.vga } else s
  else if s.i + 1 < maxLen ∧ 32 ≤ c ∧ c ≤ 126 then
    { s with buf := s.buf.put s.i c, i := s.i + 1, vga := vgaPutc c s.vga }
  else s

end OsU
