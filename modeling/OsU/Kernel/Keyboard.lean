import OsU.Lib.CString

/-!
# `keyboard.c` — the keyboard driver

The interrupt handler turns scan codes into characters and puts them in a ring of 256
cells; `dequeue_char` takes them out outside the handler. One cell of the ring stays
empty, so that a full ring can be told from an empty one: 255 characters wait at most,
and a press that finds them waiting is lost.

## Two views of the reader

An interrupt can come between any two statements of `dequeue_char`, so besides the
function as a whole (`dequeueChar`) there is the same function one statement at a time
(`Dequeue.next`): the test, the read, and the store to `kbd_tail`. The handler runs with
interrupts disabled and is one step.

## The flags

`shift_down` is one flag for two keys, and `extended_key` is set by the prefix 0xE0 and
cleared by whatever comes next. Both are kept as the source has them: what they make of
two shift keys, or of key 0x60, whose break code is the prefix, is a matter for the
results.
-/

set_option autoImplicit false

namespace OsU

open CString

/-- The globals of `keyboard.c`. The ring is a function on all numbers, of which the
code uses the first 256. -/
structure Keyboard where
  kbdBuf : Nat → UInt8
  kbdHead : Nat
  kbdTail : Nat
  shiftDown : UInt8
  extendedKey : UInt8

/-- KBD_BUF_SIZE -/
def kbdBufSize : Nat := 256

def keyUp : UInt8 := 0x80
def keyDown : UInt8 := 0x81
def keyLeft : UInt8 := 0x82
def keyRight : UInt8 := 0x83
def keyHome : UInt8 := 0x84
def keyEnd : UInt8 := 0x85
def keyPgup : UInt8 := 0x86
def keyPgdn : UInt8 := 0x87
def keyDelete : UInt8 := 0x88

/-- The table without shift, by scan code; a zero means that the key has no character.
-/
def mapNormal : List UInt8 :=
  [0, 27] ++ ascii "1234567890-=" ++ [8, 9] ++ ascii "qwertyuiop[]" ++ [10, 0] ++
    ascii "asdfghjkl;'`" ++ [0] ++ ascii "\\zxcvbnm,./" ++ [0] ++ ascii "*" ++ [0] ++ ascii " " ++
    List.replicate 70 0

/-- The table with shift. -/
def mapShift : List UInt8 :=
  [0, 27] ++ ascii "!@#$%^&*()_+" ++ [8, 9] ++ ascii "QWERTYUIOP\x7b\x7d" ++ [10, 0] ++
    ascii "ASDFGHJKL:\"~" ++ [0] ++ ascii "|ZXCVBNM<>?" ++ [0] ++ ascii "*" ++ [0] ++ ascii " " ++
    List.replicate 70 0

/-- `enqueue_char`. A full ring drops the character and says nothing. -/
def Keyboard.enqueueChar (c : UInt8) (k : Keyboard) : Keyboard :=
  let next := (k.kbdHead + 1) % kbdBufSize
  if next = k.kbdTail then k
  else { k with kbdBuf := Function.update k.kbdBuf k.kbdHead c, kbdHead := next }

/-- `dequeue_char`: the character, if there is one. -/
def Keyboard.dequeueChar (k : Keyboard) : Option UInt8 × Keyboard :=
  if k.kbdHead = k.kbdTail then (none, k)
  else (some (k.kbdBuf k.kbdTail), { k with kbdTail := (k.kbdTail + 1) % kbdBufSize })

/-- The character of a scan code behind the prefix 0xE0. -/
def extendedChar (scancode : UInt8) : UInt8 :=
  match scancode with
  | 0x48 => keyUp
  | 0x50 => keyDown
  | 0x4B => keyLeft
  | 0x4D => keyRight
  | 0x47 => keyHome
  | 0x4F => keyEnd
  | 0x49 => keyPgup
  | 0x51 => keyPgdn
  | 0x53 => keyDelete
  | _ => 0

/-- The character `keyboard_irq_handler` gives `enqueue_char`, 0 if it does not call it,
and the flags it leaves. The handler's tests are in the source's order: the prefix comes
before everything else, and a break code before the extended keys. -/
def Keyboard.decode (scancode : UInt8) (k : Keyboard) : UInt8 × Keyboard :=
  if scancode = 0xE0 then (0, { k with extendedKey := 1 })
  else if scancode = 0x2A ∨ scancode = 0x36 then (0, { k with shiftDown := 1, extendedKey := 0 })
  else if scancode = 0xAA ∨ scancode = 0xB6 then (0, { k with shiftDown := 0, extendedKey := 0 })
  else if scancode &&& 0x80 ≠ 0 then (0, { k with extendedKey := 0 })
  else if k.extendedKey ≠ 0 then (extendedChar scancode, { k with extendedKey := 0 })
  else
    (if k.shiftDown ≠ 0 then mapShift.getD scancode.toNat 0
      else mapNormal.getD scancode.toNat 0, k)

/-- `keyboard_irq_handler`: what the scan code is decoded to, and into the ring with it.
-/
def Keyboard.irqHandler (scancode : UInt8) (k : Keyboard) : Keyboard :=
  let r := k.decode scancode
  if r.1 ≠ 0 then r.2.enqueueChar r.1 else r.2

/-- The globals after `keyboard_init`, whatever the buffer holds: a byte that was never
enqueued is never read, since head and tail are equal. -/
def keyboardInit (buf : Nat → UInt8) : Keyboard where
  kbdBuf := buf
  kbdHead := 0
  kbdTail := 0
  shiftDown := 0
  extendedKey := 0

/-! ## The consumer, one statement at a time -/

/-- Where the caller of `dequeue_char` is. Between any two of its statements the handler
may run; it stores at the head and never moves the tail, and the caller moves the tail
only. -/
inductive Dequeue where
  /-- Before the test for an empty buffer. -/
  | test
  /-- Before `*out = kbd_buf[kbd_tail]`. -/
  | read
  /-- Before the update of `kbd_tail`, with the character in `*out`. -/
  | release (out : UInt8)
  deriving DecidableEq, Repr

/-- The next statement of `dequeue_char`, and the character returned if it is the last
one. The cell is read before the tail moves, which is why a character that an interrupt
puts in between cannot be the one that is read. -/
def Dequeue.next (k : Keyboard) : Dequeue → Dequeue × Keyboard × Option UInt8
  | .test => (if k.kbdHead = k.kbdTail then .test else .read, k, none)
  | .read => (.release (k.kbdBuf k.kbdTail), k, none)
  | .release out => (.test, { k with kbdTail := (k.kbdTail + 1) % kbdBufSize }, some out)

end OsU
