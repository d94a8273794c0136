import OsU.Cospy.Stmt
import OsU.Kernel.Memory
import OsU.Kernel.Vga

/-!
# `lang.c` — the Forth prompt

A stack of 128 words and a loop over the tokens of each line. The sums of `push(a + b)`
and the like wrap, as the machine's do, and so do those of `atoi`. The machine's
division faults on `INT32_MIN / -1`, and there the prompt goes no further
(`LangOut.divideError`).

That `sp` is at most 128 is a field of the state, which every operation has to keep in
order to be written down: no word can take the stack out of its array, and no result
needs to say so.

A word that finds too few cells has popped what was there, and a push on a full stack
does nothing; both are kept. `print_stack` and the numbers `.` shows are printed as
unsigned, by `vga_print_dec`.
-/

set_option autoImplicit false

namespace OsU

open CString

/-- LANG_LINE -/
def langLine : Nat := 96

/-- STACK_MAX -/
def stackMax : Nat := 128

/-- The static variables of `lang.c`, with the screen and the heap its words look at.
That `sp` stays in the stack is a field: `push` tests for it, and no word gets round
`push`. -/
structure Lang where
  stack : Nat → BitVec 32
  sp : Nat
  vga : Vga
  heap : Heap
  sp_le : sp ≤ stackMax

namespace Lang

/-- `vga_puts` -/
def puts (str : List UInt8) (s : Lang) : Lang := { s with vga := vgaPuts str s.vga }

/-- `vga_putc` -/
def putc (c : UInt8) (s : Lang) : Lang := { s with vga := vgaPutc c s.vga }

/-- `pop`: the word, and `none` for -1. -/
def pop (s : Lang) : Option (BitVec 32 × Lang) :=
  if s.sp ≤ 0 then none
  else some (s.stack (s.sp - 1),
    { s with sp := s.sp - 1, sp_le := Nat.le_trans (Nat.sub_le _ _) s.sp_le })

/-- `push`: `none` for -1. -/
def push (v : BitVec 32) (s : Lang) : Option Lang :=
  if h : s.sp ≥ stackMax then none
  else some { s with
    stack := Function.update s.stack s.sp v, sp := s.sp + 1, sp_le := Nat.lt_of_not_le h }

/-- `push`, where its result is not looked at. -/
def pushed (v : BitVec 32) (s : Lang) : Lang := (s.push v).getD s

/-- The loop of `print_stack`, from cell `i` on, over `n` cells. -/
def printLoop : Nat → Nat → Lang → Lang
  | 0, _, s => s
  | n + 1, i, s => printLoop n (i + 1) ((s.puts (vgaPrintDec (s.stack i))).putc 0x20)

/-- `print_stack` -/
def printStack (s : Lang) : Lang :=
  let s := ((s.puts (ascii "<")).puts (vgaPrintDec (BitVec.ofNat 32 s.sp))).puts (ascii "> ")
  (printLoop s.sp 0 s).putc 0x0A

end Lang

/-! ## Tokens -/

/-- The loop of `is_number`. -/
def allDigits (s : List UInt8) : Bool := s.all isDigit

/-- `is_number`: digits behind at most one sign. A sign alone is not a number. -/
def isNumber (s : List UInt8) : Bool :=
  let s := if peek s = 0x2D ∨ peek s = 0x2B then s.tail else s
  if peek s = 0 then false else allDigits s

/-- `next_tok`: the token, and the rest of the line behind the blank that its terminator
replaces. -/
def nextTok (p : List UInt8) : Option (List UInt8 × List UInt8) :=
  let p := p.dropWhile isBlank
  if peek p = 0 then none
  else
    let start := p.takeWhile fun c => c ≠ 0 ∧ isBlank c = false
    let p := p.drop start.length
    some (start, if peek p = 0 then p else p.tail)

/-! ## Words -/

/-- Where a token leaves `lang_repl`. A division that the machine refuses is an outcome
of its own: nothing runs behind it. -/
inductive LangOut where
  | running (s : Lang)
  /-- Behind `bye`. -/
  | left (s : Lang)
  /-- The machine's division faulted. -/
  | divideError

/-- A word of two operands: `b` is popped first. If there is only one, it is gone when
the message is shown. -/
def binary (f : BitVec 32 → BitVec 32 → Lang → LangOut) (s : Lang) : LangOut :=
  match s.pop with
  | none => .running (s.puts (ascii "stack underflow\n"))
  | some (b, s) =>
    match s.pop with
    | none => .running (s.puts (ascii "stack underflow\n"))
    | some (a, s) => f a b s

/-- `push(a / b)`, behind the check for 0, which puts both operands back. -/
def divide (a b : BitVec 32) (s : Lang) : LangOut :=
  if b = 0 then .running (((s.puts (ascii "div by zero\n")).pushed a).pushed b)
  else if a = BitVec.intMin 32 ∧ b = -1 then .divideError
  else .running (s.pushed (a.sdiv b))

/-- `swap`, on two cells. -/
def Lang.swap (s : Lang) : Lang :=
  { s with
    stack := Function.update (Function.update s.stack (s.sp - 1) (s.stack (s.sp - 2))) (s.sp - 2)
      (s.stack (s.sp - 1)) }

/-- The body of the token loop of `lang_repl`: the words in the order in which the
source compares, and behind them the numbers. -/
def langWord (tok : List UInt8) (s : Lang) : LangOut :=
  if tok = ascii "bye" ∨ tok = ascii "exit" then .left (s.puts (ascii "Leaving forth\n"))
  else if tok = ascii "+" then binary (fun a b s => .running (s.pushed (a + b))) s
  else if tok = ascii "-" then binary (fun a b s => .running (s.pushed (a - b))) s
  else if tok = ascii "*" then binary (fun a b s => .running (s.pushed (a * b))) s
  else if tok = ascii "/" then binary divide s
  else if tok = ascii "dup" then
    if s.sp ≤ 0 then .running (s.puts (ascii "stack error\n"))
    else
      match s.push (s.stack (s.sp - 1)) with
      | none => .running (s.puts (ascii "stack error\n"))
      | some s => .running s
  else if tok = ascii "drop" then
    match s.pop with
    | none => .running (s.puts (ascii "stack underflow\n"))
    | some r => .running r.2
  else if tok = ascii "swap" then
    if s.sp < 2 then .running (s.puts (ascii "stack underflow\n")) else .running s.swap
  else if tok = ascii "." then
    match s.pop with
    | none => .running (s.puts (ascii "stack underflow\n"))
    | some (v, s) => .running ((s.puts (vgaPrintDec v)).putc 0x0A)
  else if tok = ascii ".s" then .running s.printStack
  else if tok = ascii "mem" then
    .running (((s.puts (ascii "heap used: ")).puts
      (vgaPrintDec (s.heap.heapCurr - s.heap.heapStart))).puts (ascii " bytes\n"))
  else if tok = ascii "clear" then .running { s with sp := 0, sp_le := Nat.zero_le _ }
  else if tok = ascii "words" then
    .running (s.puts (ascii "+ - * / dup drop swap . .s mem clear words bye\n"))
  else if isNumber tok then
    match s.push (atoi tok) with
    | none => .running (s.puts (ascii "stack full\n"))
    | some s => .running s
  else .running (((s.puts (ascii "unknown word: ")).puts tok).putc 0x0A)

/-! ## Lines -/

/-- The token loop of `lang_repl`, at `p`, over `n` tokens at most: each takes a character, so the
length of the line is enough. -/
def tokLoop : Nat → List UInt8 → Lang → LangOut
  | 0, _, s => .running s
  | n + 1, p, s =>
    match nextTok p with
    | none => .running s
    | some (tok, p) =>
      match langWord tok s with
      | .running s => tokLoop n p s
      | out => out

/-- The outer loop of `lang_repl`, over the lines that are typed; `keyboard_readline`
keeps what fits the buffer. A line that ends the prompt leaves the lines behind it
unread. -/
def langLoop : List (List UInt8) → Lang → LangOut
  | [], s => .running s
  | typed :: rest, s =>
    let line := typed.take (langLine - 1)
    match tokLoop line.length line (s.puts (ascii "forth> ")) with
    | .running s => langLoop rest s
    | out => out

/-- `lang_repl` -/
def langRepl (typed : List (List UInt8)) (s : Lang) : LangOut :=
  let s := { s with sp := 0, sp_le := Nat.zero_le _ }
  langLoop typed
    ((s.puts (ascii "\nTiny Forth (interim for MicroPython prep)\n")).puts
      (ascii "Words: + - * / dup drop swap . .s mem clear words bye\n\n"))

end OsU
