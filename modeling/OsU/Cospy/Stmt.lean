import Mathlib.Data.List.DropRight
import OsU.Cospy.Expr

/-!
# `cospy.c` — statements

`execute_statement` is given one line. Blocks have no structure of their own:
`in_if_false` says that lines are being skipped, `if_depth` and `while_depth` count what
is open, and the driver that feeds the lines (`Cospy/Run.lean`) does the looping.

## Where the flags fall short

One flag and one counter stand for a stack of blocks. A false condition sets the flag at
any depth, the `endif` that closes it does not clear the flag unless it closes the
outermost block, and `else` turns the flag over only at depth 1. The model has them as
they are; what a program with nested blocks does under them is the subject of
`OsU/Proof/Branches.lean`.

Keywords are recognised by their letters at the start of the line, so a name that begins
with `endif` or `exit` is taken for one.

## Depth

`run_function` and `execute_statement` call each other, as deep as the functions of the
script go, so they are given a depth and fail when it runs out. The source counts no
depth. A call that fails here at every depth is one that never returns.
-/

set_option autoImplicit false

namespace OsU

open CString

/-- `function_t`; `line_count` is how many lines there are. -/
structure Func where
  name : List UInt8
  lines : List (List UInt8)
  deriving DecidableEq

/-- The interpreter. `func_count` is how many functions there are. The body of a loop is
the driver's, not here. -/
structure Cospy where
  ev : Eval
  funcs : List Func
  inIfFalse : Bool
  ifDepth : Nat
  whileDepth : Nat
  whileCond : List UInt8
  definingFunction : Bool
  currentFuncIdx : Nat

/-- The static variables as the kernel starts. -/
def Cospy.start (keys : Nat → List UInt8) : Cospy where
  ev := .start keys
  funcs := []
  inIfFalse := false
  ifDepth := 0
  whileDepth := 0
  whileCond := []
  definingFunction := false
  currentFuncIdx := 0

/-- `strcpy` of a line. -/
def strcpy (s : List UInt8) : List UInt8 := s.takeWhile fun c => c ≠ 0

theorem strcpy_eq {line : List UInt8} (h : (0 : UInt8) ∉ line) : strcpy line = line := by
  refine List.takeWhile_eq_self_iff.mpr fun b hb => ?_
  refine decide_eq_true fun hz => ?_
  rw [hz] at hb
  exact h hb

/-- `s[i]` -/
def charAt (s : List UInt8) (i : Nat) : UInt8 := peek (s.drop i)

/-! ## Printing -/

/-- The loop of `vga_print_dec`: the digits of `value` in front of those in `buf`. -/
def vgaDecLoop : Nat → Nat → List UInt8 → List UInt8
  | 0, _, buf => buf
  | i + 1, value, buf =>
    if value = 0 then buf else vgaDecLoop i (value / 10) (UInt8.ofNat (0x30 + value % 10) :: buf)

/-- What `vga_print_dec` shows. -/
def vgaPrintDec (value : BitVec 32) : List UInt8 :=
  if value = 0 then ascii "0" else vgaDecLoop 10 value.toNat []

/-- `print(`, with `arg` behind it. -/
def printStatement (arg : List UInt8) (e : Eval) : Option Eval :=
  let e := e.scan arg
  if e.tok = .string then some (e.display (.line e.lex.tokenString))
  else (parseExpr e).map fun r => r.2.display (.line (vgaPrintDec r.1))

/-- `name = expr`, with the lexer at the `=`. -/
def assign (name : List UInt8) (e : Eval) : Option Eval :=
  (parseExpr e.next).map fun r => (setVar name r.1 r.2).2

/-! ## Functions -/

/-- The line of a definition that is being read, up to `enddef`. Lines beyond the 32nd
are dropped. -/
def defineLine (line : List UInt8) (s : Cospy) : Cospy :=
  if startsWith line (ascii "enddef") then { s with definingFunction := false }
  else if s.currentFuncIdx < 16 then
    { s with
      funcs := s.funcs.modify s.currentFuncIdx fun f =>
        if f.lines.length < 32 then { f with lines := f.lines ++ [strcpy line] } else f }
  else s

/-- `def `, with `p` behind it. The name goes up to the parenthesis, blanks included,
and is cut to 15 characters. A second definition of a name makes a second entry, behind
the first, which is the one that is found. -/
def define (p : List UInt8) (s : Cospy) : Cospy :=
  if s.funcs.length ≥ 16 then
    { s with ev := s.ev.display (.message (ascii "too many functions\n")) }
  else
    { s with
      funcs := s.funcs ++ [⟨(copyWhile (fun c => c ≠ 0 ∧ c ≠ 0x28) 15 p).1, []⟩]
      currentFuncIdx := s.funcs.length
      definingFunction := true }

/-- The loop over the lines of function `i`. The table is read again for each line,
because a line may define functions; the return value of a line is not looked at. -/
def runLines (exec : List UInt8 → Cospy → Option (Int × Cospy)) (i : Nat) :
    List Nat → Cospy → Option Cospy
  | [], s => some s
  | j :: js, s =>
    match s.funcs[i]?.bind fun f => f.lines[j]? with
    | none => some s
    | some line => (exec line s).bind fun r => runLines exec i js r.2

/-- `run_function`, with the `execute_statement` it calls. The lines are handed to that
directly: what the two drivers do about loops is not done for them. -/
def runFunction (exec : List UInt8 → Cospy → Option (Int × Cospy)) (name : List UInt8)
    (s : Cospy) : Option Cospy :=
  match s.funcs.findIdx? fun f => f.name = name with
  | some i => runLines exec i (List.range 32) s
  | none =>
    some { s with
      ev := s.ev.display (.message (ascii "undefined function: " ++ name ++ ascii "\n")) }

/-! ## Statements -/

/-- The test for an `else` line. -/
def isElse (line : List UInt8) : Bool :=
  startsWith line (ascii "else") &&
    (charAt line 4 = 0x3A || charAt line 4 = 0 || charAt line 4 = 0x20)

/-- `endif`: one block less. The flag is cleared behind the last one only. -/
def endIf (s : Cospy) : Cospy :=
  if s.ifDepth > 0 then
    { s with
      ifDepth := s.ifDepth - 1
      inIfFalse := if s.ifDepth - 1 = 0 then false else s.inIfFalse }
  else s

/-- `else`: the flag is turned over, in the outermost block only. -/
def elseBranch (s : Cospy) : Cospy :=
  if s.ifDepth = 1 then { s with inIfFalse := !s.inIfFalse } else s

/-- `if `, with `cond` behind it. In a block that is skipped the depth is counted and
the condition is not looked at; a condition that is true leaves the flag as it is. -/
def beginIf (cond : List UInt8) (s : Cospy) : Option Cospy :=
  let s := { s with ifDepth := s.ifDepth + 1 }
  if s.inIfFalse then some s
  else (parseExpr (s.ev.scan cond)).map fun r =>
    { s with ev := r.2, inIfFalse := if r.1 = 0#32 then true else s.inIfFalse }

/-- A call of a function or an assignment. A name that is followed by something else is
read and nothing is done; so is the call of a name that is no function. The second
comparison is made with the token behind the name, not with the text of the line. -/
def callOrAssign (exec : List UInt8 → Cospy → Option (Int × Cospy)) (line : List UInt8)
    (s : Cospy) : Option Cospy :=
  let e := s.ev.scan line
  if e.tok = .ident then
    let name := e.lex.tokenIdent
    let e := e.next
    if e.tok = .lparen then
      if s.funcs.any fun f => f.name = name then runFunction exec name { s with ev := e }
      else some { s with ev := e }
    else if e.tok = .eq then (assign name e).map fun e => { s with ev := e }
    else some { s with ev := e }
  else some { s with ev := e }

/-- `execute_statement`, with the calls it makes through `run_function`. The tests are
in the order of the source; what is skipped because of `in_if_false` is tested for
behind the lines that count blocks. -/
def executeOver (exec : List UInt8 → Cospy → Option (Int × Cospy)) (line : List UInt8)
    (s : Cospy) : Option (Int × Cospy) :=
  let line := skipWhitespace line
  if peek line = 0 ∨ peek line = 0x23 then some (0, s)
  else if s.definingFunction then some (0, defineLine line s)
  else if startsWith line (ascii "exit") ∨ startsWith line (ascii "quit") then some (-1, s)
  else if startsWith line (ascii "endif") then some (0, endIf s)
  else if isElse line then some (0, elseBranch s)
  else if startsWith line (ascii "if ") then (beginIf (line.drop 3) s).map fun s => (0, s)
  else if s.inIfFalse then some (0, s)
  else if startsWith line (ascii "endwhile") then some (0, s)
  else if startsWith line (ascii "while ") then
    some (0, { s with whileCond := strcpy (line.drop 6), whileDepth := s.whileDepth + 1 })
  else if startsWith line (ascii "def ") then some (0, define (line.drop 4) s)
  else if startsWith line (ascii "print") ∧ charAt line 5 = 0x28 then
    (printStatement (line.drop 6) s.ev).map fun e => (0, { s with ev := e })
  else (callOrAssign exec line s).map fun s => (0, s)

/-- `execute_statement` -/
def executeStatement : Nat → List UInt8 → Cospy → Option (Int × Cospy)
  | 0 => fun _ _ => none
  | n + 1 => executeOver (executeStatement n)

/-- `cospy_init`. The condition of the last loop and the variables' memory keep what
they held; the count of variables is what makes them forgotten. -/
def cospyInit (s : Cospy) : Cospy :=
  { s with
    ev := { s.ev with varCount := 0 }
    funcs := []
    inIfFalse := false
    ifDepth := 0
    whileDepth := 0
    definingFunction := false }

end OsU
