import OsU.Lib.ByteMem
import OsU.Cospy.Token

/-!
# `cospy.c` — variables and the expression parser

`variables[]` is memory, twenty bytes an entry: a name of up to sixteen, then the value.
A name is copied in with `strcpy`, which does not look at the size of the field, so a
long name runs into the value and the next entry, as it does in the source.

## The parser

The parser evaluates as it goes. Its six levels call each other in a ring, so they are
given a depth `n` and fail when it runs out; `parseExpr` starts with as much as the text
can use, and that this is enough is a theorem (`OsU/Proof/Parsing.lean`). The levels of
binary operators are one loop with parameters (`parseLevel`), each with its operators
and what they do; the source writes it five times.

## What an evaluation does besides

On the way the parser may read the keyboard (`input()`), print a message (division by
zero), and execute machine divisions, which `divs` lists. Both sides of `and` and `or`
are always evaluated. The arithmetic is that of 32-bit words: sums, products and
negations wrap, comparisons are signed.
-/

set_option autoImplicit false

namespace OsU

open CString

/-- Something shown on the screen. -/
inductive Shown where
  /-- A line printed by a `print` statement. -/
  | line (text : List UInt8)
  /-- A message of the interpreter. -/
  | message (text : List UInt8)
  deriving DecidableEq

/-- What expressions are evaluated in: the tokenizer, the variables, the screen and the
keyboard, with the ghost list of divisions. -/
structure Eval where
  lex : Lexer
  vars : ByteMem
  varCount : Nat
  /-- The screen, oldest first. -/
  shown : List Shown
  /-- The lines the keyboard will deliver, and how many have been read. -/
  keys : Nat → List UInt8
  reads : Nat
  /-- The dividend and the divisor of every machine division so far. -/
  divs : List (BitVec 32 × BitVec 32)

namespace Eval

/-- The static variables as the kernel starts, with what the keyboard will deliver. -/
def start (keys : Nat → List UInt8) : Eval where
  lex := ⟨[], .eof, 0, [], []⟩
  vars := fun _ => 0
  varCount := 0
  shown := []
  keys := keys
  reads := 0
  divs := []

/-- `current_token` -/
def tok (e : Eval) : TokenType := e.lex.currentToken

/-- `next_token` -/
def next (e : Eval) : Eval := { e with lex := nextToken e.lex }

/-- `cursor = text; next_token();` -/
def scan (e : Eval) (text : List UInt8) : Eval :=
  { e with lex := nextToken { e.lex with cursor := text } }

def display (e : Eval) (s : Shown) : Eval := { e with shown := e.shown ++ [s] }

end Eval

/-! ## Variables -/

/-- Where `variables[i]` is. -/
def varAddr (i : Nat) : Nat := 20 * i

/-- `strcmp(p, name) == 0`, for the string at `a`. -/
def strEq (m : ByteMem) (a : Nat) (name : List UInt8) : Bool :=
  (name ++ [0]).zipIdx.all fun c => m (a + c.2) = c.1

/-- The `int32_t` at `a`. -/
def loadInt (m : ByteMem) (a : Nat) : BitVec 32 :=
  (m (a + 3)).toBitVec ++ (m (a + 2)).toBitVec ++ (m (a + 1)).toBitVec ++ (m a).toBitVec

/-- Store an `int32_t` at `a`. -/
def storeInt (m : ByteMem) (a : Nat) (v : BitVec 32) : ByteMem :=
  m.copy a (.ofList [⟨v.extractLsb' 0 8⟩, ⟨v.extractLsb' 8 8⟩, ⟨v.extractLsb' 16 8⟩,
    ⟨v.extractLsb' 24 8⟩]) 4

/-- `strcpy(p, name)`, for the string at `a`. -/
def storeStr (m : ByteMem) (a : Nat) (name : List UInt8) : ByteMem :=
  m.copy a (.ofList (name ++ [0])) (name.length + 1)

/-- `get_var`: which entry, for the pointer to its value. The first whose name is the
string; names are compared in memory, where a long one runs on. -/
def getVar (e : Eval) (name : List UInt8) : Option Nat :=
  (List.range e.varCount).find? fun i => strEq e.vars (varAddr i) name

/-- The value `*get_var(name)`, or 0. -/
def varValue (e : Eval) (name : List UInt8) : BitVec 32 :=
  match getVar e name with
  | some i => loadInt e.vars (varAddr i + 16)
  | none => 0

/-- `set_var`; the result says which entry was set. A name that is not there takes the
next of 64 entries; when there is none, nothing happens and no message is shown. -/
def setVar (name : List UInt8) (value : BitVec 32) (e : Eval) : Option Nat × Eval :=
  match getVar e name with
  | some i => (some i, { e with vars := storeInt e.vars (varAddr i + 16) value })
  | none =>
    if e.varCount ≥ 64 then (none, e)
    else
      let m := storeStr e.vars (varAddr e.varCount) name
      (some e.varCount,
        { e with vars := storeInt m (varAddr e.varCount + 16) value, varCount := e.varCount + 1 })

/-! ## Input -/

/-- The digits loop of `atoi`. -/
def atoiLoop : List UInt8 → BitVec 32 → BitVec 32
  | [], v => v
  | b :: rest, v =>
    if isDigit b then atoiLoop rest (v * 10 + BitVec.ofNat 32 (b.toNat - 0x30)) else v

/-- `atoi`, with blanks and one sign in front. Text that is no number is 0. -/
def atoi (s : List UInt8) : BitVec 32 :=
  let s := s.dropWhile isBlank
  if peek s = 0x2D then atoiLoop s.tail 0 * -1
  else if peek s = 0x2B then atoiLoop s.tail 0 * 1
  else atoiLoop s 0 * 1

/-- `keyboard_readline` into a buffer of `maxLen` bytes. -/
def keyboardReadline (maxLen : Nat) (e : Eval) : List UInt8 × Eval :=
  ((e.keys e.reads).take (maxLen - 1), { e with reads := e.reads + 1 })

/-- `input()` -/
def readInput (e : Eval) : BitVec 32 × Eval :=
  let r := keyboardReadline 64 e
  (atoi r.1, r.2)

/-! ## Expressions -/

/-- A level of the parser; `none` when its depth runs out. -/
abbrev Parse : Type := Eval → Option (BitVec 32 × Eval)

/-- The truth value of a C condition. -/
def truth (b : Bool) : BitVec 32 := if b then 1 else 0

/-- The loop that skips the arguments of a call; `n` bounds the tokens left. A
parenthesis among the arguments ends it. -/
def skipArgs : Nat → Eval → Eval
  | 0, e => e
  | n + 1, e => if e.tok ≠ .rparen ∧ e.tok ≠ .eof then skipArgs n e.next else e

/-- A token behind a closing parenthesis, if that is where the parser is. -/
def closeParen (e : Eval) : Eval := if e.tok = .rparen then e.next else e

/-- `parse_primary`, with the levels it calls. What cannot begin an operand is worth
zero and is not taken, so the caller finds it again. The arguments of a call are skipped
and not evaluated; a string is worth its length. -/
def parsePrimary (primary expr : Parse) : Parse := fun e =>
  match e.tok with
  | .number => some (e.lex.tokenNumber, e.next)
  | .string => some (BitVec.ofNat 32 e.lex.tokenString.length, e.next)
  | .ident =>
    let name := e.lex.tokenIdent
    let e := e.next
    if e.tok = .lparen then
      let e := closeParen (skipArgs (e.lex.cursor.length + 1) e.next)
      if name = ascii "input" then some (readInput e) else some (0, e)
    else some (varValue e name, e)
  | .lparen => (expr e.next).map fun r => (r.1, closeParen r.2)
  | .minus => (primary e.next).map fun r => (-r.1, r.2)
  | .not => (primary e.next).map fun r => (truth (r.1 = 0), r.2)
  | _ => some (0, e)

/-- The operations of one level: what each operator does with the two sides. -/
abbrev LevelOp : Type := TokenType → BitVec 32 → BitVec 32 → Eval → BitVec 32 × Eval

/-- The `while` loop of a level, with the value so far. Each round takes an operator and
a right side from the level below, so operators of one level group to the left. -/
def levelLoop (isOp : TokenType → Bool) (op : LevelOp) (sub : Parse) :
    Nat → BitVec 32 → Parse
  | 0, _, _ => none
  | n + 1, left, e =>
    if isOp e.tok then
      (sub e.next).bind fun r =>
        let s := op e.tok left r.1 r.2
        levelLoop isOp op sub n s.1 s.2
    else some (left, e)

/-- A level of left-associative binary operators. -/
def parseLevel (isOp : TokenType → Bool) (op : LevelOp) (sub : Parse) (n : Nat) : Parse := fun e =>
  (sub e).bind fun r => levelLoop isOp op sub n r.1 r.2

def isTermOp : TokenType → Bool
  | .star | .slash | .percent => true
  | _ => false

/-- A division the machine executes.

`idiv` faults at a divisor of zero, which the code looks for, and at -2^31 by -1, which it does not.
Nothing handles that fault: `isr_handler_c` prints a message and returns to the same `idiv`, for
ever. So an evaluation that lists such a pair is one that the machine does not come out of. The
evaluation here goes on behind it with a value that is never seen; the list is true up to the
first such pair, and that is how a fault is told from a result (`Divided`). -/
def Eval.divide (e : Eval) (left right : BitVec 32) : Eval :=
  { e with divs := e.divs ++ [(left, right)] }

/-- The operations of `parse_term`. A quotient by zero says so and a remainder by zero
does not; both are zero. A quotient that faults is listed, see `Eval.divide`: the value
given here is then one that the machine never comes to. -/
def termOp : LevelOp := fun t left right e =>
  match t with
  | .star => (left * right, e)
  | .slash =>
    if right ≠ 0 then (left.sdiv right, e.divide left right)
    else (0, e.display (.message (ascii "division by zero\n")))
  | _ =>
    if right ≠ 0 then (left.srem right, e.divide left right)
    else (0, e)

/-- `parse_term` -/
def parseTerm (primary : Parse) (n : Nat) : Parse := parseLevel isTermOp termOp primary n

def isAdditiveOp : TokenType → Bool
  | .plus | .minus => true
  | _ => false

def additiveOp : LevelOp := fun t left right e =>
  (if t = .plus then left + right else left - right, e)

/-- `parse_additive` -/
def parseAdditive (primary : Parse) (n : Nat) : Parse :=
  parseLevel isAdditiveOp additiveOp (parseTerm primary n) n

def isComparisonOp : TokenType → Bool
  | .lt | .gt | .le | .ge | .eqeq | .ne => true
  | _ => false

def comparisonOp : LevelOp := fun t left right e =>
  (match t with
    | .lt => truth (left.slt right)
    | .gt => truth (right.slt left)
    | .le => truth (left.sle right)
    | .ge => truth (right.sle left)
    | .eqeq => truth (left = right)
    | .ne => truth (left ≠ right)
    | _ => left, e)

/-- `parse_comparison` -/
def parseComparison (primary : Parse) (n : Nat) : Parse :=
  parseLevel isComparisonOp comparisonOp (parseAdditive primary n) n

def isAndOp : TokenType → Bool
  | .and => true
  | _ => false

def andOp : LevelOp := fun _ left right e => (truth (left ≠ 0 ∧ right ≠ 0), e)

/-- `parse_and` -/
def parseAnd (primary : Parse) (n : Nat) : Parse :=
  parseLevel isAndOp andOp (parseComparison primary n) n

def isOrOp : TokenType → Bool
  | .or => true
  | _ => false

def orOp : LevelOp := fun _ left right e => (truth (left ≠ 0 ∨ right ≠ 0), e)

/-- `parse_expr`, with the primary level it rests on: the ring cut open at
`parse_primary`. -/
def parseExprOver (primary : Parse) (n : Nat) : Parse :=
  parseLevel isOrOp orOp (parseAnd primary n) n

/-- The ring: `parse_primary` and `parse_expr` at depth `n`. -/
def parsers : Nat → Parse × Parse
  | 0 => (fun _ => none, fun _ => none)
  | n + 1 =>
    let primary := parsePrimary (parsers n).1 (parsers n).2
    (primary, parseExprOver primary (n + 1))

/-- How far the parser can still go: the text left, and the token it is at. -/
def Lexer.size (l : Lexer) : Nat :=
  l.cursor.length + if l.currentToken = .eof then 0 else 1

/-- `parse_expr` -/
def parseExpr : Parse := fun e => (parsers (e.lex.size + 1)).2 e

end OsU
