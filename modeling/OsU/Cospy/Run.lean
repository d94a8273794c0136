import OsU.Cospy.Stmt

/-!
# `cospy.c` — the drivers

Both drivers give their lines to `execute_statement` and do the looping themselves.
While `while_depth` is not 0 the lines are put into `while_body` instead, and the
`endwhile` that brings it back to 0 executes them, as often as the condition in
`while_cond` says, 1000 times at most. The body has room for 16 lines; further ones are
dropped.

The body is executed by `execute_statement` line by line. A `while` line among them sets
`while_depth` again, and there is no driver then to see it: a loop in a loop is
collected with the outer one, its lines are executed as they stand, and `while_depth` is
left above 0.

The two drivers differ in two things: `cospy_run_file` skips the blanks in front of a
line before it looks for `endwhile` and `while`, and `cospy_repl` does not; and `exit`
ends the prompt, while a script goes on.

`n` is the depth of calls, `k` a number of lines to be seen; neither is in the source.
-/

set_option autoImplicit false

namespace OsU

open CString

/-- A driver between two lines. -/
structure Driver where
  cospy : Cospy
  whileBody : List (List UInt8)

/-- Put a line into the body of the loop. A `while` inside raises the depth and is put
into the body like every other line; what goes beyond 16 lines is dropped, and the depth
is counted all the same. -/
def collect (line : List UInt8) (d : Driver) : Driver where
  cospy :=
    if startsWith line (ascii "while ") then
      { d.cospy with whileDepth := d.cospy.whileDepth + 1 }
    else d.cospy
  whileBody :=
    if d.whileBody.length < 16 then d.whileBody ++ [strcpy line] else d.whileBody

/-- `cursor = while_cond; next_token(); parse_expr()` -/
def evalCond (s : Cospy) : Option (BitVec 32 × Cospy) :=
  (parseExpr (s.ev.scan s.whileCond)).map fun r => (r.1, { s with ev := r.2 })

/-- The iterations of a loop, `maxIter` at most, with one execution of its body. The
condition is parsed again each time, from its text. -/
def iterate (body : Cospy → Option Cospy) : Nat → Cospy → Option Cospy
  | 0, s => some s
  | maxIter + 1, s =>
    (evalCond s).bind fun r =>
      if r.1 = 0 then some r.2 else (body r.2).bind (iterate body maxIter)

/-- An `endwhile` inside a loop. The one that closes the outermost loop runs the body
and empties it; an inner one is counted only, it is not put into the body. -/
def endWhile (body : List (List UInt8) → Cospy → Option Cospy) (d : Driver) : Option Driver :=
  let s := { d.cospy with whileDepth := d.cospy.whileDepth - 1 }
  if s.whileDepth = 0 then (iterate (body d.whileBody) 1000 s).map fun s => ⟨s, []⟩
  else some ⟨s, d.whileBody⟩

/-! ## Scripts -/

/-- One execution of a body in `cospy_run_file`. -/
def fileBody (n : Nat) : List (List UInt8) → Cospy → Option Cospy
  | [], s => some s
  | line :: body, s => (executeStatement n line s).bind fun r => fileBody n body r.2

/-- `cospy_run_file` on one line. Blanks in front are skipped before anything else is
tested, unlike at the prompt. -/
def fileLine (n : Nat) (line : List UInt8) (d : Driver) : Option Driver :=
  let line := skipWhitespace line
  if d.cospy.whileDepth > 0 then
    if startsWith line (ascii "endwhile") then endWhile (fileBody n) d else some (collect line d)
  else (executeStatement n line d.cospy).map fun r => ⟨r.2, d.whileBody⟩

/-- The lines of a script, one after the other. -/
def fileLines (n : Nat) : List (List UInt8) → Driver → Option Driver
  | [], d => some d
  | line :: lines, d => (fileLine n line d).bind (fileLines n lines)

/-- The lines of a file, `k` at most: a line ends after 127 characters if not before,
and what is left of it is the next line. -/
def readLines : Nat → List UInt8 → List (List UInt8)
  | 0, _ => []
  | _ + 1, [] => []
  | k + 1, b :: p =>
    let r := copyWhile (fun c => c ≠ 0x0A) 127 (b :: p)
    r.1 :: readLines k (if peek r.2 = 0x0A then r.2.tail else r.2)

theorem readLines_nil (k : Nat) : readLines k [] = [] := by
  cases k <;> rfl

/-- `cospy_run_file`, with what `vfs_read_ptr` gives for the name; the calls go `n`
deep, and `none` says that they went deeper. Every line is carried out, whatever the
lines before it returned, and the result is 0 for every file that was found. -/
def cospyRunFile (n : Nat) (filename : List UInt8) (content : Option (List UInt8)) (s : Cospy) :
    Option (Int × Cospy) :=
  if peek filename = 0 then some (-1, s)
  else
    match content with
    | none =>
      some (-1, { s with
        ev := s.ev.display (.message (ascii "file not found: " ++ filename ++ ascii "\n")) })
    | some content =>
      (fileLines n (readLines 64 content) ⟨cospyInit s, []⟩).map fun d => (0, d.cospy)

/-! ## The prompt -/

/-- One execution of a body in `cospy_repl`: `exit` ends it. -/
def replBody (n : Nat) : List (List UInt8) → Cospy → Option Cospy
  | [], s => some s
  | line :: body, s =>
    (executeStatement n line s).bind fun r => if r.1 < 0 then some r.2 else replBody n body r.2

/-- `cospy_repl` on one line; the flag says that it goes on. Lines are collected while a
loop is open, also where they would end the interpreter, and the return value of the
loop's body is not looked at. -/
def replLine (n : Nat) (line : List UInt8) (d : Driver) : Option (Bool × Driver) :=
  if d.cospy.whileDepth > 0 then
    if startsWith line (ascii "endwhile") then (endWhile (replBody n) d).map fun d => (true, d)
    else some (true, collect line d)
  else (executeStatement n line d.cospy).map fun r =>
    if r.1 < 0 then
      (false, ⟨{ r.2 with ev := r.2.ev.display (.message (ascii "Leaving CosyPy\n")) },
        d.whileBody⟩)
    else (true, ⟨r.2, d.whileBody⟩)

/-- `k` lines at the prompt, or fewer. Each is shown its prompt and read with room for
127 characters; the first that says so ends it. -/
def replLines (n : Nat) : Nat → Driver → Option Driver
  | 0, d => some d
  | k + 1, d =>
    let e := d.cospy.ev.display (.message (ascii "py> "))
    let r := keyboardReadline 128 e
    (replLine n r.1 ⟨{ d.cospy with ev := r.2 }, d.whileBody⟩).bind fun r =>
      if r.1 then replLines n k r.2 else some r.2

/-- `cospy_repl`, up to its `k`-th line. -/
def cospyRepl (n k : Nat) (s : Cospy) : Option Driver :=
  let s := cospyInit s
  let e := s.ev.display (.message (ascii "\nCosyPy v1.0 - Python-like interpreter\n"))
  let e := e.display (.message (ascii "Type 'exit' to return to shell\n\n"))
  replLines n k ⟨{ s with ev := e }, []⟩

end OsU
