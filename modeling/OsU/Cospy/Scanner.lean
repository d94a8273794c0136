import OsU.Lib.Cells
import OsU.Cospy.Token

/-!
# `cospy.c` — the tokenizer in memory

`next_token` once more, with `cursor` as an index into the line and the two buffers as
arrays: nothing here stops the index at the terminator but the code itself. The two
loops that have no bound of their own are seen for `n` rounds, and `none` is one that is
not done by then.

The line is `Cells`, an array without an end that knows how far it has been looked at,
and so are the buffers of 64 and 32 characters. What is said of them
(`OsU/Proof/Scanning.lean`) is that the looking and storing stays inside. That the
tokens are those of the other model is proved with it.
-/

set_option autoImplicit false

namespace OsU

/-- The static variables of the tokenizer. -/
structure Scanner where
  cursor : Nat
  currentToken : TokenType
  tokenNumber : BitVec 32
  /-- `char token_string[64]` -/
  tokenString : Cells UInt8
  /-- `char token_ident[32]` -/
  tokenIdent : Cells UInt8

section Loops

variable (line : Cells UInt8)

/-- `skip_whitespace` -/
def skipBlanks : Nat → Nat → Option Nat
  | 0, _ => none
  | n + 1, cursor => if isBlank (line.val cursor) then skipBlanks n (cursor + 1) else some cursor

/-- The digits at the cursor, added to the number read so far. -/
def scanDigits : Nat → Nat → BitVec 32 → Option (BitVec 32 × Nat)
  | 0, _, _ => none
  | n + 1, cursor, v =>
    if isDigit (line.val cursor) then
      scanDigits n (cursor + 1) (v * 10 + BitVec.ofNat 32 ((line.val cursor).toNat - 0x30))
    else some (v, cursor)

/-- `while (keep(*cursor) && i < limit) buf[i++] = *cursor++;` with `room` characters to
go to the limit. The order of the two tests is the source's: the character is looked at
even when there is no room. -/
def copyToken (keep : UInt8 → Bool) :
    Nat → Nat → Nat → Cells UInt8 → Nat × Nat × Cells UInt8
  | 0, i, cursor, buf => (i, cursor, buf)
  | room + 1, i, cursor, buf =>
    if keep (line.val cursor) then
      copyToken keep room (i + 1) (cursor + 1) (buf.set i (line.val cursor))
    else (i, cursor, buf)

/-- An operator of one character, or of two when `=` follows. -/
def scanEq (one two : TokenType) (cursor : Nat) : TokenType × Nat :=
  if line.val cursor = 0x3D then (two, cursor + 1) else (one, cursor)

/-- The `switch` on the character at the cursor. -/
def scanOperator (cursor : Nat) : TokenType × Nat :=
  let b := line.val cursor
  if b = 0x2B then (.plus, cursor + 1)
  else if b = 0x2D then (.minus, cursor + 1)
  else if b = 0x2A then (.star, cursor + 1)
  else if b = 0x2F then (.slash, cursor + 1)
  else if b = 0x25 then (.percent, cursor + 1)
  else if b = 0x28 then (.lparen, cursor + 1)
  else if b = 0x29 then (.rparen, cursor + 1)
  else if b = 0x3A then (.colon, cursor + 1)
  else if b = 0x2C then (.comma, cursor + 1)
  else if b = 0x3D then scanEq line .eq .eqeq (cursor + 1)
  else if b = 0x21 then scanEq line .not .ne (cursor + 1)
  else if b = 0x3C then scanEq line .lt .le (cursor + 1)
  else if b = 0x3E then scanEq line .gt .ge (cursor + 1)
  else (.eof, cursor + 1)

/-- `next_token` behind the blanks, by positions in the line. Nothing keeps a position
inside the line but the tests of the code, and nothing the stores inside the two
buffers. That `Lexer` reads the same tokens is proved, see `OsU/Proof/Scanning.lean`. -/
def scanToken (n : Nat) (s : Scanner) : Option Scanner :=
  let b := line.val s.cursor
  if b = 0 ∨ b = 0x23 then some { s with currentToken := .eof }
  else if isDigit b ∨ (b = 0x2D ∧ isDigit (line.val (s.cursor + 1))) then
    (scanDigits line n (if b = 0x2D then s.cursor + 1 else s.cursor) 0).map fun r =>
      { s with
        cursor := r.2
        currentToken := .number
        tokenNumber := if b = 0x2D then r.1 * -1 else r.1 * 1 }
  else if b = 0x22 ∨ b = 0x27 then
    let r := copyToken line (fun c => c ≠ 0 ∧ c ≠ b) 63 0 (s.cursor + 1) s.tokenString
    some { s with
      cursor := if line.val r.2.1 = b then r.2.1 + 1 else r.2.1
      currentToken := .string
      tokenString := r.2.2.set r.1 0 }
  else if isAlpha b then
    let r := copyToken line isAlnum 31 0 s.cursor s.tokenIdent
    -- the characters before the terminator are what `strcmp` compares
    some { s with
      cursor := r.2.1
      currentToken := wordType (r.2.2.slice 0 r.1)
      tokenIdent := r.2.2.set r.1 0 }
  else
    let r := scanOperator line s.cursor
    some { s with cursor := r.2, currentToken := r.1 }

/-- `next_token` -/
def scanNext (n : Nat) (s : Scanner) : Option Scanner :=
  (skipBlanks line n s.cursor).bind fun cursor => scanToken line n { s with cursor := cursor }

end Loops

end OsU
