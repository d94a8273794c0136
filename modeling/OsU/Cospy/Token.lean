import OsU.Lib.CString

/-!
# `cospy.c` — the tokenizer

`cursor` is the text still to be read. `next_token` leaves the kind of the token in
`current_token` and what it spells in the variable of that kind; the other two keep what
they held.

The scanner knows nothing of the parser, and two of its habits matter there: a minus in
front of a digit belongs to the number, whatever stands before it, and a string or a
name that is too long for its buffer is cut, the rest of it being the next token. `#`
ends the text as the terminator does.

The text is a list here and the buffers are values. That the index stays inside the line
and the stores inside the buffers is about another model of the same function,
`OsU/Cospy/Scanner.lean`.
-/

set_option autoImplicit false

namespace OsU

open CString

/-- `token_type_t` -/
inductive TokenType where
  | eof | number | string | ident
  | plus | minus | star | slash | percent
  | eq | eqeq | ne | lt | gt | le | ge
  | lparen | rparen | colon | comma
  | and | or | not
  deriving DecidableEq, Repr

/-- The static variables of the tokenizer. -/
structure Lexer where
  cursor : List UInt8
  currentToken : TokenType
  tokenNumber : BitVec 32
  tokenString : List UInt8
  tokenIdent : List UInt8
  deriving DecidableEq

/-- A blank, as `skip_whitespace` has it. -/
def isBlank (c : UInt8) : Bool := c = 0x20 || c = 0x09

/-- `skip_whitespace` -/
def skipWhitespace (cursor : List UInt8) : List UInt8 := cursor.dropWhile isBlank

/-- `is_digit` -/
def isDigit (c : UInt8) : Bool := 0x30 ≤ c && c ≤ 0x39

/-- `is_alpha` -/
def isAlpha (c : UInt8) : Bool :=
  (0x61 ≤ c && c ≤ 0x7A) || (0x41 ≤ c && c ≤ 0x5A) || c = 0x5F

/-- `is_alnum` -/
def isAlnum (c : UInt8) : Bool := isAlpha c || isDigit c

/-- The digits at the cursor, added to the number read so far. There is no check for
overflow: the number is what is left in 32 bits. -/
def numberLoop : List UInt8 → BitVec 32 → BitVec 32 × List UInt8
  | [], v => (v, [])
  | b :: rest, v =>
    if isDigit b then numberLoop rest (v * 10 + BitVec.ofNat 32 (b.toNat - 0x30))
    else (v, b :: rest)

/-- The kind of an identifier. -/
def wordType (ident : List UInt8) : TokenType :=
  if ident = ascii "and" then .and
  else if ident = ascii "or" then .or
  else if ident = ascii "not" then .not
  else .ident

/-- An operator of one character, or of two when `=` follows. -/
def withEq (one two : TokenType) (rest : List UInt8) : TokenType × List UInt8 :=
  if peek rest = 0x3D then (two, rest.tail) else (one, rest)

/-- The `switch` on the character `b`, with `rest` behind it. A character that begins no
operator gives TOK_EOF, so it ends the line as a comment does. -/
def operator (b : UInt8) (rest : List UInt8) : TokenType × List UInt8 :=
  if b = 0x2B then (.plus, rest)
  else if b = 0x2D then (.minus, rest)
  else if b = 0x2A then (.star, rest)
  else if b = 0x2F then (.slash, rest)
  else if b = 0x25 then (.percent, rest)
  else if b = 0x28 then (.lparen, rest)
  else if b = 0x29 then (.rparen, rest)
  else if b = 0x3A then (.colon, rest)
  else if b = 0x2C then (.comma, rest)
  else if b = 0x3D then withEq .eq .eqeq rest
  else if b = 0x21 then withEq .not .ne rest
  else if b = 0x3C then withEq .lt .le rest
  else if b = 0x3E then withEq .gt .ge rest
  else (.eof, rest)

/-- `next_token` at a character that is not blank. A `-` before a digit belongs to the
number, wherever it stands. A string that is not closed ends with the line; of a string
or a word that is too long, the rest is left for the next token. -/
def tokenAt (l : Lexer) (b : UInt8) (rest : List UInt8) : Lexer :=
  if b = 0 ∨ b = 0x23 then { l with cursor := b :: rest, currentToken := .eof }
  else if isDigit b ∨ (b = 0x2D ∧ isDigit (peek rest)) then
    let r := numberLoop (if b = 0x2D then rest else b :: rest) 0
    { l with
      cursor := r.2
      currentToken := .number
      tokenNumber := if b = 0x2D then r.1 * -1 else r.1 * 1 }
  else if b = 0x22 ∨ b = 0x27 then
    let r := copyWhile (fun c => c ≠ 0 ∧ c ≠ b) 63 rest
    { l with
      cursor := if peek r.2 = b then r.2.tail else r.2
      currentToken := .string
      tokenString := r.1 }
  else if isAlpha b then
    let r := copyWhile isAlnum 31 (b :: rest)
    { l with cursor := r.2, currentToken := wordType r.1, tokenIdent := r.1 }
  else
    let r := operator b rest
    { l with cursor := r.2, currentToken := r.1 }

/-- `next_token` -/
def nextToken (l : Lexer) : Lexer :=
  match skipWhitespace l.cursor with
  | [] => { l with cursor := [], currentToken := .eof }
  | b :: rest => tokenAt l b rest

end OsU
