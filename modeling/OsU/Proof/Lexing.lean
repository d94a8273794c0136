import OsU.Cospy.Expr

/-!
# Texts and token sequences

The parser sees a text through `next_token` alone. `Reads l ts` says what it sees: the
lexer is at the first token of `ts` and `next_token` goes through the rest. A text is a
rendering of spelled tokens (`Lexeme`) with blanks between them; `nextToken_lexeme` is
the tokenizer on one of them, for any text behind it that does not run into it.

A `-` directly before a digit is the one token that is not read as it is spelled: it
becomes the sign of the number, whatever stands before it.

A token is what the parser can tell of it (`Tok`): its kind, and a value for numbers,
strings and names. The variables of the tokenizer that belong to other kinds keep what
an earlier token left in them, so two lexers with the same token may differ, and
`SameLexer` does not ask for more than the place and the token.

Words and strings are copied into buffers of fixed size, and one that does not fit is
read as two. `Lexeme.Wf` therefore has a length in it, and a text with a longer word is
no rendering of the word.
-/

set_option autoImplicit false

namespace OsU

open CString

/-- What a token says. -/
inductive Tok where
  | number (v : BitVec 32)
  | string (s : List UInt8)
  | ident (s : List UInt8)
  | op (t : TokenType)
  deriving DecidableEq

def Tok.type : Tok → TokenType
  | .number _ => .number
  | .string _ => .string
  | .ident _ => .ident
  | .op t => t

/-- The token the lexer is at. -/
def Lexer.token (l : Lexer) : Tok :=
  match l.currentToken with
  | .number => .number l.tokenNumber
  | .string => .string l.tokenString
  | .ident => .ident l.tokenIdent
  | t => .op t

theorem Lexer.token_type (l : Lexer) : l.token.type = l.currentToken := by
  unfold Lexer.token
  cases l.currentToken <;> rfl

/-- The tokens the lexer is at and will come to, and where it will stop. -/
inductive Reads : Lexer → List Tok → List UInt8 → Prop where
  | eof {l : Lexer} (h : l.currentToken = .eof) : Reads l [] l.cursor
  | token {l : Lexer} {ts : List Tok} {stop : List UInt8} (h : l.currentToken ≠ .eof)
      (rest : Reads (nextToken l) ts stop) : Reads l (l.token :: ts) stop

theorem Reads.nil {l : Lexer} {stop : List UInt8} (h : Reads l [] stop) :
    l.currentToken = .eof ∧ l.cursor = stop := by
  cases h with
  | eof h => exact ⟨h, rfl⟩

theorem Reads.cons {l : Lexer} {t : Tok} {ts : List Tok} {stop : List UInt8}
    (h : Reads l (t :: ts) stop) :
    l.currentToken ≠ .eof ∧ l.token = t ∧ Reads (nextToken l) ts stop := by
  cases h with
  | token hne rest => exact ⟨hne, rfl, rest⟩

/-- The kind of token the lexer is at. -/
theorem Reads.currentToken {l : Lexer} {ts : List Tok} {stop : List UInt8}
    (h : Reads l ts stop) :
    l.currentToken = (ts.head?.map Tok.type).getD .eof := by
  cases h with
  | eof h => exact h
  | token _ _ => exact l.token_type.symm

/-! ## `next_token` reads the cursor only -/

/-- Two lexers at the same place with the same token. -/
structure SameLexer (l l' : Lexer) : Prop where
  cursor : l'.cursor = l.cursor
  currentToken : l'.currentToken = l.currentToken
  token : l'.token = l.token

theorem wordType_cases (w : List UInt8) :
    wordType w = .and ∨ wordType w = .or ∨ wordType w = .not ∨ wordType w = .ident := by
  unfold wordType
  split_ifs
  · exact Or.inl rfl
  · exact Or.inr (Or.inl rfl)
  · exact Or.inr (Or.inr (Or.inl rfl))
  · exact Or.inr (Or.inr (Or.inr rfl))

/-- What holds of every operator of one character and of every pair with `=`. -/
theorem operator_cases {P : TokenType × List UInt8 → Prop} (b : UInt8) (rest : List UInt8)
    (hone : ∀ t, t ≠ .number → t ≠ .string → t ≠ .ident → P (t, rest))
    (htwo : ∀ t, t ≠ .number → t ≠ .string → t ≠ .ident → P (t, rest.tail)) :
    P (operator b rest) := by
  have heq : ∀ one two : TokenType, (one ≠ .number ∧ one ≠ .string ∧ one ≠ .ident) →
      (two ≠ .number ∧ two ≠ .string ∧ two ≠ .ident) → P (withEq one two rest) := by
    intro one two h1 h2
    unfold withEq
    split
    · exact htwo two h2.1 h2.2.1 h2.2.2
    · exact hone one h1.1 h1.2.1 h1.2.2
  unfold operator
  refine iteInduction (fun _ => hone .plus nofun nofun nofun) fun _ => ?_
  refine iteInduction (fun _ => hone .minus nofun nofun nofun) fun _ => ?_
  refine iteInduction (fun _ => hone .star nofun nofun nofun) fun _ => ?_
  refine iteInduction (fun _ => hone .slash nofun nofun nofun) fun _ => ?_
  refine iteInduction (fun _ => hone .percent nofun nofun nofun) fun _ => ?_
  refine iteInduction (fun _ => hone .lparen nofun nofun nofun) fun _ => ?_
  refine iteInduction (fun _ => hone .rparen nofun nofun nofun) fun _ => ?_
  refine iteInduction (fun _ => hone .colon nofun nofun nofun) fun _ => ?_
  refine iteInduction (fun _ => hone .comma nofun nofun nofun) fun _ => ?_
  refine iteInduction (fun _ => heq .eq .eqeq ⟨nofun, nofun, nofun⟩ ⟨nofun, nofun, nofun⟩)
    fun _ => ?_
  refine iteInduction (fun _ => heq .not .ne ⟨nofun, nofun, nofun⟩ ⟨nofun, nofun, nofun⟩)
    fun _ => ?_
  refine iteInduction (fun _ => heq .lt .le ⟨nofun, nofun, nofun⟩ ⟨nofun, nofun, nofun⟩)
    fun _ => ?_
  refine iteInduction (fun _ => heq .gt .ge ⟨nofun, nofun, nofun⟩ ⟨nofun, nofun, nofun⟩)
    fun _ => ?_
  exact hone .eof nofun nofun nofun

/-- An operator carries nothing but its kind. -/
theorem operator_type (b : UInt8) (rest : List UInt8) :
    (operator b rest).1 ≠ .number ∧ (operator b rest).1 ≠ .string ∧
      (operator b rest).1 ≠ .ident :=
  operator_cases (P := fun r => r.1 ≠ .number ∧ r.1 ≠ .string ∧ r.1 ≠ .ident) b rest
    (fun _ hn hs hi => ⟨hn, hs, hi⟩) (fun _ hn hs hi => ⟨hn, hs, hi⟩)

theorem Lexer.token_op {l : Lexer} (hn : l.currentToken ≠ .number) (hs : l.currentToken ≠ .string)
    (hi : l.currentToken ≠ .ident) : l.token = .op l.currentToken := by
  unfold Lexer.token
  split
  · rename_i h
    exact absurd h hn
  · rename_i h
    exact absurd h hs
  · rename_i h
    exact absurd h hi
  · rfl

theorem Lexer.token_of_op {l : Lexer} {t : TokenType} (h : l.currentToken = t) (hn : t ≠ .number)
    (hs : t ≠ .string) (hi : t ≠ .ident) : l.token = .op t := by
  subst h
  exact Lexer.token_op hn hs hi

theorem Lexer.token_number {l : Lexer} (h : l.currentToken = .number) :
    l.token = .number l.tokenNumber := by
  unfold Lexer.token
  rw [h]

theorem Lexer.token_string {l : Lexer} (h : l.currentToken = .string) :
    l.token = .string l.tokenString := by
  unfold Lexer.token
  rw [h]

theorem Lexer.token_ident {l : Lexer} (h : l.currentToken = .ident) :
    l.token = .ident l.tokenIdent := by
  unfold Lexer.token
  rw [h]

/-- A token with a value is of its kind, and the lexer has the value. -/
theorem Lexer.of_token_number {l : Lexer} {v : BitVec 32} (h : l.token = .number v) :
    l.currentToken = .number ∧ l.tokenNumber = v := by
  have ht : l.currentToken = .number := by rw [← l.token_type, h]; rfl
  rw [Lexer.token_number ht] at h
  exact ⟨ht, Tok.number.inj h⟩

theorem Lexer.of_token_ident {l : Lexer} {name : List UInt8} (h : l.token = .ident name) :
    l.currentToken = .ident ∧ l.tokenIdent = name := by
  have ht : l.currentToken = .ident := by rw [← l.token_type, h]; rfl
  rw [Lexer.token_ident ht] at h
  exact ⟨ht, Tok.ident.inj h⟩

theorem tokenAt_congr (l l' : Lexer) (b : UInt8) (rest : List UInt8) :
    SameLexer (tokenAt l b rest) (tokenAt l' b rest) := by
  unfold tokenAt
  split
  · exact ⟨rfl, rfl, rfl⟩
  · split
    · exact ⟨rfl, rfl, rfl⟩
    · split
      · exact ⟨rfl, rfl, rfl⟩
      · split
        · refine ⟨rfl, rfl, ?_⟩
          unfold Lexer.token
          dsimp only
          obtain h | h | h | h := wordType_cases (copyWhile isAlnum 31 (b :: rest)).1 <;> rw [h]
        · obtain ⟨hn, hs, hi⟩ := operator_type b rest
          refine ⟨rfl, rfl, ?_⟩
          rw [Lexer.token_op hn hs hi, Lexer.token_op hn hs hi]

/-- What stands behind the blanks is all that matters. -/
theorem nextToken_congr_skip {l l' : Lexer}
    (h : skipWhitespace l'.cursor = skipWhitespace l.cursor) :
    SameLexer (nextToken l) (nextToken l') := by
  unfold nextToken
  rw [h]
  cases skipWhitespace l.cursor with
  | nil => exact ⟨rfl, rfl, rfl⟩
  | cons b rest => exact tokenAt_congr l l' b rest

theorem nextToken_congr {l l' : Lexer} (h : l'.cursor = l.cursor) :
    SameLexer (nextToken l) (nextToken l') :=
  nextToken_congr_skip (congrArg skipWhitespace h)

theorem Reads.congr {l l' : Lexer} {ts : List Tok} {stop : List UInt8} (h : Reads l ts stop)
    (hs : SameLexer l l') : Reads l' ts stop := by
  induction h generalizing l' with
  | eof h =>
    rw [← hs.cursor]
    exact .eof (hs.currentToken.trans h)
  | token h rest ih =>
    rw [← hs.token]
    exact .token (fun he => h (hs.currentToken.symm.trans he)) (ih (nextToken_congr hs.cursor))

/-! ## The tokenizer advances -/

theorem length_numberLoop_le (s : List UInt8) (v : BitVec 32) :
    (numberLoop s v).2.length ≤ s.length := by
  induction s generalizing v with
  | nil => exact le_refl _
  | cons b s ih =>
    rw [numberLoop]
    split
    · exact (ih _).trans (Nat.le_succ _)
    · exact le_refl _

theorem length_numberLoop_lt {b : UInt8} (hb : isDigit b = true) (s : List UInt8) (v : BitVec 32) :
    (numberLoop (b :: s) v).2.length ≤ s.length := by
  rw [numberLoop, if_pos hb]
  exact length_numberLoop_le s _

theorem length_copyWhile_le (p : UInt8 → Bool) (n : Nat) (s : List UInt8) :
    (copyWhile p n s).2.length ≤ s.length := by
  have h := congrArg List.length (copyWhile_append p n s)
  rw [List.length_append] at h
  omega

theorem length_operator_le (b : UInt8) (rest : List UInt8) :
    (operator b rest).2.length ≤ rest.length :=
  operator_cases (P := fun r => r.2.length ≤ rest.length) b rest
    (fun _ _ _ _ => le_refl _)
    (fun _ _ _ _ => by rw [List.length_tail]; exact Nat.sub_le _ _)

/-- A token that is not the end takes at least its first character. -/
theorem tokenAt_advances (l : Lexer) (b : UInt8) (rest : List UInt8) :
    (tokenAt l b rest).cursor.length ≤ rest.length ∨
      ((tokenAt l b rest).currentToken = .eof ∧ (tokenAt l b rest).cursor = b :: rest) := by
  unfold tokenAt
  split
  · exact Or.inr ⟨rfl, rfl⟩
  · refine Or.inl ?_
    split
    · rename_i hd
      dsimp only
      split
      · exact length_numberLoop_le rest 0
      · rename_i hb
        -- A number without a sign begins with its first digit; with a sign, behind it.
        have hdig : isDigit b = true := hd.resolve_right fun h => hb h.1
        exact length_numberLoop_lt hdig rest 0
    · split
      · dsimp only
        have hle := length_copyWhile_le (fun c => c ≠ 0 ∧ c ≠ b) 63 rest
        split
        · rw [List.length_tail]
          omega
        · exact hle
      · split
        · rename_i ha
          have hal : isAlnum b = true := by
            rw [isAlnum, ha]
            rfl
          dsimp only
          rw [copyWhile, if_pos hal]
          exact length_copyWhile_le isAlnum 30 rest
        · exact length_operator_le b rest

theorem length_skipWhitespace_le (s : List UInt8) : (skipWhitespace s).length ≤ s.length :=
  (List.dropWhile_suffix _).length_le

theorem nextToken_cases (l : Lexer) :
    (nextToken l).cursor.length < l.cursor.length ∨
      ((nextToken l).currentToken = .eof ∧ (nextToken l).cursor.length ≤ l.cursor.length) := by
  have hskip := length_skipWhitespace_le l.cursor
  unfold nextToken
  cases hs : skipWhitespace l.cursor with
  | nil => exact Or.inr ⟨rfl, Nat.zero_le _⟩
  | cons b rest =>
    rw [hs, List.length_cons] at hskip
    obtain h | ⟨he, hc⟩ := tokenAt_advances l b rest
    · exact Or.inl (by dsimp only; omega)
    · refine Or.inr ⟨he, ?_⟩
      dsimp only
      rw [hc, List.length_cons]
      exact hskip

/-- `next_token` behind a token leaves less to go. -/
theorem size_nextToken_lt {l : Lexer} (h : l.currentToken ≠ .eof) :
    (nextToken l).size < l.size := by
  have hl : l.size = l.cursor.length + 1 := by rw [Lexer.size, if_neg h]
  rw [hl, Lexer.size]
  obtain hlt | ⟨he, hle⟩ := nextToken_cases l
  · split
    · omega
    · omega
  · rw [if_pos he]
    omega

theorem size_nextToken_le (l : Lexer) : (nextToken l).size ≤ l.cursor.length := by
  rw [Lexer.size]
  obtain hlt | ⟨he, hle⟩ := nextToken_cases l
  · split
    · omega
    · omega
  · rw [if_pos he]
    exact hle

/-- Every lexer reads some tokens. -/
theorem Reads.exists (l : Lexer) : ∃ ts stop, Reads l ts stop := by
  induction h : l.size using Nat.strong_induction_on generalizing l with
  | _ n ih =>
    subst h
    by_cases he : l.currentToken = .eof
    · exact ⟨[], l.cursor, .eof he⟩
    · obtain ⟨ts, stop, hr⟩ := ih _ (size_nextToken_lt he) (nextToken l) rfl
      exact ⟨l.token :: ts, stop, .token he hr⟩

/-- There are no more tokens than there is text. -/
theorem Reads.length_le {l : Lexer} {ts : List Tok} {stop : List UInt8} (h : Reads l ts stop) :
    ts.length ≤ l.size := by
  induction h with
  | eof h => exact Nat.zero_le _
  | token h rest ih =>
    have hlt := size_nextToken_lt h
    rw [List.length_cons]
    omega

/-! ## Tokens as they are written -/

/-- A token as it is written: its kind and its characters. `next_token` reads one back
from its spelling, if what follows does not join it. -/
inductive Lexeme where
  | number (digits : List UInt8)
  | string (quote : UInt8) (text : List UInt8)
  | word (w : List UInt8)
  /-- An operator of one character. -/
  | op (b : UInt8)
  /-- An operator of two, the second of them `=`. -/
  | opEq (b : UInt8)
  deriving DecidableEq

namespace Lexeme

def spell : Lexeme → List UInt8
  | .number digits => digits
  | .string quote text => quote :: (text ++ [quote])
  | .word w => w
  | .op b => [b]
  | .opEq b => [b, 0x3D]

/-- The token a word is. -/
def wordTok (w : List UInt8) : Tok :=
  if wordType w = .ident then .ident w else .op (wordType w)

/-- The value of a string of digits. -/
def digitsValue (digits : List UInt8) : Nat :=
  digits.foldl (fun v b => 10 * v + (b.toNat - 0x30)) 0

def tok : Lexeme → Tok
  | .number digits => .number (BitVec.ofNat 32 (digitsValue digits))
  | .string _ text => .string text
  | .word w => wordTok w
  | .op b => .op (operator b []).1
  | .opEq b => .op (operator b [0x3D]).1

/-- The operators of one character, and those that `=` makes another operator of. -/
def isOp (b : UInt8) : Prop := b ∈ ascii "+-*/%():,=!<>"

def joinsEq (b : UInt8) : Prop := b ∈ ascii "=!<>"

instance (b : UInt8) : Decidable (isOp b) := inferInstanceAs (Decidable (b ∈ _))

instance (b : UInt8) : Decidable (joinsEq b) := inferInstanceAs (Decidable (b ∈ _))

/-- A name or keyword that fits `token_ident`. -/
structure IsWord (w : List UInt8) : Prop where
  alpha : ∃ b rest, w = b :: rest ∧ isAlpha b = true
  alnum : ∀ b ∈ w, isAlnum b = true
  fits : w.length ≤ 31

/-- What the tokenizer can read as one token: a word or a string is no longer than its buffer. -/
def Wf : Lexeme → Prop
  | .number digits => digits ≠ [] ∧ ∀ b ∈ digits, isDigit b = true
  | .string quote text =>
    (quote = 0x22 ∨ quote = 0x27) ∧ text.length ≤ 63 ∧ ∀ b ∈ text, b ≠ 0 ∧ b ≠ quote
  | .word w => IsWord w
  | .op b => isOp b
  | .opEq b => joinsEq b

/-- The text behind a token does not run into it. A string ends with its quote, so
anything may follow; a `-` must not be followed by a digit, or the two are a number. -/
def Ends : Lexeme → List UInt8 → Prop
  | .number _, s => ∀ b ∈ s.head?, isDigit b = false
  | .string _ _, _ => True
  | .word _, s => ∀ b ∈ s.head?, isAlnum b = false
  | .op b, s => (joinsEq b → s.head? ≠ some 0x3D) ∧ (b = 0x2D → ∀ c ∈ s.head?, isDigit c = false)
  | .opEq _, _ => True

end Lexeme

/-! ## The tokenizer on a token as it is written

What stands behind a token decides where it ends, so each result has a condition on the
rest of the text (`Ends`). The `-` is the one character that is read in two ways. -/

theorem skipWhitespace_append {g s : List UInt8} (hg : ∀ b ∈ g, isBlank b = true)
    (hs : ∀ b ∈ s.head?, isBlank b = false) : skipWhitespace (g ++ s) = s := by
  unfold skipWhitespace
  rw [List.dropWhile_append_of_pos hg]
  cases s with
  | nil => rfl
  | cons b s =>
    have hb : isBlank b = false := hs b rfl
    rw [List.dropWhile_cons_of_neg]
    rw [hb]
    exact Bool.false_ne_true

theorem isAlpha_not_isDigit {b : UInt8} (h : isAlpha b = true) : isDigit b = false := by
  simp only [isAlpha, isDigit, Bool.or_eq_true, Bool.and_eq_true, Bool.and_eq_false_iff,
    decide_eq_true_eq, decide_eq_false_iff_not, UInt8.le_iff_toNat_le, UInt8.reduceToNat,
    ← UInt8.toNat_inj] at h ⊢
  omega

/-- The digits at the cursor are read to the first character that is none. -/
theorem numberLoop_append {digits s : List UInt8} (hd : ∀ b ∈ digits, isDigit b = true)
    (hs : ∀ b ∈ s.head?, isDigit b = false) (n : Nat) :
    numberLoop (digits ++ s) (BitVec.ofNat 32 n) =
      (BitVec.ofNat 32 (digits.foldl (fun v b => 10 * v + (b.toNat - 0x30)) n), s) := by
  induction digits generalizing n with
  | nil =>
    cases s with
    | nil => rfl
    | cons b s =>
      have hb : isDigit b = false := hs b rfl
      rw [List.nil_append, numberLoop, hb]
      rfl
  | cons b digits ih =>
    have hb : isDigit b = true := hd b List.mem_cons_self
    have hv : BitVec.ofNat 32 n * 10 + BitVec.ofNat 32 (b.toNat - 0x30) =
        BitVec.ofNat 32 (10 * n + (b.toNat - 0x30)) := by
      rw [Nat.mul_comm, BitVec.ofNat_add, BitVec.ofNat_mul]
      rfl
    rw [List.cons_append, numberLoop, if_pos hb, hv,
      ih (fun c hc => hd c (List.mem_cons_of_mem b hc))]
    rfl

/-- What `next_token` leaves behind on a token: the text behind it, and the token. -/
structure Scanned (l : Lexer) (t : Tok) (s : List UInt8) : Prop where
  cursor : l.cursor = s
  token : l.token = t
  more : l.currentToken ≠ .eof

theorem tokenAt_number (l : Lexer) {b : UInt8} {digits s : List UInt8}
    (hd : ∀ c ∈ b :: digits, isDigit c = true) (hs : ∀ c ∈ s.head?, isDigit c = false) :
    Scanned (tokenAt l b (digits ++ s)) (Lexeme.number (b :: digits)).tok s := by
  have hb : isDigit b = true := hd b List.mem_cons_self
  have hend : ¬(b = 0 ∨ b = 0x23) := by
    rintro (rfl | rfl)
    · exact absurd hb (by decide)
    · exact absurd hb (by decide)
  have hminus : b ≠ 0x2D := by
    rintro rfl
    exact absurd hb (by decide)
  have hloop : numberLoop (b :: digits ++ s) 0 =
      (BitVec.ofNat 32 (Lexeme.digitsValue (b :: digits)), s) := numberLoop_append hd hs 0
  unfold tokenAt
  rw [if_neg hend, if_pos (Or.inl hb)]
  dsimp only
  rw [if_neg hminus, if_neg hminus, ← List.cons_append, hloop]
  exact ⟨rfl, congrArg Tok.number (BitVec.mul_one _), nofun⟩

/-- A `-` directly before a digit is read with the number. -/
theorem tokenAt_negative (l : Lexer) {digits s : List UInt8} (hne : digits ≠ [])
    (hd : ∀ c ∈ digits, isDigit c = true) (hs : ∀ c ∈ s.head?, isDigit c = false) :
    Scanned (tokenAt l 0x2D (digits ++ s))
      (.number (-BitVec.ofNat 32 (Lexeme.digitsValue digits))) s := by
  have hpeek : isDigit (peek (digits ++ s)) = true := by
    cases digits with
    | nil => exact absurd rfl hne
    | cons b digits => exact hd b List.mem_cons_self
  have hloop : numberLoop (digits ++ s) 0 =
      (BitVec.ofNat 32 (Lexeme.digitsValue digits), s) := numberLoop_append hd hs 0
  unfold tokenAt
  rw [if_neg (by decide), if_pos (Or.inr ⟨rfl, hpeek⟩)]
  dsimp only
  rw [if_pos rfl, if_pos rfl, hloop]
  refine ⟨rfl, congrArg Tok.number ?_, nofun⟩
  rw [BitVec.mul_neg, show (1 : BitVec 32) = 1#32 from rfl, BitVec.mul_one]

theorem tokenAt_string (l : Lexer) {quote : UInt8} {text s : List UInt8}
    (hq : quote = 0x22 ∨ quote = 0x27) (hlen : text.length ≤ 63)
    (ht : ∀ b ∈ text, b ≠ 0 ∧ b ≠ quote) :
    Scanned (tokenAt l quote (text ++ quote :: s)) (.string text) s := by
  have hend : ¬(quote = 0 ∨ quote = 0x23) := by
    obtain rfl | rfl := hq <;> decide
  have hnum : ¬(isDigit quote = true ∨
      (quote = 0x2D ∧ isDigit (peek (text ++ quote :: s)) = true)) := by
    obtain rfl | rfl := hq
    · exact fun h => h.elim (by decide) fun h => absurd h.1 (by decide)
    · exact fun h => h.elim (by decide) fun h => absurd h.1 (by decide)
  have hcopy : copyWhile (fun c => c ≠ 0 ∧ c ≠ quote) 63 (text ++ quote :: s) =
      (text, quote :: s) := by
    refine copyWhile_run (fun b hb => decide_eq_true (ht b hb)) hlen ?_
    intro b hb
    cases hb
    exact decide_eq_false fun h => h.2 rfl
  unfold tokenAt
  rw [if_neg hend, if_neg hnum, if_pos hq]
  dsimp only
  rw [hcopy]
  exact ⟨if_pos rfl, rfl, nofun⟩

theorem wordType_ne (w : List UInt8) :
    wordType w ≠ .number ∧ wordType w ≠ .string ∧ wordType w ≠ .eof := by
  obtain h | h | h | h := wordType_cases w <;> rw [h] <;> exact ⟨nofun, nofun, nofun⟩

theorem tokenAt_word (l : Lexer) {b : UInt8} {w s : List UInt8} (hw : Lexeme.IsWord (b :: w))
    (hs : ∀ c ∈ s.head?, isAlnum c = false) :
    Scanned (tokenAt l b (w ++ s)) (Lexeme.wordTok (b :: w)) s := by
  have hb : isAlpha b = true := by
    obtain ⟨c, rest, hc, ha⟩ := hw.alpha
    cases hc
    exact ha
  -- A letter is none of the bytes that are asked for before it.
  have hend : ¬(b = 0 ∨ b = 0x23) := by
    rintro (rfl | rfl)
    · exact absurd hb (by decide)
    · exact absurd hb (by decide)
  have hnum : ¬(isDigit b = true ∨ (b = 0x2D ∧ isDigit (peek (w ++ s)) = true)) := by
    rintro (h | ⟨rfl, _⟩)
    · exact absurd h (by rw [isAlpha_not_isDigit hb]; exact Bool.false_ne_true)
    · exact absurd hb (by decide)
  have hquote : ¬(b = 0x22 ∨ b = 0x27) := by
    rintro (rfl | rfl)
    · exact absurd hb (by decide)
    · exact absurd hb (by decide)
  have hcopy := copyWhile_run hw.alnum hw.fits hs
  unfold tokenAt
  rw [if_neg hend, if_neg hnum, if_neg hquote, if_pos hb]
  dsimp only
  rw [← List.cons_append, hcopy]
  obtain ⟨hn, hst, he⟩ := wordType_ne (b :: w)
  refine ⟨rfl, ?_, he⟩
  unfold Lexeme.wordTok
  by_cases hi : wordType (b :: w) = .ident
  · rw [if_pos hi]
    unfold Lexer.token
    dsimp only
    rw [hi]
  · rw [if_neg hi]
    exact Lexer.token_op hn hst hi

/-- At an operator, `next_token` is the `switch`. -/
theorem tokenAt_operator (l : Lexer) {b : UInt8} {s : List UInt8} (hb : Lexeme.isOp b)
    (hminus : b = 0x2D → isDigit (peek s) = false) :
    tokenAt l b s = { l with cursor := (operator b s).2, currentToken := (operator b s).1 } := by
  have hall : ∀ b ∈ ascii "+-*/%():,=!<>", ¬(b = 0 ∨ b = 0x23) ∧ isDigit b = false ∧
      ¬(b = 0x22 ∨ b = 0x27) ∧ isAlpha b = false :=
    forall_mem_of_all (by decide)
  obtain ⟨hend, hdig, hquote, halpha⟩ := hall b hb
  have hnum : ¬(isDigit b = true ∨ (b = 0x2D ∧ isDigit (peek s) = true)) := by
    rintro (h | ⟨rfl, h⟩)
    · exact Bool.false_ne_true (hdig.symm.trans h)
    · exact Bool.false_ne_true ((hminus rfl).symm.trans h)
  unfold tokenAt
  rw [if_neg hend, if_neg hnum, if_neg hquote, if_neg (by rw [halpha]; exact Bool.false_ne_true)]

theorem operator_one {b : UInt8} {s : List UInt8} (hb : Lexeme.isOp b)
    (hs : Lexeme.joinsEq b → s.head? ≠ some 0x3D) : operator b s = ((operator b []).1, s) := by
  have hpeek : Lexeme.joinsEq b → peek s ≠ 0x3D := by
    intro hj
    cases s with
    | nil => decide
    | cons c s => exact fun h => hs hj (congrArg some h)
  have hwith : ∀ one two, Lexeme.joinsEq b → withEq one two s = (one, s) :=
    fun _ _ hj => if_neg (hpeek hj)
  simp only [Lexeme.isOp, ascii, String.reduceToList, List.map_cons, List.map_nil, List.mem_cons,
    List.not_mem_nil, or_false] at hb
  obtain rfl | rfl | rfl | rfl | rfl | rfl | rfl | rfl | rfl | rfl | rfl | rfl | rfl := hb
  all_goals first
    | rfl
    | exact hwith _ _ (by decide)

theorem operator_two {b : UInt8} {s : List UInt8} (hb : Lexeme.joinsEq b) :
    operator b (0x3D :: s) = ((operator b [0x3D]).1, s) := by
  simp only [Lexeme.joinsEq, ascii, String.reduceToList, List.map_cons, List.map_nil,
    List.mem_cons, List.not_mem_nil, or_false] at hb
  obtain rfl | rfl | rfl | rfl := hb <;> rfl

/-- Blanks are skipped. -/
theorem nextToken_blanks {l : Lexer} {g rest : List UInt8} {b : UInt8}
    (hg : ∀ c ∈ g, isBlank c = true) (hb : isBlank b = false) (hl : l.cursor = g ++ b :: rest) :
    nextToken l = tokenAt l b rest := by
  have hskip : skipWhitespace (g ++ b :: rest) = b :: rest :=
    skipWhitespace_append hg fun c hc => by cases hc; exact hb
  unfold nextToken
  rw [hl, hskip]

theorem nextToken_end {l : Lexer} (hl : ∀ c ∈ l.cursor, isBlank c = true) :
    (nextToken l).currentToken = .eof ∧ (nextToken l).cursor = [] := by
  have hskip : skipWhitespace l.cursor = [] := by
    have h := skipWhitespace_append (s := []) hl nofun
    rwa [List.append_nil] at h
  unfold nextToken
  rw [hskip]
  exact ⟨rfl, rfl⟩

theorem isDigit_not_isBlank {b : UInt8} (h : isDigit b = true) : isBlank b = false := by
  refine Bool.eq_false_iff.mpr fun hb => ?_
  simp only [isBlank, Bool.or_eq_true, decide_eq_true_eq] at hb
  obtain rfl | rfl := hb
  · exact absurd h (by decide)
  · exact absurd h (by decide)

theorem isAlpha_not_isBlank {b : UInt8} (h : isAlpha b = true) : isBlank b = false := by
  refine Bool.eq_false_iff.mpr fun hb => ?_
  simp only [isBlank, Bool.or_eq_true, decide_eq_true_eq] at hb
  obtain rfl | rfl := hb
  · exact absurd h (by decide)
  · exact absurd h (by decide)

theorem isOp_not_isBlank {b : UInt8} (h : Lexeme.isOp b) : isBlank b = false := by
  have hall : ∀ b ∈ ascii "+-*/%():,=!<>", isBlank b = false :=
    forall_mem_of_all (by decide)
  exact hall b h

theorem Lexeme.joinsEq.isOp {b : UInt8} (h : Lexeme.joinsEq b) : Lexeme.isOp b := by
  have hall : ∀ b ∈ ascii "=!<>", Lexeme.isOp b :=
    forall_mem_of_all (by decide)
  exact hall b h

theorem peek_of_head {s : List UInt8} (hs : ∀ c ∈ s.head?, isDigit c = false) :
    isDigit (peek s) = false := by
  cases s with
  | nil => rfl
  | cons c s => exact hs c rfl

/-- **One token.** Behind blanks, `next_token` reads a token as it is written, and no
further. `Ends` is the condition on what stands behind it: a digit behind a number, say,
would be part of the number. -/
theorem nextToken_lexeme (l : Lexer) {g s : List UInt8} {x : Lexeme}
    (hg : ∀ b ∈ g, isBlank b = true) (hx : x.Wf) (hs : x.Ends s)
    (hl : l.cursor = g ++ (x.spell ++ s)) : Scanned (nextToken l) x.tok s := by
  cases x with
  | number digits =>
    -- In each case the spelling begins with a byte that is no blank, so the blanks are
    -- skipped and the token begins there.
    obtain ⟨hne, hd⟩ := hx
    cases digits with
    | nil => exact absurd rfl hne
    | cons b digits =>
      rw [nextToken_blanks hg (isDigit_not_isBlank (hd b List.mem_cons_self)) hl]
      exact tokenAt_number l hd hs
  | string quote text =>
    obtain ⟨hq, hlen, ht⟩ := hx
    have hb : isBlank quote = false := by
      obtain rfl | rfl := hq <;> rfl
    have hcur : l.cursor = g ++ quote :: (text ++ quote :: s) := by
      rw [hl, Lexeme.spell, List.cons_append, List.append_assoc]
      rfl
    rw [nextToken_blanks hg hb hcur]
    exact tokenAt_string l hq hlen ht
  | word w =>
    obtain ⟨b, rest, rfl, hb⟩ := hx.alpha
    rw [nextToken_blanks hg (isAlpha_not_isBlank hb) hl]
    exact tokenAt_word l hx hs
  | op b =>
    have hone := operator_one hx hs.1
    have hcur : l.cursor = g ++ b :: s := hl
    rw [nextToken_blanks hg (isOp_not_isBlank hx) hcur, tokenAt_operator l hx
      fun h => peek_of_head (hs.2 h), hone]
    have htype := operator_type b []
    refine ⟨rfl, Lexer.token_op htype.1 htype.2.1 htype.2.2, ?_⟩
    have hall : ∀ b ∈ ascii "+-*/%():,=!<>", (operator b []).1 ≠ .eof :=
      forall_mem_of_all (by decide)
    exact hall b hx
  | opEq b =>
    have hb := Lexeme.joinsEq.isOp hx
    have htwo : operator b (0x3D :: s) = ((operator b [0x3D]).1, s) := operator_two hx
    have hcur : l.cursor = g ++ b :: 0x3D :: s := hl
    rw [nextToken_blanks hg (isOp_not_isBlank hb) hcur, tokenAt_operator l hb fun _ => rfl, htwo]
    have htype := operator_type b [0x3D]
    refine ⟨rfl, Lexer.token_op htype.1 htype.2.1 htype.2.2, ?_⟩
    have hall : ∀ b ∈ ascii "=!<>", (operator b [0x3D]).1 ≠ .eof :=
      forall_mem_of_all (by decide)
    exact hall b hx

/-- A `-` directly before a number is one token with it. -/
theorem nextToken_negative (l : Lexer) {g s digits : List UInt8}
    (hg : ∀ b ∈ g, isBlank b = true) (hx : (Lexeme.number digits).Wf)
    (hs : (Lexeme.number digits).Ends s) (hl : l.cursor = g ++ (0x2D :: (digits ++ s))) :
    Scanned (nextToken l) (.number (-BitVec.ofNat 32 (Lexeme.digitsValue digits))) s := by
  rw [nextToken_blanks hg rfl hl]
  exact tokenAt_negative l hx.1 hx.2 hs

end OsU
