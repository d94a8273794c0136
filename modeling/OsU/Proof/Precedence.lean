import OsU.Proof.Parsing
import OsU.Proof.Rendering

/-!
# Expressions mean what they say

An expression is written with parentheses where the precedence of the operators asks for
them, and `parse_expr` gives it its value. The argument goes by the tree, and for each
tree through the levels. `Full d t` is the wish: level `d` reads the tree, as it is
written at that level, up to a token that does not go on with it. A left operand is read
by the loop it is the start of, so it needs `Loop d t`: behind the tree, the loop is
left with its value.

The six levels of the source are one definition with a parameter, and so are the two
statements about them. A tree that is tighter than a level climbs to it (`Full.climb`),
since the levels between do not find their operators behind it; a tree that is looser
stands in parentheses, and is read by `parse_primary`.

Trees are not parsed text but a syntax of their own, with a value that is defined by
recursion on it. The text of a tree is one of its texts, with a blank between any two
tokens; which other texts have the same value is the subject of `Spacing`.
-/

set_option autoImplicit false

namespace OsU

open CString

/-! ## Trees -/

inductive BinOp where
  | mul | div | mod
  | add | sub
  | lt | gt | le | ge | eq | ne
  | and
  | or
  deriving DecidableEq

namespace BinOp

/-- The precedence, tightest first. -/
def level : BinOp → Nat
  | mul | div | mod => 0
  | add | sub => 1
  | lt | gt | le | ge | eq | ne => 2
  | and => 3
  | or => 4

/-- How the operator is written. -/
def lexeme : BinOp → Lexeme
  | mul => .op 0x2A
  | div => .op 0x2F
  | mod => .op 0x25
  | add => .op 0x2B
  | sub => .op 0x2D
  | lt => .op 0x3C
  | gt => .op 0x3E
  | le => .opEq 0x3C
  | ge => .opEq 0x3E
  | eq => .opEq 0x3D
  | ne => .opEq 0x21
  | and => .word (ascii "and")
  | or => .word (ascii "or")

/-- The operator on 32-bit numbers; what divides by zero is zero. Comparisons are of
signed numbers, and every truth value is 1 or 0. -/
def apply : BinOp → BitVec 32 → BitVec 32 → BitVec 32
  | mul, x, y => x * y
  | div, x, y => if y = 0 then 0 else x.sdiv y
  | mod, x, y => if y = 0 then 0 else x.srem y
  | add, x, y => x + y
  | sub, x, y => x - y
  | lt, x, y => if x.toInt < y.toInt then 1 else 0
  | gt, x, y => if y.toInt < x.toInt then 1 else 0
  | le, x, y => if x.toInt ≤ y.toInt then 1 else 0
  | ge, x, y => if y.toInt ≤ x.toInt then 1 else 0
  | eq, x, y => if x = y then 1 else 0
  | ne, x, y => if x ≠ y then 1 else 0
  | and, x, y => if x ≠ 0 ∧ y ≠ 0 then 1 else 0
  | or, x, y => if x ≠ 0 ∨ y ≠ 0 then 1 else 0

end BinOp

/-- An expression. Literals are natural numbers, a sign is a node of its own; there are
no parentheses, the text is given those it needs. -/
inductive Expr where
  | lit (n : Nat)
  | var (name : List UInt8)
  | neg (x : Expr)
  | not (x : Expr)
  | bin (op : BinOp) (x y : Expr)

/-- `n` in decimal. -/
def decimal (n : Nat) : List UInt8 :=
  if n < 10 then [UInt8.ofNat (0x30 + n)]
  else decimal (n / 10) ++ [UInt8.ofNat (0x30 + n % 10)]

/-- A name of a variable, of any length. -/
structure IsVarName (name : List UInt8) : Prop where
  alpha : ∃ b rest, name = b :: rest ∧ isAlpha b = true
  alnum : ∀ b ∈ name, isAlnum b = true
  not_keyword : name ∉ [ascii "and", ascii "or", ascii "not"]

namespace Expr

/-- The loosest level the tree stands at without parentheses. -/
def loose : Expr → Nat
  | bin op _ _ => op.level + 1
  | _ => 0

/-- Parentheses around `xs`, if they are needed. -/
def parens (needed : Prop) [Decidable needed] (xs : List Lexeme) : List Lexeme :=
  if needed then .op 0x28 :: (xs ++ [.op 0x29]) else xs

/-- The tokens of the tree where level `d` is read. -/
def lexemes : Expr → Nat → List Lexeme
  | lit n, _ => [.number (decimal n)]
  | var name, _ => [.word name]
  | neg x, _ => .op 0x2D :: x.lexemes 0
  | not x, _ => .word (ascii "not") :: x.lexemes 0
  | bin op x y, d =>
    parens (d < op.level + 1) (x.lexemes (op.level + 1) ++ op.lexeme :: y.lexemes op.level)

/-- The tree as it is written: one blank between two tokens. -/
def text (t : Expr) : List UInt8 := [0x20].intercalate ((t.lexemes 5).map Lexeme.spell)

/-- The value, given the values of the variables. -/
def value (env : List UInt8 → BitVec 32) : Expr → BitVec 32
  | lit n => BitVec.ofNat 32 n
  | var name => env name
  | neg x => -x.value env
  | not x => if x.value env = 0 then 1 else 0
  | bin op x y => op.apply (x.value env) (y.value env)

/-- Literals are non-negative `int32_t`, and `P` holds of the names. -/
def Over (P : List UInt8 → Prop) : Expr → Prop
  | lit n => n < 2 ^ 31
  | var name => P name
  | neg x => x.Over P
  | not x => x.Over P
  | bin _ x y => x.Over P ∧ y.Over P

end Expr

/-- A name that `token_ident` holds. -/
def FitsIdent (name : List UInt8) : Prop := IsVarName name ∧ name.length ≤ 31

/-! ## How trees are written -/

theorem isDigit_ofNat {k : Nat} (h : k < 10) : isDigit (UInt8.ofNat (0x30 + k)) = true := by
  have hall : ∀ k < 10, isDigit (UInt8.ofNat (0x30 + k)) = true := by decide
  exact hall k h

theorem toNat_digit {k : Nat} (h : k < 10) : (UInt8.ofNat (0x30 + k)).toNat - 0x30 = k := by
  have hall : ∀ k < 10, (UInt8.ofNat (0x30 + k)).toNat - 0x30 = k := by decide
  exact hall k h

theorem decimal_wf (n : Nat) : (Lexeme.number (decimal n)).Wf := by
  induction n using decimal.induct with
  | case1 n h =>
    rw [decimal, if_pos h]
    exact ⟨List.cons_ne_nil _ _, List.forall_mem_singleton.mpr (isDigit_ofNat h)⟩
  | case2 n h ih =>
    rw [decimal, if_neg h]
    refine ⟨List.append_ne_nil_of_right_ne_nil _ (List.cons_ne_nil _ _), ?_⟩
    intro b hb
    obtain hb | hb := List.mem_append.mp hb
    · exact ih.2 b hb
    · rw [List.mem_singleton.mp hb]
      exact isDigit_ofNat (Nat.mod_lt n (by omega))

/-- The tokenizer reads in decimal what is written in decimal. -/
theorem digitsValue_decimal (n : Nat) : Lexeme.digitsValue (decimal n) = n := by
  induction n using decimal.induct with
  | case1 n h =>
    rw [decimal, if_pos h, Lexeme.digitsValue, List.foldl_cons, List.foldl_nil, toNat_digit h]
    omega
  | case2 n h ih =>
    have hfold : Lexeme.digitsValue (decimal (n / 10) ++ [UInt8.ofNat (0x30 + n % 10)]) =
        10 * Lexeme.digitsValue (decimal (n / 10)) +
          ((UInt8.ofNat (0x30 + n % 10)).toNat - 0x30) := List.foldl_append
    rw [decimal, if_neg h, hfold, ih, toNat_digit (Nat.mod_lt n (by omega))]
    omega

theorem wordTok_of_isVarName {name : List UInt8} (h : IsVarName name) :
    Lexeme.wordTok name = .ident name := by
  have hw : wordType name = .ident := by
    have hk := h.not_keyword
    simp only [List.mem_cons, List.not_mem_nil, or_false, not_or] at hk
    rw [wordType, if_neg hk.1, if_neg hk.2.1, if_neg hk.2.2]
  rw [Lexeme.wordTok, if_pos hw]

theorem FitsIdent.isWord {name : List UInt8} (h : FitsIdent name) : Lexeme.IsWord name :=
  ⟨h.1.alpha, h.1.alnum, h.2⟩

theorem keyword_wf {w : List UInt8} (h : w ∈ [ascii "and", ascii "or", ascii "not"]) :
    (Lexeme.word w).Wf := by
  simp only [List.mem_cons, List.not_mem_nil, or_false] at h
  obtain rfl | rfl | rfl := h
  · exact ⟨⟨_, _, rfl, by decide⟩, forall_mem_of_all (by decide), by decide⟩
  · exact ⟨⟨_, _, rfl, by decide⟩, forall_mem_of_all (by decide), by decide⟩
  · exact ⟨⟨_, _, rfl, by decide⟩, forall_mem_of_all (by decide), by decide⟩

theorem BinOp.lexeme_wf (op : BinOp) : op.lexeme.Wf := by
  cases op with
  | and => exact keyword_wf (by decide)
  | or => exact keyword_wf (by decide)
  | lt => exact (by decide : Lexeme.isOp 0x3C)
  | gt => exact (by decide : Lexeme.isOp 0x3E)
  | le => exact (by decide : Lexeme.joinsEq 0x3C)
  | ge => exact (by decide : Lexeme.joinsEq 0x3E)
  | eq => exact (by decide : Lexeme.joinsEq 0x3D)
  | ne => exact (by decide : Lexeme.joinsEq 0x21)
  | mul => exact (by decide : Lexeme.isOp 0x2A)
  | div => exact (by decide : Lexeme.isOp 0x2F)
  | mod => exact (by decide : Lexeme.isOp 0x25)
  | add => exact (by decide : Lexeme.isOp 0x2B)
  | sub => exact (by decide : Lexeme.isOp 0x2D)

theorem Expr.forall_mem_parens {P : Lexeme → Prop} {needed : Prop} [Decidable needed]
    {xs : List Lexeme} (hl : P (.op 0x28)) (hr : P (.op 0x29)) (hxs : ∀ x ∈ xs, P x) :
    ∀ x ∈ parens needed xs, P x := by
  unfold parens
  split
  · refine List.forall_mem_cons.mpr ⟨hl, List.forall_mem_append.mpr ⟨hxs, ?_⟩⟩
    exact List.forall_mem_singleton.mpr hr
  · exact hxs

theorem Expr.lexemes_wf {t : Expr} (ht : t.Over FitsIdent) (d : Nat) :
    ∀ x ∈ t.lexemes d, x.Wf := by
  induction t generalizing d with
  | lit n => exact List.forall_mem_singleton.mpr (decimal_wf n)
  | var name => exact List.forall_mem_singleton.mpr ht.isWord
  | neg x ih =>
    exact List.forall_mem_cons.mpr ⟨(by decide : Lexeme.isOp 0x2D), ih ht 0⟩
  | not x ih =>
    exact List.forall_mem_cons.mpr ⟨keyword_wf (by decide), ih ht 0⟩
  | bin op x y ihx ihy =>
    have hl : Lexeme.isOp 0x28 := by decide
    have hr : Lexeme.isOp 0x29 := by decide
    refine Expr.forall_mem_parens hl hr ?_
    refine List.forall_mem_append.mpr ⟨ihx ht.1 _, ?_⟩
    exact List.forall_mem_cons.mpr ⟨op.lexeme_wf, ihy ht.2 _⟩

theorem Expr.lexemes_ne_nil (t : Expr) (d : Nat) : t.lexemes d ≠ [] := by
  cases t with
  | lit n => exact List.cons_ne_nil _ _
  | var name => exact List.cons_ne_nil _ _
  | neg x => exact List.cons_ne_nil _ _
  | not x => exact List.cons_ne_nil _ _
  | bin op x y =>
    rw [lexemes, parens]
    split
    · exact List.cons_ne_nil _ _
    · exact List.append_ne_nil_of_right_ne_nil _ (List.cons_ne_nil _ _)

/-- Text with one blank between two tokens, as a rendering. -/
def spread : List Lexeme → List Item
  | [] => []
  | x :: xs => ([], x) :: xs.map fun y => ([0x20], y)

theorem render_spread (xs : List Lexeme) :
    render (spread xs) [] = [0x20].intercalate (xs.map Lexeme.spell) := by
  cases xs with
  | nil => rfl
  | cons x xs =>
    have hrest : ∀ x : Lexeme, x.spell ++ render (xs.map fun y => ([0x20], y)) [] =
        [0x20].intercalate ((x :: xs).map Lexeme.spell) := by
      induction xs with
      | nil =>
        intro x
        rw [List.map_nil, render, List.append_nil]
        simp [List.intercalate]
      | cons y ys ih =>
        intro x
        rw [List.map_cons, render, ih y]
        simp [List.intercalate]
    exact hrest x

/-- The tokenizer reads a tree as it is written. -/
theorem Expr.reads_text {t : Expr} (ht : t.Over FitsIdent) (l : Lexer) (hl : l.cursor = t.text) :
    Reads (nextToken l) ((t.lexemes 5).map Lexeme.tok) [] := by
  have hwf := Expr.lexemes_wf ht 5
  rw [text, ← render_spread] at hl
  cases hxs : t.lexemes 5 with
  | nil => exact absurd hxs (t.lexemes_ne_nil 5)
  | cons x xs =>
    rw [hxs] at hl hwf
    have hne : ∀ j ∈ xs.map fun y => (([0x20], y) : Item), j.1 = [0x20] := by
      intro j hj
      obtain ⟨y, _, rfl⟩ := List.mem_map.mp hj
      rfl
    have hs : Spaced (spread (x :: xs)) := by
      refine spaced_of_blanks ?_ (fun b hb => absurd hb List.not_mem_nil) hne
      intro j hj
      obtain rfl | hj := List.mem_cons.mp hj
      · exact hwf x List.mem_cons_self
      · obtain ⟨y, hy, rfl⟩ := List.mem_map.mp hj
        exact hwf y (List.mem_cons_of_mem x hy)
    have hr := reads_render hs (fun b hb => absurd hb List.not_mem_nil) l hl
    rw [spread, seen_of_blanks fun j hj => by rw [hne j hj]; exact List.cons_ne_nil _ _] at hr
    rw [List.map_cons, List.map_map] at hr
    exact hr

/-! ## One level and the next -/

/-- The tokens the parser is at, in the values `env` of the variables. -/
structure Ready (env : List UInt8 → BitVec 32) (ts : List Tok) (stop : List UInt8) (e : Eval) :
    Prop where
  reads : Reads e.lex ts stop
  env : ∀ name, varValue e name = env name

/-- The kind of token `ts` begins with. -/
def headType (ts : List Tok) : TokenType := (ts.head?.map Tok.type).getD .eof

/-- What stands behind an expression of level `d`: no call, and no operator of a level up to `d`. -/
structure Follows (d : Nat) (rest : List Tok) : Prop where
  no_call : headType rest ≠ .lparen
  no_op : ∀ i < d, levelIsOp i (headType rest) = false

/-- `p` reads `ts`, in front of `rest`, and returns `v`. -/
def Returns (env : List UInt8 → BitVec 32) (p : Parse) (ts : List Tok) (v : BitVec 32)
    (rest : List Tok) : Prop :=
  ∀ stop e r, Ready env (ts ++ rest) stop e → p e = some r → r.1 = v ∧ Ready env rest stop r.2

/-- The tokens of the tree where level `d` is read. -/
def Expr.toks (t : Expr) (d : Nat) : List Tok := (t.lexemes d).map Lexeme.tok

namespace Ready

variable {env : List UInt8 → BitVec 32} {stop : List UInt8} {e : Eval}

theorem tok {ts : List Tok} (h : Ready env ts stop e) : e.tok = headType ts :=
  h.reads.currentToken

theorem token {t : Tok} {ts : List Tok} (h : Ready env (t :: ts) stop e) : e.lex.token = t :=
  h.reads.cons.2.1

theorem next {t : Tok} {ts : List Tok} (h : Ready env (t :: ts) stop e) :
    Ready env ts stop e.next := ⟨h.reads.cons.2.2, h.env⟩

theorem op {ts : List Tok} (h : Ready env ts stop e) (d : Nat) (t : TokenType)
    (left right : BitVec 32) : Ready env ts stop (levelOp d t left right e).2 := by
  constructor
  · rw [levelOp_lex]
    exact h.reads
  · intro name
    rw [(SameVars.moves.op d t left right e).varValue, h.env]

end Ready

variable {env : List UInt8 → BitVec 32}

/-- Level `d` reads the tree, as it is written there. -/
def Full (env : List UInt8 → BitVec 32) (d : Nat) (t : Expr) : Prop :=
  ∀ n m rest, Follows d rest →
    Returns env (level (parsers n).1 m d) (t.toks d) (t.value env) rest

/-- Behind the tree, the loop of level `d` is left with its value. -/
def Loop (env : List UInt8 → BitVec 32) (d : Nat) (t : Expr) : Prop :=
  ∀ n m rest, Follows d rest → ∀ stop e r, Ready env (t.toks (d + 1) ++ rest) stop e →
    level (parsers n).1 m (d + 1) e = some r →
    ∃ k e', Ready env rest stop e' ∧
      levelLoop (levelIsOp d) (levelOp d) (level (parsers n).1 m d) k (t.value env) e' = some r

theorem Follows.mono {d d' : Nat} {rest : List Tok} (h : Follows d' rest) (hd : d ≤ d') :
    Follows d rest := ⟨h.no_call, fun i hi => h.no_op i (by omega)⟩

/-- A tree that stands at the tighter level starts a loop. -/
theorem Full.loop {d : Nat} {t : Expr} (h : Full env d t) (hts : t.toks (d + 1) = t.toks d) :
    Loop env d t := by
  intro n m rest hf stop e r hr hp
  rw [hts] at hr
  obtain ⟨s, hs, hloop⟩ := Option.bind_eq_some_iff.mp hp
  obtain ⟨hv, hs'⟩ := h n m rest hf stop e s hr hs
  rw [hv] at hloop
  exact ⟨m, s.2, hs', hloop⟩

/-- A loop ends where no operator of its level follows. -/
theorem Loop.full {d : Nat} {t : Expr} (h : Loop env d t) : Full env (d + 1) t := by
  intro n m rest hf stop e r hr hp
  obtain ⟨k, e', he', hloop⟩ := h n m rest (hf.mono d.le_succ) stop e r hr hp
  cases k with
  | zero => exact absurd hloop nofun
  | succ k =>
    have hop : levelIsOp d e'.tok = false := by
      rw [he'.tok]
      exact hf.no_op d d.lt_succ_self
    rw [levelLoop, hop] at hloop
    cases hloop
    exact ⟨rfl, he'⟩

/-- From a level on, as long as the tree is written alike. -/
theorem Full.climb {t : Expr} {d d' : Nat} (h : Full env d t) (hd : d ≤ d')
    (hts : ∀ i, d ≤ i → i ≤ d' → t.toks i = t.toks d) : Full env d' t := by
  induction d' with
  | zero => exact Nat.le_zero.mp hd ▸ h
  | succ d' ih =>
    obtain rfl | hlt := hd.eq_or_lt
    · exact h
    · have hd' : d ≤ d' := Nat.lt_succ_iff.mp hlt
      have hf := ih hd' fun i hi hi' => hts i hi (by omega)
      have heq : t.toks (d' + 1) = t.toks d' := by
        rw [hts (d' + 1) hd (le_refl _), hts d' hd' (by omega)]
      exact (hf.loop heq).full

/-! ## The operators -/

theorem truth_eq (p : Prop) [Decidable p] : truth (decide p) = if p then 1 else 0 := by
  unfold truth
  by_cases hp : p
  · rw [if_pos hp, if_pos (decide_eq_true hp)]
  · rw [if_neg hp, if_neg (by rw [decide_eq_false hp]; exact Bool.false_ne_true)]

theorem BinOp.isOp (op : BinOp) : levelIsOp op.level op.lexeme.tok.type = true := by
  cases op <;> decide

theorem BinOp.not_isOp (op : BinOp) : ∀ i < op.level, levelIsOp i op.lexeme.tok.type = false := by
  cases op <;> decide

theorem BinOp.not_call (op : BinOp) : op.lexeme.tok.type ≠ .lparen := by
  cases op <;> decide

/-- The source's operators on two numbers. -/
theorem BinOp.levelOp_eq (op : BinOp) (x y : BitVec 32) (e : Eval) :
    (levelOp op.level op.lexeme.tok.type x y e).1 = op.apply x y := by
  have hslt : ∀ x y : BitVec 32, truth (x.slt y) = if x.toInt < y.toInt then 1 else 0 :=
    fun x y => truth_eq (x.toInt < y.toInt)
  have hsle : ∀ x y : BitVec 32, truth (x.sle y) = if x.toInt ≤ y.toInt then 1 else 0 :=
    fun x y => truth_eq (x.toInt ≤ y.toInt)
  cases op with
  | mul => rfl
  | div =>
    change (if y ≠ 0 then _ else _ : BitVec 32 × Eval).1 = if y = 0 then 0 else x.sdiv y
    by_cases hy : y = 0
    · rw [if_neg (not_not.mpr hy), if_pos hy]
    · rw [if_pos hy, if_neg hy]
  | mod =>
    change (if y ≠ 0 then _ else _ : BitVec 32 × Eval).1 = if y = 0 then 0 else x.srem y
    by_cases hy : y = 0
    · rw [if_neg (not_not.mpr hy), if_pos hy]
    · rw [if_pos hy, if_neg hy]
  | add => rfl
  | sub => rfl
  | lt => exact hslt x y
  | gt => exact hslt y x
  | le => exact hsle x y
  | ge => exact hsle y x
  | eq => exact truth_eq _
  | ne => exact truth_eq _
  | and => exact truth_eq _
  | or => exact truth_eq _

/-- A left operand, an operator and a right operand. The left one is read by the same
loop that then sees the operator, which is why operators of a level associate to the
left. -/
theorem Loop.bin {op : BinOp} {x y : Expr} (hx : Loop env op.level x) (hy : Full env op.level y) :
    Loop env op.level (.bin op x y) := by
  intro n m rest hf stop e r hr hp
  have hts : (Expr.bin op x y).toks (op.level + 1) =
      x.toks (op.level + 1) ++ op.lexeme.tok :: y.toks op.level := by
    rw [Expr.toks, Expr.lexemes, Expr.parens, if_neg (lt_irrefl _), List.map_append, List.map_cons]
    rfl
  rw [hts, List.append_assoc, List.cons_append] at hr
  have hop : Follows op.level (op.lexeme.tok :: (y.toks op.level ++ rest)) :=
    ⟨op.not_call, op.not_isOp⟩
  obtain ⟨k, e', he', hloop⟩ := hx n m _ hop stop e r hr hp
  cases k with
  | zero => exact absurd hloop nofun
  | succ k =>
    have htok : e'.tok = op.lexeme.tok.type := he'.tok
    rw [levelLoop, htok, if_pos op.isOp] at hloop
    obtain ⟨s, hs, hrest⟩ := Option.bind_eq_some_iff.mp hloop
    obtain ⟨hv, hs'⟩ := hy n m rest hf stop _ s he'.next hs
    rw [hv] at hrest
    refine ⟨k, _, hs'.op op.level op.lexeme.tok.type (x.value env) (y.value env), ?_⟩
    rw [Expr.value, ← BinOp.levelOp_eq op _ _ s.2]
    exact hrest

/-! ## Operands -/

/-- Level 0 is `parse_primary`. -/
theorem full_zero {t : Expr} (h : ∀ n rest, Follows 0 rest →
      Returns env (parsePrimary (parsers n).1 (parsers n).2) (t.toks 0) (t.value env) rest) :
    Full env 0 t := by
  intro n m rest hf
  cases n with
  | zero => exact fun _ _ _ _ hp => absurd hp nofun
  | succ n => exact h n rest hf

theorem full_lit (n : Nat) : Full env 0 (.lit n) := by
  refine full_zero fun k rest _ stop e r hr hp => ?_
  have hts : (Expr.lit n).toks 0 = [.number (BitVec.ofNat 32 n)] := by
    rw [Expr.toks, Expr.lexemes, List.map_singleton, Lexeme.tok, digitsValue_decimal]
  rw [hts, List.singleton_append] at hr
  obtain ⟨ht, hv⟩ := Lexer.of_token_number hr.token
  rw [parsePrimary_number ht] at hp
  cases hp
  exact ⟨hv, hr.next⟩

theorem full_var {name : List UInt8} (hname : IsVarName name) : Full env 0 (.var name) := by
  refine full_zero fun k rest hf stop e r hr hp => ?_
  have hts : (Expr.var name).toks 0 = [.ident name] := by
    rw [Expr.toks, Expr.lexemes, List.map_singleton, Lexeme.tok, wordTok_of_isVarName hname]
  rw [hts, List.singleton_append] at hr
  obtain ⟨ht, hv⟩ := Lexer.of_token_ident hr.token
  have hn : e.next.tok ≠ .lparen := by
    rw [hr.next.tok]
    exact hf.no_call
  rw [parsePrimary_var ht hn] at hp
  cases hp
  exact ⟨by rw [hv]; exact hr.env name, hr.next⟩

theorem full_neg {x : Expr} (hx : Full env 0 x) : Full env 0 (.neg x) := by
  refine full_zero fun n rest hf stop e r hr hp => ?_
  have ht : e.tok = .minus := hr.tok
  rw [parsePrimary_minus ht] at hp
  obtain ⟨s, hs, rfl⟩ := Option.map_eq_some_iff.mp hp
  obtain ⟨hv, hs'⟩ := hx n n rest hf stop _ s hr.next hs
  exact ⟨congrArg (-·) hv, hs'⟩

theorem full_not {x : Expr} (hx : Full env 0 x) : Full env 0 (.not x) := by
  refine full_zero fun n rest hf stop e r hr hp => ?_
  have ht : e.tok = .not := hr.tok
  rw [parsePrimary_not ht] at hp
  obtain ⟨s, hs, rfl⟩ := Option.map_eq_some_iff.mp hp
  obtain ⟨hv, hs'⟩ := hx n n rest hf stop _ s hr.next hs
  refine ⟨?_, hs'⟩
  dsimp only
  rw [truth_eq, hv]
  rfl

/-- In parentheses, any tree stands where an operand does. -/
theorem full_paren {t : Expr} (h : Full env 5 t)
    (hts : t.toks 0 = .op .lparen :: (t.toks 5 ++ [.op .rparen])) : Full env 0 t := by
  refine full_zero fun n rest _ stop e r hr hp => ?_
  rw [hts, List.cons_append, List.append_assoc, List.singleton_append] at hr
  have ht : e.tok = .lparen := hr.tok
  rw [parsePrimary_paren ht] at hp
  obtain ⟨s, hs, rfl⟩ := Option.map_eq_some_iff.mp hp
  have hf : Follows 5 (.op .rparen :: rest) := by
    refine ⟨nofun, fun i hi => ?_⟩
    have hall : ∀ i < 5, levelIsOp i .rparen = false := by decide
    exact hall i hi
  cases n with
  | zero => exact absurd hs nofun
  | succ n =>
    obtain ⟨hv, hs'⟩ := h (n + 1) (n + 1) _ hf stop _ s hr.next hs
    have hclose : closeParen s.2 = s.2.next := if_pos hs'.tok
    rw [hclose]
    exact ⟨hv, hs'.next⟩

/-! ## The tree -/

theorem BinOp.level_lt (op : BinOp) : op.level < 5 := by
  cases op <;> decide

/-- Where the tree stands without parentheses, it is written alike. -/
theorem Expr.toks_bare {t : Expr} {d : Nat} (h : t.loose ≤ d) : t.toks d = t.toks t.loose := by
  cases t with
  | bin op x y =>
    rw [loose] at h
    rw [toks, toks, lexemes, lexemes, loose, parens, parens, if_neg (by omega),
      if_neg (lt_irrefl _)]
  | _ => rfl

theorem Expr.toks_parens {op : BinOp} {x y : Expr} {d : Nat} (h : d ≤ op.level) :
    (bin op x y).toks d =
      .op .lparen :: ((bin op x y).toks (op.level + 1) ++ [.op .rparen]) := by
  rw [toks, toks, lexemes, lexemes, parens, parens, if_pos (by omega), if_neg (lt_irrefl _),
    List.map_cons, List.map_append]
  rfl

/-- An operand stands at every level. -/
theorem full_of_atom {t : Expr} (ht : t.loose = 0) (h : Full env 0 t) (d : Nat) :
    Full env d t ∧ Loop env d t := by
  have hts : ∀ i, t.toks i = t.toks 0 := fun i => by
    rw [Expr.toks_bare (ht.le.trans i.zero_le), ht]
  have hf : Full env d t := h.climb d.zero_le fun i _ _ => hts i
  exact ⟨hf, hf.loop ((hts (d + 1)).trans (hts d).symm)⟩

theorem full_bin {op : BinOp} {x y : Expr} (hx : Loop env op.level x) (hy : Full env op.level y)
    (d : Nat) : Full env d (.bin op x y) ∧ Loop env d (.bin op x y) := by
  have hloop := hx.bin hy
  have hbare : ∀ i, op.level + 1 ≤ i →
      (Expr.bin op x y).toks i = (Expr.bin op x y).toks (op.level + 1) :=
    fun i hi => Expr.toks_bare hi
  have habove : ∀ i, op.level + 1 ≤ i → Full env i (.bin op x y) :=
    fun i hi => hloop.full.climb hi fun j hj _ => hbare j hj
  -- below its level it stands in parentheses, and inside them `parse_expr` reads it
  have hzero : Full env 0 (.bin op x y) := by
    refine full_paren (habove 5 op.level_lt) ?_
    rw [Expr.toks_parens op.level.zero_le, hbare 5 op.level_lt]
  have hbelow : ∀ i, i ≤ op.level → Full env i (.bin op x y) := by
    intro i hi
    refine hzero.climb i.zero_le fun j _ hj => ?_
    rw [Expr.toks_parens (hj.trans hi), Expr.toks_parens op.level.zero_le]
  obtain hlt | rfl | hgt := lt_trichotomy d op.level
  · refine ⟨hbelow d hlt.le, (hbelow d hlt.le).loop ?_⟩
    rw [Expr.toks_parens hlt.le, Expr.toks_parens hlt]
  · exact ⟨hbelow _ (le_refl _), hloop⟩
  · refine ⟨habove d hgt, (habove d hgt).loop ?_⟩
    rw [hbare d hgt, hbare (d + 1) (by omega)]

/-- Every level reads every tree, and every loop goes on behind it. By induction on the
tree, for all levels at once. -/
theorem full_loop {t : Expr} (ht : t.Over FitsIdent) (d : Nat) :
    Full env d t ∧ Loop env d t := by
  induction t generalizing d with
  | lit n => exact full_of_atom rfl (full_lit n) d
  | var name => exact full_of_atom rfl (full_var ht.1) d
  | neg x ih => exact full_of_atom rfl (full_neg (ih ht 0).1) d
  | not x ih => exact full_of_atom rfl (full_not (ih ht 0).1) d
  | bin op x y ihx ihy => exact full_bin (ihx ht.1 op.level).2 (ihy ht.2 op.level).1 d

/-- `parse_expr` on a tree, with what may stand behind one. -/
theorem parseExpr_reads {t : Expr} (ht : t.Over FitsIdent) {rest : List Tok}
    (hf : Follows 5 rest) {stop : List UInt8} {e : Eval}
    (hr : Reads e.lex (t.toks 5 ++ rest) stop) :
    ∃ r, parseExpr e = some r ∧ r.1 = t.value (varValue e) ∧ Reads r.2.lex rest stop := by
  obtain ⟨r, hp, _⟩ := parseExpr_total e
  have hfull : Full (varValue e) 5 t := (full_loop ht 5).1
  obtain ⟨hv, hs⟩ := hfull (e.lex.size + 1) (e.lex.size + 1) rest hf stop e r ⟨hr, fun _ => rfl⟩ hp
  exact ⟨r, hp, hv, hs.reads⟩

/-- Nothing stands behind the text of a tree. -/
theorem parse_whole (t : Expr) (ht : t.Over FitsIdent) (e : Eval) :
    ∃ r, parseExpr (e.scan t.text) = some r ∧ r.1 = t.value (varValue e) ∧
      Reads r.2.lex [] [] := by
  have hr : Reads (e.scan t.text).lex (t.toks 5 ++ []) [] := by
    rw [List.append_nil]
    exact Expr.reads_text ht { e.lex with cursor := t.text } rfl
  have hf : Follows 5 [] := ⟨nofun, fun i _ => levelIsOp_eof i⟩
  exact parseExpr_reads ht hf hr

/-- **The value of an expression.** `next_token` and `parse_expr` read the text of a tree to its
end and return its value, whatever the state they start in. A division of -2^31 by -1, which the
machine refuses, wraps around here. -/
theorem parseExpr_text (t : Expr) (ht : t.Over FitsIdent) (e : Eval) :
    ∃ r, parseExpr (e.scan t.text) = some r ∧ r.1 = t.value (varValue e) ∧
      r.2.tok = .eof ∧ r.2.lex.cursor = [] := by
  obtain ⟨r, hp, hv, hs⟩ := parse_whole t ht e
  exact ⟨r, hp, hv, hs.nil⟩

/-- `(1 - 2) * - a < 3 or not b` -/
theorem parseExpr_text_demo :
    let t : Expr := .bin .or (.bin .lt (.bin .mul (.bin .sub (.lit 1) (.lit 2))
      (.neg (.var (ascii "a")))) (.lit 3)) (.not (.var (ascii "b")))
    t.Over FitsIdent ∧ ∃ r, parseExpr ((Eval.start fun _ => []).scan t.text) = some r ∧
      r.1 = t.value (varValue (Eval.start fun _ => [])) ∧ r.2.tok = .eof ∧ r.2.lex.cursor = [] := by
  have ha : FitsIdent (ascii "a") :=
    ⟨⟨⟨_, _, rfl, by decide⟩, forall_mem_of_all (by decide), by decide⟩, by decide⟩
  have hb : FitsIdent (ascii "b") :=
    ⟨⟨⟨_, _, rfl, by decide⟩, forall_mem_of_all (by decide), by decide⟩, by decide⟩
  have ht : (Expr.bin .or (.bin .lt (.bin .mul (.bin .sub (.lit 1) (.lit 2))
      (.neg (.var (ascii "a")))) (.lit 3)) (.not (.var (ascii "b")))).Over FitsIdent :=
    ⟨⟨⟨⟨by norm_num [Expr.Over], by norm_num [Expr.Over]⟩, ha⟩, by norm_num [Expr.Over]⟩, hb⟩
  exact ⟨ht, parseExpr_text _ ht _⟩

/-- A name of 32 letters is two tokens, and the parser stops between them. -/
theorem longName_not_read :
    ¬∀ (t : Expr) (e : Eval), t.Over IsVarName → ∃ r, parseExpr (e.scan t.text) = some r ∧
      r.1 = t.value (varValue e) ∧ r.2.tok = .eof ∧ r.2.lex.cursor = [] := by
  intro h
  have hname : IsVarName (List.replicate 32 0x61) :=
    ⟨⟨_, _, rfl, by decide⟩, forall_mem_of_all (by decide), by decide⟩
  obtain ⟨r, hp, _, ht, _⟩ := h (.var (List.replicate 32 0x61)) (.start fun _ => []) hname
  have hstop : (parseExpr ((Eval.start fun _ => []).scan
      (Expr.var (List.replicate 32 0x61)).text)).map (fun r => r.2.tok) = some .ident := by
    decide +kernel
  rw [hp] at hstop
  have hident : r.2.tok = .ident := Option.some.inj hstop
  rw [ht] at hident
  exact absurd hident nofun

end OsU
