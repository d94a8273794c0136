import OsU.Proof.Precedence

/-!
# Reading apart from evaluating

The parser evaluates as it goes. Here the two are taken apart: `readExpr` follows the
parser through any text, well formed or not, and gives a tree; `eval` and `divisions`
say what the tree is worth and which quotients are taken on the way. `parseExpr_syntax`
is the connection.

A tree has a node for an operand that is missing, since the parser goes on with zero
there, and one for a call, whose arguments are skipped. The value depends on the names
and on what is typed: `input()` reads the keyboard, so a tree is evaluated from a number
of lines read so far and leaves another.

The trees are only for looking at what the parser did. The source builds none.
-/

set_option autoImplicit false

namespace OsU

open CString

/-! ## Trees and what they are worth -/

/-- What a text can be read as. The tree has what the code evaluates and no more:
parentheses are not in it, and the arguments of a call are gone. -/
inductive Syn where
  | num (v : BitVec 32)
  | str (s : List UInt8)
  | var (name : List UInt8)
  /-- A call; the arguments are not looked at. -/
  | call (name : List UInt8)
  /-- Where an operand should stand. -/
  | missing
  | neg (x : Syn)
  | not (x : Syn)
  | bin (op : BinOp) (x y : Syn)

/-- The values of the names, and the numbers that `input()` will give. -/
structure World where
  env : List UInt8 → BitVec 32
  typed : Nat → BitVec 32

/-- The quotient or remainder that the machine takes for an operator. -/
def BinOp.division (op : BinOp) (x y : BitVec 32) : List (BitVec 32 × BitVec 32) :=
  if (op = .div ∨ op = .mod) ∧ y ≠ 0 then [(x, y)] else []

namespace Syn

/-- The value, and the lines read with those of the operands before it. Both operands
are always evaluated, `and` and `or` included, and the left one first: only `input()`
can tell. -/
def eval (w : World) : Syn → Nat → BitVec 32 × Nat
  | num v, k => (v, k)
  | str s, k => (BitVec.ofNat 32 s.length, k)
  | var name, k => (w.env name, k)
  | call name, k => if name = ascii "input" then (w.typed k, k + 1) else (0, k)
  | missing, k => (0, k)
  | neg x, k => (-(x.eval w k).1, (x.eval w k).2)
  | not x, k => (if (x.eval w k).1 = 0 then 1 else 0, (x.eval w k).2)
  | bin op x y, k =>
    let a := x.eval w k
    let b := y.eval w a.2
    (op.apply a.1 b.1, b.2)

/-- The quotients and remainders, in the order they are taken: those of the operands
come before that of the operator. A divisor of zero is tested for and takes none. -/
def divisions (w : World) : Syn → Nat → List (BitVec 32 × BitVec 32)
  | neg x, k => x.divisions w k
  | not x, k => x.divisions w k
  | bin op x y, k =>
    let a := x.eval w k
    let b := y.eval w a.2
    x.divisions w k ++ y.divisions w a.2 ++ op.division a.1 b.1
  | _, _ => []

end Syn

/-! ## Reading -/

/-- A level of the reader; `none` when its depth runs out. -/
abbrev Reader : Type := Lexer → Option (Syn × Lexer)

/-- The operator a token is at a level. The levels are counted from the tightest:
product, sum, comparison, `and`, `or`. Each has operators of its own. -/
def opAt : Nat → TokenType → Option BinOp
  | 0, .star => some .mul
  | 0, .slash => some .div
  | 0, .percent => some .mod
  | 1, .plus => some .add
  | 1, .minus => some .sub
  | 2, .lt => some .lt
  | 2, .gt => some .gt
  | 2, .le => some .le
  | 2, .ge => some .ge
  | 2, .eqeq => some .eq
  | 2, .ne => some .ne
  | 3, .and => some .and
  | 4, .or => some .or
  | _, _ => none

/-- To the parenthesis behind the arguments. -/
def skipTo : Nat → Lexer → Lexer
  | 0, l => l
  | n + 1, l =>
    if l.currentToken ≠ .rparen ∧ l.currentToken ≠ .eof then skipTo n (nextToken l) else l

def passParen (l : Lexer) : Lexer := if l.currentToken = .rparen then nextToken l else l

/-- Behind a call, from its name on. -/
def passCall (l : Lexer) : Lexer :=
  passParen (skipTo ((nextToken l).cursor.length + 1) (nextToken (nextToken l)))

def readPrimary (primary expr : Reader) : Reader := fun l =>
  match l.currentToken with
  | .number => some (.num l.tokenNumber, nextToken l)
  | .string => some (.str l.tokenString, nextToken l)
  | .ident =>
    if (nextToken l).currentToken = .lparen then some (.call l.tokenIdent, passCall l)
    else some (.var l.tokenIdent, nextToken l)
  | .lparen => (expr (nextToken l)).map fun r => (r.1, passParen r.2)
  | .minus => (primary (nextToken l)).map fun r => (.neg r.1, r.2)
  | .not => (primary (nextToken l)).map fun r => (.not r.1, r.2)
  | _ => some (.missing, l)

/-- The operators of level `d` behind a tree, and their right sides. -/
def readLoop (d : Nat) (sub : Reader) : Nat → Syn → Reader
  | 0, _, _ => none
  | n + 1, left, l =>
    match opAt d l.currentToken with
    | some op => (sub (nextToken l)).bind fun r => readLoop d sub n (.bin op left r.1) r.2
    | none => some (left, l)

def readLevel (primary : Reader) (n : Nat) : Nat → Reader
  | 0 => primary
  | d + 1 => fun l =>
    (readLevel primary n d l).bind fun r => readLoop d (readLevel primary n d) n r.1 r.2

def readers : Nat → Reader × Reader
  | 0 => (fun _ => none, fun _ => none)
  | n + 1 =>
    let primary := readPrimary (readers n).1 (readers n).2
    (primary, readLevel primary (n + 1) 5)

/-- The tree of the text the lexer is at. -/
def readExpr (l : Lexer) : Syn := (((readers (l.size + 1)).2 l).map Prod.fst).getD .missing

/-! ## The parser is the reader with the evaluator

The reader builds the tree of a text, and the parser computes as it reads. That they go
hand in hand is shown level by level, by induction on the depth of the ring; inside a
level the loop carries the tree of the value so far. -/

def Eval.world (e : Eval) : World := ⟨varValue e, fun k => atoi ((e.keys k).take 63)⟩

/-- `r` is what comes of evaluating `t` in `e`: the value, the lines read, the divisions
added to the list of those done, and the variables as they were. -/
structure Ran (t : Syn) (e : Eval) (r : BitVec 32 × Eval) : Prop where
  value : r.1 = (t.eval e.world e.reads).1
  reads : r.2.reads = (t.eval e.world e.reads).2
  divs : r.2.divs = e.divs ++ t.divisions e.world e.reads
  world : r.2.world = e.world

/-- A level of the parser evaluates what the level of the reader reads. -/
def Evaluates (p : Parse) (q : Reader) : Prop :=
  ∀ e r, p e = some r → ∃ t, q e.lex = some (t, r.2.lex) ∧ Ran t e r

section Levels

variable {d : Nat} {t : TokenType} {op : BinOp}

theorem levelIsOp_opAt (hd : d < 5) (t : TokenType) : levelIsOp d t = (opAt d t).isSome := by
  interval_cases d <;> cases t <;> rfl

theorem opAt_spec (h : opAt d t = some op) : d = op.level ∧ t = op.lexeme.tok.type := by
  unfold opAt at h
  split at h
  case h_14 => exact nomatch h
  all_goals
    obtain rfl := Option.some.inj h
    exact ⟨rfl, by decide⟩

theorem levelOp_keeps (d : Nat) (t : TokenType) (x y : BitVec 32) (e : Eval) :
    (levelOp d t x y e).2.world = e.world ∧ (levelOp d t x y e).2.reads = e.reads := by
  unfold levelOp
  split
  · unfold termOp
    split
    · exact ⟨rfl, rfl⟩
    · split <;> exact ⟨rfl, rfl⟩
    · split <;> exact ⟨rfl, rfl⟩
  · exact ⟨rfl, rfl⟩
  · exact ⟨rfl, rfl⟩
  · exact ⟨rfl, rfl⟩
  · exact ⟨rfl, rfl⟩

theorem BinOp.levelOp_divs (op : BinOp) (x y : BitVec 32) (e : Eval) :
    (levelOp op.level op.lexeme.tok.type x y e).2.divs = e.divs ++ op.division x y := by
  cases op with
  | div =>
    change (if y ≠ 0 then _ else _ : BitVec 32 × Eval).2.divs = _
    by_cases hy : y = 0
    · rw [if_neg (not_not.mpr hy), BinOp.division, if_neg (fun h => h.2 hy), List.append_nil]
      rfl
    · rw [if_pos hy, BinOp.division, if_pos ⟨Or.inl rfl, hy⟩]
      rfl
  | mod =>
    change (if y ≠ 0 then _ else _ : BitVec 32 × Eval).2.divs = _
    by_cases hy : y = 0
    · rw [if_neg (not_not.mpr hy), BinOp.division, if_neg (fun h => h.2 hy), List.append_nil]
    · rw [if_pos hy, BinOp.division, if_pos ⟨Or.inr rfl, hy⟩]
      rfl
  | _ => exact (List.append_nil _).symm

end Levels

namespace Ran

variable {x y : Syn} {e : Eval}

/-- A left side, an operator and its right side. -/
theorem bin {left : BitVec 32 × Eval} {right : BitVec 32 × Eval} {d : Nat} {op : BinOp}
    (hx : Ran x e left) (hop : opAt d left.2.tok = some op) (hy : Ran y left.2.next right) :
    Ran (.bin op x y) e (levelOp d left.2.tok left.1 right.1 right.2) := by
  obtain ⟨hd, ht⟩ := opAt_spec hop
  obtain ⟨hworld, hreads⟩ := levelOp_keeps d left.2.tok left.1 right.1 right.2
  have hnext : left.2.next.world = e.world := hx.world
  have hk : left.2.next.reads = (x.eval e.world e.reads).2 := hx.reads
  have hbefore : left.2.next.divs = e.divs ++ x.divisions e.world e.reads := hx.divs
  have hvalue := hy.value
  have hafter := hy.divs
  rw [hnext, hk] at hvalue
  rw [hnext, hk, hbefore] at hafter
  refine ⟨?_, ?_, ?_, ?_⟩
  · rw [hd, ht, op.levelOp_eq, hx.value, hvalue]
    rfl
  · rw [hreads, hy.reads, hnext, hk]
    rfl
  · rw [hd, ht, op.levelOp_divs, hafter, hx.value, hvalue, List.append_assoc, List.append_assoc,
      Syn.divisions, List.append_assoc]
  · rw [hworld, hy.world, hnext]

end Ran

theorem skipArgs_skipTo (n : Nat) (e : Eval) : skipArgs n e = e.at (skipTo n e.lex) := by
  induction n generalizing e with
  | zero => rfl
  | succ n ih =>
    rw [skipArgs, skipTo, apply_ite e.at, ih e.next]
    rfl

theorem closeParen_passParen (e : Eval) : closeParen e = e.at (passParen e.lex) := by
  rw [closeParen, passParen, apply_ite e.at]
  rfl

theorem afterCall_passCall (e : Eval) : afterCall e = e.at (passCall e.lex) := by
  rw [afterCall, skipArgs_skipTo, closeParen_passParen]
  rfl

namespace Evaluates

variable {p x : Parse} {q y : Reader}

theorem primary (hp : Evaluates p q) (hx : Evaluates x y) :
    Evaluates (parsePrimary p x) (readPrimary q y) := by
  intro e r hr
  -- A tree that reads no input and divides nothing: only its value has to be seen.
  have hleaf : ∀ {v : BitVec 32} {t : Syn} {l : Lexer}, t.eval e.world e.reads = (v, e.reads) →
      t.divisions e.world e.reads = [] → Ran t e (v, e.at l) := by
    intro v t l hv hd
    refine ⟨by rw [hv], by rw [hv]; rfl, ?_, rfl⟩
    rw [hd, List.append_nil]
    rfl
  unfold readPrimary
  cases ht : e.tok with
  | number =>
    rw [parsePrimary_number ht] at hr
    obtain rfl := Option.some.inj hr
    rw [Eval.tok] at ht
    rw [ht]
    exact ⟨_, rfl, hleaf rfl rfl⟩
  | string =>
    rw [parsePrimary_string ht] at hr
    obtain rfl := Option.some.inj hr
    rw [Eval.tok] at ht
    rw [ht]
    exact ⟨_, rfl, hleaf rfl rfl⟩
  | ident =>
    by_cases hn : e.next.tok = .lparen
    · rw [parsePrimary_call ht hn, afterCall_passCall] at hr
      rw [Eval.tok] at ht hn
      rw [ht]
      -- The name of a call is read off the token before its argument is passed over;
      -- `input` alone has an effect, which is the next number typed.
      refine ⟨.call e.lex.tokenIdent, ?_, ?_⟩
      · refine (if_pos hn).trans ?_
        split at hr
        · rw [← Option.some.inj hr]
          rfl
        · rw [← Option.some.inj hr]
          rfl
      · split at hr
        · rename_i hinput
          obtain rfl := Option.some.inj hr
          have heval : (Syn.call e.lex.tokenIdent).eval e.world e.reads =
              (e.world.typed e.reads, e.reads + 1) := if_pos hinput
          refine ⟨by rw [heval]; rfl, by rw [heval]; rfl, (List.append_nil _).symm, rfl⟩
        · rename_i hinput
          obtain rfl := Option.some.inj hr
          exact hleaf (if_neg hinput) rfl
    · rw [parsePrimary_var ht hn] at hr
      obtain rfl := Option.some.inj hr
      rw [Eval.tok] at ht hn
      rw [ht]
      exact ⟨.var e.lex.tokenIdent, if_neg hn, hleaf rfl rfl⟩
  | lparen =>
    rw [parsePrimary_paren ht] at hr
    obtain ⟨s, hs, rfl⟩ := Option.map_eq_some_iff.mp hr
    obtain ⟨t, hread, hran⟩ := hx e.next s hs
    rw [Eval.tok] at ht
    rw [ht]
    refine ⟨t, ?_, ?_⟩
    · refine (congrArg (Option.map _) hread).trans ?_
      rw [closeParen_passParen]
      rfl
    · rw [closeParen_passParen]
      exact ⟨hran.value, hran.reads, hran.divs, hran.world⟩
  | minus =>
    rw [parsePrimary_minus ht] at hr
    obtain ⟨s, hs, rfl⟩ := Option.map_eq_some_iff.mp hr
    obtain ⟨t, hread, hran⟩ := hp e.next s hs
    rw [Eval.tok] at ht
    rw [ht]
    exact ⟨.neg t, congrArg (Option.map _) hread, congrArg Neg.neg hran.value, hran.reads,
      hran.divs, hran.world⟩
  | not =>
    rw [parsePrimary_not ht] at hr
    obtain ⟨s, hs, rfl⟩ := Option.map_eq_some_iff.mp hr
    obtain ⟨t, hread, hran⟩ := hp e.next s hs
    rw [Eval.tok] at ht
    rw [ht]
    refine ⟨.not t, congrArg (Option.map _) hread, ?_, hran.reads, hran.divs, hran.world⟩
    dsimp only
    rw [truth_eq, hran.value]
    rfl
  | _ =>
    rw [parsePrimary_other (by rw [ht]; trivial)] at hr
    obtain rfl := Option.some.inj hr
    rw [Eval.tok] at ht
    rw [ht]
    exact ⟨.missing, rfl, hleaf rfl rfl⟩

/-- The loop of a level, with the tree of the value so far. -/
theorem loop (hsub : Evaluates p q) {d : Nat} (hd : d < 5) (n : Nat) {left : BitVec 32 × Eval}
    {t : Syn} {e : Eval} (ht : Ran t e left) {r : BitVec 32 × Eval}
    (hr : levelLoop (levelIsOp d) (levelOp d) p n left.1 left.2 = some r) :
    ∃ u, readLoop d q n t left.2.lex = some (u, r.2.lex) ∧ Ran u e r := by
  induction n generalizing left t with
  | zero => exact absurd hr nofun
  | succ n ih =>
    rw [levelLoop, levelIsOp_opAt hd] at hr
    rw [readLoop]
    cases hop : opAt d left.2.tok with
    | none =>
      rw [hop, Option.isSome_none, if_neg Bool.false_ne_true] at hr
      obtain rfl := Option.some.inj hr
      rw [Eval.tok] at hop
      rw [hop]
      exact ⟨t, rfl, ht⟩
    | some op =>
      rw [hop, Option.isSome_some, if_pos rfl] at hr
      obtain ⟨s, hs, hloop⟩ := Option.bind_eq_some_iff.mp hr
      obtain ⟨u, hread, hran⟩ := hsub left.2.next s hs
      obtain ⟨u', hread', hran'⟩ := ih (ht.bin hop hran) hloop
      refine ⟨u', ?_, hran'⟩
      rw [Eval.tok] at hop
      rw [hop]
      dsimp only
      rw [levelOp_lex] at hread'
      exact Option.bind_eq_some_iff.mpr ⟨(u, s.2.lex), hread, hread'⟩

theorem level (hp : Evaluates p q) (n : Nat) {d : Nat} (hd : d ≤ 5) :
    Evaluates (OsU.level p n d) (readLevel q n d) := by
  induction d with
  | zero => exact hp
  | succ d ih =>
    intro e r hr
    have hsub := ih (Nat.le_of_succ_le hd)
    obtain ⟨s, hs, hloop⟩ := Option.bind_eq_some_iff.mp hr
    obtain ⟨t, hread, hran⟩ := hsub e s hs
    obtain ⟨u, hread', hran'⟩ := hsub.loop hd n hran hloop
    exact ⟨u, Option.bind_eq_some_iff.mpr ⟨(t, s.2.lex), hread, hread'⟩, hran'⟩

/-- **The ring**, by the depth. -/
theorem parsers (n : Nat) : Evaluates (parsers n).1 (readers n).1 ∧
    Evaluates (OsU.parsers n).2 (readers n).2 := by
  induction n with
  | zero => exact ⟨fun _ _ hr => absurd hr nofun, fun _ _ hr => absurd hr nofun⟩
  | succ n ih =>
    have hp := ih.1.primary ih.2
    exact ⟨hp, hp.level (n + 1) (Nat.le_refl 5)⟩

end Evaluates

/-- **The parser evaluates the tree of the text**, whatever the text and the state. -/
theorem parseExpr_syntax (e : Eval) : ∃ r, parseExpr e = some r ∧ Ran (readExpr e.lex) e r := by
  obtain ⟨r, hr, -⟩ := parseExpr_total e
  obtain ⟨t, hread, hran⟩ := (Evaluates.parsers (e.lex.size + 1)).2 e r hr
  refine ⟨r, hr, ?_⟩
  rwa [readExpr, hread]

end OsU
