import OsU.Proof.Lexing

/-!
# The expression parser

The five binary levels are one loop with five tables of operators, and `level` says so:
level 0 is `parse_primary`, level 5 is `parse_expr`.

What a run of the parser returns is shown in two parts that do not need each other.
`parsers_total` says that the depth the parser starts with is enough, and everything
else is about a run that has returned, at whatever depth: `Moves.parsers` for what it
does to the state.

The depth is a bound on the recursion that the source does not have. It is taken from
the length of the text that is left, and enough because every recursive call is made
behind a token that has been taken. The parser evaluates as it goes, so the state has
the variables and the keyboard in it; a relation that each of its steps meets (`Moves`)
holds between the ends of a run, and that is how the frame conditions of the other
modules are proved.
-/

set_option autoImplicit false

namespace OsU

open CString

/-! ## The levels -/

/-- The operators of the levels, tightest first. -/
def levelIsOp : Nat → TokenType → Bool
  | 0 => isTermOp
  | 1 => isAdditiveOp
  | 2 => isComparisonOp
  | 3 => isAndOp
  | _ => isOrOp

def levelOp : Nat → LevelOp
  | 0 => termOp
  | 1 => additiveOp
  | 2 => comparisonOp
  | 3 => andOp
  | _ => orOp

/-- The levels up to `d`, over `primary`. -/
def level (primary : Parse) (n : Nat) : Nat → Parse
  | 0 => primary
  | d + 1 => parseLevel (levelIsOp d) (levelOp d) (level primary n d) n

theorem parsers_succ (n : Nat) :
    parsers (n + 1) = (parsePrimary (parsers n).1 (parsers n).2,
      level (parsePrimary (parsers n).1 (parsers n).2) (n + 1) 5) := rfl

theorem levelIsOp_eof (d : Nat) : levelIsOp d .eof = false := by
  unfold levelIsOp
  split <;> rfl

/-- The lexer put somewhere else. -/
def Eval.at (e : Eval) (l : Lexer) : Eval := { e with lex := l }

@[simp] theorem Eval.at_lex (e : Eval) (l : Lexer) : (e.at l).lex = l := rfl

@[simp] theorem Eval.at_tok (e : Eval) (l : Lexer) : (e.at l).tok = l.currentToken := rfl

@[simp] theorem Eval.at_at (e : Eval) (l l' : Lexer) : (e.at l).at l' = e.at l' := rfl

@[simp] theorem Eval.at_self (e : Eval) : e.at e.lex = e := rfl

@[simp] theorem Eval.next_at (e : Eval) (l : Lexer) : (e.at l).next = e.at (nextToken l) := rfl

/-- The operators do not look at the lexer. -/
theorem levelOp_at (d : Nat) (t : TokenType) (left right : BitVec 32) (e : Eval) (l : Lexer) :
    levelOp d t left right (e.at l) =
      ((levelOp d t left right e).1, (levelOp d t left right e).2.at l) := by
  unfold levelOp
  split
  · unfold termOp
    split
    · rfl
    · split <;> rfl
    · split <;> rfl
  · rfl
  · rfl
  · rfl
  · rfl

theorem levelOp_lex (d : Nat) (t : TokenType) (left right : BitVec 32) (e : Eval) :
    (levelOp d t left right e).2.lex = e.lex := by
  have h := congrArg (fun r => r.2.lex) (levelOp_at d t left right e e.lex)
  exact h

/-! ## `parse_primary`, by the token it is at -/

section Primary

variable {primary expr : Parse} {e : Eval}

theorem parsePrimary_number (h : e.tok = .number) :
    parsePrimary primary expr e = some (e.lex.tokenNumber, e.next) := by
  unfold parsePrimary
  rw [h]

theorem parsePrimary_string (h : e.tok = .string) :
    parsePrimary primary expr e = some (BitVec.ofNat 32 e.lex.tokenString.length, e.next) := by
  unfold parsePrimary
  rw [h]

theorem parsePrimary_var (h : e.tok = .ident) (hn : e.next.tok ≠ .lparen) :
    parsePrimary primary expr e = some (varValue e e.lex.tokenIdent, e.next) := by
  unfold parsePrimary
  rw [h]
  exact if_neg hn

/-- The state behind a call. -/
def afterCall (e : Eval) : Eval :=
  closeParen (skipArgs (e.next.lex.cursor.length + 1) e.next.next)

theorem parsePrimary_call (h : e.tok = .ident) (hn : e.next.tok = .lparen) :
    parsePrimary primary expr e =
      if e.lex.tokenIdent = ascii "input" then some (readInput (afterCall e))
      else some (0, afterCall e) := by
  unfold parsePrimary
  rw [h]
  exact if_pos hn

theorem parsePrimary_paren (h : e.tok = .lparen) :
    parsePrimary primary expr e = (expr e.next).map fun r => (r.1, closeParen r.2) := by
  unfold parsePrimary
  rw [h]

theorem parsePrimary_minus (h : e.tok = .minus) :
    parsePrimary primary expr e = (primary e.next).map fun r => (-r.1, r.2) := by
  unfold parsePrimary
  rw [h]

theorem parsePrimary_not (h : e.tok = .not) :
    parsePrimary primary expr e = (primary e.next).map fun r => (truth (r.1 = 0), r.2) := by
  unfold parsePrimary
  rw [h]

/-- A token no operand begins with. -/
def closes : TokenType → Prop
  | .number | .string | .ident | .lparen | .minus | .not => False
  | _ => True

theorem parsePrimary_other (h : closes e.tok) : parsePrimary primary expr e = some (0, e) := by
  unfold parsePrimary
  cases ht : e.tok <;> rw [ht] at h <;> first | rfl | exact absurd h id

end Primary

/-! ## What a run does to the state -/

/-- A relation that every step of the parser meets. -/
structure Moves (R : Eval → Eval → Prop) : Prop where
  refl : ∀ e, R e e
  trans : ∀ {a b c}, R a b → R b c → R a c
  next : ∀ e, R e e.next
  input : ∀ e, R e (readInput e).2
  op : ∀ d t left right e, R e (levelOp d t left right e).2

namespace Moves

variable {R : Eval → Eval → Prop}

/-- Every result of `p` is related to where it started. -/
def Along (R : Eval → Eval → Prop) (p : Parse) : Prop := ∀ e r, p e = some r → R e r.2

theorem skipArgs (h : Moves R) (n : Nat) (e : Eval) : R e (OsU.skipArgs n e) := by
  induction n generalizing e with
  | zero => exact h.refl e
  | succ n ih =>
    rw [OsU.skipArgs]
    split
    · exact h.trans (h.next e) (ih e.next)
    · exact h.refl e

theorem closeParen (h : Moves R) (e : Eval) : R e (OsU.closeParen e) := by
  unfold OsU.closeParen
  split
  · exact h.next e
  · exact h.refl e

theorem afterCall (h : Moves R) (e : Eval) : R e (OsU.afterCall e) :=
  h.trans (h.next e) (h.trans (h.next _) (h.trans (h.skipArgs _ _) (h.closeParen _)))

theorem parsePrimary (h : Moves R) {primary expr : Parse} (hp : Along R primary)
    (hx : Along R expr) : Along R (OsU.parsePrimary primary expr) := by
  intro e r hr
  -- A branch that parses something behind the token: past the token, through it, and
  -- on.
  have hmap : ∀ {p : Parse} {f : BitVec 32 × Eval → BitVec 32 × Eval}, Along R p →
      (∀ s, R s.2 (f s).2) → (p e.next).map f = some r → R e r.2 := by
    intro p f hpar hf hm
    obtain ⟨s, hs, rfl⟩ := Option.map_eq_some_iff.mp hm
    exact h.trans (h.trans (h.next e) (hpar e.next s hs)) (hf s)
  cases ht : e.tok with
  | number =>
    rw [parsePrimary_number ht] at hr
    cases hr
    exact h.next e
  | string =>
    rw [parsePrimary_string ht] at hr
    cases hr
    exact h.next e
  | ident =>
    by_cases hn : e.next.tok = .lparen
    · rw [parsePrimary_call ht hn] at hr
      split at hr
      · cases hr
        exact h.trans (h.afterCall e) (h.input _)
      · cases hr
        exact h.afterCall e
    · rw [parsePrimary_var ht hn] at hr
      cases hr
      exact h.next e
  | lparen =>
    rw [parsePrimary_paren ht] at hr
    exact hmap hx (fun s => h.closeParen s.2) hr
  | minus =>
    rw [parsePrimary_minus ht] at hr
    exact hmap (f := fun s => (-s.1, s.2)) hp (fun _ => h.refl _) hr
  | not =>
    rw [parsePrimary_not ht] at hr
    exact hmap (f := fun s => (truth (s.1 = 0), s.2)) hp (fun _ => h.refl _) hr
  | _ =>
    rw [parsePrimary_other (by rw [ht]; trivial)] at hr
    cases hr
    exact h.refl e

theorem levelLoop (h : Moves R) {sub : Parse} (hsub : Along R sub) (d n : Nat)
    (left : BitVec 32) : Along R (levelLoop (levelIsOp d) (levelOp d) sub n left) := by
  induction n generalizing left with
  | zero => exact fun _ _ hr => absurd hr nofun
  | succ n ih =>
    intro e r hr
    rw [OsU.levelLoop] at hr
    split at hr
    · obtain ⟨s, hs, hloop⟩ := Option.bind_eq_some_iff.mp hr
      have hstep : R e (levelOp d e.tok left s.1 s.2).2 :=
        h.trans (h.trans (h.next e) (hsub e.next s hs)) (h.op d _ _ _ _)
      exact h.trans hstep (ih _ _ r hloop)
    · cases hr
      exact h.refl e

theorem level (h : Moves R) {primary : Parse} (hp : Along R primary) (n d : Nat) :
    Along R (level primary n d) := by
  induction d with
  | zero => exact hp
  | succ d ih =>
    intro e r hr
    obtain ⟨s, hs, hloop⟩ := Option.bind_eq_some_iff.mp hr
    exact h.trans (ih e s hs) (h.levelLoop ih d n s.1 s.2 r hloop)

/-- **Runs of the parser.** What its steps do, its runs do. -/
theorem parsers (h : Moves R) (n : Nat) :
    Along R (parsers n).1 ∧ Along R (parsers n).2 := by
  induction n with
  | zero => exact ⟨fun _ _ hr => absurd hr nofun, fun _ _ hr => absurd hr nofun⟩
  | succ n ih =>
    rw [parsers_succ]
    have hp := h.parsePrimary ih.1 ih.2
    exact ⟨hp, h.level hp (n + 1) 5⟩

theorem parseExpr (h : Moves R) : Along R parseExpr := fun e => (h.parsers _).2 e

end Moves

/-- Reading, printing and dividing leave the variables alone. -/
structure SameVars (e e' : Eval) : Prop where
  vars : e'.vars = e.vars
  varCount : e'.varCount = e.varCount

theorem SameVars.moves : Moves SameVars where
  refl _ := ⟨rfl, rfl⟩
  trans hab hbc := ⟨hbc.vars.trans hab.vars, hbc.varCount.trans hab.varCount⟩
  next _ := ⟨rfl, rfl⟩
  input _ := ⟨rfl, rfl⟩
  op d t left right e := by
    unfold levelOp
    split
    · unfold termOp
      split
      · exact ⟨rfl, rfl⟩
      · split <;> exact ⟨rfl, rfl⟩
      · split <;> exact ⟨rfl, rfl⟩
    · exact ⟨rfl, rfl⟩
    · exact ⟨rfl, rfl⟩
    · exact ⟨rfl, rfl⟩
    · exact ⟨rfl, rfl⟩

theorem SameVars.varValue {e e' : Eval} (h : SameVars e e') (name : List UInt8) :
    varValue e' name = varValue e name := by
  unfold OsU.varValue getVar
  rw [h.vars, h.varCount]

/-! ## The depth is enough -/

/-- Within `m`, `p` returns, and it does not go back. -/
def Total (m : Nat) (p : Parse) : Prop :=
  ∀ e, e.lex.size < m → ∃ r, p e = some r ∧ r.2.lex.size ≤ e.lex.size

theorem size_next_lt {e : Eval} (h : e.tok ≠ .eof) : e.next.lex.size < e.lex.size :=
  size_nextToken_lt h

theorem size_closeParen_le (e : Eval) : (closeParen e).lex.size ≤ e.lex.size := by
  unfold closeParen
  split
  · rename_i h
    exact (size_next_lt (by rw [h]; exact nofun)).le
  · exact le_refl _

theorem size_skipArgs_le (n : Nat) (e : Eval) : (skipArgs n e).lex.size ≤ e.lex.size := by
  induction n generalizing e with
  | zero => exact le_refl _
  | succ n ih =>
    rw [skipArgs]
    split
    · rename_i h
      exact (ih e.next).trans (size_next_lt h.2).le
    · exact le_refl _

theorem Total.parsePrimary {m : Nat} {primary expr : Parse} (hp : Total m primary)
    (hx : Total m expr) : Total (m + 1) (parsePrimary primary expr) := by
  intro e he
  -- What is parsed behind the token is a shorter text, so the induction hypothesis
  -- holds for it.
  have hmap : ∀ {p : Parse} {f : BitVec 32 × Eval → BitVec 32 × Eval}, Total m p →
      (∀ s, (f s).2.lex.size ≤ s.2.lex.size) → e.tok ≠ .eof →
      ∃ r, (p e.next).map f = some r ∧ r.2.lex.size ≤ e.lex.size := by
    intro p f hpar hf hne
    have hlt := size_next_lt hne
    obtain ⟨s, hs, hle⟩ := hpar e.next (by omega)
    exact ⟨f s, by rw [hs]; rfl, ((hf s).trans hle).trans hlt.le⟩
  cases ht : e.tok with
  | number =>
    exact ⟨_, parsePrimary_number ht, (size_next_lt (by rw [ht]; exact nofun)).le⟩
  | string =>
    exact ⟨_, parsePrimary_string ht, (size_next_lt (by rw [ht]; exact nofun)).le⟩
  | ident =>
    have hlt := size_next_lt (e := e) (by rw [ht]; exact nofun)
    by_cases hn : e.next.tok = .lparen
    · have hnext := size_next_lt (e := e.next) (by rw [hn]; exact nofun)
      have hafter : (afterCall e).lex.size ≤ e.lex.size :=
        (size_closeParen_le _).trans ((size_skipArgs_le _ _).trans (hnext.trans hlt).le)
      rw [parsePrimary_call ht hn]
      split
      · exact ⟨_, rfl, hafter⟩
      · exact ⟨_, rfl, hafter⟩
    · exact ⟨_, parsePrimary_var ht hn, hlt.le⟩
  | lparen =>
    rw [parsePrimary_paren ht]
    exact hmap hx (fun s => size_closeParen_le s.2) (by rw [ht]; exact nofun)
  | minus =>
    rw [parsePrimary_minus ht]
    exact hmap hp (fun s => le_refl _) (by rw [ht]; exact nofun)
  | not =>
    rw [parsePrimary_not ht]
    exact hmap hp (fun s => le_refl _) (by rw [ht]; exact nofun)
  | _ => exact ⟨_, parsePrimary_other (by rw [ht]; trivial), le_refl _⟩

theorem levelLoop_total {m : Nat} {sub : Parse} (hsub : Total m sub) (d n : Nat)
    (left : BitVec 32) (e : Eval) (hn : e.lex.size < n) (hm : e.lex.size < m) :
    ∃ r, levelLoop (levelIsOp d) (levelOp d) sub n left e = some r ∧
      r.2.lex.size ≤ e.lex.size := by
  induction n generalizing left e with
  | zero => exact absurd hn (Nat.not_lt_zero _)
  | succ n ih =>
    rw [levelLoop]
    split
    · rename_i hop
      have hne : e.tok ≠ .eof := by
        intro he
        rw [he, levelIsOp_eof] at hop
        exact Bool.false_ne_true hop
      have hlt := size_next_lt hne
      obtain ⟨s, hs, hle⟩ := hsub e.next (hlt.trans hm)
      have hlex : (levelOp d e.tok left s.1 s.2).2.lex = s.2.lex := levelOp_lex d _ _ _ _
      obtain ⟨r, hr, hrle⟩ := ih (levelOp d e.tok left s.1 s.2).1
        (levelOp d e.tok left s.1 s.2).2 (by rw [hlex]; omega) (by rw [hlex]; omega)
      rw [hlex] at hrle
      exact ⟨r, by rw [hs]; exact hr, by omega⟩
    · exact ⟨_, rfl, le_refl _⟩

theorem Total.level {m : Nat} {primary : Parse} (hp : Total m primary) (d : Nat) :
    Total m (level primary m d) := by
  induction d with
  | zero => exact hp
  | succ d ih =>
    intro e he
    obtain ⟨s, hs, hle⟩ := ih e he
    obtain ⟨r, hr, hrle⟩ := levelLoop_total ih d m s.1 s.2 (by omega) (by omega)
    refine ⟨r, ?_, hrle.trans hle⟩
    change ((OsU.level primary m d e).bind _) = _
    rw [hs]
    exact hr

/-- **The depth the parser starts with is enough.** By induction on the depth: at each
the lexer has less text left than the depth says, or the parser returns without a
further call. -/
theorem parsers_total (n : Nat) : Total n (parsers n).1 ∧ Total n (parsers n).2 := by
  induction n with
  | zero => exact ⟨fun _ h => absurd h (Nat.not_lt_zero _), fun _ h => absurd h (Nat.not_lt_zero _)⟩
  | succ n ih =>
    rw [parsers_succ]
    have hp := ih.1.parsePrimary ih.2
    exact ⟨hp, hp.level 5⟩

theorem parseExpr_total (e : Eval) :
    ∃ r, parseExpr e = some r ∧ r.2.lex.size ≤ e.lex.size :=
  (parsers_total _).2 e (Nat.lt_succ_self _)

end OsU
