import OsU.Proof.Precedence

/-!
# Blanks between tokens

Two renderings of one token sequence give the parser the same tokens, but for the minus
signs that stand directly before a number in one of them only. Where an operand is
expected the parser makes the same of both: the sign of the number and the sign in front
of it. Behind an operand it does not: the number with its sign is no operator, and the
parser stops. `Place` keeps track of which of the two the tokenizer is at, `Alike` is
what the two token sequences have in common.

The sequences need not be expressions. The parser may stop anywhere, with an error or in
the middle of a line, and the two runs stop at the same place: the proof is a simulation
between two runs of the parser, at whatever depths they return (`parsers_agree`), and
not a fact about trees.

A call is skipped to its parenthesis without being parsed, so inside the arguments signs
do not matter at all, and `Place` has a value for that.

The condition on blanks is enough, and it is not exact: `a -0` and `a - 0` are read
differently and have the same value.
-/

set_option autoImplicit false

namespace OsU

open CString

/-- What the parser expects. The arguments of a call it skips. -/
inductive Place where
  | start
  | operand
  | name
  | args
  deriving DecidableEq

/-- Behind the token `t`. -/
def Place.after : Place → Tok → Place
  | .args, .op .rparen => .operand
  | .args, _ => .args
  | _, .number _ | _, .string _ => .operand
  | _, .ident _ => .name
  | .name, .op .lparen => .args
  | _, .op .rparen => .operand
  | _, .op _ => .start

/-- Behind an operand, where a `-` is an operator. -/
def Place.binary : Place → Bool
  | .operand | .name => true
  | _ => false

def Lexeme.isNumber : Lexeme → Bool
  | .number _ => true
  | _ => false

/-- For every `-` between an operand and a number, in order: is it directly before the number? -/
def joins : Place → List Item → List Bool
  | _, [] => []
  | _, [_] => []
  | p, i :: j :: r =>
    let rest := joins (p.after i.2.tok) (j :: r)
    if p.binary = true ∧ i.2 = .op 0x2D ∧ j.2.isNumber = true then
      decide (j.1 = []) :: rest
    else rest

/-- The same tokens, but for signs that are part of a number on one side only. Such a
sign stands where an operand is expected; behind an operand the two readings would be
different expressions. -/
inductive Alike : Place → List Tok → List Tok → Prop where
  | nil {p : Place} : Alike p [] []
  | token {p : Place} (t : Tok) {ts us : List Tok} (h : Alike (p.after t) ts us) :
      Alike p (t :: ts) (t :: us)
  | signLeft {p : Place} (hp : p.binary = false) (v : BitVec 32) {ts us : List Tok}
      (h : Alike (p.after (.number v)) ts us) :
      Alike p (.number (-v) :: ts) (.op .minus :: .number v :: us)
  | signRight {p : Place} (hp : p.binary = false) (v : BitVec 32) {ts us : List Tok}
      (h : Alike (p.after (.number v)) ts us) :
      Alike p (.op .minus :: .number v :: ts) (.number (-v) :: us)

theorem Alike.symm {p : Place} {ts us : List Tok} (h : Alike p ts us) : Alike p us ts := by
  induction h with
  | nil => exact .nil
  | token t _ ih => exact .token t ih
  | signLeft hp v _ ih => exact .signRight hp v ih
  | signRight hp v _ ih => exact .signLeft hp v ih

/-- The value of a number does not matter to where it stands. -/
theorem Place.after_number (p : Place) (v w : BitVec 32) :
    p.after (.number v) = p.after (.number w) := by
  cases p <;> rfl

/-- A sign before a number leads where the number leads. -/
theorem Place.after_minus (p : Place) (v : BitVec 32) :
    (p.after (.op .minus)).after (.number v) = p.after (.number v) := by
  cases p <;> rfl

/-! ## Two renderings -/

theorem minus_tok : (Lexeme.op 0x2D).tok = .op .minus := rfl

/-- Behind a sign comes no other. -/
theorem joins_number {p : Place} {i : Item} {r : List Item} (hi : i.2.isNumber = true) :
    joins p (i :: r) = joins (p.after i.2.tok) r := by
  cases r with
  | nil => rfl
  | cons j r =>
    rw [joins, if_neg]
    rintro ⟨_, hm, _⟩
    rw [hm] at hi
    exact Bool.false_ne_true hi

/-- A number is read as it is written. -/
theorem seen_number {i : Item} (hi : i.2.isNumber = true) (r : List Item) :
    seen (i :: r) = i.2.tok :: seen r := by
  cases r with
  | nil => rfl
  | cons j r =>
    have hne : i.2 ≠ .op 0x2D := fun hm => Bool.false_ne_true (by rw [hm] at hi; exact hi)
    rw [seen, Lexeme.signed_of_ne hne]

/-- At a sign between an operand and a number, two renderings must join it alike. -/
theorem joins_minus {p : Place} {i j i' j' : Item} {r r' : List Item} (hi : i.2 = .op 0x2D)
    (hi' : i'.2 = i.2) (hj : j.2.isNumber = true) (hj' : j'.2 = j.2)
    (h : joins p (i' :: j' :: r') = joins p (i :: j :: r)) :
    (p.binary = true → (j'.1 = [] ↔ j.1 = [])) ∧
      joins (p.after (.op .minus)) (j' :: r') = joins (p.after (.op .minus)) (j :: r) := by
  rw [joins, joins, hi', hj', hi, minus_tok] at h
  by_cases hp : p.binary = true
  · rw [if_pos ⟨hp, rfl, hj⟩, if_pos ⟨hp, rfl, hj⟩] at h
    obtain ⟨hhead, htail⟩ := List.cons.inj h
    exact ⟨fun _ => decide_eq_decide.mp hhead, htail⟩
  · rw [if_neg fun hc => hp hc.1, if_neg fun hc => hp hc.1] at h
    exact ⟨fun hb => absurd hb hp, h⟩

theorem joins_other {p : Place} {i j i' j' : Item} {r r' : List Item}
    (hi : ¬(i.2 = .op 0x2D ∧ j.2.isNumber = true)) (hi' : i'.2 = i.2) (hj' : j'.2 = j.2)
    (h : joins p (i' :: j' :: r') = joins p (i :: j :: r)) :
    joins (p.after i.2.tok) (j' :: r') = joins (p.after i.2.tok) (j :: r) := by
  rw [joins, joins, hi', hj'] at h
  rwa [if_neg fun hc => hi hc.2, if_neg fun hc => hi hc.2] at h

/-- The gap in front of the number decides, on either side. -/
theorem Lexeme.signed_eq {i j : Item} (hi : i.2 = .op 0x2D) {digits : List UInt8}
    (hj : j.2 = .number digits) :
    i.2.signed j = if j.1 = [] then some digits else none := by
  obtain ⟨g, x⟩ := j
  cases hj
  cases g with
  | nil => exact if_pos hi
  | cons b g => rfl

theorem Lexeme.signed_eq_none_of_ne {i j : Item} (h : ¬(i.2 = .op 0x2D ∧ j.2.isNumber = true)) :
    i.2.signed j = none := by
  cases hs : i.2.signed j with
  | none => rfl
  | some digits =>
    obtain ⟨hi, rfl⟩ := Lexeme.signed_eq_some hs
    exact absurd ⟨hi, rfl⟩ h

/-- A sign and a number, on both sides. -/
theorem alike_minus {p : Place} {i j i' j' : Item} {r r' : List Item} {digits : List UInt8}
    (hi : i.2 = .op 0x2D) (hi' : i'.2 = i.2) (hj : j.2 = .number digits) (hj' : j'.2 = j.2)
    (hg : p.binary = true → (j'.1 = [] ↔ j.1 = []))
    (h : Alike ((p.after (.op .minus)).after (.number (BitVec.ofNat 32 (Lexeme.digitsValue digits))))
      (seen r) (seen r')) : Alike p (seen (i :: j :: r)) (seen (i' :: j' :: r')) := by
  have hnum : j.2.isNumber = true := by rw [hj]; rfl
  have hnum' : j'.2.isNumber = true := by rw [hj', hj]; rfl
  have htok : j.2.tok = .number (BitVec.ofNat 32 (Lexeme.digitsValue digits)) := by rw [hj]; rfl
  have htok' : j'.2.tok = .number (BitVec.ofNat 32 (Lexeme.digitsValue digits)) := by
    rw [hj']
    exact htok
  have hmerged := h
  rw [Place.after_minus] at hmerged
  rw [seen, seen, Lexeme.signed_eq hi hj, Lexeme.signed_eq (hi'.trans hi) (hj'.trans hj)]
  -- With blanks between or without, on either side; the two differ only where a minus
  -- is a sign on both.
  by_cases hgap : j.1 = []
  · by_cases hgap' : j'.1 = []
    · rw [if_pos hgap, if_pos hgap']
      refine .token _ ?_
      rw [p.after_number]
      exact hmerged
    · have hp : p.binary = false := Bool.eq_false_iff.mpr fun hb => hgap' ((hg hb).mpr hgap)
      rw [if_pos hgap, if_neg hgap']
      dsimp only
      rw [seen_number hnum', htok', hi', hi, minus_tok]
      exact .signLeft hp _ hmerged
  · by_cases hgap' : j'.1 = []
    · have hp : p.binary = false := Bool.eq_false_iff.mpr fun hb => hgap ((hg hb).mp hgap')
      rw [if_neg hgap, if_pos hgap']
      dsimp only
      rw [seen_number hnum, htok, hi, minus_tok]
      exact .signRight hp _ hmerged
    · rw [if_neg hgap, if_neg hgap']
      dsimp only
      rw [seen_number hnum, htok, seen_number hnum', htok', hi', hi, minus_tok]
      exact .token _ (.token _ h)

/-- **What two renderings have in common.** -/
theorem alike_seen {p : Place} {r r' : List Item} (hsame : r'.map Prod.snd = r.map Prod.snd)
    (hjoin : joins p r' = joins p r) : Alike p (seen r) (seen r') := by
  induction h : r.length using Nat.strong_induction_on generalizing p r r' with
  | _ n ih =>
    subst h
    cases r with
    | nil =>
      rw [List.map_nil, List.map_eq_nil_iff] at hsame
      rw [hsame]
      exact .nil
    | cons i s =>
      obtain ⟨i', s', rfl, hi, hs⟩ := List.map_eq_cons_iff.mp hsame
      cases s with
      | nil =>
        rw [List.map_nil, List.map_eq_nil_iff] at hs
        rw [hs, seen, seen, hi]
        exact .token _ .nil
      | cons j r =>
        obtain ⟨j', r', rfl, hj, hr⟩ := List.map_eq_cons_iff.mp hs
        -- A minus in front of a number is seen with it or not, by its blanks; any other
        -- token is seen alone. The induction is on the number of items, since a sign
        -- takes two.
        by_cases hm : i.2 = .op 0x2D ∧ j.2.isNumber = true
        · obtain ⟨hminus, hnum⟩ := hm
          obtain ⟨hg, htail⟩ := joins_minus hminus hi hnum hj hjoin
          cases hx : j.2 with
          | number digits =>
            have hnum' : j'.2.isNumber = true := by rw [hj]; exact hnum
            rw [joins_number hnum, joins_number hnum', hj, hx] at htail
            refine alike_minus hminus hi hx hj hg (ih r.length ?_ hr htail rfl)
            rw [List.length_cons, List.length_cons]
            omega
          | _ =>
            rw [hx] at hnum
            exact absurd hnum Bool.false_ne_true
        · have hm' : ¬(i'.2 = .op 0x2D ∧ j'.2.isNumber = true) := by rwa [hi, hj]
          have hnext := ih (j :: r).length (Nat.lt_succ_self _) hs (joins_other hm hi hj hjoin) rfl
          rw [seen, seen, Lexeme.signed_eq_none_of_ne hm, Lexeme.signed_eq_none_of_ne hm']
          dsimp only
          rw [hi]
          exact .token _ hnext

/-! ## Two runs of the parser -/

theorem Alike.refl (p : Place) (ts : List Tok) : Alike p ts ts := by
  induction ts generalizing p with
  | nil => exact .nil
  | cons t ts ih => exact .token t (ih (p.after t))

/-- The lines that have been printed. -/
def Eval.lines (e : Eval) : List (List UInt8) :=
  e.shown.filterMap fun s =>
    match s with
    | .line text => some text
    | .message _ => none

/-- Two states with the same variables, which have printed and read the same. -/
structure Same (e e' : Eval) : Prop where
  vars : e'.vars = e.vars
  varCount : e'.varCount = e.varCount
  lines : e'.lines = e.lines
  keys : e'.keys = e.keys
  reads : e'.reads = e.reads

namespace Same

variable {e e' : Eval}

theorem refl (e : Eval) : Same e e := ⟨rfl, rfl, rfl, rfl, rfl⟩

theorem symm (h : Same e e') : Same e' e :=
  ⟨h.vars.symm, h.varCount.symm, h.lines.symm, h.keys.symm, h.reads.symm⟩

theorem trans {e'' : Eval} (h : Same e e') (h' : Same e' e'') : Same e e'' :=
  ⟨h'.vars.trans h.vars, h'.varCount.trans h.varCount, h'.lines.trans h.lines,
    h'.keys.trans h.keys, h'.reads.trans h.reads⟩

/-- The lexer does not matter. -/
theorem at_ (h : Same e e') (l l' : Lexer) : Same (e.at l) (e'.at l') :=
  ⟨h.vars, h.varCount, h.lines, h.keys, h.reads⟩

theorem next (h : Same e e') : Same e.next e'.next := h.at_ _ _

theorem varValue (h : Same e e') (name : List UInt8) : varValue e' name = varValue e name :=
  SameVars.varValue ⟨h.vars, h.varCount⟩ name

theorem lines_display (e : Eval) (s : Shown) :
    (e.display s).lines = e.lines ++ (match s with | .line text => [text] | .message _ => []) := by
  unfold Eval.lines Eval.display
  rw [List.filterMap_append]
  cases s <;> rfl

theorem display (h : Same e e') (s : Shown) : Same (e.display s) (e'.display s) := by
  refine ⟨h.vars, h.varCount, ?_, h.keys, h.reads⟩
  rw [lines_display, lines_display, h.lines]

/-- The operators give the same value. -/
theorem op (h : Same e e') (d : Nat) (t : TokenType) (left right : BitVec 32) :
    (levelOp d t left right e').1 = (levelOp d t left right e).1 ∧
      Same (levelOp d t left right e).2 (levelOp d t left right e').2 := by
  have hdiv : ∀ x y, Same (e.divide x y) (e'.divide x y) :=
    fun _ _ => ⟨h.vars, h.varCount, h.lines, h.keys, h.reads⟩
  unfold levelOp
  split
  · unfold termOp
    split
    · exact ⟨rfl, h⟩
    · split
      · exact ⟨rfl, hdiv _ _⟩
      · exact ⟨rfl, h.display _⟩
    · split
      · exact ⟨rfl, hdiv _ _⟩
      · exact ⟨rfl, h⟩
  · exact ⟨rfl, h⟩
  · exact ⟨rfl, h⟩
  · exact ⟨rfl, h⟩
  · exact ⟨rfl, h⟩

theorem input (h : Same e e') :
    (readInput e').1 = (readInput e).1 ∧ Same (readInput e).2 (readInput e').2 := by
  constructor
  · unfold readInput keyboardReadline
    rw [h.keys, h.reads]
  · exact ⟨h.vars, h.varCount, h.lines, h.keys, congrArg (· + 1) h.reads⟩

end Same

/-- Two states at alike tokens, with all else the same. -/
structure Twins (p : Place) (e e' : Eval) : Prop where
  same : Same e e'
  tokens : ∃ ts us stop stop', Reads e.lex ts stop ∧ Reads e'.lex us stop' ∧ Alike p ts us

/-- Two states at which the parser goes on alike. -/
def Meet (e e' : Eval) : Prop := ∃ p, p ≠ .args ∧ Twins p e e' ∧ e'.tok = e.tok

/-- From alike tokens, where an operand is expected, both return the same value. -/
def Agrees (q q' : Parse) : Prop :=
  ∀ e e' r r', Twins .start e e' → q e = some r → q' e' = some r' → r'.1 = r.1 ∧ Meet r.2 r'.2

namespace Twins

variable {p : Place} {e e' : Eval}

theorem symm (h : Twins p e e') : Twins p e' e := by
  obtain ⟨ts, us, stop, stop', hr, hr', ha⟩ := h.tokens
  exact ⟨h.same.symm, us, ts, stop', stop, hr', hr, ha.symm⟩

/-- At the same kind of token both are at the same token, and stay alike behind it. -/
theorem step (h : Twins p e e') (ht : e'.tok = e.tok) (hne : e.tok ≠ .eof) :
    e'.lex.token = e.lex.token ∧ Twins (p.after e.lex.token) e.next e'.next := by
  obtain ⟨ts, us, stop, stop', hr, hr', ha⟩ := h.tokens
  have hnext : ∀ ts us : List Tok, Reads (nextToken e.lex) ts stop →
      Reads (nextToken e'.lex) us stop' → Alike (p.after e.lex.token) ts us →
      Twins (p.after e.lex.token) e.next e'.next := by
    intro ts us hts hus hal
    exact ⟨h.same.next, ts, us, stop, stop', hts, hus, hal⟩
  cases ha with
  | nil => exact absurd hr.nil.1 hne
  | token t ha =>
    obtain ⟨_, htok, hts⟩ := hr.cons
    obtain ⟨_, htok', hus⟩ := hr'.cons
    refine ⟨htok'.trans htok.symm, hnext _ _ hts hus ?_⟩
    rw [htok]
    exact ha
  | signLeft hp v ha =>
    have hl : e.tok = .number := hr.currentToken
    have hr : e'.tok = .minus := hr'.currentToken
    rw [ht, hl] at hr
    exact absurd hr nofun
  | signRight hp v ha =>
    have hl : e.tok = .minus := hr.currentToken
    have hr : e'.tok = .number := hr'.currentToken
    rw [ht, hl] at hr
    exact absurd hr nofun

/-- Behind an operand, both are at the same kind of token. -/
theorem tok_eq (h : Twins p e e') (hp : p.binary = true) : e'.tok = e.tok := by
  obtain ⟨ts, us, stop, stop', hr, hr', ha⟩ := h.tokens
  cases ha with
  | nil => exact hr'.nil.1.trans hr.nil.1.symm
  | token t ha => exact hr'.currentToken.trans hr.currentToken.symm
  | signLeft hp' v ha => exact absurd (hp'.symm.trans hp) Bool.false_ne_true
  | signRight hp' v ha => exact absurd (hp'.symm.trans hp) Bool.false_ne_true

theorem meet (h : Twins p e e') (hp : p.binary = true) : Meet e e' := by
  refine ⟨p, ?_, h, h.tok_eq hp⟩
  rintro rfl
  exact Bool.false_ne_true hp

end Twins

/-- The one difference: `e` is at a number, `e'` at its sign. The number is the operand
of the sign on the one side, and its own on the other. -/
structure SignedAt (p : Place) (e e' : Eval) : Prop where
  number : e.tok = .number
  minus : e'.tok = .minus
  operand : e'.next.tok = .number
  value : e.lex.tokenNumber = -e'.next.lex.tokenNumber
  next : Twins (p.after e.lex.token) e.next e'.next.next

theorem Reads.signedAt {p : Place} {e e' : Eval} {v : BitVec 32} {ts us : List Tok}
    {stop stop' : List UInt8} (hsame : Same e e') (hr : Reads e.lex (.number (-v) :: ts) stop)
    (hr' : Reads e'.lex (.op .minus :: .number v :: us) stop')
    (ha : Alike (p.after (.number v)) ts us) : SignedAt p e e' := by
  obtain ⟨_, htok, hts⟩ := hr.cons
  obtain ⟨_, _, hnum⟩ := hr'.cons
  obtain ⟨_, htok', hus⟩ := hnum.cons
  obtain ⟨ht, hv⟩ := Lexer.of_token_number htok
  obtain ⟨ht', hv'⟩ := Lexer.of_token_number htok'
  refine ⟨ht, hr'.currentToken, ht', ?_, hsame.at_ _ _, ts, us, stop, stop', hts, hus, ?_⟩
  · change e.lex.tokenNumber = -(nextToken e'.lex).tokenNumber
    rw [hv, hv']
  · rw [htok, p.after_number _ v]
    exact ha

theorem Twins.tok_ne {p : Place} {e e' : Eval} (h : Twins p e e') (hne : e'.tok ≠ e.tok) :
    SignedAt p e e' ∨ SignedAt p e' e := by
  have hsymm := h.symm.same
  obtain ⟨ts, us, stop, stop', hr, hr', ha⟩ := h.tokens
  cases ha with
  | nil => exact absurd (hr'.nil.1.trans hr.nil.1.symm) hne
  | token t ha => exact absurd (hr'.currentToken.trans hr.currentToken.symm) hne
  | signLeft hp v ha => exact Or.inl (hr.signedAt h.same hr' ha)
  | signRight hp v ha => exact Or.inr (hr'.signedAt hsymm hr ha.symm)

/-- A number with its sign, and a sign and a number, are the same operand. -/
theorem SignedAt.primary {p : Place} {e e' : Eval} (h : SignedAt p e e') {q x x' : Parse} {m : Nat}
    {r r' : BitVec 32 × Eval} (hr : parsePrimary q x e = some r)
    (hr' : parsePrimary (parsers m).1 x' e' = some r') :
    r'.1 = r.1 ∧ Twins (p.after e.lex.token) r.2 r'.2 := by
  rw [parsePrimary_number h.number] at hr
  rw [parsePrimary_minus h.minus] at hr'
  cases hr
  obtain ⟨s, hs, rfl⟩ := Option.map_eq_some_iff.mp hr'
  cases m with
  | zero => exact absurd hs nofun
  | succ m =>
    rw [parsers_succ] at hs
    dsimp only at hs
    rw [parsePrimary_number h.operand] at hs
    cases hs
    exact ⟨h.value.symm, h.next⟩

/-! ## The arguments of a call -/

/-- The parser skips to the parenthesis. -/
def fromParen (ts : List Tok) : List Tok := ts.dropWhile fun t => t ≠ .op .rparen

theorem fromParen_skip {t : Tok} (ht : t ≠ .op .rparen) (ts : List Tok) :
    fromParen (t :: ts) = fromParen ts := by
  unfold fromParen
  rw [List.dropWhile_cons, if_pos (decide_eq_true ht)]

theorem Lexer.token_rparen_iff (l : Lexer) : l.token = .op .rparen ↔ l.currentToken = .rparen := by
  constructor
  · intro h
    rw [← l.token_type, h]
    rfl
  · exact fun h => Lexer.token_of_op h nofun nofun nofun

theorem skipArgs_reads {e : Eval} {ts : List Tok} {stop : List UInt8} {n : Nat}
    (hr : Reads e.lex ts stop) (hn : ts.length ≤ n) :
    Reads (skipArgs n e).lex (fromParen ts) stop := by
  induction ts generalizing e n with
  | nil =>
    have he : e.tok = .eof := hr.nil.1
    have hskip : skipArgs n e = e := by
      cases n with
      | zero => rfl
      | succ n => exact if_neg fun h => h.2 he
    rw [hskip]
    exact hr
  | cons t ts ih =>
    obtain ⟨hne, htok, hnext⟩ := hr.cons
    cases n with
    | zero => exact absurd hn (Nat.not_succ_le_zero _)
    | succ n =>
      rw [skipArgs]
      by_cases hp : e.tok = .rparen
      · have ht : t = .op .rparen := htok.symm.trans ((e.lex.token_rparen_iff).mpr hp)
        rw [if_neg fun h => h.1 hp, ht]
        rw [ht] at hr
        exact hr
      · have ht : t ≠ .op .rparen := fun ht => hp ((e.lex.token_rparen_iff).mp (htok.trans ht))
        rw [if_pos ⟨hp, hne⟩, fromParen_skip ht]
        exact ih hnext (Nat.le_of_succ_le_succ hn)

theorem skipArgs_at (n : Nat) (e : Eval) (l : Lexer) :
    skipArgs n (e.at l) = e.at (skipArgs n (e.at l)).lex := by
  induction n generalizing l with
  | zero => rfl
  | succ n ih =>
    rw [skipArgs]
    split
    · exact ih (nextToken l)
    · rfl

theorem closeParen_at (e : Eval) (l : Lexer) :
    closeParen (e.at l) = e.at (closeParen (e.at l)).lex := by
  unfold closeParen
  split <;> rfl

theorem afterCall_at (e : Eval) (l : Lexer) :
    afterCall (e.at l) = e.at (afterCall (e.at l)).lex := by
  unfold afterCall
  rw [Eval.next_at, Eval.next_at, skipArgs_at, closeParen_at]
  rfl

/-- Alike arguments end at the same parenthesis. -/
theorem Alike.fromParen {ts us : List Tok} (h : Alike .args ts us) :
    (OsU.fromParen ts = [] ∧ OsU.fromParen us = []) ∨
      ∃ ts' us', OsU.fromParen ts = .op .rparen :: ts' ∧ OsU.fromParen us = .op .rparen :: us' ∧
        Alike .operand ts' us' := by
  generalize hp : Place.args = p at h
  induction h with
  | nil => exact Or.inl ⟨rfl, rfl⟩
  | @token p t ts us h ih =>
    subst hp
    by_cases ht : t = .op .rparen
    · subst ht
      exact Or.inr ⟨ts, us, rfl, rfl, h⟩
    · have hargs : Place.args = Place.args.after t := by
        unfold Place.after
        split
        · exact absurd rfl ht
        · rfl
        all_goals contradiction
      rw [fromParen_skip ht, fromParen_skip ht]
      exact ih hargs
  | signLeft hb v h ih =>
    subst hp
    exact ih rfl
  | signRight hb v h ih =>
    subst hp
    exact ih rfl

/-- Behind a call, two runs meet. -/
theorem afterCall_meet {e e' : Eval} (hsame : Same e e')
    (h : Twins .args e.next.next e'.next.next) : Meet (afterCall e) (afterCall e') := by
  obtain ⟨ts, us, stop, stop', hr, hr', ha⟩ := h.tokens
  have hs : Same (afterCall e) (afterCall e') := by
    have hl := afterCall_at e e.lex
    have hl' := afterCall_at e' e'.lex
    rw [Eval.at_self] at hl hl'
    rw [hl, hl']
    exact hsame.at_ _ _
  have hread := skipArgs_reads (n := e.next.lex.cursor.length + 1) hr
    (hr.length_le.trans ((size_nextToken_le e.next.lex).trans (Nat.le_succ _)))
  have hread' := skipArgs_reads (n := e'.next.lex.cursor.length + 1) hr'
    (hr'.length_le.trans ((size_nextToken_le e'.next.lex).trans (Nat.le_succ _)))
  -- Behind the arguments the line has ended on both sides, or there is the closing
  -- parenthesis on both.
  obtain ⟨hn, hn'⟩ | ⟨ts', us', hc, hc', ha'⟩ := ha.fromParen
  · rw [hn] at hread
    rw [hn'] at hread'
    have ht : afterCall e = skipArgs (e.next.lex.cursor.length + 1) e.next.next :=
      if_neg fun he => absurd (he.symm.trans hread.nil.1) nofun
    have ht' : afterCall e' = skipArgs (e'.next.lex.cursor.length + 1) e'.next.next :=
      if_neg fun he => absurd (he.symm.trans hread'.nil.1) nofun
    refine ⟨.start, nofun, ⟨hs, [], [], stop, stop', ?_, ?_, .nil⟩, ?_⟩
    · rw [ht]
      exact hread
    · rw [ht']
      exact hread'
    · rw [ht, ht']
      exact hread'.nil.1.trans hread.nil.1.symm
  · rw [hc] at hread
    rw [hc'] at hread'
    have ht : afterCall e = (skipArgs (e.next.lex.cursor.length + 1) e.next.next).next :=
      if_pos hread.currentToken
    have ht' : afterCall e' = (skipArgs (e'.next.lex.cursor.length + 1) e'.next.next).next :=
      if_pos hread'.currentToken
    refine Twins.meet (p := .operand) ⟨hs, ts', us', stop, stop', ?_, ?_, ha'⟩ rfl
    · rw [ht]
      exact hread.cons.2.2
    · rw [ht']
      exact hread'.cons.2.2

/-! ## The parser

The parser is run twice, on token lists that are alike. The induction is the one over
the ring of parsers, at two depths at once; a sign that is its own token in one run
takes a level more there, so the depths cannot be kept equal. -/

theorem Meet.of_start {e e' : Eval} (h : Twins .start e e') (ht : e'.tok = e.tok) : Meet e e' :=
  ⟨.start, nofun, h, ht⟩

theorem Meet.closeParen {e e' : Eval} (h : Meet e e') :
    Meet (OsU.closeParen e) (OsU.closeParen e') := by
  obtain ⟨p, hp, htw, ht⟩ := h
  unfold OsU.closeParen
  rw [ht]
  by_cases hc : e.tok = .rparen
  · rw [if_pos hc, if_pos hc]
    obtain ⟨_, hnext⟩ := htw.step ht (by rw [hc]; exact nofun)
    have hafter : p.after e.lex.token = .operand := by
      rw [(e.lex.token_rparen_iff).mpr hc]
      cases p <;> rfl
    rw [hafter] at hnext
    exact hnext.meet rfl
  · rw [if_neg hc, if_neg hc]
    exact ⟨p, hp, htw, ht⟩

/-- Both sides of an operator: the next operand is expected. -/
theorem Meet.next {e e' : Eval} (h : Meet e e') {d : Nat} (hop : levelIsOp d e.tok = true) :
    Twins .start e.next e'.next := by
  obtain ⟨p, hp, htw, ht⟩ := h
  have hall : ∀ t : TokenType, levelIsOp d t = true → t ≠ .eof ∧ t ≠ .number ∧ t ≠ .string ∧
      t ≠ .ident ∧ t ≠ .lparen ∧ t ≠ .rparen := by
    intro t ht
    unfold levelIsOp at ht
    split at ht <;> cases t <;> first | exact absurd ht Bool.false_ne_true | decide
  obtain ⟨heof, hn, hs, hi, hl, hr⟩ := hall e.tok hop
  obtain ⟨_, hnext⟩ := htw.step ht heof
  have hafter : p.after e.lex.token = .start := by
    rw [Lexer.token_op hn hs hi]
    change p.after (.op e.tok) = .start
    generalize e.tok = t at hl hr
    cases p with
    | args => exact absurd rfl hp
    | _ => cases t <;> first | rfl | exact absurd rfl hl | exact absurd rfl hr
  rw [hafter] at hnext
  exact hnext

theorem Meet.op {e e' : Eval} (h : Meet e e') (d : Nat) (t : TokenType) (left right : BitVec 32) :
    (levelOp d t left right e').1 = (levelOp d t left right e).1 ∧
      Meet (levelOp d t left right e).2 (levelOp d t left right e').2 := by
  obtain ⟨p, hp, htw, ht⟩ := h
  obtain ⟨hv, hs⟩ := htw.same.op d t left right
  have hlex := levelOp_lex d t left right e
  have hlex' := levelOp_lex d t left right e'
  refine ⟨hv, p, hp, ⟨hs, ?_⟩, ?_⟩
  · rw [hlex, hlex']
    exact htw.tokens
  · rw [Eval.tok, Eval.tok, hlex, hlex']
    exact ht

theorem Meet.input {e e' : Eval} (h : Meet e e') :
    (readInput e').1 = (readInput e).1 ∧ Meet (readInput e).2 (readInput e').2 := by
  obtain ⟨p, hp, htw, ht⟩ := h
  obtain ⟨hv, hs⟩ := htw.same.input
  exact ⟨hv, p, hp, ⟨hs, htw.tokens⟩, ht⟩

/-- What is made of the result of a smaller parse. -/
theorem Agrees.map {q q' : Parse} (hq : Agrees q q') {f : BitVec 32 × Eval → BitVec 32 × Eval}
    {e e' : Eval} {r r' : BitVec 32 × Eval} (h : Twins .start e e')
    (hr : (q e).map f = some r) (hr' : (q' e').map f = some r')
    (hf : ∀ s s', s'.1 = s.1 → Meet s.2 s'.2 → (f s').1 = (f s).1 ∧ Meet (f s).2 (f s').2) :
    r'.1 = r.1 ∧ Meet r.2 r'.2 := by
  obtain ⟨s, hs, rfl⟩ := Option.map_eq_some_iff.mp hr
  obtain ⟨s', hs', rfl⟩ := Option.map_eq_some_iff.mp hr'
  obtain ⟨hv, hm⟩ := hq e e' s s' h hs hs'
  exact hf s s' hv hm

/-- A name is a variable, or a call whose arguments both runs skip to the same place. -/
theorem ident_agrees {q x q' x' : Parse} {e e' : Eval} {r r' : BitVec 32 × Eval}
    (h : Twins .start e e') (hk : e.tok = .ident) (hk' : e'.tok = .ident)
    (hr : parsePrimary q x e = some r) (hr' : parsePrimary q' x' e' = some r') :
    r'.1 = r.1 ∧ Meet r.2 r'.2 := by
  obtain ⟨htok, hnext⟩ := h.step (hk'.trans hk.symm) (by rw [hk]; exact nofun)
  rw [Lexer.token_ident hk] at htok hnext
  have hname := (Lexer.of_token_ident htok).2
  have hne : e'.next.tok = e.next.tok := hnext.tok_eq rfl
  by_cases hcall : e.next.tok = .lparen
  · obtain ⟨_, hargs⟩ := hnext.step hne (by rw [hcall]; exact nofun)
    rw [Lexer.token_of_op hcall nofun nofun nofun] at hargs
    have hmeet := afterCall_meet h.same hargs
    rw [parsePrimary_call hk hcall] at hr
    rw [parsePrimary_call hk' (hne.trans hcall), hname] at hr'
    by_cases hin : e.lex.tokenIdent = ascii "input"
    · rw [if_pos hin] at hr hr'
      rw [← Option.some.inj hr, ← Option.some.inj hr']
      exact hmeet.input
    · rw [if_neg hin] at hr hr'
      cases hr
      cases hr'
      exact ⟨rfl, hmeet⟩
  · rw [parsePrimary_var hk hcall] at hr
    rw [parsePrimary_var hk' (fun hc => hcall (hne.symm.trans hc)), hname] at hr'
    cases hr
    cases hr'
    exact ⟨h.same.varValue _, hnext.meet rfl⟩

theorem primary_agrees {n m : Nat} (ih : Agrees (parsers n).1 (parsers m).1)
    (ihx : Agrees (parsers n).2 (parsers m).2) :
    Agrees (parsePrimary (parsers n).1 (parsers n).2)
      (parsePrimary (parsers m).1 (parsers m).2) := by
  intro e e' r r' h hr hr'
  -- Either both scanners are at the same token, and both parsers take the same branch,
  -- or a minus has been scanned into a number on one side and not on the other.
  by_cases ht : e'.tok = e.tok
  · have hstep : e.tok ≠ .eof → _ := h.step ht
    cases hk : e.tok with
    | number =>
      obtain ⟨htok, hnext⟩ := hstep (by rw [hk]; exact nofun)
      rw [Lexer.token_number hk] at htok hnext
      rw [parsePrimary_number hk] at hr
      rw [parsePrimary_number (ht.trans hk)] at hr'
      cases hr
      cases hr'
      exact ⟨(Lexer.of_token_number htok).2, hnext.meet rfl⟩
    | string =>
      obtain ⟨htok, hnext⟩ := hstep (by rw [hk]; exact nofun)
      rw [Lexer.token_string hk, Lexer.token_string (ht.trans hk)] at htok
      rw [Lexer.token_string hk] at hnext
      rw [parsePrimary_string hk] at hr
      rw [parsePrimary_string (ht.trans hk)] at hr'
      cases hr
      cases hr'
      refine ⟨?_, hnext.meet rfl⟩
      dsimp only
      rw [Tok.string.inj htok]
    | ident => exact ident_agrees h hk (ht.trans hk) hr hr'
    | lparen =>
      obtain ⟨_, hnext⟩ := hstep (by rw [hk]; exact nofun)
      rw [Lexer.token_of_op hk nofun nofun nofun] at hnext
      rw [parsePrimary_paren hk] at hr
      rw [parsePrimary_paren (ht.trans hk)] at hr'
      exact ihx.map hnext hr hr' fun s s' hv hm => ⟨hv, hm.closeParen⟩
    | minus =>
      obtain ⟨_, hnext⟩ := hstep (by rw [hk]; exact nofun)
      rw [Lexer.token_of_op hk nofun nofun nofun] at hnext
      rw [parsePrimary_minus hk] at hr
      rw [parsePrimary_minus (ht.trans hk)] at hr'
      exact ih.map hnext hr hr' fun s s' hv hm => ⟨congrArg (-·) hv, hm⟩
    | not =>
      obtain ⟨_, hnext⟩ := hstep (by rw [hk]; exact nofun)
      rw [Lexer.token_of_op hk nofun nofun nofun] at hnext
      rw [parsePrimary_not hk] at hr
      rw [parsePrimary_not (ht.trans hk)] at hr'
      exact ih.map hnext hr hr' fun s s' hv hm => ⟨by dsimp only; rw [hv], hm⟩
    | _ =>
      have hc : closes e.tok := by rw [hk]; trivial
      rw [parsePrimary_other hc] at hr
      rw [parsePrimary_other (by rw [ht]; exact hc)] at hr'
      cases hr
      cases hr'
      exact ⟨rfl, .of_start h ht⟩
  · obtain hs | hs := h.tok_ne ht
    · -- The number with its sign is as much as the minus and the number behind it.
      obtain ⟨hv, hnext⟩ := hs.primary hr hr'
      rw [Lexer.token_number hs.number] at hnext
      exact ⟨hv, hnext.meet rfl⟩
    · obtain ⟨hv, hnext⟩ := hs.primary hr' hr
      rw [Lexer.token_number hs.number] at hnext
      exact ⟨hv.symm, hnext.symm.meet rfl⟩

theorem levelLoop_agrees {q q' : Parse} (hq : Agrees q q') (d : Nat) {n m : Nat}
    {left : BitVec 32} {e e' : Eval} {r r' : BitVec 32 × Eval} (h : Meet e e')
    (hr : levelLoop (levelIsOp d) (levelOp d) q n left e = some r)
    (hr' : levelLoop (levelIsOp d) (levelOp d) q' m left e' = some r') :
    r'.1 = r.1 ∧ Meet r.2 r'.2 := by
  induction n generalizing m left e e' with
  | zero => exact absurd hr nofun
  | succ n ih =>
    cases m with
    | zero => exact absurd hr' nofun
    | succ m =>
      -- Between two operands both scanners are at the same token: a minus there is an
      -- operator on both sides.
      have ht : e'.tok = e.tok := by
        obtain ⟨p, _, _, ht⟩ := h
        exact ht
      rw [levelLoop] at hr hr'
      rw [ht] at hr'
      by_cases hop : levelIsOp d e.tok = true
      · rw [if_pos hop] at hr hr'
        obtain ⟨s, hs, hloop⟩ := Option.bind_eq_some_iff.mp hr
        obtain ⟨s', hs', hloop'⟩ := Option.bind_eq_some_iff.mp hr'
        obtain ⟨hv, hm⟩ := hq _ _ s s' (h.next hop) hs hs'
        obtain ⟨hval, hmeet⟩ := hm.op d e.tok left s.1
        dsimp only at hloop hloop'
        rw [hv, hval] at hloop'
        exact ih hmeet hloop hloop'
      · rw [if_neg hop] at hr hr'
        cases hr
        cases hr'
        exact ⟨rfl, h⟩

theorem Agrees.level {q q' : Parse} (hq : Agrees q q') (n m d : Nat) :
    Agrees (level q n d) (level q' m d) := by
  induction d with
  | zero => exact hq
  | succ d ih =>
    intro e e' r r' h hr hr'
    obtain ⟨s, hs, hloop⟩ := Option.bind_eq_some_iff.mp hr
    obtain ⟨s', hs', hloop'⟩ := Option.bind_eq_some_iff.mp hr'
    obtain ⟨hv, hm⟩ := ih e e' s s' h hs hs'
    rw [hv] at hloop'
    exact levelLoop_agrees ih d hm hloop hloop'

/-- **Two runs.** At whatever depths the two return, they return the same value. -/
theorem parsers_agree (n m : Nat) :
    Agrees (parsers n).1 (parsers m).1 ∧ Agrees (parsers n).2 (parsers m).2 := by
  induction n generalizing m with
  | zero =>
    exact ⟨fun _ _ _ _ _ hr => absurd hr nofun, fun _ _ _ _ _ hr => absurd hr nofun⟩
  | succ n ih =>
    cases m with
    | zero =>
      exact ⟨fun _ _ _ _ _ _ hr => absurd hr nofun, fun _ _ _ _ _ _ hr => absurd hr nofun⟩
    | succ m =>
      have hp := primary_agrees (ih m).1 (ih m).2
      exact ⟨hp, hp.level (n + 1) (m + 1) 5⟩

/-- The parser on the same tokens, in states that differ in nothing it looks at. -/
theorem Same.parseExpr {e e' : Eval} (h : Same e e') (hl : SameLexer e.lex e'.lex)
    {r r' : BitVec 32 × Eval} (hr : parseExpr e = some r) (hr' : parseExpr e' = some r') :
    r'.1 = r.1 ∧ Same r.2 r'.2 := by
  obtain ⟨ts, stop, hts⟩ := Reads.exists e.lex
  have htwins : Twins .start e e' := ⟨h, ts, ts, stop, stop, hts, hts.congr hl, .refl _ _⟩
  obtain ⟨hv, _, _, hm, _⟩ := (parsers_agree _ _).2 e e' r r' htwins hr hr'
  exact ⟨hv, hm.same⟩

/-- **Blanks.** Two renderings of one token sequence have the same value, in every state, when they
agree on which `-` behind an operand stands directly before a number. -/
theorem parseExpr_render {r r' : List Item} (hr : Spaced r) (hr' : Spaced r')
    (hsame : r'.map Prod.snd = r.map Prod.snd) (hjoin : joins .start r' = joins .start r)
    {stop stop' : List UInt8} (hs : ∀ b ∈ stop, isBlank b = true)
    (hs' : ∀ b ∈ stop', isBlank b = true) (e : Eval) :
    ∃ v s s', parseExpr (e.scan (render r stop)) = some (v, s) ∧
      parseExpr (e.scan (render r' stop')) = some (v, s') := by
  obtain ⟨⟨v, s⟩, hp, _⟩ := parseExpr_total (e.scan (render r stop))
  obtain ⟨⟨v', s'⟩, hp', _⟩ := parseExpr_total (e.scan (render r' stop'))
  have htwins : Twins .start (e.scan (render r stop)) (e.scan (render r' stop')) :=
    ⟨(Same.refl e).at_ _ _, seen r, seen r', [], [],
      reads_render hr hs { e.lex with cursor := render r stop } rfl,
      reads_render hr' hs' { e.lex with cursor := render r' stop' } rfl, alike_seen hsame hjoin⟩
  obtain ⟨hv, _⟩ := (parsers_agree _ _).2 _ _ _ _ htwins hp hp'
  dsimp only at hv
  rw [hv] at hp'
  exact ⟨v, s, s', hp, hp'⟩

/-- A sign and a number, which may be joined. -/
theorem spaced_sign (g digits : List UInt8) (hg : ∀ b ∈ g, isBlank b = true)
    (hd : (Lexeme.number digits).Wf) : Spaced [([], .op 0x2D), (g, .number digits)] := by
  constructor
  · refine List.forall_mem_cons.mpr ⟨⟨fun b hb => absurd hb List.not_mem_nil, ?_⟩, ?_⟩
    · exact (by decide : Lexeme.isOp 0x2D)
    · exact List.forall_mem_singleton.mpr ⟨hg, hd⟩
  · refine List.isChain_cons_cons.mpr ⟨fun _ hc => ?_, .singleton _⟩
    obtain ⟨hw, _⟩ | ⟨b, hb, hj, _⟩ := hc
    · exact hw
    · cases hb
      exact absurd hj (by decide)

/-- `-1` and `- 1` -/
theorem parseExpr_render_demo :
    ∃ v s s', parseExpr ((Eval.start fun _ => []).scan
        (render [([], .op 0x2D), ([], .number (ascii "1"))] [])) = some (v, s) ∧
      parseExpr ((Eval.start fun _ => []).scan
        (render [([], .op 0x2D), ([0x20], .number (ascii "1"))] [])) = some (v, s') := by
  have hone : (Lexeme.number (ascii "1")).Wf := ⟨by decide, forall_mem_of_all (by decide)⟩
  exact parseExpr_render (spaced_sign [] _ (forall_mem_of_all rfl) hone)
    (spaced_sign [0x20] _ (forall_mem_of_all rfl) hone) rfl rfl (forall_mem_of_all rfl)
    (forall_mem_of_all rfl) _

/-- `a`, `-`, `1`, with the given blanks before the number. -/
def aMinusOne (g : List UInt8) : List Item :=
  [([], .word (ascii "a")), ([], .op 0x2D), (g, .number (ascii "1"))]

theorem spaced_aMinusOne (g : List UInt8) (hg : ∀ b ∈ g, isBlank b = true) :
    Spaced (aMinusOne g) := by
  have hsign := spaced_sign g (ascii "1") hg ⟨by decide, forall_mem_of_all (by decide)⟩
  have ha : Lexeme.IsWord (ascii "a") := ⟨⟨_, _, rfl, by decide⟩, forall_mem_of_all (by decide), by decide⟩
  constructor
  · exact List.forall_mem_cons.mpr ⟨⟨fun b hb => absurd hb List.not_mem_nil, ha⟩, hsign.wf⟩
  · refine List.isChain_cons_cons.mpr ⟨fun _ hc => ?_, hsign.apart⟩
    obtain ⟨_, hw⟩ | ⟨b, hb, _⟩ := hc
    · exact hw
    · exact absurd hb nofun

/-- With `a` = 5, `a-1` is 5 and `a- 1` is 4. -/
theorem blanks_matter :
    ¬∀ (r r' : List Item) (e : Eval), Spaced r → Spaced r' →
      r'.map Prod.snd = r.map Prod.snd →
      ∃ v s s', parseExpr (e.scan (render r [])) = some (v, s) ∧
        parseExpr (e.scan (render r' [])) = some (v, s') := by
  intro h
  obtain ⟨v, s, s', hp, hp'⟩ := h (aMinusOne []) (aMinusOne [0x20])
    (setVar (ascii "a") 5 (.start fun _ => [])).2
    (spaced_aMinusOne [] (forall_mem_of_all rfl)) (spaced_aMinusOne [0x20] (forall_mem_of_all rfl))
    rfl
  have hfive : (parseExpr ((setVar (ascii "a") 5 (.start fun _ => [])).2.scan
      (render (aMinusOne []) []))).map Prod.fst = some 5 := by decide +kernel
  have hfour : (parseExpr ((setVar (ascii "a") 5 (.start fun _ => [])).2.scan
      (render (aMinusOne [0x20]) []))).map Prod.fst = some 4 := by decide +kernel
  rw [hp] at hfive
  rw [hp'] at hfour
  have hv : v = 5 := Option.some.inj hfive
  have hv' : v = 4 := Option.some.inj hfour
  exact absurd (hv.symm.trans hv') (by decide)

end OsU
