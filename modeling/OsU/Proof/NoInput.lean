import OsU.Proof.Mirror

/-!
# Expressions without `input()`

The parser looks at the keyboard at one place, behind an `input` with a parenthesis.
Where no such call is among the tokens (`Silent`), it gives the same value whatever the
keyboard delivers, and it reads nothing.

`Silent` is about all tokens from here on, those behind the end of an expression
included, which is more than is needed and keeps it a property of the text. A name
`input` without a parenthesis is a variable and does not matter.

It is used for one purpose: the prompt and a file see different keyboards, since the
prompt reads its own lines from there, and on silent lines that makes no difference
(`mirrors`).
-/

set_option autoImplicit false

namespace OsU

open CString

/-- The lexer is at a call of `input`. -/
def CallsInput (l : Lexer) : Prop :=
  l.token = .ident (ascii "input") ∧ (nextToken l).currentToken = .lparen

instance (l : Lexer) : Decidable (CallsInput l) := inferInstanceAs (Decidable (_ ∧ _))

/-- No call of `input` from here on. -/
def Silent (l : Lexer) : Prop := ∀ k, ¬CallsInput (nextToken^[k] l)

namespace Silent

variable {l l' : Lexer}

theorem here (h : Silent l) : ¬CallsInput l := h 0

theorem next (h : Silent l) : Silent (nextToken l) := fun k => h (k + 1)

theorem congr (hs : SameLexer l l') (h : Silent l) : Silent l' := by
  have hiter : ∀ k, SameLexer (nextToken^[k] l) (nextToken^[k] l') := by
    intro k
    induction k with
    | zero => exact hs
    | succ k ih =>
      rw [Function.iterate_succ_apply', Function.iterate_succ_apply']
      exact nextToken_congr ih.cursor
  rintro k ⟨htok, hparen⟩
  refine h k ⟨(hiter k).token.symm.trans htok, ?_⟩
  exact (nextToken_congr (hiter k).cursor).currentToken.symm.trans hparen

theorem cons (hl : ¬CallsInput l) (h : Silent (nextToken l)) : Silent l := by
  intro k
  cases k with
  | zero => exact hl
  | succ k => exact h k

/-- At the end of the text. -/
theorem of_end (hc : l.cursor = []) (ht : l.currentToken = .eof) : Silent l := by
  have hiter : ∀ k, (nextToken^[k] l).cursor = [] ∧ (nextToken^[k] l).currentToken = .eof := by
    intro k
    induction k with
    | zero => exact ⟨hc, ht⟩
    | succ k ih =>
      rw [Function.iterate_succ_apply', nextToken, ih.1]
      exact ⟨rfl, rfl⟩
  rintro k ⟨htok, -⟩
  have hid := (Lexer.of_token_ident htok).1
  rw [(hiter k).2] at hid
  exact nomatch hid

/-- A text that has been looked through up to its end. -/
theorem of_tokens (k : Nat) (h : ∀ i < k, ¬CallsInput (nextToken^[i] l))
    (hc : (nextToken^[k] l).cursor = []) (ht : (nextToken^[k] l).currentToken = .eof) :
    Silent l := by
  induction k generalizing l with
  | zero => exact of_end hc ht
  | succ k ih =>
    exact cons (h 0 k.succ_pos) (ih (fun i hi => h (i + 1) (Nat.succ_lt_succ hi)) hc ht)

/-- The parser leaves no call of `input` behind it that was not before it. -/
theorem moves : Moves fun e e' => Silent e.lex → Silent e'.lex where
  refl _ := id
  trans hab hbc := hbc ∘ hab
  next _ h := h.next
  input _ h := h
  op d t left right e h := by
    rw [levelOp_lex]
    exact h

end Silent

/-! ## Another keyboard

The keyboard is a sequence of lines still to come. Without a call of `input()` among the
tokens no parser looks at it, so the keyboard can be exchanged for another one. -/

/-- The evaluator at another keyboard. -/
def Eval.on (e : Eval) (keys : Nat → List UInt8) (reads : Nat) : Eval :=
  { e with keys := keys, reads := reads }

section Keyboard

variable (keys : Nat → List UInt8) (reads : Nat)

theorem skipArgs_on (n : Nat) (e : Eval) :
    skipArgs n (e.on keys reads) = (skipArgs n e).on keys reads := by
  induction n generalizing e with
  | zero => rfl
  | succ n ih =>
    rw [skipArgs, skipArgs, apply_ite (Eval.on · keys reads), ← ih e.next]
    rfl

theorem closeParen_on (e : Eval) :
    closeParen (e.on keys reads) = (closeParen e).on keys reads := by
  rw [closeParen, closeParen, apply_ite (Eval.on · keys reads)]
  rfl

theorem afterCall_on (e : Eval) : afterCall (e.on keys reads) = (afterCall e).on keys reads := by
  have hskip := skipArgs_on keys reads (e.next.lex.cursor.length + 1) e.next.next
  rw [afterCall, afterCall, ← closeParen_on, ← hskip]
  rfl

theorem levelOp_on (d : Nat) (t : TokenType) (left right : BitVec 32) (e : Eval) :
    levelOp d t left right (e.on keys reads) =
      ((levelOp d t left right e).1, (levelOp d t left right e).2.on keys reads) := by
  unfold levelOp
  split
  · unfold termOp
    split
    · rfl
    · split <;> rfl
    · split <;> rfl
  · rfl
  · rfl
  · rfl
  · rfl

end Keyboard

/-- On silent tokens, `p` does not look at the keyboard. -/
def Deaf (p : Parse) : Prop :=
  ∀ e r, Silent e.lex → p e = some r →
    ∀ keys reads, p (e.on keys reads) = some (r.1, r.2.on keys reads)

namespace Deaf

theorem parsePrimary {primary expr : Parse} (hp : Deaf primary) (hx : Deaf expr) :
    Deaf (parsePrimary primary expr) := by
  intro e r hl hr keys reads
  -- an operand behind its first token
  have hmap : ∀ {p : Parse} {f : BitVec 32 × Eval → BitVec 32 × Eval}, Deaf p →
      (∀ v e, f (v, e.on keys reads) = ((f (v, e)).1, (f (v, e)).2.on keys reads)) →
      (p e.next).map f = some r →
      (p (e.on keys reads).next).map f = some (r.1, r.2.on keys reads) := by
    intro p f hpar hf hm
    obtain ⟨s, hs, rfl⟩ := Option.map_eq_some_iff.mp hm
    have hon : p (e.on keys reads).next = some (s.1, s.2.on keys reads) :=
      hpar e.next s hl.next hs keys reads
    rw [hon, Option.map_some, hf]
  have htok : (e.on keys reads).tok = e.tok := rfl
  cases ht : e.tok with
  | number =>
    rw [parsePrimary_number ht] at hr
    cases hr
    exact parsePrimary_number (htok.trans ht)
  | string =>
    rw [parsePrimary_string ht] at hr
    cases hr
    exact parsePrimary_string (htok.trans ht)
  | ident =>
    by_cases hn : e.next.tok = .lparen
    · have hname : e.lex.tokenIdent ≠ ascii "input" := by
        intro hname
        refine hl.here ⟨?_, hn⟩
        rw [Lexer.token_ident ht, hname]
      have hname' : (e.on keys reads).lex.tokenIdent ≠ ascii "input" := hname
      rw [parsePrimary_call ht hn, if_neg hname] at hr
      cases hr
      rw [parsePrimary_call (htok.trans ht) hn, if_neg hname', afterCall_on]
    · rw [parsePrimary_var ht hn] at hr
      cases hr
      exact parsePrimary_var (htok.trans ht) hn
  | lparen =>
    rw [parsePrimary_paren ht] at hr
    rw [parsePrimary_paren (htok.trans ht)]
    exact hmap hx (fun v e => by rw [closeParen_on]) hr
  | minus =>
    rw [parsePrimary_minus ht] at hr
    rw [parsePrimary_minus (htok.trans ht)]
    exact hmap hp (fun _ _ => rfl) hr
  | not =>
    rw [parsePrimary_not ht] at hr
    rw [parsePrimary_not (htok.trans ht)]
    exact hmap hp (fun _ _ => rfl) hr
  | _ =>
    have hother : closes e.tok := by
      rw [ht]
      trivial
    rw [parsePrimary_other hother] at hr
    cases hr
    exact parsePrimary_other hother

variable {primary sub : Parse}

theorem levelLoop (hsub : Deaf sub)
    (hlex : Moves.Along (fun e e' => Silent e.lex → Silent e'.lex) sub) (d n : Nat)
    (left : BitVec 32) : Deaf (levelLoop (levelIsOp d) (levelOp d) sub n left) := by
  induction n generalizing left with
  | zero => exact fun _ _ _ hr => absurd hr nofun
  | succ n ih =>
    intro e r hl hr keys reads
    have htok : (e.on keys reads).tok = e.tok := rfl
    rw [OsU.levelLoop] at hr
    rw [OsU.levelLoop, htok]
    by_cases hop : levelIsOp d e.tok = true
    · rw [if_pos hop] at hr
      rw [if_pos hop]
      obtain ⟨s, hs, hloop⟩ := Option.bind_eq_some_iff.mp hr
      have hon : sub (e.on keys reads).next = some (s.1, s.2.on keys reads) :=
        hsub e.next s hl.next hs keys reads
      have hrest : Silent (levelOp d e.tok left s.1 s.2).2.lex := by
        rw [levelOp_lex]
        exact hlex e.next s hs hl.next
      rw [hon, Option.bind_some]
      dsimp only
      rw [levelOp_on]
      exact ih _ _ r hrest hloop keys reads
    · rw [if_neg hop] at hr
      rw [if_neg hop]
      cases hr
      rfl

theorem level (hp : Deaf primary)
    (hlex : Moves.Along (fun e e' => Silent e.lex → Silent e'.lex) primary) (n d : Nat) :
    Deaf (level primary n d) := by
  induction d with
  | zero => exact hp
  | succ d ih =>
    intro e r hl hr keys reads
    obtain ⟨s, hs, hloop⟩ := Option.bind_eq_some_iff.mp hr
    have halong := Silent.moves.level hlex n d
    have hon := ih e s hl hs keys reads
    have hrest := (ih.levelLoop halong d n s.1) s.2 r (halong e s hs hl) hloop keys reads
    change (OsU.level primary n d (e.on keys reads)).bind _ = _
    rw [hon]
    exact hrest

theorem parsers (n : Nat) : Deaf (parsers n).1 ∧ Deaf (parsers n).2 := by
  induction n with
  | zero => exact ⟨fun _ _ _ hr => absurd hr nofun, fun _ _ _ hr => absurd hr nofun⟩
  | succ n ih =>
    have halong := (Silent.moves.parsers (n + 1)).1
    rw [parsers_succ] at halong ⊢
    have hp := parsePrimary ih.1 ih.2
    exact ⟨hp, hp.level halong (n + 1) 5⟩

/-- **Without `input()`**, the parser does not look at the keyboard. -/
theorem parseExpr : Deaf parseExpr := fun e => (parsers _).2 e

end Deaf

/-! ## An interpreter at the prompt -/

/-- The second evaluator has the variables of the first and has printed the same lines; the
keyboard it reads is `keys`, where `reads` lines have been read. -/
structure AtPrompt (keys : Nat → List UInt8) (reads : Nat) (e e' : Eval) : Prop where
  vars : e'.vars = e.vars
  varCount : e'.varCount = e.varCount
  lines : e'.lines = e.lines
  keys_eq : e'.keys = keys
  reads_eq : e'.reads = reads

namespace AtPrompt

variable {keys : Nat → List UInt8} {reads : Nat} {e e' : Eval}

theorem same (h : AtPrompt keys reads e e') : Same (e.on keys reads) e' :=
  ⟨h.vars, h.varCount, h.lines, h.keys_eq, h.reads_eq⟩

theorem of_same (h : Same (e.on keys reads) e') : AtPrompt keys reads e e' :=
  ⟨h.vars, h.varCount, h.lines, h.keys, h.reads⟩

/-- A message of the driver is no printed line. -/
theorem message (h : AtPrompt keys reads e e') (text : List UInt8) :
    AtPrompt keys reads e (e'.display (.message text)) := by
  refine ⟨h.vars, h.varCount, ?_, h.keys_eq, h.reads_eq⟩
  rw [Same.lines_display, List.append_nil, h.lines]

theorem readline (h : AtPrompt keys reads e e') (n : Nat) :
    AtPrompt keys (reads + 1) e (keyboardReadline n e').2 :=
  ⟨h.vars, h.varCount, h.lines, h.keys_eq, congrArg (· + 1) h.reads_eq⟩

theorem on_setVar (name : List UInt8) (v : BitVec 32) :
    (setVar name v (e.on keys reads)).2 = (setVar name v e).2.on keys reads := by
  have hget : getVar (e.on keys reads) name = getVar e name := rfl
  unfold setVar
  rw [hget]
  cases getVar e name with
  | some i => rfl
  | none =>
    dsimp only
    rw [apply_ite (fun r : Option Nat × Eval => r.2), apply_ite (fun r : Option Nat × Eval => r.2),
      apply_ite (Eval.on · keys reads)]
    rfl

/-- **Silent statements** keep an interpreter at the prompt beside one that runs a file. -/
theorem mirrors (keys : Nat → List UInt8) (reads : Nat) : Mirrors (AtPrompt keys reads) Silent where
  at_ h l l' := of_same (h.same.at_ l l')
  display h s := of_same (h.same.display s)
  setVar h name v := by
    have hset := h.same.setVar name v
    rw [on_setVar] at hset
    exact of_same hset
  parseExpr h hl hq hr hr' := by
    have hon := Deaf.parseExpr _ _ hq hr keys reads
    obtain ⟨hv, hs⟩ := h.same.parseExpr hl hon hr'
    exact ⟨hv, of_same hs⟩
  congr hs hq := hq.congr hs
  next hq := hq.next

end AtPrompt

end OsU
