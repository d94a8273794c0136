import OsU.Proof.Branches
import OsU.Proof.Loops

/-!
# Two interpreters side by side

`execute_statement` touches variables, screen and keyboard only through the parser,
`set_var` and the console. So a relation of two of them that these keep (`Mirrors`) is
kept by every statement, and all the rest of the state, functions and blocks, stays the
same on both sides. A property of the rest that the few assignments to it keep (`Keeps`)
is kept by every statement too.

The chain of tests in `execute_statement` is gone through twice here, once for relations
and once for properties, and by no proof outside this module: a proof about statements
states what the few primitives keep and takes the rest from here. The two lifts go on to
loops, to the lines of a file and to calls of functions, whose depth is bounded in the
model on both sides alike.

The second parameter of `Mirrors` is a condition on the tokens that a statement gives to
the parser, so that a relation need be kept only for texts of some kind, such as those
without calls of `input()`.
-/

set_option autoImplicit false

namespace OsU

open CString

/-- The lexer at the first token of a text. -/
def textLexer (text : List UInt8) : Lexer := nextToken ⟨text, .eof, 0, [], []⟩

/-- The text of a statement that goes to the tokenizer. -/
def exprText (line : List UInt8) : List UInt8 :=
  if startsWith line (ascii "if ") then line.drop 3
  else if startsWith line (ascii "while ") then line.drop 6
  else if startsWith line (ascii "def ") then []
  else if startsWith line (ascii "print") ∧ charAt line 5 = 0x28 then line.drop 6
  else line

/-- A relation that the parser keeps on tokens in `Q`, and `set_var` and the console keep too. -/
structure Mirrors (R : Eval → Eval → Prop) (Q : Lexer → Prop) : Prop where
  at_ : ∀ {e e'}, R e e' → ∀ l l', R (e.at l) (e'.at l')
  display : ∀ {e e'}, R e e' → ∀ s, R (e.display s) (e'.display s)
  setVar : ∀ {e e'}, R e e' → ∀ name v, R (setVar name v e).2 (setVar name v e').2
  parseExpr : ∀ {e e' r r'}, R e e' → SameLexer e.lex e'.lex → Q e.lex → parseExpr e = some r →
    parseExpr e' = some r' → r'.1 = r.1 ∧ R r.2 r'.2
  congr : ∀ {l l'}, SameLexer l l' → Q l → Q l'
  next : ∀ {l}, Q l → Q (nextToken l)

/-- Related evaluators, and all else the same. -/
structure Twin (R : Eval → Eval → Prop) (s s' : Cospy) : Prop where
  ev : R s.ev s'.ev
  rest : s' = { s with ev := s'.ev }

/-- Results of `execute_statement` on both sides. -/
def TwinResult (R : Eval → Eval → Prop) (r r' : Int × Cospy) : Prop :=
  r'.1 = r.1 ∧ Twin R r.2 r'.2

section Rel

variable {α α' β β' : Type} {P : α → α' → Prop} {P' : β → β' → Prop} {a : Option α} {a' : Option α'}

theorem rel_map (h : Option.Rel P a a') {f : α → β} {f' : α' → β'}
    (hf : ∀ x x', P x x' → P' (f x) (f' x')) : Option.Rel P' (a.map f) (a'.map f') := by
  cases h with
  | none => exact .none
  | some h => exact .some (hf _ _ h)

theorem rel_map_right {P' : α → β' → Prop} (h : Option.Rel P a a') {f' : α' → β'}
    (hf : ∀ x x', P x x' → P' x (f' x')) : Option.Rel P' a (a'.map f') := by
  cases h with
  | none => exact .none
  | some h => exact .some (hf _ _ h)

/-- What is known of the first side besides. -/
theorem rel_and {S : α → Prop} (h : Option.Rel P a a') (hs : ∀ x, a = some x → S x) :
    Option.Rel (fun x x' => S x ∧ P x x') a a' := by
  cases h with
  | none => exact .none
  | some h => exact .some ⟨hs _ rfl, h⟩

/-- The same test on both sides. -/
theorem rel_ite {c : Prop} [Decidable c] {b : Option α} {b' : Option α'}
    (ht : c → Option.Rel P a a') (hf : ¬c → Option.Rel P b b') :
    Option.Rel P (if c then a else b) (if c then a' else b') := by
  by_cases hc : c
  · rw [if_pos hc, if_pos hc]
    exact ht hc
  · rw [if_neg hc, if_neg hc]
    exact hf hc

/-- One step on both sides, and what comes behind it. -/
theorem rel_bind (h : Option.Rel P a a') {f : α → Option β} {f' : α' → Option β'}
    (hf : ∀ x x', a = some x → a' = some x' → P x x' → Option.Rel P' (f x) (f' x')) :
    Option.Rel P' (a.bind f) (a'.bind f') := by
  cases h with
  | none => exact .none
  | some h => exact hf _ _ rfl rfl h

end Rel

namespace Mirrors

variable {R : Eval → Eval → Prop} {Q : Lexer → Prop} {e e' : Eval}

/-- The two lexers at the start of a text. -/
theorem scan_lex (e e' : Eval) (text : List UInt8) :
    SameLexer (e.scan text).lex (e'.scan text).lex := nextToken_congr rfl

theorem scan (h : Mirrors R Q) (he : R e e') (text : List UInt8) :
    R (e.scan text) (e'.scan text) := h.at_ he _ _

theorem next' (h : Mirrors R Q) (he : R e e') : R e.next e'.next := h.at_ he _ _

theorem scan_mem (h : Mirrors R Q) (e : Eval) {text : List UInt8} (hq : Q (textLexer text)) :
    Q (e.scan text).lex := by
  have hsame : SameLexer (textLexer text) (e.scan text).lex := nextToken_congr rfl
  exact h.congr hsame hq

/-- An expression, in both. -/
theorem value (h : Mirrors R Q) (he : R e e') {text : List UInt8} (hq : Q (textLexer text)) :
    (value e' text).1 = (value e text).1 ∧ R (value e text).2 (value e' text).2 :=
  h.parseExpr (h.scan he text) (scan_lex e e' text) (h.scan_mem e hq) (parseExpr_value e text)
    (parseExpr_value e' text)

theorem printStatement (h : Mirrors R Q) (he : R e e') {arg : List UInt8}
    (hq : Q (textLexer arg)) :
    Option.Rel R (printStatement arg e) (OsU.printStatement arg e') := by
  have hl := scan_lex e e' arg
  have htok : (e'.scan arg).tok = (e.scan arg).tok := hl.currentToken
  unfold OsU.printStatement
  dsimp only
  by_cases ht : (e.scan arg).tok = .string
  · have ht' : (e'.scan arg).tok = .string := htok.trans ht
    have hstring := hl.token
    rw [Lexer.token_string ht, Lexer.token_string ht'] at hstring
    rw [if_pos ht, if_pos ht', Tok.string.inj hstring]
    exact .some (h.display (h.scan he arg) _)
  · have ht' : (e'.scan arg).tok ≠ .string := fun h' => ht (htok.symm.trans h')
    obtain ⟨hv, hr⟩ := h.value he hq
    rw [if_neg ht, if_neg ht', parseExpr_value, parseExpr_value, Option.map_some, Option.map_some,
      hv]
    exact .some (h.display hr _)

theorem assign (h : Mirrors R Q) (he : R e e') (hl : SameLexer e.lex e'.lex) (hq : Q e.lex)
    (name : List UInt8) : Option.Rel R (assign name e) (OsU.assign name e') := by
  obtain ⟨r, hr, -⟩ := parseExpr_total e.next
  obtain ⟨r', hr', -⟩ := parseExpr_total e'.next
  obtain ⟨hv, hs⟩ := h.parseExpr (h.next' he) (nextToken_congr hl.cursor) (h.next hq) hr hr'
  unfold OsU.assign
  rw [hr, hr', Option.map_some, Option.map_some, hv]
  exact .some (h.setVar hs name r.1)

variable {s : Cospy} {exec exec' : List UInt8 → Cospy → Option (Int × Cospy)}

theorem beginIf (h : Mirrors R Q) {cond : List UInt8} (he : R s.ev e') (hq : Q (textLexer cond)) :
    Option.Rel (Twin R) (beginIf cond s) (OsU.beginIf cond { s with ev := e' }) := by
  unfold OsU.beginIf
  dsimp only
  split
  · exact .some ⟨he, rfl⟩
  · obtain ⟨hv, hr⟩ := h.value he hq
    rw [parseExpr_value, parseExpr_value, Option.map_some, Option.map_some, hv]
    exact .some ⟨hr, rfl⟩

/-- A call of a function, as long as the two sides call alike. -/
theorem callOrAssign (h : Mirrors R Q) {line : List UInt8} (he : R s.ev e')
    (hq : Q (textLexer line))
    (hcall : ∀ name e e', R e e' → Option.Rel (Twin R) (runFunction exec name { s with ev := e })
      (runFunction exec' name { s with ev := e' })) :
    Option.Rel (Twin R) (callOrAssign exec line s)
      (OsU.callOrAssign exec' line { s with ev := e' }) := by
  have hl := scan_lex s.ev e' line
  have hr := h.scan he line
  have hq' := h.scan_mem s.ev hq
  unfold OsU.callOrAssign
  dsimp only
  generalize s.ev.scan line = a at hl hr hq' ⊢
  generalize e'.scan line = a' at hl hr ⊢
  have htok : a'.tok = a.tok := hl.currentToken
  by_cases hid : a.tok = .ident
  · have hname := hl.token
    rw [Lexer.token_ident hid, Lexer.token_ident (htok.trans hid)] at hname
    rw [if_pos hid, if_pos (htok.trans hid), Tok.ident.inj hname]
    have hnext := nextToken_congr hl.cursor
    have htok' : a'.next.tok = a.next.tok := hnext.currentToken
    rw [htok']
    split
    · split
      · exact hcall _ _ _ (h.next' hr)
      · exact .some ⟨h.next' hr, rfl⟩
    · split
      · exact rel_map (h.assign (h.next' hr) hnext (h.next hq') _) fun _ _ hx => ⟨hx, rfl⟩
      · exact .some ⟨h.next' hr, rfl⟩
  · rw [if_neg hid, if_neg fun hc => hid (htok.symm.trans hc)]
    exact .some ⟨hr, rfl⟩

/-- A step that does not look at the evaluator. -/
theorem blind {f : Cospy → Cospy} (hf : ∀ s e, f { s with ev := e } = { f s with ev := e })
    (he : R s.ev e') (v : Int) :
    Option.Rel (TwinResult R) (some (v, f s)) (some (v, f { s with ev := e' })) := by
  have hev : (f s).ev = s.ev := by
    have hself := congrArg Cospy.ev (hf s s.ev)
    exact hself
  rw [hf s e']
  refine .some ⟨rfl, ?_, rfl⟩
  rw [hev]
  exact he

theorem defineLine_ev (line : List UInt8) (s : Cospy) (e : Eval) :
    defineLine line { s with ev := e } = { defineLine line s with ev := e } := by
  unfold defineLine
  dsimp only
  split
  · rfl
  · split <;> rfl

theorem endIf_ev (s : Cospy) (e : Eval) : endIf { s with ev := e } = { endIf s with ev := e } := by
  unfold endIf
  dsimp only
  split <;> rfl

theorem elseBranch_ev (s : Cospy) (e : Eval) :
    elseBranch { s with ev := e } = { elseBranch s with ev := e } := by
  unfold elseBranch
  dsimp only
  split <;> rfl

theorem define (h : Mirrors R Q) (he : R s.ev e') (p : List UInt8) :
    Twin R (define p s) (OsU.define p { s with ev := e' }) := by
  unfold OsU.define
  dsimp only
  split
  · exact ⟨h.display he _, rfl⟩
  · exact ⟨he, rfl⟩

/-- **One statement.** Related evaluators stay related, and the return values and all the rest are
the same. -/
theorem executeOver (h : Mirrors R Q) {line : List UInt8} (he : R s.ev e')
    (hq : Q (textLexer (exprText (skipWhitespace line))))
    (hcall : ∀ name e e', R e e' → Option.Rel (Twin R) (runFunction exec name { s with ev := e })
      (runFunction exec' name { s with ev := e' })) :
    Option.Rel (TwinResult R) (executeOver exec line s)
      (OsU.executeOver exec' line { s with ev := e' }) := by
  unfold OsU.executeOver
  dsimp only
  generalize skipWhitespace line = l at hq ⊢
  unfold exprText at hq
  -- the two sides make the same tests, in the same order
  refine rel_ite (fun _ => .some ⟨rfl, he, rfl⟩) fun _ => ?_
  refine rel_ite (fun _ => blind (defineLine_ev l) he 0) fun _ => ?_
  refine rel_ite (fun _ => .some ⟨rfl, he, rfl⟩) fun _ => ?_
  refine rel_ite (fun _ => blind endIf_ev he 0) fun _ => ?_
  refine rel_ite (fun _ => blind elseBranch_ev he 0) fun _ => ?_
  refine rel_ite (fun hif => ?_) fun hif => ?_
  · rw [if_pos hif] at hq
    exact rel_map (h.beginIf he hq) fun _ _ hx => ⟨rfl, hx⟩
  rw [if_neg hif] at hq
  refine rel_ite (fun _ => .some ⟨rfl, he, rfl⟩) fun _ => ?_
  refine rel_ite (fun _ => .some ⟨rfl, he, rfl⟩) fun _ => ?_
  refine rel_ite (fun _ => .some ⟨rfl, he, rfl⟩) fun hwhile => ?_
  rw [if_neg hwhile] at hq
  refine rel_ite (fun _ => .some ⟨rfl, h.define he _⟩) fun hdef => ?_
  rw [if_neg hdef] at hq
  refine rel_ite (fun hprint => ?_) fun hprint => ?_
  · rw [if_pos hprint] at hq
    exact rel_map (h.printStatement he hq) fun _ _ hx => ⟨rfl, hx, rfl⟩
  · rw [if_neg hprint] at hq
    exact rel_map (h.callOrAssign he hq hcall) fun _ _ hx => ⟨rfl, hx⟩

end Mirrors

theorem Same.mirrors : Mirrors Same fun _ => True where
  at_ h := h.at_
  display h := h.display
  setVar h := h.setVar
  parseExpr h hl _ hr hr' := h.parseExpr hl hr hr'
  congr _ _ := trivial
  next _ := trivial

/-! ## What is kept of the rest -/

section Flow

/-- All that `if`, `else` and `endif` can change. -/
theorem endIf_flow (s : Cospy) :
    ∃ e b d, endIf s = { s with ev := e, inIfFalse := b, ifDepth := d } := by
  unfold endIf
  split
  · exact ⟨s.ev, _, _, rfl⟩
  · exact ⟨s.ev, s.inIfFalse, s.ifDepth, rfl⟩

theorem elseBranch_flow (s : Cospy) :
    ∃ e b d, elseBranch s = { s with ev := e, inIfFalse := b, ifDepth := d } := by
  unfold elseBranch
  split
  · exact ⟨s.ev, _, s.ifDepth, rfl⟩
  · exact ⟨s.ev, s.inIfFalse, s.ifDepth, rfl⟩

theorem beginIf_flow (cond : List UInt8) (s : Cospy) :
    ∃ e b d, beginIf cond s = some { s with ev := e, inIfFalse := b, ifDepth := d } := by
  unfold beginIf
  dsimp only
  split
  · exact ⟨s.ev, s.inIfFalse, _, rfl⟩
  · rw [parseExpr_value, Option.map_some]
    exact ⟨_, _, _, rfl⟩

/-- **The branches of a statement.** What holds of the result of each holds of the result. -/
theorem executeOver_cases {P : Option (Int × Cospy) → Prop}
    {exec : List UInt8 → Cospy → Option (Int × Cospy)} {line : List UInt8} (s : Cospy)
    (skip : P (some (0, s)))
    (defining : s.definingFunction = true →
      P (some (0, OsU.defineLine (skipWhitespace line) s)))
    (exit : startsWith (skipWhitespace line) (ascii "exit") ∨
      startsWith (skipWhitespace line) (ascii "quit") → P (some (-1, s)))
    (flow : ∀ e b d, P (some (0, { s with ev := e, inIfFalse := b, ifDepth := d })))
    (while_ : startsWith (skipWhitespace line) (ascii "while ") = true →
      P (some (0, { s with
        whileCond := strcpy ((skipWhitespace line).drop 6)
        whileDepth := s.whileDepth + 1 })))
    (define : s.definingFunction = false → startsWith (skipWhitespace line) (ascii "def ") = true →
      P (some (0, OsU.define ((skipWhitespace line).drop 4) s)))
    (call : ¬startsWith (skipWhitespace line) (ascii "if ") = true →
      ¬startsWith (skipWhitespace line) (ascii "while ") = true →
      ¬(startsWith (skipWhitespace line) (ascii "print") = true ∧
        charAt (skipWhitespace line) 5 = 0x28) →
      P ((callOrAssign exec (skipWhitespace line) s).map fun s => (0, s))) :
    P (executeOver exec line s) := by
  unfold executeOver
  dsimp only
  generalize skipWhitespace line = l at defining exit while_ define call ⊢
  have branch : ∀ {c : Prop} [Decidable c] {a b : Option (Int × Cospy)}, (c → P a) →
      (¬c → P b) → P (if c then a else b) := fun ha hb => iteInduction (motive := P) ha hb
  -- The tests of `execute_statement`, one after the other; an `if` and its ends set the
  -- flags and the evaluator, and nothing else.
  refine branch (fun _ => skip) fun _ => ?_
  refine branch defining fun hdef => ?_
  refine branch exit fun _ => ?_
  refine branch (fun _ => ?_) fun _ => ?_
  · obtain ⟨e, b, d, he⟩ := endIf_flow s
    rw [he]
    exact flow e b d
  refine branch (fun _ => ?_) fun _ => ?_
  · obtain ⟨e, b, d, he⟩ := elseBranch_flow s
    rw [he]
    exact flow e b d
  refine branch (fun _ => ?_) fun hif => ?_
  · obtain ⟨e, b, d, he⟩ := beginIf_flow (l.drop 3) s
    rw [he]
    exact flow e b d
  refine branch (fun _ => skip) fun _ => ?_
  refine branch (fun _ => skip) fun _ => ?_
  refine branch while_ fun hwhile => ?_
  refine branch (define (Bool.eq_false_iff.mpr hdef)) fun _ => ?_
  refine branch (fun _ => ?_) (call hif hwhile)
  · obtain ⟨e, he⟩ := printStatement_total (l.drop 6) s.ev
    rw [he]
    exact flow e s.inIfFalse s.ifDepth

end Flow

/-- A property of functions and blocks that every assignment to them keeps, where the lines that
are executed meet `OK`. -/
structure Keeps (I : Cospy → Prop) (OK : List UInt8 → Prop) : Prop where
  flow : ∀ {s}, I s → ∀ e b d, I { s with ev := e, inIfFalse := b, ifDepth := d }
  defineLine : ∀ {line s}, OK line → I s → s.definingFunction = true →
    I (defineLine (skipWhitespace line) s)
  define : ∀ {s}, I s → s.definingFunction = false → ∀ p, I (define p s)
  while_ : ∀ {line s}, OK line → startsWith (skipWhitespace line) (ascii "while ") = true → I s →
    I { s with
      whileCond := strcpy ((skipWhitespace line).drop 6)
      whileDepth := s.whileDepth + 1 }
  lines : ∀ {s}, I s → ∀ f ∈ s.funcs, ∀ line ∈ f.lines, OK line
  depth : ∀ {s}, I s → s.whileDepth > 0 → ∀ d, I { s with whileDepth := d }
  stored : ∀ {line}, OK line → OK (strcpy (skipWhitespace line))

section Funcs

variable {P : Func → Prop} {s : Cospy}

/-- What holds of every function, with a line put into one of them. -/
theorem forall_funcs_defineLine {line : List UInt8}
    (hadd : ∀ f, P f → P { f with lines := f.lines ++ [strcpy line] }) (h : ∀ f ∈ s.funcs, P f) :
    ∀ f ∈ (defineLine line s).funcs, P f := by
  unfold defineLine
  split
  · exact h
  · split
    · intro f hf
      obtain ⟨i, hi, rfl⟩ := List.getElem_of_mem hf
      rw [List.length_modify] at hi
      have hold := h _ (List.getElem_mem hi)
      rw [List.getElem_modify]
      split
      · split
        · exact hadd _ hold
        · exact hold
      · exact hold
    · exact h

theorem forall_funcs_define (hnew : ∀ name : List UInt8, name.length ≤ 15 → P ⟨name, []⟩)
    (h : ∀ f ∈ s.funcs, P f) (p : List UInt8) : ∀ f ∈ (define p s).funcs, P f := by
  unfold define
  split
  · exact h
  · intro f hf
    rcases List.mem_append.mp hf with hf | hf
    · exact h f hf
    · rw [List.mem_singleton.mp hf]
      exact hnew _ (length_copyWhile_fst_le _ _ _)

end Funcs

namespace Keeps

variable {I : Cospy → Prop} {OK : List UInt8 → Prop} {s : Cospy}

/-- All a statement can return meets `I`. -/
def Leads (I : Cospy → Prop) (o : Option (Int × Cospy)) : Prop := ∀ r, o = some r → I r.2

theorem Leads.some {v : Int} (h : I s) : Leads I (some (v, s)) := by
  intro r hr
  cases hr
  exact h

theorem ev (h : Keeps I OK) (hs : I s) (e : Eval) : I { s with ev := e } :=
  h.flow hs e s.inIfFalse s.ifDepth

variable {exec : List UInt8 → Cospy → Option (Int × Cospy)}

theorem runLines (h : Keeps I OK) (hexec : ∀ line s, OK line → I s → Leads I (exec line s))
    (i : Nat) (js : List Nat) {t : Cospy} (hs : I s) (ht : runLines exec i js s = some t) :
    I t := by
  induction js generalizing s with
  | nil =>
    cases ht
    exact hs
  | cons j js ih =>
    rw [OsU.runLines] at ht
    cases hline : s.funcs[i]?.bind fun f => f.lines[j]? with
    | none =>
      rw [hline] at ht
      cases ht
      exact hs
    | some line =>
      rw [hline] at ht
      obtain ⟨r, hr, hrest⟩ := Option.bind_eq_some_iff.mp ht
      obtain ⟨f, hf, hj⟩ := Option.bind_eq_some_iff.mp hline
      have hok := h.lines hs f (List.mem_of_getElem? hf) line (List.mem_of_getElem? hj)
      exact ih (hexec line s hok hs r hr) hrest

theorem runFunction (h : Keeps I OK) (hexec : ∀ line s, OK line → I s → Leads I (exec line s))
    (name : List UInt8) {t : Cospy} (hs : I s) (ht : runFunction exec name s = some t) : I t := by
  unfold OsU.runFunction at ht
  split at ht
  · exact h.runLines hexec _ _ hs ht
  · cases ht
    exact h.ev hs _

theorem callOrAssign (h : Keeps I OK) (hexec : ∀ line s, OK line → I s → Leads I (exec line s))
    (line : List UInt8) {t : Cospy} (hs : I s) (ht : callOrAssign exec line s = some t) : I t := by
  unfold OsU.callOrAssign at ht
  dsimp only at ht
  split at ht
  · split at ht
    · split at ht
      · exact h.runFunction hexec _ (h.ev hs _) ht
      · cases ht
        exact h.ev hs _
    · split at ht
      · obtain ⟨e, -, rfl⟩ := Option.map_eq_some_iff.mp ht
        exact h.ev hs e
      · cases ht
        exact h.ev hs _
  · cases ht
    exact h.ev hs _

theorem executeOver (h : Keeps I OK) (hexec : ∀ line s, OK line → I s → Leads I (exec line s))
    {line : List UInt8} (hl : OK line) (hs : I s) : Leads I (executeOver exec line s) := by
  refine executeOver_cases s (.some hs) (fun hdef => .some (h.defineLine hl hs hdef))
    (fun _ => .some hs) (fun e b d => .some (h.flow hs e b d))
    (fun hstart => .some (h.while_ hl hstart hs)) (fun hdef _ => .some (h.define hs hdef _)) ?_
  intro _ _ _ r hr
  obtain ⟨t, ht, rfl⟩ := Option.map_eq_some_iff.mp hr
  exact h.callOrAssign hexec _ hs ht

/-- **A statement keeps it**, with all the calls it makes. -/
theorem executeStatement (h : Keeps I OK) (n : Nat) {line : List UInt8} (hl : OK line) (hs : I s) :
    Leads I (executeStatement n line s) := by
  induction n generalizing line s with
  | zero => exact fun r hr => nomatch hr
  | succ n ih => exact h.executeOver (fun _ _ hok hi => ih hok hi) hl hs

end Keeps

/-! ## Statements on both sides -/

namespace Mirrors

variable {R : Eval → Eval → Prop} {Q : Lexer → Prop} {I : Cospy → Prop} {OK : List UInt8 → Prop}

theorem runLines (hk : Keeps I OK) {exec : List UInt8 → Cospy → Option (Int × Cospy)}
    (hkeep : ∀ line s, OK line → I s → Keeps.Leads I (exec line s))
    (hexec : ∀ line s s', OK line → I s → Twin R s s' →
      Option.Rel (TwinResult R) (exec line s) (exec line s'))
    (i : Nat) (js : List Nat) {s s' : Cospy} (hs : I s) (ht : Twin R s s') :
    Option.Rel (Twin R) (runLines exec i js s) (OsU.runLines exec i js s') := by
  induction js generalizing s s' with
  | nil => exact .some ht
  | cons j js ih =>
    rw [OsU.runLines, OsU.runLines]
    have hfuncs : s'.funcs = s.funcs := by rw [ht.rest]
    rw [hfuncs]
    cases hline : s.funcs[i]?.bind fun f => f.lines[j]? with
    | none => exact .some ht
    | some line =>
      obtain ⟨f, hf, hj⟩ := Option.bind_eq_some_iff.mp hline
      have hok := hk.lines hs f (List.mem_of_getElem? hf) line (List.mem_of_getElem? hj)
      exact rel_bind (hexec line s s' hok hs ht) fun r _ hr _ hx =>
        ih (hkeep line s hok hs r hr) hx.2

/-- **Statements.** Two interpreters with related evaluators stay side by side, with all the calls
that are made. -/
theorem executeStatement (h : Mirrors R Q) (hk : Keeps I OK)
    (hok : ∀ line, OK line → Q (textLexer (exprText (skipWhitespace line)))) (n : Nat)
    {line : List UInt8} {s s' : Cospy} (hl : OK line) (hs : I s) (ht : Twin R s s') :
    Option.Rel (TwinResult R) (executeStatement n line s) (OsU.executeStatement n line s') := by
  induction n generalizing line s s' with
  | zero => exact .none
  | succ n ih =>
    obtain ⟨he, hrest⟩ := ht
    generalize s'.ev = e' at he hrest
    subst hrest
    refine h.executeOver he (hok line hl) fun name e e' hee => ?_
    have hlines : ∀ i, Option.Rel (Twin R)
        (OsU.runLines (OsU.executeStatement n) i (List.range 32) { s with ev := e })
        (OsU.runLines (OsU.executeStatement n) i (List.range 32) { s with ev := e' }) := fun i =>
      runLines hk (fun _ _ hok hi => hk.executeStatement n hok hi)
        (fun _ _ _ hok hi htwin => ih hok hi htwin) i _ (hk.ev hs e) ⟨hee, rfl⟩
    unfold runFunction
    dsimp only
    split
    · exact hlines _
    · exact .some ⟨h.display hee _, rfl⟩

end Mirrors

/-! ## Drivers -/

namespace Keeps

variable {I : Cospy → Prop} {OK : List UInt8 → Prop}

/-- What a driver keeps: the property, and lines of a loop that are fit to be executed. -/
structure Kept (I : Cospy → Prop) (OK : List UInt8 → Prop) (d : Driver) : Prop where
  cospy : I d.cospy
  body : ∀ line ∈ d.whileBody, OK line

theorem fileBody (h : Keeps I OK) (n : Nat) {ls : List (List UInt8)} (hls : ∀ line ∈ ls, OK line)
    {s t : Cospy} (hs : I s) (ht : fileBody n ls s = some t) : I t := by
  induction ls generalizing s with
  | nil =>
    cases ht
    exact hs
  | cons line ls ih =>
    obtain ⟨r, hr, hrest⟩ := Option.bind_eq_some_iff.mp ht
    have hi := h.executeStatement n (hls line List.mem_cons_self) hs r hr
    exact ih (fun l hl => hls l (List.mem_cons_of_mem line hl)) hi hrest

theorem iterate (h : Keeps I OK) {body : Cospy → Option Cospy}
    (hbody : ∀ s t, I s → body s = some t → I t) (k : Nat) {s t : Cospy} (hs : I s)
    (ht : iterate body k s = some t) : I t := by
  induction k generalizing s with
  | zero =>
    cases ht
    exact hs
  | succ k ih =>
    obtain ⟨r, hr, hrest⟩ := Option.bind_eq_some_iff.mp ht
    obtain ⟨v, -, rfl⟩ := Option.map_eq_some_iff.mp hr
    split at hrest
    · cases hrest
      exact h.ev hs _
    · obtain ⟨u, hu, hloop⟩ := Option.bind_eq_some_iff.mp hrest
      exact ih (hbody _ u (h.ev hs _) hu) hloop

theorem fileLine (h : Keeps I OK) (n : Nat) {line : List UInt8} (hl : OK line) {d d' : Driver}
    (hd : Kept I OK d) (hd' : fileLine n line d = some d') : Kept I OK d' := by
  unfold OsU.fileLine at hd'
  dsimp only at hd'
  split at hd'
  · rename_i hdepth
    split at hd'
    · unfold endWhile at hd'
      dsimp only at hd'
      split at hd'
      · obtain ⟨t, ht, rfl⟩ := Option.map_eq_some_iff.mp hd'
        refine ⟨?_, fun l hl => absurd hl List.not_mem_nil⟩
        -- The loop is run: at most 1000 times, and each time by the lines that were
        -- collected.
        exact h.iterate (fun s t hs => h.fileBody n hd.body hs) 1000
          (h.depth hd.cospy hdepth _) ht
      · cases hd'
        exact ⟨h.depth hd.cospy hdepth _, hd.body⟩
    · cases hd'
      constructor
      · unfold collect
        dsimp only
        split
        · exact h.depth hd.cospy hdepth _
        · exact hd.cospy
      · unfold collect
        dsimp only
        split
        · intro l hmem
          rcases List.mem_append.mp hmem with hmem | hmem
          · exact hd.body l hmem
          · rw [List.mem_singleton.mp hmem]
            exact h.stored hl
        · exact hd.body
  · obtain ⟨r, hr, rfl⟩ := Option.map_eq_some_iff.mp hd'
    refine ⟨?_, hd.body⟩
    rw [execute_skipWhitespace] at hr
    exact h.executeStatement n hl hd.cospy r hr

theorem fileLines (h : Keeps I OK) (n : Nat) {ls : List (List UInt8)} (hls : ∀ line ∈ ls, OK line)
    {d d' : Driver} (hd : Kept I OK d) (hd' : fileLines n ls d = some d') : Kept I OK d' := by
  induction ls generalizing d with
  | nil =>
    cases hd'
    exact hd
  | cons line ls ih =>
    obtain ⟨u, hu, hrest⟩ := Option.bind_eq_some_iff.mp hd'
    exact ih (fun l hl => hls l (List.mem_cons_of_mem line hl))
      (h.fileLine n (hls line List.mem_cons_self) hd hu) hrest

end Keeps

namespace Mirrors

variable {R : Eval → Eval → Prop} {Q : Lexer → Prop} {I : Cospy → Prop} {OK : List UInt8 → Prop}
  {s s' : Cospy}

theorem evalCond (h : Mirrors R Q) (hq : Q (textLexer s.whileCond)) (ht : Twin R s s') :
    Option.Rel (fun r r' => r'.1 = r.1 ∧ Twin R r.2 r'.2) (evalCond s) (OsU.evalCond s') := by
  obtain ⟨he, hrest⟩ := ht
  generalize s'.ev = e' at he hrest
  subst hrest
  obtain ⟨hv, hr⟩ := h.value he hq
  unfold OsU.evalCond
  rw [parseExpr_value, parseExpr_value, Option.map_some, Option.map_some]
  exact .some ⟨hv, hr, rfl⟩

theorem fileBody (h : Mirrors R Q) (hk : Keeps I OK)
    (hok : ∀ line, OK line → Q (textLexer (exprText (skipWhitespace line)))) (n : Nat)
    {ls : List (List UInt8)} (hls : ∀ line ∈ ls, OK line) (hs : I s) (ht : Twin R s s') :
    Option.Rel (Twin R) (fileBody n ls s) (OsU.fileBody n ls s') := by
  induction ls generalizing s s' with
  | nil => exact .some ht
  | cons line ls ih =>
    have hl := hls line List.mem_cons_self
    refine rel_bind (h.executeStatement hk hok n hl hs ht) fun r _ hr _ hx => ?_
    have hi := hk.executeStatement n hl hs r hr
    exact ih (fun l hl => hls l (List.mem_cons_of_mem line hl)) hi hx.2

/-- A loop, as long as its body keeps the two side by side. -/
theorem iterate (h : Mirrors R Q) (hk : Keeps I OK) (hcond : ∀ s, I s → Q (textLexer s.whileCond))
    {body : Cospy → Option Cospy} (hbody : ∀ s t, I s → body s = some t → I t)
    (htwin : ∀ s s', I s → Twin R s s' → Option.Rel (Twin R) (body s) (body s')) (k : Nat)
    (hs : I s) (ht : Twin R s s') :
    Option.Rel (Twin R) (iterate body k s) (OsU.iterate body k s') := by
  induction k generalizing s s' with
  | zero => exact .some ht
  | succ k ih =>
    refine rel_bind (h.evalCond (hcond s hs) ht) fun r r' hr _ hx => ?_
    have hi : I r.2 := by
      obtain ⟨v, -, rfl⟩ := Option.map_eq_some_iff.mp hr
      exact hk.ev hs _
    rw [hx.1]
    refine rel_ite (fun _ => .some hx.2) fun _ => ?_
    exact rel_bind (htwin r.2 r'.2 hi hx.2) fun t _ ht _ hy => ih (hbody r.2 t hi ht) hy

end Mirrors

end OsU
