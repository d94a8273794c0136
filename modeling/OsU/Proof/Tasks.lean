import OsU.Lib.Recursion
import OsU.Proof.Calls

/-!
# Scripts as computations

Statements, loops and files are computations that ask for requests: that a line is
executed, or that the condition of a loop is evaluated (`OsU/Lib/Recursion.lean`). A
statement that calls a function asks for the lines of it, one after the other; every
other one does what it does at once. So what is executed for a script is what its
computation asks for, and what those requests ask for in turn, and nothing but the calls
of functions makes the requests go deeper.

`cospyRunFile_eval` is the connection with the interpreter.

The interpreter of the model has a bound on the depth of calls and no result below it.
The computation has none: it may go on for ever, and whether it does is a question about
the requests it makes. That is what makes it possible to say of a script that it
returns, for some bound and then for every larger one, without naming the bound.
-/

set_option autoImplicit false

namespace OsU

open CString Recursion

/-! ## Computations -/

/-- What a script asks for: that a line is executed, or that the condition of a loop is evaluated. -/
inductive Request where
  | statement (line : List UInt8) (s : Cospy)
  | condition (s : Cospy)

def Request.state : Request → Cospy
  | .statement _ s => s
  | .condition s => s

abbrev Task : Type → Type := Comp Request (Int × Cospy)

/-- The loop over the lines of function `i`. The table is looked at again for every
line, because a line may define functions, and it ends early when the line is not there.
-/
def linesTask (i : Nat) : List Nat → Cospy → Task Cospy
  | [], s => .ret s
  | j :: js, s =>
    match s.funcs[i]?.bind fun f => f.lines[j]? with
    | none => .ret s
    | some line => .call (.statement line s) fun r => linesTask i js r.2

/-- The function that a line calls, if it is read as a call of one that there is. -/
def callee (t : List UInt8) (funcs : List Func) : Option Nat :=
  let l := textLexer t
  if l.currentToken = .ident ∧ (nextToken l).currentToken = .lparen then
    funcs.findIdx? fun f => f.name = l.tokenIdent
  else none

/-- `execute_statement`: what it does without a function, or the lines of one. -/
def stmtTask (line : List UInt8) (s : Cospy) : Task (Int × Cospy) :=
  match executeOver noCalls line s with
  | some r => .ret r
  | none =>
    (linesTask ((callee (skipWhitespace line) s.funcs).getD 0) (List.range 32)
      (callState (skipWhitespace line) s)).bind fun s => .ret (0, s)

def requestTask : Request → Task (Int × Cospy)
  | .statement line s => stmtTask line s
  | .condition s =>
    let v := value s.ev s.whileCond
    .ret (if v.1 = 0 then 0 else 1, { s with ev := v.2 })

def bodyTask : List (List UInt8) → Cospy → Task Cospy
  | [], s => .ret s
  | line :: body, s => .call (.statement line s) fun r => bodyTask body r.2

def iterateTask (body : Cospy → Task Cospy) : Nat → Cospy → Task Cospy
  | 0, s => .ret s
  | maxIter + 1, s =>
    .call (.condition s) fun r =>
      if r.1 = 0 then .ret r.2 else (body r.2).bind (iterateTask body maxIter)

def endWhileTask (d : Driver) : Task Driver :=
  let s := { d.cospy with whileDepth := d.cospy.whileDepth - 1 }
  if s.whileDepth = 0 then (iterateTask (bodyTask d.whileBody) 1000 s).bind fun s => .ret ⟨s, []⟩
  else .ret ⟨s, d.whileBody⟩

def fileLineTask (line : List UInt8) (d : Driver) : Task Driver :=
  let line := skipWhitespace line
  if d.cospy.whileDepth > 0 then
    if startsWith line (ascii "endwhile") then endWhileTask d else .ret (collect line d)
  else .call (.statement line d.cospy) fun r => .ret ⟨r.2, d.whileBody⟩

def fileTask : List (List UInt8) → Driver → Task Driver
  | [], d => .ret d
  | line :: lines, d => (fileLineTask line d).bind (fileTask lines)

/-- `cospy_run_file` as a computation: what is done for its lines is asked for, and what
is done between them is the text of `cospyRunFile`. -/
def scriptTask (filename : List UInt8) (content : Option (List UInt8)) (s : Cospy) :
    Task (Int × Cospy) :=
  if peek filename = 0 then .ret (-1, s)
  else
    match content with
    | none =>
      .ret (-1, { s with
        ev := s.ev.display (.message (ascii "file not found: " ++ filename ++ ascii "\n")) })
    | some content =>
      (fileTask (readLines 64 content) ⟨cospyInit s, []⟩).bind fun d => .ret (0, d.cospy)

/-! ## They are the interpreter

The two are the same text but for the places where one calls and the other asks. A
request that is answered by the interpreter at one depth less gives what the interpreter
gives: this is the step, and the induction is on the depth. -/

section Callee

variable {t : List UInt8} {s : Cospy}

theorem scan_textLexer (t : List UInt8) (e : Eval) : SameLexer (textLexer t) (e.scan t).lex :=
  nextToken_congr rfl

/-- A line that calls a function, whatever can be called in it. -/
theorem callOrAssign_callee {i : Nat} (h : callee t s.funcs = some i)
    (exec : List UInt8 → Cospy → Option (Int × Cospy)) :
    callOrAssign exec t s = runLines exec i (List.range 32) (callState t s) := by
  unfold callee at h
  dsimp only at h
  split at h
  · rename_i hcall
    have hl := scan_textLexer t s.ev
    have hid : (s.ev.scan t).tok = .ident := hl.currentToken.trans hcall.1
    have hparen : (s.ev.scan t).next.tok = .lparen :=
      (nextToken_congr hl.cursor).currentToken.trans hcall.2
    have hname : (s.ev.scan t).lex.tokenIdent = (textLexer t).tokenIdent := by
      have htok := hl.token
      rw [Lexer.token, Lexer.token, show (s.ev.scan t).lex.currentToken = .ident from hid,
        hcall.1] at htok
      exact Tok.ident.inj htok
    have hany : (s.funcs.any fun f => f.name = (textLexer t).tokenIdent) = true := by
      obtain ⟨hi, hp, -⟩ := List.findIdx?_eq_some_iff_getElem.mp h
      exact List.any_eq_true.mpr ⟨s.funcs[i], List.getElem_mem hi, hp⟩
    unfold callOrAssign
    dsimp only
    rw [if_pos hid, if_pos hparen, hname, if_pos hany, runFunction]
    dsimp only
    rw [h]
    rfl
  · cases h

/-- Any other line that is not a statement of another kind. -/
theorem callOrAssign_none (h : callee t s.funcs = none) :
    ∃ s', ∀ exec, callOrAssign exec t s = some s' := by
  by_cases hcall : (textLexer t).currentToken = .ident ∧
      (nextToken (textLexer t)).currentToken = .lparen
  · rw [callee, if_pos hcall] at h
    have hl := scan_textLexer t s.ev
    have hid : (s.ev.scan t).tok = .ident := hl.currentToken.trans hcall.1
    have hparen : (s.ev.scan t).next.tok = .lparen :=
      (nextToken_congr hl.cursor).currentToken.trans hcall.2
    have hname : (s.ev.scan t).lex.tokenIdent = (textLexer t).tokenIdent := by
      have htok := hl.token
      rw [Lexer.token, Lexer.token, show (s.ev.scan t).lex.currentToken = .ident from hid,
        hcall.1] at htok
      exact Tok.ident.inj htok
    have hany : ¬(s.funcs.any fun f => f.name = (textLexer t).tokenIdent) = true := by
      intro hany
      obtain ⟨f, hf, hname⟩ := List.any_eq_true.mp hany
      exact absurd ((List.findIdx?_eq_none_iff.mp h f hf).symm.trans hname) Bool.false_ne_true
    refine ⟨callState t s, fun exec => ?_⟩
    unfold callOrAssign
    dsimp only
    rw [if_pos hid, if_pos hparen, hname, if_neg hany]
    rfl
  · obtain ⟨-, e, he⟩ := callOrAssign_free noCalls noCalls s hcall
    exact ⟨_, fun exec => (callOrAssign_free exec noCalls s hcall).1.trans he⟩

end Callee

section Run

variable {exec : List UInt8 → Cospy → Option (Int × Cospy)}

/-- The answers to requests, with statements executed by `exec`. A condition is answered
by the parser, and its answer is whether the value is zero. -/
def answer (exec : List UInt8 → Cospy → Option (Int × Cospy)) : Request → Option (Int × Cospy)
  | .statement line s => exec line s
  | .condition s =>
    let v := value s.ev s.whileCond
    some (if v.1 = 0 then 0 else 1, { s with ev := v.2 })

theorem run_linesTask (i : Nat) (js : List Nat) (s : Cospy) :
    (linesTask i js s).run (answer exec) = runLines exec i js s := by
  induction js generalizing s with
  | nil => rfl
  | cons j js ih =>
    rw [linesTask, runLines]
    cases s.funcs[i]?.bind fun f => f.lines[j]? with
    | none => rfl
    | some line => exact Option.bind_congr fun r _ => ih r.2

/-- Without calls, a function returns only when it has no lines. -/
theorem runLines_noCalls {i : Nat} {js : List Nat} {s t : Cospy}
    (h : runLines noCalls i js s = some t) : runLines exec i js s = some s := by
  cases js with
  | nil => rfl
  | cons j js =>
    rw [runLines] at h ⊢
    cases hline : s.funcs[i]?.bind fun f => f.lines[j]? with
    | none => rfl
    | some line =>
      rw [hline] at h
      cases h

theorem runLines_lineless {i : Nat} {js : List Nat} {s t : Cospy}
    (h : runLines noCalls i js s = some t) : t = s :=
  Option.some.inj (h.symm.trans (runLines_noCalls h))

/-- A line is executed without a function, or it executes the lines of one. -/
theorem executeOver_callee (line : List UInt8) (s : Cospy) :
    (∃ r, ∀ exec, executeOver exec line s = some r) ∨
      ∃ i, callee (skipWhitespace line) s.funcs = some i ∧
        ∀ exec, executeOver exec line s =
          (runLines exec i (List.range 32) (callState (skipWhitespace line) s)).map
            fun s => (0, s) := by
  obtain h | ⟨-, h⟩ := executeOver_split line s
  · exact .inl h
  · cases hc : callee (skipWhitespace line) s.funcs with
    | none =>
      obtain ⟨s', hs'⟩ := callOrAssign_none hc
      exact .inl ⟨(0, s'), fun exec => by rw [h, hs']; rfl⟩
    | some i => exact .inr ⟨i, rfl, fun exec => by rw [h, callOrAssign_callee hc]⟩

/-- **Statements.** -/
theorem run_stmtTask (line : List UInt8) (s : Cospy) :
    (stmtTask line s).run (answer exec) = executeOver exec line s := by
  unfold stmtTask
  obtain ⟨r, hr⟩ | ⟨i, hi, hlines⟩ := executeOver_callee line s
  · rw [hr, hr]
    rfl
  · cases hno : executeOver noCalls line s with
    | some r =>
      -- the function has no lines
      rw [hlines] at hno ⊢
      obtain ⟨t, ht, rfl⟩ := Option.map_eq_some_iff.mp hno
      rw [runLines_noCalls ht, runLines_lineless ht]
      rfl
    | none =>
      dsimp only
      rw [Comp.run_bind, run_linesTask, hlines, hi]
      change Option.bind (runLines exec i _ _) _ = _
      cases runLines exec i (List.range 32) (callState (skipWhitespace line) s) <;> rfl

theorem executeStatement_eval (n : Nat) (line : List UInt8) (s : Cospy) :
    executeStatement n line s = eval requestTask n (.statement line s) := by
  induction n generalizing line s with
  | zero => rfl
  | succ n ih =>
    -- the lines of a function are statements, never conditions
    have hcalls : ∀ (i : Nat) (js : List Nat) (s : Cospy),
        (linesTask i js s).run (eval requestTask n) =
          (linesTask i js s).run (answer (executeStatement n)) := by
      intro i js
      induction js with
      | nil => exact fun s => rfl
      | cons j js ihj =>
        intro s
        rw [linesTask]
        cases s.funcs[i]?.bind fun f => f.lines[j]? with
        | none => rfl
        | some line =>
          rw [Comp.run, Comp.run, ← ih, answer]
          exact Option.bind_congr fun r _ => ihj r.2
    rw [eval, executeStatement, ← run_stmtTask, requestTask]
    unfold stmtTask
    split
    · rfl
    · rw [Comp.run_bind, Comp.run_bind, hcalls]
      rfl

theorem run_bodyTask (body : List (List UInt8)) (n : Nat) (s : Cospy) :
    (bodyTask body s).run (answer (executeStatement n)) = fileBody n body s := by
  induction body generalizing s with
  | nil => rfl
  | cons line body ih =>
    rw [bodyTask, fileBody, Comp.run, answer]
    exact Option.bind_congr fun r _ => ih r.2

theorem run_iterateTask (n : Nat) (body : List (List UInt8)) (k : Nat) (s : Cospy) :
    (iterateTask (bodyTask body) k s).run (answer (executeStatement n)) =
      iterate (fileBody n body) k s := by
  induction k generalizing s with
  | zero => rfl
  | succ k ih =>
    rw [iterateTask, iterate, evalCond, parseExpr_value, Comp.run, answer]
    dsimp only [Option.map_some, Option.bind_some]
    by_cases hv : (value s.ev s.whileCond).1 = 0
    · rw [if_pos hv, if_pos rfl, if_pos hv]
      rfl
    · rw [if_neg hv, if_neg Int.one_ne_zero, if_neg hv, Comp.run_bind, run_bodyTask]
      exact Option.bind_congr fun t _ => ih t

theorem run_fileTask (n : Nat) (lines : List (List UInt8)) (d : Driver) :
    (fileTask lines d).run (answer (executeStatement n)) = fileLines n lines d := by
  have hline : ∀ line d, (fileLineTask line d).run (answer (executeStatement n)) =
      fileLine n line d := by
    intro line d
    unfold fileLineTask fileLine endWhileTask endWhile
    dsimp only
    rw [apply_ite (Comp.run _), apply_ite (Comp.run _), apply_ite (Comp.run _), Comp.run_bind,
      run_iterateTask]
    simp only [Option.map_eq_bind]
    rfl
  induction lines generalizing d with
  | nil => rfl
  | cons line lines ih =>
    rw [fileTask, fileLines, Comp.run_bind, hline]
    exact Option.bind_congr fun d' _ => ih d'

/-- **A script** is its computation. -/
theorem run_scriptTask (n : Nat) (filename : List UInt8) (content : Option (List UInt8))
    (s : Cospy) : (scriptTask filename content s).run (answer (executeStatement n)) =
      cospyRunFile n filename content s := by
  unfold scriptTask cospyRunFile
  rw [apply_ite (Comp.run _)]
  refine if_congr Iff.rfl rfl ?_
  cases content with
  | none => rfl
  | some content =>
    dsimp only
    rw [Comp.run_bind, run_fileTask, Option.map_eq_bind]
    rfl

/-- A condition needs no depth, a statement the depth of its calls. -/
theorem cospyRunFile_eval (filename : List UInt8) (content : Option (List UInt8)) (s : Cospy)
    (r : Int × Cospy) : (∃ n, cospyRunFile n filename content s = some r) ↔
      ∃ n, (scriptTask filename content s).run (eval requestTask n) = some r := by
  simp only [← run_scriptTask]
  constructor
  · rintro ⟨n, hn⟩
    refine ⟨n + 1, Comp.run_mono (fun q r hq => ?_) hn⟩
    cases q with
    | statement line s =>
      exact eval_mono (Nat.le_succ n) ((executeStatement_eval n line s).symm.trans hq)
    | condition s => exact hq
  · rintro ⟨n, hn⟩
    refine ⟨n, Comp.run_mono (fun q r hq => ?_) hn⟩
    cases q with
    | statement line s => exact (executeStatement_eval n line s).trans hq
    | condition s =>
      cases n with
      | zero => cases hq
      | succ n => exact hq

end Run

end OsU
