import OsU.Proof.CallGraph
import OsU.Proof.Division

/-!
# Scripts that return

Two things can keep `cospy_run_file` from returning.

Nothing counts how deep the calls of functions are. Expressions end, a file and a function have as
many lines as they have, and a loop is executed 1000 times at most; so calls without end need a
function that is called while it is being executed (`Reenters`). A script may come back from such a
call, when an `if` ends the recursion in time; nothing in the interpreter sees to it, and with no
`if` in front the script never comes back (`unguarded_never_returns`).

And nothing keeps a statement from a division that the machine refuses (`Request.Traps`), from which
there is no coming back either. What a run has divided is in the ghost list of the evaluator, which
only requests add to, so a run has refused nothing when none of its requests has
(`scriptTask_threads`).
-/

set_option autoImplicit false

namespace OsU

open CString Recursion Relation

/-! ## Divisions -/

/-- Where `parse_expr` starts when a line is executed, if it does; the tests are those of
`execute_statement`. -/
def evaluated (line : List UInt8) (s : Cospy) : Option Eval :=
  let line := skipWhitespace line
  if peek line = 0 ∨ peek line = 0x23 then none
  else if s.definingFunction then none
  else if startsWith line (ascii "exit") ∨ startsWith line (ascii "quit") then none
  else if startsWith line (ascii "endif") then none
  else if isElse line then none
  else if startsWith line (ascii "if ") then
    if s.inIfFalse then none else some (s.ev.scan (line.drop 3))
  else if s.inIfFalse then none
  else if startsWith line (ascii "endwhile") then none
  else if startsWith line (ascii "while ") then none
  else if startsWith line (ascii "def ") then none
  else if startsWith line (ascii "print") ∧ charAt line 5 = 0x28 then
    let e := s.ev.scan (line.drop 6)
    if e.tok = .string then none else some e
  else
    let e := s.ev.scan line
    if e.tok = .ident ∧ e.next.tok = .eq then some e.next.next else none

/-- The machine refuses a division of the request itself, not of the lines of a function
that it calls. It is on the line and the state before it. -/
def Request.Traps : Request → Prop
  | .statement line s => ∃ e, evaluated line s = some e ∧ e.Traps
  | .condition s => (s.ev.scan s.whileCond).Traps

/-- The divisions executed before a request, and with a result. -/
def Request.divs (q : Request) : List (BitVec 32 × BitVec 32) := q.state.ev.divs

def resultDivs (r : Int × Cospy) : List (BitVec 32 × BitVec 32) := r.2.ev.divs

/-- A run refuses nothing when no part of it does. -/
theorem dividedFrom_stretches : Stretches (· <+: ·) DividedFrom where
  refl x := ⟨List.prefix_rfl, fun q hq => by rw [List.drop_length] at hq; cases hq⟩
  trans := by
    rintro x _ _ ⟨ds, rfl⟩ ⟨ds', rfl⟩
    refine ⟨⟨ds ++ ds', (List.append_assoc _ _ _).symm⟩, ?_⟩
    rw [List.append_assoc, dividedFrom_append, dividedFrom_append, ← List.append_assoc,
      dividedFrom_append, List.forall_mem_append]

/-- What a statement that returns has divided, when `parse_expr` was called on `e`. -/
def Divides (s : Cospy) (o : Option (Int × Cospy)) (e : Option Eval) : Prop :=
  ∀ r, o = some r → s.ev.divs <+: resultDivs r ∧
    (DividedFrom s.ev.divs (resultDivs r) ↔ ¬∃ e', e = some e' ∧ e'.Traps)

section Divides

variable {s : Cospy}

theorem Divides.ite {c : Prop} [Decidable c] {o o' : Option (Int × Cospy)} {e e' : Option Eval}
    (h : c → Divides s o e) (h' : ¬c → Divides s o' e') :
    Divides s (if c then o else o') (if c then e else e') := by
  by_cases hc : c
  · rw [if_pos hc, if_pos hc]
    exact h hc
  · rw [if_neg hc, if_neg hc]
    exact h' hc

/-- A statement without an expression. -/
theorem Divides.nothing {v : Int} {t : Cospy} (ht : t.ev.divs = s.ev.divs) :
    Divides s (some (v, t)) none := by
  intro r hr
  obtain rfl := Option.some.inj hr
  rw [show resultDivs (v, t) = s.ev.divs from ht]
  exact ⟨(dividedFrom_stretches.refl _).1,
    iff_of_true (dividedFrom_stretches.refl _).2 fun ⟨_, h, _⟩ => by cases h⟩

/-- A statement with one. -/
theorem Divides.expr {e : Eval} (he : e.divs = s.ev.divs) {f : BitVec 32 × Eval → Int × Cospy}
    (hf : ∀ r, resultDivs (f r) = r.2.divs) : Divides s ((parseExpr e).map f) (some e) := by
  intro r hr
  obtain ⟨v, hv, rfl⟩ := Option.map_eq_some_iff.mp hr
  obtain ⟨hle, hdiv⟩ := parse_divided hv
  rw [Divided, he] at hdiv
  rw [hf, ← he]
  refine ⟨hle, (he ▸ hdiv).trans (not_congr ⟨fun h => ⟨e, rfl, h⟩, ?_⟩)⟩
  rintro ⟨e', he', htrap⟩
  exact Option.some.inj he' ▸ htrap

theorem setVar_divs (name : List UInt8) (v : BitVec 32) (e : Eval) :
    (setVar name v e).2.divs = e.divs := by
  unfold setVar
  split
  · rfl
  · split <;> rfl

/-- A call divides nothing by itself, an assignment what its expression does. -/
theorem callOrAssign_divides (t : List UInt8) (s : Cospy) :
    Divides s ((callOrAssign noCalls t s).map fun s => (0, s))
      (if (s.ev.scan t).tok = .ident ∧ (s.ev.scan t).next.tok = .eq then
        some (s.ev.scan t).next.next else none) := by
  have hnext : (s.ev.scan t).next.next.divs = s.ev.divs := rfl
  unfold callOrAssign
  dsimp only
  by_cases hid : (s.ev.scan t).tok = .ident
  · rw [if_pos hid]
    by_cases hparen : (s.ev.scan t).next.tok = .lparen
    · have hno : ¬((s.ev.scan t).tok = .ident ∧ (s.ev.scan t).next.tok = .eq) := fun h => by
        rw [hparen] at h
        cases h.2
      rw [if_pos hparen, if_neg hno]
      split
      · -- a function without lines, if it is executed at all
        intro r hr
        obtain ⟨u, hu, rfl⟩ := Option.map_eq_some_iff.mp hr
        have hdivs : u.ev.divs = s.ev.divs := by
          unfold runFunction at hu
          split at hu
          · rw [(runLines_lineless hu)]
            rfl
          · rw [← Option.some.inj hu]
            rfl
        exact Divides.nothing hdivs _ rfl
      · exact .nothing rfl
    · rw [if_neg hparen]
      by_cases heq : (s.ev.scan t).next.tok = .eq
      · rw [if_pos heq, if_pos ⟨hid, heq⟩]
        unfold assign
        rw [Option.map_map, Option.map_map]
        exact .expr hnext fun r => setVar_divs _ _ _
      · have hno : ¬((s.ev.scan t).tok = .ident ∧ (s.ev.scan t).next.tok = .eq) :=
          fun h => heq h.2
        rw [if_neg heq, if_neg hno]
        exact .nothing rfl
  · have hno : ¬((s.ev.scan t).tok = .ident ∧ (s.ev.scan t).next.tok = .eq) := fun h => hid h.1
    rw [if_neg hid, if_neg hno]
    exact .nothing rfl

/-- **Without calls** a statement divides what its expression does, and it has one
expression at most. -/
theorem executeOver_divides (line : List UInt8) (s : Cospy) :
    Divides s (executeOver noCalls line s) (evaluated line s) := by
  have hscan : ∀ text, (s.ev.scan text).divs = s.ev.divs := fun _ => rfl
  unfold executeOver evaluated
  dsimp only
  generalize skipWhitespace line = t
  -- An expression is evaluated in the condition of an `if`, in a `print` and in an
  -- assignment; no other statement divides.
  refine .ite (fun _ => .nothing rfl) fun _ => .ite (fun _ => .nothing ?_) fun _ => ?_
  · unfold defineLine
    split
    · rfl
    · split <;> rfl
  refine .ite (fun _ => .nothing rfl) fun _ => .ite (fun _ => .nothing ?_) fun _ => ?_
  · unfold endIf
    split <;> rfl
  refine .ite (fun _ => .nothing ?_) fun _ => .ite (fun _ => ?_) fun _ => ?_
  · unfold elseBranch
    split <;> rfl
  · unfold beginIf
    dsimp only
    split
    · exact .nothing rfl
    · rw [Option.map_map]
      exact .expr (hscan _) fun _ => rfl
  refine .ite (fun _ => .nothing rfl) fun _ => .ite (fun _ => .nothing rfl) fun _ => ?_
  refine .ite (fun _ => .nothing rfl) fun _ => .ite (fun _ => .nothing ?_) fun _ => ?_
  · unfold define
    split <;> rfl
  refine .ite (fun _ => ?_) fun _ => ?_
  · unfold printStatement
    dsimp only
    split
    · exact .nothing rfl
    · rw [Option.map_map]
      exact .expr (hscan _) fun _ => rfl
  · exact callOrAssign_divides t s

/-- A statement that comes to the lines of a function has no expression. -/
theorem evaluated_call {line : List UInt8} (h : executeOver noCalls line s = none) :
    evaluated line s = none := by
  -- Both functions make the same tests. Where the statement returns without a call
  -- there is nothing to show.
  have hcalls : ∀ {c : Prop} [Decidable c] {o o' : Option (Int × Cospy)} {e e' : Option Eval},
      (c → o = none → e = none) → (¬c → o' = none → e' = none) →
      (if c then o else o') = none → (if c then e else e') = none := by
    intro c _ o o' e e' ho ho' hnone
    by_cases hc : c
    · rw [if_pos hc] at hnone ⊢
      exact ho hc hnone
    · rw [if_neg hc] at hnone ⊢
      exact ho' hc hnone
  have hnot : ∀ {r : Int × Cospy} {e : Option Eval}, some r = none → e = none :=
    fun h => by cases h
  unfold executeOver at h
  unfold evaluated
  dsimp only at h ⊢
  generalize skipWhitespace line = t at h ⊢
  revert h
  refine hcalls (fun _ => hnot) fun _ => hcalls (fun _ => hnot) fun _ => ?_
  refine hcalls (fun _ => hnot) fun _ => hcalls (fun _ => hnot) fun _ => ?_
  refine hcalls (fun _ => hnot) fun _ => hcalls (fun _ h => ?_) fun _ => ?_
  · obtain ⟨e, b, d, he⟩ := beginIf_flow (t.drop 3) s
    rw [he] at h
    cases h
  refine hcalls (fun _ => hnot) fun _ => hcalls (fun _ => hnot) fun _ => ?_
  refine hcalls (fun _ => hnot) fun _ => hcalls (fun _ => hnot) fun _ => ?_
  refine hcalls (fun _ h => ?_) fun _ h => ?_
  · obtain ⟨e, he⟩ := printStatement_total (t.drop 6) s.ev
    rw [he] at h
    cases h
  · -- What is left is a name at the front of the line. An assignment returns, so it was
    -- not one.
    refine if_neg fun hass => ?_
    obtain ⟨e, he⟩ := assign_total (s.ev.scan t).lex.tokenIdent (s.ev.scan t).next
    unfold callOrAssign at h
    dsimp only at h
    rw [if_pos hass.1, if_neg (fun h => by rw [hass.2] at h; cases h), if_pos hass.2, he] at h
    cases h

end Divides

/-! ### Along a run -/

theorem linesTask_threads {x : List (BitVec 32 × BitVec 32)} (i : Nat) (js : List Nat)
    {s : Cospy} (hs : s.ev.divs = x) :
    (linesTask i js s).Threads Request.divs resultDivs (fun t => t.ev.divs) x := by
  induction js generalizing s x with
  | nil => exact hs
  | cons j js ih =>
    rw [linesTask]
    split
    · exact hs
    · exact ⟨hs, fun r => ih rfl⟩

/-- A request divides by itself, or in the lines of a function only. -/
theorem requestTask_accounts :
    Accounts requestTask Request.divs resultDivs (· <+: ·) DividedFrom fun q => ¬q.Traps := by
  rintro (⟨line, s⟩ | s)
  · have hdiv := executeOver_divides line s
    rw [requestTask]
    unfold stmtTask
    cases h : executeOver noCalls line s with
    | some r => exact .inl ⟨r, rfl, hdiv r h⟩
    | none =>
      refine .inr ⟨?_, ?_⟩
      · rintro ⟨e, he, -⟩
        rw [evaluated_call h] at he
        cases he
      · exact (linesTask_threads _ _ rfl).bind fun t => show resultDivs (0, t) = t.ev.divs from rfl
  · obtain ⟨hle, hdiv⟩ := parse_divided (parseExpr_value s.ev s.whileCond)
    exact .inl ⟨_, rfl, hle, hdiv⟩

theorem bodyTask_threads (body : List (List UInt8)) {x : List (BitVec 32 × BitVec 32)} {s : Cospy}
    (hs : s.ev.divs = x) :
    (bodyTask body s).Threads Request.divs resultDivs (fun t => t.ev.divs) x := by
  induction body generalizing s x with
  | nil => exact hs
  | cons line body ih => exact ⟨hs, fun r => ih rfl⟩

theorem iterateTask_threads (body : List (List UInt8)) (k : Nat)
    {x : List (BitVec 32 × BitVec 32)} {s : Cospy} (hs : s.ev.divs = x) :
    (iterateTask (bodyTask body) k s).Threads Request.divs resultDivs (fun t => t.ev.divs) x := by
  induction k generalizing s x with
  | zero => exact hs
  | succ k ih =>
    refine ⟨hs, fun r => ?_⟩
    dsimp only
    split
    · rfl
    · exact (bodyTask_threads body rfl).bind fun t => ih rfl

theorem fileTask_threads (lines : List (List UInt8)) {x : List (BitVec 32 × BitVec 32)}
    {d : Driver} (hd : d.cospy.ev.divs = x) :
    (fileTask lines d).Threads Request.divs resultDivs (fun d => d.cospy.ev.divs) x := by
  induction lines generalizing d x with
  | nil => exact hd
  | cons line lines ih =>
    rw [fileTask]
    suffices hline : (fileLineTask line d).Threads Request.divs resultDivs
        (fun d => d.cospy.ev.divs) x from hline.bind fun d => ih rfl
    unfold fileLineTask
    dsimp only
    split
    · split
      · unfold endWhileTask
        dsimp only
        split
        · exact (iterateTask_threads d.whileBody 1000 hd).bind fun t => rfl
        · exact hd
      · change (collect _ d).cospy.ev.divs = x
        unfold collect
        dsimp only
        split <;> exact hd
    · exact ⟨hd, fun r => rfl⟩

theorem scriptTask_threads (filename : List UInt8) (content : Option (List UInt8)) (s : Cospy) :
    (scriptTask filename content s).Threads Request.divs resultDivs resultDivs s.ev.divs := by
  unfold scriptTask
  split
  · rfl
  · cases content with
    | none => rfl
    | some content =>
      exact (fileTask_threads (readLines 64 content) (d := ⟨cospyInit s, []⟩) rfl).bind
        fun d => show resultDivs (0, d.cospy) = d.cospy.ev.divs from rfl

/-! ## Returning -/

/-- What is executed for a script, in functions and loops too. -/
def ScriptExecutes (filename : List UInt8) (content : Option (List UInt8)) (s : Cospy)
    (q : Request) : Prop :=
  Executed requestTask (scriptTask filename content s) q

/-- **Scripts return**, whatever is in the file and whatever is typed: if no function is called
while it is being executed, exactly when nothing divides -2^31 by -1. A function that is called while
it is being executed is on a cycle of the call graph of the stored lines; so a script that calls
none that is returns. -/
theorem cospyRunFile_returns_iff (filename : List UInt8) (content : Option (List UInt8))
    (s : Cospy) :
    ((∀ q, ScriptExecutes filename content s q → ¬Reenters q) →
      ((∃ n r, cospyRunFile n filename content s = some r ∧ Divided s.ev r.2.ev) ↔
        ∀ q, ScriptExecutes filename content s q → ¬q.Traps)) ∧
      ∀ q, Reenters q → ∃ i, q.enters = some i ∧ TransGen (CallEdge q.state.funcs) i i := by
  refine ⟨fun hno => ?_, fun q => Reenters.cycle⟩
  have hends : ∃ n r, (scriptTask filename content s).run (eval requestTask n) = some r := by
    rw [run_returns_iff]
    rintro ⟨chain, hchain⟩
    obtain ⟨n, hn⟩ := endless_reenters hchain
    exact hno _ (hchain.executed n) hn
  obtain ⟨n, r, hr⟩ := hends
  have hdiv : Divided s.ev r.2.ev ↔ ∀ q, ScriptExecutes filename content s q → ¬q.Traps :=
    (scriptTask_threads filename content s).executed_iff dividedFrom_stretches
      requestTask_accounts hr
  constructor
  · rintro ⟨m, r', hr', hdivided⟩
    obtain ⟨k, hk⟩ := (cospyRunFile_eval filename content s r').mp ⟨m, hr'⟩
    have heq : r = r' := by
      have h₁ := Comp.run_mono (fun q r => eval_mono (Nat.le_max_left n k)) hr
      rw [Comp.run_mono (fun q r => eval_mono (Nat.le_max_right n k)) hk] at h₁
      exact (Option.some.inj h₁).symm
    exact hdiv.mp (heq ▸ hdivided)
  · intro hall
    obtain ⟨m, hm⟩ := (cospyRunFile_eval filename content s r).mpr ⟨n, hr⟩
    exact ⟨m, r, hm, hdiv.mpr hall⟩

/-- A script of one statement, which divides 6 by 2. -/
theorem cospyRunFile_returns_iff_quotient :
    ∃ n r, cospyRunFile n (ascii "a.py") (some (ascii "x = 6 / 2\n")) (.start fun _ => []) =
      some r ∧ Divided (Cospy.start fun _ => []).ev r.2.ev := by
  have hlines : readLines 64 (ascii "x = 6 / 2\n") = [ascii "x = 6 / 2"] := by decide
  have hsome : (executeOver noCalls (ascii "x = 6 / 2")
      (cospyInit (.start fun _ => []))).isNone = false := by decide +kernel
  -- The only statement that is executed is the one in the file, and it enters nothing.
  have hexec : ∀ q, ScriptExecutes (ascii "a.py") (some (ascii "x = 6 / 2\n"))
      (.start fun _ => []) q →
      q = .statement (ascii "x = 6 / 2") (cospyInit (.start fun _ => [])) := by
    rintro q ⟨q₀, hcall, hpath⟩
    rw [scriptTask, if_neg (by decide), hlines] at hcall
    obtain rfl : q₀ = .statement (ascii "x = 6 / 2") (cospyInit (.start fun _ => [])) := by
      cases hcall with
      | here => rfl
      | later _ hrest => cases hrest
    rcases hpath.cases_tail with rfl | ⟨q₁, -, hnest⟩
    · rfl
    · obtain ⟨i, hi, -⟩ := nested_edge hnest
      rw [Request.enters, if_neg (by rw [hsome]; decide)] at hi
      cases hi
  refine ((cospyRunFile_returns_iff _ _ _).1 fun q hq => ?_).mpr fun q hq => ?_
  · rintro ⟨i, q', hi, -⟩
    rw [hexec q hq, Request.enters, if_neg (by rw [hsome]; decide)] at hi
    cases hi
  · rw [hexec q hq]
    rintro ⟨e, he, htrap⟩
    -- Its tree divides once, 6 by 2.
    have hdivs : (evaluated (ascii "x = 6 / 2") (cospyInit (.start fun _ => []))).map (fun e =>
        (readExpr e.lex).divisions e.world e.reads) = some [(6, 2)] := by decide +kernel
    rw [he] at hdivs
    have htree : (readExpr e.lex).divisions e.world e.reads = [(6, 2)] := Option.some.inj hdivs
    refine (Syn.divisions_representable e.world (readExpr e.lex) e.reads).mp ?_ htrap
    rw [htree, List.forall_mem_singleton]
    exact (representable_iff (by decide)).mpr (by decide)

/-! ## Calls that come back to themselves for certain -/

/-- No test of `execute_statement` for another kind of statement takes the line. -/
def IsCall (line : List UInt8) : Prop :=
  NoKeyword (skipWhitespace line) ∧
    ¬(startsWith (skipWhitespace line) (ascii "print") = true ∧
      charAt (skipWhitespace line) 5 = 0x28)

/-- Every function of a set begins with a call of one of them, which no `if` stands in front of. -/
def Unguarded (funcs : List Func) (C : Nat → Prop) : Prop :=
  ∀ i, C i → ∃ f line rest k, funcs[i]? = some f ∧ f.lines = line :: rest ∧
    IsCall line ∧ callee (skipWhitespace line) funcs = some k ∧ C k

/-- A call of one of them is never over, however deep the calls may go. -/
theorem execute_unguarded {C : Nat → Prop} (n : Nat) {line : List UInt8} {s : Cospy}
    (hC : Unguarded s.funcs C) (hd : s.definingFunction = false) (hf : s.inIfFalse = false)
    (hline : IsCall line) {i : Nat} (hcall : callee (skipWhitespace line) s.funcs = some i)
    (hi : C i) : executeStatement n line s = none := by
  induction n generalizing line s i with
  | zero => rfl
  | succ n ih =>
    obtain ⟨f, first, rest, k, hfunc, hlines, hfirst, hk, hCk⟩ := hC i hi
    have hhead : ((callState (skipWhitespace line) s).funcs[i]?.bind fun f => f.lines[0]?) =
        some first := by
      change (s.funcs[i]?.bind fun f => f.lines[0]?) = some first
      rw [hfunc, Option.bind_some, hlines]
      rfl
    rw [execute_live hline.1 hd hf, if_neg hline.2, callOrAssign_callee hcall]
    change Option.map _ (runLines _ i (List.range' 0 32) _) = none
    rw [List.range'_succ, runLines, hhead]
    change Option.map _ (Option.bind (executeStatement n first _) _) = none
    rw [ih (s := callState (skipWhitespace line) s) hC hd hf hfirst hk hCk]
    rfl

/-- **A script that executes such a call never returns.** -/
theorem unguarded_never_returns {filename : List UInt8} {content : Option (List UInt8)} {s : Cospy}
    {line : List UInt8} {t : Cospy}
    (hexec : ScriptExecutes filename content s (.statement line t)) {C : Nat → Prop}
    (hC : Unguarded t.funcs C) (hd : t.definingFunction = false) (hf : t.inIfFalse = false)
    (hline : IsCall line) {i : Nat} (hcall : callee (skipWhitespace line) t.funcs = some i)
    (hi : C i) : ¬∃ n r, cospyRunFile n filename content s = some r := by
  rintro ⟨n, r, hr⟩
  obtain ⟨m, hm⟩ := (cospyRunFile_eval filename content s r).mp ⟨n, hr⟩
  obtain ⟨r', k, hk⟩ := hexec.returned hm
  rw [← executeStatement_eval, execute_unguarded k hC hd hf hline hcall hi] at hk
  cases hk

/-- A function of one line, which calls it. -/
def callsItself : Func := ⟨ascii "f", [ascii "f()"]⟩

theorem isCall_f : IsCall (ascii "f()") := by
  have hname : Callable (ascii "f") :=
    ⟨⟨⟨_, _, rfl, by decide⟩, forall_mem_of_all (by decide), by decide⟩, by decide, by decide,
      by decide⟩
  exact ⟨noKeyword_call hname, not_print_call hname⟩

theorem execute_callsItself (n : Nat) {s : Cospy} (hs : s.funcs = [callsItself])
    (hd : s.definingFunction = false) (hf : s.inIfFalse = false) :
    executeStatement n (ascii "f()") s = none := by
  have hcall : callee (skipWhitespace (ascii "f()")) [callsItself] = some 0 := by decide
  have hC : Unguarded s.funcs (· = 0) := by
    rintro i rfl
    rw [hs]
    exact ⟨callsItself, ascii "f()", [], 0, rfl, rfl, isCall_f, hcall, rfl⟩
  exact execute_unguarded n hC hd hf isCall_f (hs ▸ hcall) rfl

/-- The definition of it. -/
theorem fileLines_callsItself (n : Nat) (s : Cospy) :
    fileLines (n + 1) [ascii "def f():", ascii "f()", ascii "enddef"] ⟨cospyInit s, []⟩ =
      some ⟨(cospyInit s).defining callsItself false, []⟩ := by
  have hroom : (cospyInit s).funcs.length < 16 := Nat.zero_lt_succ 15
  have hfirst :
      skipWhitespace (ascii "def f():") = ascii "def " ++ (ascii "f" ++ 0x28 :: ascii "):") := rfl
  have hdef : fileLine (n + 1) (ascii "def f():") ⟨cospyInit s, []⟩ =
      some ⟨(cospyInit s).defining ⟨ascii "f", []⟩ true, []⟩ :=
    fileLine_def hfirst (forall_mem_of_all (by decide)) (by decide) rfl rfl rfl hroom
  have hline : fileLine (n + 1) (ascii "f()")
      ⟨(cospyInit s).defining ⟨ascii "f", []⟩ true, []⟩ =
      some ⟨(cospyInit s).defining callsItself true, []⟩ :=
    fileLine_defining rfl (by decide) rfl hroom (by decide)
  have henddef : fileLine (n + 1) (ascii "enddef") ⟨(cospyInit s).defining callsItself true, []⟩ =
      some ⟨(cospyInit s).defining callsItself false, []⟩ := fileLine_enddef rfl rfl
  rw [fileLines, hdef, Option.bind_some, fileLines, hline, Option.bind_some, fileLines, henddef]
  rfl

/-- A script that defines it and calls it. -/
theorem callsItself_never_returns :
    ¬∀ (filename : List UInt8) (content : Option (List UInt8)) (s : Cospy),
      ∃ n r, cospyRunFile n filename content s = some r := by
  intro h
  obtain ⟨n, r, hr⟩ := h (ascii "a.py") (some (ascii "def f():\nf()\nenddef\nf()\n"))
    (.start fun _ => [])
  have hlines : readLines 64 (ascii "def f():\nf()\nenddef\nf()\n") =
      [ascii "def f():", ascii "f()", ascii "enddef"] ++ [ascii "f()"] := by
    decide +kernel
  have hrun : fileLines n ([ascii "def f():", ascii "f()", ascii "enddef"] ++ [ascii "f()"])
      ⟨cospyInit (.start fun _ => []), []⟩ = none := by
    cases n with
    | zero => rfl
    | succ n =>
      have hcall := execute_callsItself (n + 1)
        (s := (cospyInit (.start fun _ => [])).defining callsItself false) rfl rfl rfl
      have hdepth :
          ¬((cospyInit (.start fun _ => [])).defining callsItself false).whileDepth > 0 :=
        Nat.lt_irrefl 0
      rw [fileLines_append, fileLines_callsItself, Option.bind_some, fileLines, fileLine,
        if_neg hdepth, execute_skipWhitespace, hcall]
      rfl
  rw [cospyRunFile, if_neg (by decide)] at hr
  change Option.map _ (fileLines n (readLines 64 _) _) = some r at hr
  rw [hlines, hrun] at hr
  cases hr

end OsU
