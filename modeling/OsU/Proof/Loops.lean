import Mathlib.Data.List.DropRight
import OsU.Proof.Spacing
import OsU.Proof.Statements

/-!
# Nested loops

A script is blocks; `sem` is what they say. `cospy_run_file` collects the lines of a
loop up to the `endwhile` that closes it and executes them one by one, but an `endwhile`
inside is dropped and a `while` inside is executed like a statement: it counts up
`while_depth` and takes the place of the condition. So a loop inside a loop leaves the
interpreter waiting for an `endwhile` that does not come, unless the outer loop is never
entered.

The meaning has a bound on iterations, 1000, because the source has one; a script that
needs more has no meaning here and nothing is claimed of it. Behind the last iteration
the interpreter stops without evaluating the condition once more, and the meaning does
evaluate it. That makes no difference unless the condition reads the keyboard, which is
`Calm`.

States are compared by what a script can see (`Same`): the variables, what was printed
and what was read, and not the scanner's own place in a line that is done.

A body is stored in 16 lines, so a loop with more is not a script of this kind. Without
inner loops the stored lines are the body; with one they are the body less its
`endwhile` lines, and it is shown for any body that the depth only goes up
(`fileBody_stored`).
-/

set_option autoImplicit false

namespace OsU

open CString

/-- A script without conditionals and functions; `c` is what stands behind `while `. -/
inductive WhileProg where
  | nil
  | line (text : List UInt8) (rest : WhileProg)
  | loop (c : List UInt8) (body rest : WhileProg)

/-- A loop as it is meant, of fewer than `k` iterations; `none` is one that takes more.
The condition is evaluated before each, and once more at the end. -/
def loopSem (c : List UInt8) (body : Eval → Option Eval) : Nat → Eval → Option Eval
  | 0, _ => none
  | k + 1, e =>
    let v := value e c
    if v.1 = 0 then some v.2 else (body v.2).bind (loopSem c body k)

/-- The state after `k` iterations, if there are so many. -/
def loopRounds (c : List UInt8) (body : Eval → Option Eval) : Nat → Eval → Option Eval
  | 0, e => some e
  | k + 1, e =>
    let v := value e c
    if v.1 = 0 then none else (body v.2).bind (loopRounds c body k)

namespace WhileProg

/-- The lines, without indentation. -/
def lines : WhileProg → List (List UInt8)
  | nil => []
  | line text rest => text :: rest.lines
  | loop c body rest => (ascii "while " ++ c) :: (body.lines ++ ascii "endwhile" :: rest.lines)

/-- Every line outside the block structure is an assignment or a print statement, and a loop has at
most 16 lines. -/
def Wf : WhileProg → Prop
  | nil => True
  | line text rest => Plain text ∧ rest.Wf
  | loop _ body rest => body.Wf ∧ body.lines.length ≤ 16 ∧ rest.Wf

/-- The meaning of blocks; `none` if a loop has more than 1000 iterations. -/
def sem : WhileProg → Eval → Option Eval
  | nil, e => some e
  | line text rest, e => rest.sem (plainStep text e)
  | loop c body rest, e => (loopSem c body.sem 1001 e).bind rest.sem

/-- No loop. -/
def Flat : WhileProg → Prop
  | nil => True
  | line _ rest => rest.Flat
  | loop _ _ _ => False

/-- A loop that has another in it is not entered. What is entered depends on the state,
so the condition follows the meaning through the script. -/
def Fits : WhileProg → Eval → Prop
  | nil, _ => True
  | line text rest, e => rest.Fits (plainStep text e)
  | loop c body rest, e =>
    ((value e c).1 ≠ 0 → body.Flat) ∧ ∀ e', loopSem c body.sem 1001 e = some e' → rest.Fits e'

/-- The condition behind the 1000th iteration of a loop, which is not evaluated any more, would
not have read the keyboard. -/
def Calm : WhileProg → Eval → Prop
  | nil, _ => True
  | line text rest, e => rest.Calm (plainStep text e)
  | loop c body rest, e =>
    (∀ e', loopRounds c body.sem 1000 e = some e' → (value e' c).2.reads = e'.reads) ∧
      ∀ e', loopSem c body.sem 1001 e = some e' → rest.Calm e'

/-- The lines that get into the body of a loop. -/
def stored : WhileProg → List (List UInt8)
  | nil => []
  | line text rest => text :: rest.stored
  | loop c body rest => (ascii "while " ++ c) :: (body.stored ++ rest.stored)

theorem length_stored_le (p : WhileProg) : p.stored.length ≤ p.lines.length := by
  induction p with
  | nil => exact le_refl _
  | line text rest ih => exact Nat.succ_le_succ ih
  | loop c body rest ihb ihr =>
    simp only [stored, lines, List.length_cons, List.length_append]
    omega

end WhileProg

/-! ## States that differ in nothing that matters -/

theorem Same.value {e e' : Eval} (h : Same e e') (text : List UInt8) :
    (OsU.value e' text).1 = (OsU.value e text).1 ∧
      Same (OsU.value e text).2 (OsU.value e' text).2 :=
  (h.at_ _ _ : Same (e.scan text) (e'.scan text)).parseExpr (nextToken_congr rfl)
    (parseExpr_value e text) (parseExpr_value e' text)

theorem Same.setVar {e e' : Eval} (h : Same e e') (name : List UInt8) (v : BitVec 32) :
    Same (setVar name v e).2 (setVar name v e').2 := by
  have hget : getVar e' name = getVar e name := by
    unfold getVar
    rw [h.vars, h.varCount]
  unfold OsU.setVar
  rw [hget]
  cases getVar e name with
  | some i =>
    refine ⟨?_, h.varCount, h.lines, h.keys, h.reads⟩
    dsimp only
    rw [h.vars]
  | none =>
    dsimp only
    rw [h.varCount, h.vars]
    split
    · exact h
    · exact ⟨rfl, rfl, h.lines, h.keys, h.reads⟩

theorem Same.print {e e' : Eval} (h : Same e e') (arg : List UInt8) :
    Same ((printStatement arg e).getD e) ((printStatement arg e').getD e') := by
  have hl : SameLexer (e.scan arg).lex (e'.scan arg).lex := nextToken_congr rfl
  have hs : Same (e.scan arg) (e'.scan arg) := h.at_ _ _
  unfold printStatement
  dsimp only
  by_cases ht : (e.scan arg).tok = .string
  · have ht' : (e'.scan arg).tok = .string := hl.currentToken.trans ht
    have htok := hl.token
    rw [Lexer.token_string ht, Lexer.token_string ht'] at htok
    rw [if_pos ht, if_pos ht', Tok.string.inj htok]
    exact hs.display _
  · have ht' : (e'.scan arg).tok ≠ .string := fun h' => ht (hl.currentToken.symm.trans h')
    obtain ⟨hv, hsame⟩ := h.value arg
    rw [if_neg ht, if_neg ht', parseExpr_value, parseExpr_value, Option.map_some,
      Option.map_some, hv]
    exact hsame.display _

theorem Same.assign {e e' a a' : Eval} (h : Same e e') (hl : SameLexer e.lex e'.lex)
    {name : List UInt8} (ha : assign name e = some a) (ha' : assign name e' = some a') :
    Same a a' := by
  obtain ⟨r, hr, rfl⟩ := Option.map_eq_some_iff.mp ha
  obtain ⟨r', hr', rfl⟩ := Option.map_eq_some_iff.mp ha'
  obtain ⟨hv, hs⟩ := h.next.parseExpr (nextToken_congr hl.cursor) hr hr'
  rw [hv]
  exact hs.setVar name r.1

/-- A plain statement does the same to both. -/
theorem Same.plainStep {line : List UInt8} (hp : Plain line) {e e' : Eval} (h : Same e e') :
    Same (OsU.plainStep line e) (OsU.plainStep line e') := by
  have hscan : SameLexer (e.scan line).lex (e'.scan line).lex := nextToken_congr rfl
  unfold OsU.plainStep
  split
  · exact h.print _
  · rename_i hprint
    cases hp with
    | print arg => exact absurd rfl hprint
    | @assign name g rest hw hk hg hr =>
      obtain ⟨_, hn, _⟩ := scan_assign hw hk hg hr e
      obtain ⟨_, hn', _⟩ := scan_assign hw hk hg hr e'
      obtain ⟨e₁, he₁⟩ := assign_total name (e.scan (name ++ (g ++ 0x3D :: rest))).next
      obtain ⟨e₂, he₂⟩ := assign_total name (e'.scan (name ++ (g ++ 0x3D :: rest))).next
      rw [hn, hn', he₁, he₂]
      exact Same.assign (h.at_ _ _) (nextToken_congr hscan.cursor) he₁ he₂

/-- An expression that does not read the keyboard changes nothing that matters. -/
theorem same_value {e : Eval} {text : List UInt8} (h : (value e text).2.reads = e.reads) :
    Same e (value e text).2 := by
  have hmoves : Moves fun e e' : Eval =>
      e'.vars = e.vars ∧ e'.varCount = e.varCount ∧ e'.lines = e.lines ∧ e'.keys = e.keys := by
    refine ⟨fun _ => ⟨rfl, rfl, rfl, rfl⟩, ?_, fun _ => ⟨rfl, rfl, rfl, rfl⟩,
      fun _ => ⟨rfl, rfl, rfl, rfl⟩, ?_⟩
    · rintro a b c ⟨h1, h2, h3, h4⟩ ⟨h1', h2', h3', h4'⟩
      exact ⟨h1'.trans h1, h2'.trans h2, h3'.trans h3, h4'.trans h4⟩
    · intro d t left right e
      have hline : (e.display (.message (ascii "division by zero\n"))).lines = e.lines := by
        rw [Same.lines_display, List.append_nil]
      unfold levelOp
      split
      · unfold termOp
        split
        · exact ⟨rfl, rfl, rfl, rfl⟩
        · split
          · exact ⟨rfl, rfl, rfl, rfl⟩
          · exact ⟨rfl, rfl, hline, rfl⟩
        · split <;> exact ⟨rfl, rfl, rfl, rfl⟩
      · exact ⟨rfl, rfl, rfl, rfl⟩
      · exact ⟨rfl, rfl, rfl, rfl⟩
      · exact ⟨rfl, rfl, rfl, rfl⟩
      · exact ⟨rfl, rfl, rfl, rfl⟩
  obtain ⟨h1, h2, h3, h4⟩ := hmoves.parseExpr (e.scan text) _ (parseExpr_value e text)
  exact ⟨h1, h2, h3, h4, h⟩

/-! ## The driver on one line -/

/-- Outside conditionals and definitions. -/
structure Live (s : Cospy) : Prop where
  no_def : s.definingFunction = false
  no_skip : s.inIfFalse = false

/-- The state with these values of what loops change. -/
def Cospy.withLoop (s : Cospy) (e : Eval) (d : Nat) (w : List UInt8) : Cospy :=
  { s with ev := e, whileDepth := d, whileCond := w }

/-- A line put into the body. -/
def push (b : List (List UInt8)) (line : List UInt8) : List (List UInt8) :=
  if b.length < 16 then b ++ [strcpy line] else b

theorem fileLine_skipWhitespace (n : Nat) (line : List UInt8) (d : Driver) :
    fileLine n (skipWhitespace line) d = fileLine n line d := by
  rw [fileLine, fileLine, show skipWhitespace (skipWhitespace line) = skipWhitespace line from
    List.dropWhile_idempotent _ _]

/-- Indentation does not matter. -/
theorem fileLines_map (n : Nat) (lines : List (List UInt8)) (d : Driver) :
    fileLines n (lines.map skipWhitespace) d = fileLines n lines d := by
  induction lines generalizing d with
  | nil => rfl
  | cons line lines ih =>
    rw [List.map_cons, fileLines, fileLines, fileLine_skipWhitespace]
    exact congrArg _ (funext ih)

theorem fileLines_append (n : Nat) (ls ls' : List (List UInt8)) (d : Driver) :
    fileLines n (ls ++ ls') d = (fileLines n ls d).bind (fileLines n ls') := by
  induction ls generalizing d with
  | nil => rfl
  | cons line ls ih =>
    rw [List.cons_append, fileLines, fileLines, Option.bind_assoc]
    exact congrArg _ (funext ih)

section Driver

variable {n : Nat} {s : Cospy} {e : Eval} {d : Nat} {w c text : List UInt8}
  {b : List (List UInt8)}

theorem execute_plain_loop (hs : Live s) (hp : Plain text) :
    executeStatement (n + 1) text (s.withLoop e d w) =
      some (0, s.withLoop (plainStep text e) d w) := by
  have hskip := skipWhitespace_plain hp
  have h : executeStatement (n + 1) text (s.withLoop e d w) =
      some (0, s.withLoop (plainStep (skipWhitespace text) e) d w) :=
    execute_plain (by rw [hskip]; exact hp) hs.no_def hs.no_skip
  rwa [hskip] at h

theorem execute_while_loop (hs : Live s) :
    executeStatement (n + 1) (ascii "while " ++ c) (s.withLoop e d w) =
      some (0, s.withLoop e (d + 1) (strcpy c)) :=
  execute_while rfl hs.no_def hs.no_skip

theorem fileLine_plain (hs : Live s) (hp : Plain text) :
    fileLine (n + 1) text ⟨s.withLoop e 0 w, b⟩ =
      some ⟨s.withLoop (plainStep text e) 0 w, b⟩ := by
  have hzero : ¬(s.withLoop e 0 w).whileDepth > 0 := lt_irrefl 0
  rw [fileLine, skipWhitespace_plain hp, if_neg hzero, execute_plain_loop hs hp]
  rfl

theorem fileLine_while (hs : Live s) :
    fileLine (n + 1) (ascii "while " ++ c) ⟨s.withLoop e 0 w, b⟩ =
      some ⟨s.withLoop e 1 (strcpy c), b⟩ := by
  have hzero : ¬(s.withLoop e 0 w).whileDepth > 0 := lt_irrefl 0
  have hskip : skipWhitespace (ascii "while " ++ c) = ascii "while " ++ c := rfl
  rw [fileLine, hskip, if_neg hzero, execute_while_loop hs]
  rfl

theorem fileLine_collect_plain (hp : Plain text) :
    fileLine n text ⟨s.withLoop e (d + 1) w, b⟩ = some ⟨s.withLoop e (d + 1) w, push b text⟩ := by
  have hpos : (s.withLoop e (d + 1) w).whileDepth > 0 := d.succ_pos
  rw [fileLine, skipWhitespace_plain hp, if_pos hpos, hp.noKeyword.endwhile,
    if_neg Bool.false_ne_true, collect, hp.noKeyword.while_, if_neg Bool.false_ne_true]
  rfl

theorem fileLine_collect_while :
    fileLine n (ascii "while " ++ c) ⟨s.withLoop e (d + 1) w, b⟩ =
      some ⟨s.withLoop e (d + 2) w, push b (ascii "while " ++ c)⟩ := rfl

theorem fileLine_collect_endwhile :
    fileLine n (ascii "endwhile") ⟨s.withLoop e (d + 2) w, b⟩ =
      some ⟨s.withLoop e (d + 1) w, b⟩ := rfl

theorem fileLine_endwhile :
    fileLine n (ascii "endwhile") ⟨s.withLoop e 1 w, b⟩ =
      (iterate (fileBody n b) 1000 (s.withLoop e 0 w)).map fun s => ⟨s, []⟩ := rfl

end Driver

/-! ## Collecting a body -/

/-- Inside a loop, blocks are collected, and leave the depth as it was. -/
theorem fileLines_collect {p : WhileProg} (hp : p.Wf) {n : Nat} {s : Cospy} {e : Eval} {d : Nat}
    {w : List UInt8} {b : List (List UInt8)} :
    fileLines n p.lines ⟨s.withLoop e (d + 1) w, b⟩ =
      some ⟨s.withLoop e (d + 1) w, p.stored.foldl push b⟩ := by
  induction p generalizing d b with
  | nil => rfl
  | line text rest ih =>
    rw [WhileProg.lines, fileLines, fileLine_collect_plain hp.1, Option.bind_some, ih hp.2]
    rfl
  | loop c body rest ihb ihr =>
    rw [WhileProg.lines, fileLines, fileLine_collect_while, Option.bind_some, fileLines_append,
      ihb hp.1, Option.bind_some, fileLines, fileLine_collect_endwhile, Option.bind_some,
      ihr hp.2.2, WhileProg.stored, List.foldl_cons, List.foldl_append]

/-- A body of up to 16 lines is collected as it is. -/
theorem foldl_push {ls b : List (List UInt8)} (h : b.length + ls.length ≤ 16)
    (hz : ∀ line ∈ ls, (0 : UInt8) ∉ line) : ls.foldl push b = b ++ ls := by
  induction ls generalizing b with
  | nil => exact (List.append_nil b).symm
  | cons line ls ih =>
    rw [List.length_cons] at h
    have hpush : push b line = b ++ [line] := by
      rw [push, if_pos (by omega), strcpy_eq (hz line List.mem_cons_self)]
    rw [List.foldl_cons, hpush, ih (by rw [List.length_append, List.length_singleton]; omega)
      fun l hl => hz l (List.mem_cons_of_mem line hl), List.append_assoc]
    rfl

/-! ## Executing a body -/

theorem evalCond_loop (s : Cospy) (e : Eval) (d : Nat) (w : List UInt8) :
    evalCond (s.withLoop e d w) = some ((value e w).1, s.withLoop (value e w).2 d w) := by
  have h : parseExpr ((s.withLoop e d w).ev.scan (s.withLoop e d w).whileCond) =
      some (value e w) := parseExpr_value e w
  rw [evalCond, h]
  rfl

theorem fileBody_append (n : Nat) (ls ls' : List (List UInt8)) (s : Cospy) :
    fileBody n (ls ++ ls') s = (fileBody n ls s).bind (fileBody n ls') := by
  induction ls generalizing s with
  | nil => rfl
  | cons line ls ih =>
    rw [List.cons_append, fileBody, fileBody, Option.bind_assoc]
    exact congrArg _ (funext fun r => ih r.2)

/-- The lines of a body, whatever it is: the depth does not go down, and it goes up if there is a
loop in it. -/
theorem fileBody_stored {p : WhileProg} (hp : p.Wf) {n : Nat} {s : Cospy} (hs : Live s) (e : Eval)
    (d : Nat) (w : List UInt8) :
    ∃ e' d' w', fileBody (n + 1) p.stored (s.withLoop e d w) = some (s.withLoop e' d' w') ∧
      d ≤ d' ∧ (¬p.Flat → d < d') := by
  induction p generalizing e d w with
  | nil => exact ⟨e, d, w, rfl, le_refl d, fun h => absurd trivial h⟩
  | line text rest ih =>
    obtain ⟨e', d', w', hrun, hle, hlt⟩ := ih hp.2 (plainStep text e) d w
    refine ⟨e', d', w', ?_, hle, hlt⟩
    rw [WhileProg.stored, fileBody, execute_plain_loop hs hp.1]
    exact hrun
  | loop c body rest ihb ihr =>
    -- the `while` counts up, and its `endwhile` is not among the lines
    obtain ⟨e₁, d₁, w₁, hrun, hle, _⟩ := ihb hp.1 e (d + 1) (strcpy c)
    obtain ⟨e', d', w', hrun', hle', _⟩ := ihr hp.2.2 e₁ d₁ w₁
    refine ⟨e', d', w', ?_, by omega, fun _ => by omega⟩
    rw [WhileProg.stored, fileBody, execute_while_loop hs, Option.bind_some,
      fileBody_append, hrun]
    exact hrun'

/-- The iterations of a loop, whatever its body is. -/
theorem iterate_stored {p : WhileProg} (hp : p.Wf) {n : Nat} {s : Cospy} (hs : Live s) (k : Nat)
    (e : Eval) (d : Nat) (w : List UInt8) :
    ∃ e' d' w', iterate (fileBody (n + 1) p.stored) k (s.withLoop e d w) =
        some (s.withLoop e' d' w') ∧
      d ≤ d' ∧ (¬p.Flat → 0 < k → (value e w).1 ≠ 0 → d < d') := by
  induction k generalizing e d w with
  | zero => exact ⟨e, d, w, rfl, le_refl d, fun _ h _ => absurd h (lt_irrefl 0)⟩
  | succ k ih =>
    rw [iterate, evalCond_loop, Option.bind_some]
    dsimp only
    by_cases hv : (value e w).1 = 0
    · rw [if_pos hv]
      exact ⟨_, d, w, rfl, le_refl d, fun _ _ h => absurd hv h⟩
    · -- the first round has counted up if there is a loop in the body, and no later one counts down
      obtain ⟨e₁, d₁, w₁, hrun, hle, hlt⟩ := fileBody_stored hp (n := n) hs (value e w).2 d w
      obtain ⟨e', d', w', hrun', hle', _⟩ := ih e₁ d₁ w₁
      rw [if_neg hv, hrun, Option.bind_some]
      exact ⟨e', d', w', hrun', hle.trans hle', fun hf _ _ => (hlt hf).trans_le hle'⟩

/-- A body without loops is executed as it is meant. -/
theorem fileBody_flat {p : WhileProg} (hp : p.Wf) (hf : p.Flat) {n : Nat} {s : Cospy} (hs : Live s)
    {e₀ e₁ e : Eval} (hsame : Same e₀ e) (hsem : p.sem e₀ = some e₁) (d : Nat) (w : List UInt8) :
    ∃ e', fileBody (n + 1) p.stored (s.withLoop e d w) = some (s.withLoop e' d w) ∧
      Same e₁ e' := by
  induction p generalizing e₀ e with
  | nil =>
    cases hsem
    exact ⟨e, rfl, hsame⟩
  | line text rest ih =>
    obtain ⟨e', hrun, hs'⟩ := ih hp.2 hf (hsame.plainStep hp.1) hsem
    refine ⟨e', ?_, hs'⟩
    rw [WhileProg.stored, fileBody, execute_plain_loop hs hp.1]
    exact hrun
  | loop c body rest ihb ihr => exact absurd hf id

/-- So is a loop with such a body. -/
theorem iterate_flat {p : WhileProg} (hp : p.Wf) (hf : p.Flat) {n : Nat} {s : Cospy} (hs : Live s)
    {c : List UInt8} {k : Nat} {e₀ e₁ e : Eval} (hsame : Same e₀ e)
    (hsem : loopSem c p.sem (k + 1) e₀ = some e₁)
    (hcalm : ∀ e', loopRounds c p.sem k e₀ = some e' → (value e' c).2.reads = e'.reads) :
    ∃ e', iterate (fileBody (n + 1) p.stored) k (s.withLoop e 0 c) = some (s.withLoop e' 0 c) ∧
      Same e₁ e' := by
  induction k generalizing e₀ e with
  | zero =>
    -- the condition that the source does not evaluate any more
    have hquiet := same_value (hcalm e₀ rfl)
    rw [loopSem] at hsem
    by_cases hv : (value e₀ c).1 = 0
    · rw [if_pos hv] at hsem
      cases hsem
      exact ⟨e, rfl, hquiet.symm.trans hsame⟩
    · rw [if_neg hv] at hsem
      obtain ⟨_, _, hnone⟩ := Option.bind_eq_some_iff.mp hsem
      exact absurd hnone nofun
  | succ k ih =>
    obtain ⟨hval, hs₁⟩ := hsame.value c
    rw [iterate, evalCond_loop, Option.bind_some]
    dsimp only
    rw [hval]
    rw [loopSem] at hsem
    by_cases hv : (value e₀ c).1 = 0
    · rw [if_pos hv] at hsem ⊢
      cases hsem
      exact ⟨_, rfl, hs₁⟩
    · rw [if_neg hv] at hsem ⊢
      obtain ⟨e₂, hbody, hrest⟩ := Option.bind_eq_some_iff.mp hsem
      obtain ⟨e', hrun, hs₂⟩ := fileBody_flat hp hf (n := n) hs hs₁ hbody 0 c
      rw [hrun, Option.bind_some]
      refine ih hs₂ hrest fun e' he' => hcalm e' ?_
      rw [loopRounds, if_neg hv, hbody]
      exact he'

/-! ## The script -/

/-- Every line of the script without a zero byte. -/
def NoZero (p : WhileProg) : Prop := ∀ line ∈ p.lines, (0 : UInt8) ∉ line

theorem stored_subset {p : WhileProg} {line : List UInt8} (h : line ∈ p.stored) :
    line ∈ p.lines := by
  induction p with
  | nil => exact h
  | line text rest ih =>
    obtain rfl | h := List.mem_cons.mp h
    · exact List.mem_cons_self
    · exact List.mem_cons_of_mem _ (ih h)
  | loop c body rest ihb ihr =>
    rw [WhileProg.lines, List.mem_cons, List.mem_append, List.mem_cons]
    obtain rfl | h := List.mem_cons.mp h
    · exact Or.inl rfl
    · obtain h | h := List.mem_append.mp h
      · exact Or.inr (Or.inl (ihb h))
      · exact Or.inr (Or.inr (Or.inr (ihr h)))

/-- A loop and what follows it. -/
theorem fileLines_loop {c : List UInt8} {body rest : WhileProg}
    (hp : (WhileProg.loop c body rest).Wf) (hz : NoZero (.loop c body rest)) {n : Nat} {s : Cospy}
    (hs : Live s) (e : Eval) (w : List UInt8) :
    fileLines (n + 1) (WhileProg.loop c body rest).lines ⟨s.withLoop e 0 w, []⟩ =
      (iterate (fileBody (n + 1) body.stored) 1000 (s.withLoop e 0 c)).bind fun s' =>
        fileLines (n + 1) rest.lines ⟨s', []⟩ := by
  have hc : strcpy c = c := strcpy_eq fun hm =>
    hz _ List.mem_cons_self (List.mem_append_right _ hm)
  have hbody : body.stored.foldl push [] = body.stored := by
    refine foldl_push ?_ fun line hline => ?_
    · have hlen := body.length_stored_le.trans hp.2.1
      rw [List.length_nil]
      omega
    · exact hz line (List.mem_cons_of_mem _ (List.mem_append_left _ (stored_subset hline)))
  rw [WhileProg.lines, fileLines, fileLine_while hs, Option.bind_some, hc, fileLines_append,
    fileLines_collect hp.1, Option.bind_some, fileLines, fileLine_endwhile, hbody,
    Option.bind_map]
  rfl

/-- A loop that is not entered, or has no loop in it. -/
theorem iterate_same {body : WhileProg} (hp : body.Wf) {n : Nat} {s : Cospy} (hs : Live s)
    {c : List UInt8} {e₀ e₁ e : Eval} (hflat : (value e₀ c).1 ≠ 0 → body.Flat)
    (hsame : Same e₀ e) (hsem : loopSem c body.sem 1001 e₀ = some e₁)
    (hcalm : ∀ e', loopRounds c body.sem 1000 e₀ = some e' → (value e' c).2.reads = e'.reads) :
    ∃ e', iterate (fileBody (n + 1) body.stored) 1000 (s.withLoop e 0 c) =
        some (s.withLoop e' 0 c) ∧ Same e₁ e' := by
  by_cases hv : (value e₀ c).1 = 0
  · -- only the condition is evaluated, so what the body holds does not matter
    obtain ⟨hval, hs₁⟩ := hsame.value c
    rw [loopSem, if_pos hv] at hsem
    cases hsem
    rw [iterate, evalCond_loop, Option.bind_some]
    dsimp only
    rw [hval, if_pos hv]
    exact ⟨_, rfl, hs₁⟩
  · exact iterate_flat hp (hflat hv) hs hsame hsem hcalm

/-- **A script.** It runs to its end; it does what its blocks say if no loop with another in it is
entered, and it is still inside a loop in the end if one is. -/
theorem run_script {p : WhileProg} (hp : p.Wf) (hz : NoZero p) {n : Nat} {s : Cospy} (hs : Live s)
    {e₀ e₁ e : Eval} (hsame : Same e₀ e) (hsem : p.sem e₀ = some e₁) (hcalm : p.Calm e₀)
    (w : List UInt8) :
    ∃ e' d' w' b, fileLines (n + 1) p.lines ⟨s.withLoop e 0 w, []⟩ =
        some ⟨s.withLoop e' d' w', b⟩ ∧
      (p.Fits e₀ → Same e₁ e' ∧ d' = 0) ∧ (¬p.Fits e₀ → 0 < d') := by
  induction p generalizing e₀ e w with
  | nil =>
    cases hsem
    exact ⟨e, 0, w, [], rfl, fun _ => ⟨hsame, rfl⟩, fun h => absurd trivial h⟩
  | line text rest ih =>
    have hz' : NoZero rest := fun line hline => hz line (List.mem_cons_of_mem _ hline)
    obtain ⟨e', d', w', b, hrun, hfit⟩ := ih hp.2 hz' (hsame.plainStep hp.1) hsem hcalm w
    refine ⟨e', d', w', b, ?_, hfit⟩
    rw [WhileProg.lines, fileLines, fileLine_plain hs hp.1]
    exact hrun
  | loop c body rest ihb ihr =>
    obtain ⟨e₂, hloop, hrest⟩ := Option.bind_eq_some_iff.mp hsem
    have hz' : NoZero rest := by
      intro line hline
      exact hz line (List.mem_cons_of_mem _ (List.mem_append_right _
        (List.mem_cons_of_mem _ hline)))
    rw [fileLines_loop hp hz hs]
    by_cases hflat : (value e₀ c).1 ≠ 0 → body.Flat
    · -- back at depth 0, and the rest of the script decides
      obtain ⟨e₃, hrun, hs₃⟩ := iterate_same hp.1 (n := n) hs hflat hsame hloop hcalm.1
      obtain ⟨e', d', w', b, hrun', hfit, hnot⟩ :=
        ihr hp.2.2 hz' hs₃ hrest (hcalm.2 e₂ hloop) c
      rw [hrun, Option.bind_some]
      refine ⟨e', d', w', b, hrun', fun h => hfit (h.2 e₂ hloop), fun h => hnot fun hr => h ?_⟩
      refine ⟨hflat, fun e'' he'' => ?_⟩
      rw [hloop] at he''
      cases he''
      exact hr
    · -- the loop inside has left the interpreter inside a loop, and the rest is collected
      obtain ⟨hv, hf⟩ := Classical.not_imp.mp hflat
      have hv' : (value e c).1 ≠ 0 := by
        rw [(hsame.value c).1]
        exact hv
      obtain ⟨e', d', w', hrun, _, hlt⟩ := iterate_stored hp.1 (n := n) hs 1000 e 0 c
      have hpos := hlt hf (by omega) hv'
      obtain ⟨d, rfl⟩ := Nat.exists_eq_succ_of_ne_zero hpos.ne'
      rw [hrun, Option.bind_some, fileLines_collect hp.2.2]
      exact ⟨e', d + 1, w', _, rfl, fun h => absurd h.1 hflat, fun _ => d.succ_pos⟩

/-! ## The file

The lines of a file are those of the script when none of them is cut and there are no
more than fit. Then the driver and the blocks of the script are compared line by line. -/

/-- A line of a file: up to 127 characters, and none that ends it. -/
def IsLine (line : List UInt8) : Prop := line.length ≤ 127 ∧ ∀ b ∈ line, b ≠ 0 ∧ b ≠ 0x0A

instance : DecidablePred IsLine := fun line =>
  decidable_of_iff (line.length ≤ 127 ∧ (line.all fun b => b ≠ 0 ∧ b ≠ 0x0A) = true)
    (and_congr_right fun _ => by simp)

/-- A file of these lines, the last one with or without its newline. -/
def fileText (final : Bool) : List (List UInt8) → List UInt8
  | [] => []
  | [line] => line ++ if final then [0x0A] else []
  | line :: line' :: lines => line ++ 0x0A :: fileText final (line' :: lines)

theorem readLines_append {k : Nat} {line rest : List UInt8} (hl : IsLine line)
    (hne : line ++ rest ≠ []) (hr : rest = [] ∨ ∃ s, rest = 0x0A :: s) :
    readLines (k + 1) (line ++ rest) = line :: readLines k rest.tail := by
  have hcopy : copyWhile (fun c => c ≠ 0x0A) 127 (line ++ rest) = (line, rest) := by
    refine copyWhile_run (fun b hb => decide_eq_true (hl.2 b hb).2) hl.1 fun b hb => ?_
    obtain rfl | ⟨s, rfl⟩ := hr
    · exact absurd hb nofun
    · cases hb
      rfl
  generalize line ++ rest = text at hne hcopy
  cases text with
  | nil => exact absurd rfl hne
  | cons b text =>
    rw [readLines, hcopy]
    obtain rfl | ⟨s, rfl⟩ := hr
    · rfl
    · rfl

/-- The lines of a file are read as they are, but for an empty one that ends it. -/
theorem readLines_fileText {ls : List (List UInt8)} {k : Nat} (hk : ls.length ≤ k)
    (hls : ∀ line ∈ ls, IsLine line) (final : Bool) :
    readLines k (fileText final ls) = ls ∨ ls = readLines k (fileText final ls) ++ [[]] := by
  induction ls generalizing k with
  | nil => exact Or.inl (readLines_nil k)
  | cons line ls ih =>
    cases k with
    | zero => exact absurd hk (Nat.not_succ_le_zero _)
    | succ k =>
      obtain ⟨hl, hls⟩ := List.forall_mem_cons.mp hls
      cases ls with
      | nil =>
        rw [fileText]
        -- An empty line at the end, without a line feed behind it, is not there to be
        -- read.
        by_cases hne : line ++ (if final then [0x0A] else []) = []
        · obtain ⟨rfl, hend⟩ := List.append_eq_nil_iff.mp hne
          rw [hend]
          exact Or.inr rfl
        · rw [readLines_append hl hne]
          · cases final <;> exact Or.inl (congrArg (line :: ·) (readLines_nil k))
          · cases final
            · exact Or.inl rfl
            · exact Or.inr ⟨[], rfl⟩
      | cons line' ls =>
        have hne : line ++ 0x0A :: fileText final (line' :: ls) ≠ [] :=
          List.append_ne_nil_of_right_ne_nil line (List.cons_ne_nil _ _)
        rw [fileText, readLines_append hl hne (Or.inr ⟨_, rfl⟩), List.tail_cons]
        rcases ih (Nat.le_of_succ_le_succ hk) hls with h | h
        · exact Or.inl (congrArg (line :: ·) h)
        · exact Or.inr (congrArg (line :: ·) h)

theorem lines_ne_nil {p : WhileProg} (hp : p.Wf) {line : List UInt8} (h : line ∈ p.lines) :
    line ≠ [] := by
  induction p with
  | nil => exact absurd h List.not_mem_nil
  | line text rest ih =>
    obtain rfl | h := List.mem_cons.mp h
    · rintro rfl
      exact hp.1.noKeyword.more (Or.inl rfl)
    · exact ih hp.2 h
  | loop c body rest ihb ihr =>
    rw [WhileProg.lines, List.mem_cons, List.mem_append, List.mem_cons] at h
    obtain rfl | h | rfl | h := h
    · exact List.cons_ne_nil _ _
    · exact ihb hp.1 h
    · exact List.cons_ne_nil _ _
    · exact ihr hp.2.2 h

/-- `cospy_run_file` on the file prints what the blocks of the script print, leaves the variables
they leave, and is in no loop in the end. -/
def RunsAs (n : Nat) (p : WhileProg) (filename content : List UInt8) (s : Cospy) : Prop :=
  ∃ e r, p.sem (cospyInit s).ev = some e ∧
    cospyRunFile n filename (some content) s = some (0, r) ∧
    r.ev.lines = e.lines ∧ r.ev.vars = e.vars ∧ r.ev.varCount = e.varCount ∧ r.whileDepth = 0

/-- **Loops.** However its lines are indented, a script whose loops have up to 1000 iterations runs
as its blocks say if and only if it enters no loop that has another in it. -/
theorem runsAs_iff {p : WhileProg} (hp : p.Wf) {ls : List (List UInt8)}
    (hls : ls.map skipWhitespace = p.lines) (hlen : ls.length ≤ 64)
    (hline : ∀ line ∈ ls, IsLine line) {s : Cospy} {e : Eval}
    (hsem : p.sem (cospyInit s).ev = some e) (hcalm : p.Calm (cospyInit s).ev)
    {filename : List UInt8} (hname : peek filename ≠ 0) (final : Bool) (n : Nat) :
    RunsAs (n + 1) p filename (fileText final ls) s ↔ p.Fits (cospyInit s).ev := by
  have hmem : ∀ line ∈ ls, skipWhitespace line ∈ p.lines := by
    intro line hm
    rw [← hls]
    exact List.mem_map_of_mem hm
  have hz : NoZero p := by
    intro line hm hzero
    rw [← hls] at hm
    obtain ⟨l, hl, rfl⟩ := List.mem_map.mp hm
    exact ((hline l hl).2 0 ((List.dropWhile_suffix _).subset hzero)).1 rfl
  have hread : readLines 64 (fileText final ls) = ls := by
    refine (readLines_fileText hlen hline final).resolve_right fun hend => ?_
    have hm : [] ∈ ls := by
      rw [hend]
      exact List.mem_append_right _ List.mem_cons_self
    exact lines_ne_nil hp (hmem [] hm) rfl
  obtain ⟨e', d', w', b, hrun, hfit, hnot⟩ := run_script hp hz (n := n) (s := cospyInit s)
    ⟨rfl, rfl⟩ (Same.refl _) hsem hcalm (cospyInit s).whileCond
  -- the run of the file is the run of the script's lines
  have hfile : cospyRunFile (n + 1) filename (some (fileText final ls)) s =
      some (0, (cospyInit s).withLoop e' d' w') := by
    have hlines : fileLines (n + 1) ls ⟨cospyInit s, []⟩ =
        some ⟨(cospyInit s).withLoop e' d' w', b⟩ := by
      rw [← fileLines_map, hls]
      exact hrun
    rw [cospyRunFile, if_neg hname, hread, hlines]
    rfl
  constructor
  · rintro ⟨e'', r, _, hr, _, _, _, hdepth⟩
    rw [hfile] at hr
    cases hr
    by_contra h
    exact (hnot h).ne' hdepth
  · intro h
    obtain ⟨hs, hd⟩ := hfit h
    exact ⟨e, _, hsem, hfile, hs.lines, hs.vars, hs.varCount, hd⟩

/-- A loop of one iteration. -/
def oneLoop : WhileProg := .loop (ascii "x < 1:") (.line (ascii "x = 1") .nil) .nil

/-- The script runs as its block says. -/
theorem runsAs_iff_demo :
    RunsAs 1 oneLoop (ascii "a.py")
      (fileText true [ascii "while x < 1:", ascii "  x = 1", ascii "endwhile"])
      (.start fun _ => []) := by
  have hwf : oneLoop.Wf := ⟨⟨plain_x (ascii " 1") (by decide), trivial⟩, by decide, trivial⟩
  obtain ⟨e, he⟩ := Option.isSome_iff_exists.mp
    (by decide +kernel : (oneLoop.sem (cospyInit (.start fun _ => [])).ev).isSome = true)
  have hrounds : (loopRounds (ascii "x < 1:") (WhileProg.line (ascii "x = 1") .nil).sem 1000
      (cospyInit (.start fun _ => [])).ev).isNone = true := by decide +kernel
  have hcalm : oneLoop.Calm (cospyInit (.start fun _ => [])).ev := by
    refine ⟨fun e' he' => ?_, fun e' _ => trivial⟩
    rw [he'] at hrounds
    exact absurd hrounds Bool.false_ne_true
  have hfits : oneLoop.Fits (cospyInit (.start fun _ => [])).ev :=
    ⟨fun _ => trivial, fun _ _ => trivial⟩
  exact (runsAs_iff hwf rfl (by decide) (by decide) he hcalm (by decide) true 0).mpr hfits

/-- A loop that is entered, with another behind its only statement. -/
def loopInLoop : WhileProg :=
  .loop (ascii "x < 1:") (.line (ascii "x = 1") (.loop (ascii "0:") .nil .nil)) .nil

/-- Behind the script, the interpreter is still in a loop. -/
theorem not_runsAs_loopInLoop :
    ¬∀ (p : WhileProg) (ls : List (List UInt8)) (s : Cospy) (n : Nat), p.Wf →
      ls.map skipWhitespace = p.lines → ls.length ≤ 64 → (∀ line ∈ ls, IsLine line) →
      (∃ e, p.sem (cospyInit s).ev = some e) →
      RunsAs (n + 1) p (ascii "a.py") (fileText true ls) s := by
  intro h
  have hwf : loopInLoop.Wf := ⟨⟨plain_x (ascii " 1") (by decide), trivial, by decide, trivial⟩,
    by decide, trivial⟩
  have hsem : ∃ e, loopInLoop.sem (cospyInit (.start fun _ => [])).ev = some e :=
    Option.isSome_iff_exists.mp (by decide +kernel)
  obtain ⟨e, r, _, hr, _, _, _, hdepth⟩ :=
    h loopInLoop loopInLoop.lines (.start fun _ => []) 0 hwf rfl (by decide) (by decide) hsem
  have hone : (cospyRunFile 1 (ascii "a.py") (some (fileText true loopInLoop.lines))
      (.start fun _ => [])).map (fun r => r.2.whileDepth) = some 1 := by decide +kernel
  rw [hr] at hone
  have hd : r.whileDepth = 1 := Option.some.inj hone
  rw [hdepth] at hd
  exact absurd hd (by decide)

end OsU
