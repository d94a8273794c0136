import Mathlib.Data.List.DropRight
import OsU.Proof.Statements

/-!
# Nested conditionals

A program is blocks; `sem` is what they say, and which of the assignments and print statements are
executed. The source keeps one flag and one counter instead. `top` and `nested` are the blocks as
the flag and the counter execute them: in the outermost block an `else` turns the flag and an
`endif` clears it, inside it neither does anything. So inside a block, a condition that is false
stops everything up to the end of the outermost branch, and a condition that is true executes both
branches.

Neither matters where there is nothing to execute. `Fits` says where: the two executions are
followed side by side, and a part that only the blocks execute must be `Quiet`, one that only the
flag lets through must be `Mute`. Both are followed, and not one of them, because a condition is
evaluated by one and skipped by the other in such a part, and what it reads from the keyboard is
missing from then on.
-/

set_option autoImplicit false

namespace OsU

open CString

/-- A program without loops and functions; `c` is what stands behind `if `. It is a list
of lines and blocks, so an `else` and an `endif` always have an `if`. -/
inductive Prog where
  | nil
  | line (text : List UInt8) (rest : Prog)
  | ifThen (c : List UInt8) (body rest : Prog)
  | ifElse (c : List UInt8) (body other rest : Prog)

namespace Prog

/-- The lines, without indentation. -/
def lines : Prog → List (List UInt8)
  | nil => []
  | line text rest => text :: rest.lines
  | ifThen c body rest => (ascii "if " ++ c) :: (body.lines ++ ascii "endif" :: rest.lines)
  | ifElse c body other rest =>
    (ascii "if " ++ c) ::
      (body.lines ++ ascii "else:" :: (other.lines ++ ascii "endif" :: rest.lines))

/-- Every line outside the block structure is an assignment or a print statement. -/
def Wf : Prog → Prop
  | nil => True
  | line text rest => Plain text ∧ rest.Wf
  | ifThen _ body rest => body.Wf ∧ rest.Wf
  | ifElse _ body other rest => body.Wf ∧ other.Wf ∧ rest.Wf

/-- No statement of the program is executed. There is one place for every assignment and every
print statement, in the order of the text; an `if` has none. -/
def skipped : Prog → List Bool
  | nil => []
  | line _ rest => false :: rest.skipped
  | ifThen _ body rest => body.skipped ++ rest.skipped
  | ifElse _ body other rest => body.skipped ++ other.skipped ++ rest.skipped

/-- The meaning of blocks: for every assignment and print statement, whether it is executed; and
what has become of the state. -/
def sem : Prog → Eval → List Bool × Eval
  | nil, e => ([], e)
  | line text rest, e =>
    let r := rest.sem (plainStep text e)
    (true :: r.1, r.2)
  | ifThen c body rest, e =>
    let v := value e c
    let b := if v.1 = 0 then (body.skipped, v.2) else body.sem v.2
    let r := rest.sem b.2
    (b.1 ++ r.1, r.2)
  | ifElse c body other rest, e =>
    let v := value e c
    let b := if v.1 = 0 then (body.skipped, v.2) else body.sem v.2
    let o := if v.1 = 0 then other.sem b.2 else (other.skipped, b.2)
    let r := rest.sem o.2
    (b.1 ++ o.1 ++ r.1, r.2)

end Prog

/-! ## The lines, one after the other -/

/-- A line that is neither an assignment nor a print statement: `if`, `else` and `endif`. -/
def isMarker (line : List UInt8) : Bool :=
  startsWith (skipWhitespace line) (ascii "endif") || isElse (skipWhitespace line) ||
    startsWith (skipWhitespace line) (ascii "if ")

/-- The lines in order, through `execute_statement`; for every assignment and print statement,
whether it was executed or skipped. -/
def trace (n : Nat) : List (List UInt8) → Cospy → Option (List Bool × Cospy)
  | [], s => some ([], s)
  | line :: lines, s =>
    (executeStatement n line s).bind fun r =>
      (trace n lines r.2).map fun t =>
        (if isMarker line then t.1 else (!s.inIfFalse) :: t.1, t.2)

theorem skipWhitespace_idem (line : List UInt8) :
    skipWhitespace (skipWhitespace line) = skipWhitespace line :=
  List.dropWhile_idempotent _ _

theorem execute_skipWhitespace (n : Nat) (line : List UInt8) (s : Cospy) :
    executeStatement n (skipWhitespace line) s = executeStatement n line s := by
  cases n with
  | zero => rfl
  | succ n => rw [executeStatement, executeOver, executeOver, skipWhitespace_idem]

/-- Indentation does not matter. -/
theorem trace_map (n : Nat) (lines : List (List UInt8)) (s : Cospy) :
    trace n (lines.map skipWhitespace) s = trace n lines s := by
  induction lines generalizing s with
  | nil => rfl
  | cons line lines ih =>
    rw [List.map_cons, trace, trace, execute_skipWhitespace, isMarker, skipWhitespace_idem]
    simp only [ih]
    rfl

theorem trace_append {n : Nat} {ls ls' : List (List UInt8)} {s s₁ s₂ : Cospy} {m m' : List Bool}
    (h : trace n ls s = some (m, s₁)) (h' : trace n ls' s₁ = some (m', s₂)) :
    trace n (ls ++ ls') s = some (m ++ m', s₂) := by
  induction ls generalizing s m with
  | nil =>
    cases h
    exact h'
  | cons line ls ih =>
    rw [trace] at h
    obtain ⟨r, hr, ht⟩ := Option.bind_eq_some_iff.mp h
    obtain ⟨⟨mt, st⟩, htail, heq⟩ := Option.map_eq_some_iff.mp ht
    cases heq
    rw [List.cons_append, trace, hr, Option.bind_some, ih htail, Option.map_some]
    dsimp only
    split <;> rfl

/-- A statement in front. -/
theorem trace_statement {n : Nat} {line : List UInt8} {ls : List (List UInt8)} {s s₁ s₂ : Cospy}
    {m : List Bool} {v : Int} (hm : isMarker line = false)
    (h : executeStatement n line s = some (v, s₁)) (ht : trace n ls s₁ = some (m, s₂)) :
    trace n (line :: ls) s = some ((!s.inIfFalse) :: m, s₂) := by
  rw [trace, h, Option.bind_some, ht, Option.map_some, hm]
  rfl

/-- A line of the block structure in front. -/
theorem trace_marker {n : Nat} {line : List UInt8} {ls : List (List UInt8)} {s s₁ s₂ : Cospy}
    {m : List Bool} {v : Int} (hm : isMarker line = true)
    (h : executeStatement n line s = some (v, s₁)) (ht : trace n ls s₁ = some (m, s₂)) :
    trace n (line :: ls) s = some (m, s₂) := by
  rw [trace, h, Option.bind_some, ht, Option.map_some, hm]
  rfl

/-! ## Blocks as the source executes them -/

namespace Prog

/-- A part of a block: it is skipped when the flag is set, and the flag stays set. -/
def pass (skip : List Bool) (run : Eval → List Bool × Eval × Bool) (flag : Bool) (e : Eval) :
    List Bool × Eval × Bool :=
  if flag then (skip, e, true) else run e

/-- Inside a block, where lines are not skipped; the flag says if they are in the end. A
block inside leaves its flag behind, and the lines after it are passed over or not as it
says: this is where the one flag for all depths shows. -/
def nested : Prog → Eval → List Bool × Eval × Bool
  | nil, e => ([], e, false)
  | line text rest, e =>
    let r := rest.nested (plainStep text e)
    (true :: r.1, r.2)
  | ifThen c body rest, e =>
    let v := value e c
    let b := pass body.skipped body.nested (v.1 = 0) v.2
    let r := pass rest.skipped rest.nested b.2.2 b.2.1
    (b.1 ++ r.1, r.2)
  | ifElse c body other rest, e =>
    let v := value e c
    let b := pass body.skipped body.nested (v.1 = 0) v.2
    -- the `else` is not seen
    let o := pass other.skipped other.nested b.2.2 b.2.1
    let r := pass rest.skipped rest.nested o.2.2 o.2.1
    (b.1 ++ o.1 ++ r.1, r.2)

/-- Outside all blocks: the outcome of every line, and the state behind them. After a
block the lines are carried out again, whatever the block has left in the flag. -/
def top : Prog → Eval → List Bool × Eval
  | nil, e => ([], e)
  | line text rest, e =>
    let r := rest.top (plainStep text e)
    (true :: r.1, r.2)
  | ifThen c body rest, e =>
    let v := value e c
    let b := pass body.skipped body.nested (v.1 = 0) v.2
    let r := rest.top b.2.1
    (b.1 ++ r.1, r.2)
  | ifElse c body other rest, e =>
    let v := value e c
    let b := pass body.skipped body.nested (v.1 = 0) v.2
    -- whatever set the flag, the condition or an `if` inside, the `else` clears it
    let o := pass other.skipped other.nested (!b.2.2) b.2.1
    let r := rest.top o.2.1
    (b.1 ++ o.1 ++ r.1, r.2)

/-! ### Where they agree -/

/-- The blocks execute no statement of it: there is none outside its branches, and the
branches that are taken have none. The conditions are evaluated all the same, so the
state goes on. -/
def Quiet : Prog → Eval → Prop
  | nil, _ => True
  | line _ _, _ => False
  | ifThen c body rest, e =>
    let v := value e c
    if v.1 = 0 then rest.Quiet v.2 else body.Quiet v.2 ∧ rest.Quiet (body.sem v.2).2
  | ifElse c body other rest, e =>
    let v := value e c
    if v.1 = 0 then other.Quiet v.2 ∧ rest.Quiet (other.sem v.2).2
    else body.Quiet v.2 ∧ rest.Quiet (body.sem v.2).2

/-- The flag lets no statement of it through: nothing comes before the first condition that is
false, and that one sets the flag. -/
def Mute : Prog → Eval → Prop
  | nil, _ => True
  | line _ _, _ => False
  | ifThen c body rest, e =>
    let v := value e c
    v.1 ≠ 0 → body.Mute v.2 ∧
      let b := body.nested v.2
      b.2.2 = false → rest.Mute b.2.1
  | ifElse c body other rest, e =>
    let v := value e c
    v.1 ≠ 0 → body.Mute v.2 ∧
      let b := body.nested v.2
      b.2.2 = false → other.Mute b.2.1 ∧
        let o := other.nested b.2.1
        o.2.2 = false → rest.Mute o.2.1

/-- What is asked of a part: that it fits where both execute it, and that there is nothing in it
where one does. -/
def Part (taken flag : Bool) (quiet mute fits : Prop) : Prop :=
  match taken, flag with
  | true, false => fits
  | true, true => quiet
  | false, false => mute
  | false, true => True

/-- Inside a block, from the state `e` of the blocks and `e'` of the interpreter. Behind
a condition that is false there, or a first branch in which one was, the rest is quiet;
and otherwise the `else` branch, which the interpreter executes after the first, is
mute. The two states differ where one has evaluated a condition that the other has not.
-/
def FitsIn : Prog → Eval → Eval → Prop
  | nil, _, _ => True
  | line text rest, e, e' => rest.FitsIn (plainStep text e) (plainStep text e')
  | ifThen c body rest, e, e' =>
    let v := value e c
    let v' := value e' c
    let b := if v.1 = 0 then v.2 else (body.sem v.2).2
    let b' := pass body.skipped body.nested (v'.1 = 0) v'.2
    Part (v.1 ≠ 0) (v'.1 = 0) (body.Quiet v.2) (body.Mute v'.2) (body.FitsIn v.2 v'.2) ∧
      if b'.2.2 then rest.Quiet b else rest.FitsIn b b'.2.1
  | ifElse c body other rest, e, e' =>
    let v := value e c
    let v' := value e' c
    let b := if v.1 = 0 then v.2 else (body.sem v.2).2
    let b' := pass body.skipped body.nested (v'.1 = 0) v'.2
    let o := if v.1 = 0 then (other.sem b).2 else b
    let o' := pass other.skipped other.nested b'.2.2 b'.2.1
    Part (v.1 ≠ 0) (v'.1 = 0) (body.Quiet v.2) (body.Mute v'.2) (body.FitsIn v.2 v'.2) ∧
      Part (v.1 = 0) b'.2.2 (other.Quiet b) (other.Mute b'.2.1) (other.FitsIn b b'.2.1) ∧
      if o'.2.2 then rest.Quiet o else rest.FitsIn o o'.2.1

/-- Outside all blocks: the outermost branches fit. The `else` branch is executed when the first one
is skipped, and also when the flag is set at the end of it. -/
def Fits : Prog → Eval → Eval → Prop
  | nil, _, _ => True
  | line text rest, e, e' => rest.Fits (plainStep text e) (plainStep text e')
  | ifThen c body rest, e, e' =>
    let v := value e c
    let v' := value e' c
    let b := if v.1 = 0 then v.2 else (body.sem v.2).2
    let b' := pass body.skipped body.nested (v'.1 = 0) v'.2
    Part (v.1 ≠ 0) (v'.1 = 0) (body.Quiet v.2) (body.Mute v'.2) (body.FitsIn v.2 v'.2) ∧
      rest.Fits b b'.2.1
  | ifElse c body other rest, e, e' =>
    let v := value e c
    let v' := value e' c
    let b := if v.1 = 0 then v.2 else (body.sem v.2).2
    let b' := pass body.skipped body.nested (v'.1 = 0) v'.2
    let o := if v.1 = 0 then (other.sem b).2 else b
    let o' := pass other.skipped other.nested (!b'.2.2) b'.2.1
    Part (v.1 ≠ 0) (v'.1 = 0) (body.Quiet v.2) (body.Mute v'.2) (body.FitsIn v.2 v'.2) ∧
      Part (v.1 = 0) (!b'.2.2) (other.Quiet b) (other.Mute b'.2.1) (other.FitsIn b b'.2.1) ∧
      rest.Fits o o'.2.1

instance decidablePart (taken flag : Bool) (quiet mute fits : Prop) [Decidable quiet]
    [Decidable mute] [Decidable fits] : Decidable (Part taken flag quiet mute fits) :=
  match taken, flag with
  | true, false => inferInstanceAs (Decidable fits)
  | true, true => inferInstanceAs (Decidable quiet)
  | false, false => inferInstanceAs (Decidable mute)
  | false, true => isTrue trivial

instance decidableQuiet : (p : Prog) → (e : Eval) → Decidable (p.Quiet e)
  | nil, _ => isTrue trivial
  | line _ _, _ => isFalse id
  | ifThen _ body rest, _ =>
    have := decidableQuiet body
    have := decidableQuiet rest
    inferInstanceAs (Decidable (ite _ _ _))
  | ifElse _ body other rest, _ =>
    have := decidableQuiet body
    have := decidableQuiet other
    have := decidableQuiet rest
    inferInstanceAs (Decidable (ite _ _ _))

instance decidableMute : (p : Prog) → (e : Eval) → Decidable (p.Mute e)
  | nil, _ => isTrue trivial
  | line _ _, _ => isFalse id
  | ifThen _ body rest, _ =>
    have := decidableMute body
    have := decidableMute rest
    inferInstanceAs (Decidable (_ → _ ∧ (_ → _)))
  | ifElse _ body other rest, _ =>
    have := decidableMute body
    have := decidableMute other
    have := decidableMute rest
    inferInstanceAs (Decidable (_ → _ ∧ (_ → _ ∧ (_ → _))))

instance decidableFitsIn : (p : Prog) → (e e' : Eval) → Decidable (p.FitsIn e e')
  | nil, _, _ => isTrue trivial
  | line _ rest, _, _ => decidableFitsIn rest _ _
  | ifThen _ body rest, _, _ =>
    have := decidableFitsIn body
    have := decidableFitsIn rest
    inferInstanceAs (Decidable (Part _ _ _ _ _ ∧ ite _ _ _))
  | ifElse _ body other rest, _, _ =>
    have := decidableFitsIn body
    have := decidableFitsIn other
    have := decidableFitsIn rest
    inferInstanceAs (Decidable (Part _ _ _ _ _ ∧ Part _ _ _ _ _ ∧ ite _ _ _))

instance decidableFits : (p : Prog) → (e e' : Eval) → Decidable (p.Fits e e')
  | nil, _, _ => isTrue trivial
  | line _ rest, _, _ => decidableFits rest _ _
  | ifThen _ _ rest, _, _ =>
    have := decidableFits rest
    inferInstanceAs (Decidable (Part _ _ _ _ _ ∧ _))
  | ifElse _ _ _ rest, _, _ =>
    have := decidableFits rest
    inferInstanceAs (Decidable (Part _ _ _ _ _ ∧ Part _ _ _ _ _ ∧ _))

end Prog

/-- The state with these values of what conditionals change. -/
def Cospy.withIf (s : Cospy) (e : Eval) (d : Nat) (f : Bool) : Cospy :=
  { s with ev := e, ifDepth := d, inIfFalse := f }

theorem isMarker_plain {text : List UInt8} (h : Plain text) : isMarker text = false := by
  rw [isMarker, skipWhitespace_plain h, h.noKeyword.endif, h.noKeyword.else_, h.noKeyword.if_]
  rfl

section Blocks

variable {n : Nat} {s : Cospy}

theorem trace_endif {ls : List (List UInt8)} {e : Eval} {d : Nat} {f : Bool} {m : List Bool}
    {s' : Cospy} (hs : s.definingFunction = false)
    (h : trace (n + 1) ls (s.withIf e d (if d = 0 then false else f)) = some (m, s')) :
    trace (n + 1) (ascii "endif" :: ls) (s.withIf e (d + 1) f) = some (m, s') :=
  trace_marker rfl (execute_endif rfl hs) h

theorem trace_else {ls : List (List UInt8)} {e : Eval} {d : Nat} {f : Bool} {m : List Bool}
    {s' : Cospy} (hs : s.definingFunction = false)
    (h : trace (n + 1) ls (s.withIf e d (if d = 1 then !f else f)) = some (m, s')) :
    trace (n + 1) (ascii "else:" :: ls) (s.withIf e d f) = some (m, s') := by
  refine trace_marker rfl (execute_else rfl hs) ?_
  rw [← h, elseBranch]
  unfold Cospy.withIf
  dsimp only
  split <;> rfl

/-- An `if` among lines that are skipped. -/
theorem trace_if_skip {c : List UInt8} {ls : List (List UInt8)} {e : Eval} {d : Nat}
    {m : List Bool} {s' : Cospy} (hs : s.definingFunction = false)
    (h : trace (n + 1) ls (s.withIf e (d + 1) true) = some (m, s')) :
    trace (n + 1) ((ascii "if " ++ c) :: ls) (s.withIf e d true) = some (m, s') :=
  trace_marker rfl (execute_if_skip rfl hs rfl) h

/-- An `if` that is evaluated. -/
theorem trace_if {c : List UInt8} {ls : List (List UInt8)} {e : Eval} {d : Nat}
    {m : List Bool} {s' : Cospy} (hs : s.definingFunction = false)
    (h : trace (n + 1) ls
      (s.withIf (value e c).2 (d + 1) (decide ((value e c).1 = 0))) = some (m, s')) :
    trace (n + 1) ((ascii "if " ++ c) :: ls) (s.withIf e d false) = some (m, s') :=
  trace_marker rfl (execute_if rfl hs rfl) h

theorem trace_line {text : List UInt8} {ls : List (List UInt8)} {e : Eval} {d : Nat}
    {m : List Bool} {s' : Cospy} (hp : Plain text) (hs : s.definingFunction = false)
    (h : trace (n + 1) ls (s.withIf (plainStep text e) d false) = some (m, s')) :
    trace (n + 1) (text :: ls) (s.withIf e d false) = some (true :: m, s') := by
  have hskip := skipWhitespace_plain hp
  have hex : executeStatement (n + 1) text (s.withIf e d false) =
      some (0, s.withIf (plainStep text e) d false) := by
    have h : executeStatement (n + 1) text (s.withIf e d false) =
        some (0, s.withIf (plainStep (skipWhitespace text) e) d false) :=
      execute_plain (by rw [hskip]; exact hp) hs rfl
    rwa [hskip] at h
  exact trace_statement (isMarker_plain hp) hex h

/-- Inside a block, lines that are skipped. -/
theorem trace_skipped {p : Prog} (hp : p.Wf) (hs : s.definingFunction = false) (e : Eval) {d : Nat}
    (hd : 0 < d) : trace (n + 1) p.lines (s.withIf e d true) =
      some (p.skipped, s.withIf e d true) := by
  induction p generalizing d with
  | nil => rfl
  | line text rest ih =>
    have hplain := hp.1
    refine trace_statement (isMarker_plain hplain) (execute_skip ?_ hs rfl) (ih hp.2 hd)
    rw [skipWhitespace_plain hplain]
    exact hplain.noKeyword
  | ifThen c body rest ihb ihr =>
    refine trace_if_skip hs (trace_append (ihb hp.1 d.succ_pos) (trace_endif hs ?_))
    rw [if_neg hd.ne']
    exact ihr hp.2 hd
  | ifElse c body other rest ihb iho ihr =>
    rw [Prog.skipped, List.append_assoc]
    refine trace_if_skip hs (trace_append (ihb hp.1 d.succ_pos) (trace_else hs ?_))
    rw [if_neg (by omega)]
    refine trace_append (iho hp.2.1 d.succ_pos) (trace_endif hs ?_)
    -- an inner `endif` leaves the flag set
    rw [if_neg hd.ne']
    exact ihr hp.2.2 hd

theorem trace_snoc_endif {ls : List (List UInt8)} {s₀ : Cospy} {e : Eval} {d : Nat} {f : Bool}
    {m : List Bool} (hs : s.definingFunction = false)
    (h : trace (n + 1) ls s₀ = some (m, s.withIf e (d + 1) f)) :
    trace (n + 1) (ls ++ [ascii "endif"]) s₀ =
      some (m, s.withIf e d (if d = 0 then false else f)) := by
  have hone : trace (n + 1) [ascii "endif"] (s.withIf e (d + 1) f) =
      some ([], s.withIf e d (if d = 0 then false else f)) := trace_endif hs rfl
  have hend := trace_append h hone
  rwa [List.append_nil] at hend

theorem trace_snoc_else {ls : List (List UInt8)} {s₀ : Cospy} {e : Eval} {d : Nat} {f : Bool}
    {m : List Bool} (hs : s.definingFunction = false)
    (h : trace (n + 1) ls s₀ = some (m, s.withIf e d f)) :
    trace (n + 1) (ls ++ [ascii "else:"]) s₀ =
      some (m, s.withIf e d (if d = 1 then !f else f)) := by
  have hone : trace (n + 1) [ascii "else:"] (s.withIf e d f) =
      some ([], s.withIf e d (if d = 1 then !f else f)) := trace_else hs rfl
  have helse := trace_append h hone
  rwa [List.append_nil] at helse

/-- A part of a block, which is skipped when the flag is set. -/
theorem trace_pass {p : Prog} (hp : p.Wf) (hs : s.definingFunction = false) {d : Nat} (hd : 0 < d)
    (ih : ∀ e, trace (n + 1) p.lines (s.withIf e d false) =
      some ((p.nested e).1, s.withIf (p.nested e).2.1 d (p.nested e).2.2)) (flag : Bool) (e : Eval) :
    trace (n + 1) p.lines (s.withIf e d flag) =
      some ((Prog.pass p.skipped p.nested flag e).1,
        s.withIf (Prog.pass p.skipped p.nested flag e).2.1 d
          (Prog.pass p.skipped p.nested flag e).2.2) := by
  cases flag with
  | true => exact trace_skipped hp hs e hd
  | false => exact ih e

theorem Prog.lines_ifThen (c : List UInt8) (body rest : Prog) :
    (ifThen c body rest).lines =
      (ascii "if " ++ c) :: ((body.lines ++ [ascii "endif"]) ++ rest.lines) := by
  rw [lines, List.append_cons]

theorem Prog.lines_ifElse (c : List UInt8) (body other rest : Prog) :
    (ifElse c body other rest).lines = (ascii "if " ++ c) ::
      ((((body.lines ++ [ascii "else:"]) ++ other.lines) ++ [ascii "endif"]) ++ rest.lines) := by
  rw [lines, List.append_cons, List.append_cons _ (ascii "endif"), List.append_assoc,
    List.append_assoc, List.append_assoc]
  simp only [List.append_assoc]

/-- Inside a block, as long as lines are not skipped. -/
theorem trace_nested {p : Prog} (hp : p.Wf) (hs : s.definingFunction = false) (e : Eval) {d : Nat}
    (hd : 0 < d) : trace (n + 1) p.lines (s.withIf e d false) =
      some ((p.nested e).1, s.withIf (p.nested e).2.1 d (p.nested e).2.2) := by
  induction p generalizing e d with
  | nil => rfl
  | line text rest ih => exact trace_line hp.1 hs (ih hp.2 _ hd)
  | ifThen c body rest ihb ihr =>
    rw [Prog.lines_ifThen]
    have hbody := trace_pass (n := n) hp.1 hs d.succ_pos (fun e' => ihb hp.1 e' d.succ_pos)
      (decide ((value e c).1 = 0)) (value e c).2
    have hend := trace_snoc_endif hs hbody
    rw [if_neg hd.ne'] at hend
    exact trace_if hs (trace_append hend (trace_pass hp.2 hs hd (fun e' => ihr hp.2 e' hd) _ _))
  | ifElse c body other rest ihb iho ihr =>
    rw [Prog.lines_ifElse]
    have hbody := trace_pass (n := n) hp.1 hs d.succ_pos (fun e' => ihb hp.1 e' d.succ_pos)
      (decide ((value e c).1 = 0)) (value e c).2
    have helse := trace_snoc_else hs hbody
    rw [if_neg (by omega : ¬d + 1 = 1)] at helse
    have hother := trace_append helse
      (trace_pass hp.2.1 hs d.succ_pos (fun e' => iho hp.2.1 e' d.succ_pos) _ _)
    have hend := trace_snoc_endif hs hother
    rw [if_neg hd.ne'] at hend
    exact trace_if hs (trace_append hend (trace_pass hp.2.2 hs hd (fun e' => ihr hp.2.2 e' hd) _ _))

/-- Outside all blocks. -/
theorem trace_top {p : Prog} (hp : p.Wf) (hs : s.definingFunction = false) (e : Eval) :
    trace (n + 1) p.lines (s.withIf e 0 false) =
      some ((p.top e).1, s.withIf (p.top e).2 0 false) := by
  induction p generalizing e with
  | nil => rfl
  | line text rest ih => exact trace_line hp.1 hs (ih hp.2 _)
  | ifThen c body rest ihb ihr =>
    rw [Prog.lines_ifThen]
    have hbody := trace_pass (n := n) hp.1 hs Nat.one_pos
      (fun e' => trace_nested hp.1 hs e' Nat.one_pos) (decide ((value e c).1 = 0)) (value e c).2
    have hend := trace_snoc_endif hs hbody
    rw [if_pos rfl] at hend
    exact trace_if hs (trace_append hend (ihr hp.2 _))
  | ifElse c body other rest ihb iho ihr =>
    rw [Prog.lines_ifElse]
    have hbody := trace_pass (n := n) hp.1 hs Nat.one_pos
      (fun e' => trace_nested hp.1 hs e' Nat.one_pos) (decide ((value e c).1 = 0)) (value e c).2
    have helse := trace_snoc_else hs hbody
    rw [if_pos rfl] at helse
    have hother := trace_append helse (trace_pass hp.2.1 hs Nat.one_pos
      (fun e' => trace_nested hp.2.1 hs e' Nat.one_pos) _ _)
    have hend := trace_snoc_endif hs hother
    rw [if_pos rfl] at hend
    exact trace_if hs (trace_append hend (ihr hp.2.2 _))

end Blocks

/-! ## When the two agree -/

namespace Prog

theorem length_sem (p : Prog) (e : Eval) : (p.sem e).1.length = p.skipped.length := by
  induction p generalizing e with
  | nil => rfl
  | line text rest ih => exact congrArg (· + 1) (ih _)
  | ifThen c body rest ihb ihr =>
    simp only [sem, skipped, List.length_append, ihr]
    split
    · rfl
    · rw [ihb]
  | ifElse c body other rest ihb iho ihr =>
    simp only [sem, skipped, List.length_append, ihr]
    split
    · rw [iho]
    · rw [ihb]

theorem length_pass {p : Prog} (ih : ∀ e, (p.nested e).1.length = p.skipped.length) (flag : Bool)
    (e : Eval) : (pass p.skipped p.nested flag e).1.length = p.skipped.length := by
  cases flag with
  | true => rfl
  | false => exact ih e

theorem length_nested (p : Prog) (e : Eval) : (p.nested e).1.length = p.skipped.length := by
  induction p generalizing e with
  | nil => rfl
  | line text rest ih => exact congrArg (· + 1) (ih _)
  | ifThen c body rest ihb ihr =>
    simp only [nested, skipped, List.length_append, length_pass ihb, length_pass ihr]
  | ifElse c body other rest ihb iho ihr =>
    simp only [nested, skipped, List.length_append, length_pass ihb, length_pass iho,
      length_pass ihr]

/-! ### The parts of a program -/

section Parts

variable (c : List UInt8) (body other rest : Prog) (e : Eval)

/-- What the blocks execute of an `if`. -/
theorem sem_ifThen :
    ((ifThen c body rest).sem e).1 =
      (if decide ((value e c).1 ≠ 0) then (body.sem (value e c).2).1 else body.skipped) ++
        (rest.sem (if (value e c).1 = 0 then (value e c).2 else (body.sem (value e c).2).2)).1 := by
  rw [sem]
  by_cases hv : (value e c).1 = 0
  · simp only [decide_eq_false (not_not.mpr hv), if_pos hv, Bool.false_eq_true, if_false]
  · simp only [decide_eq_true (show (value e c).1 ≠ 0 from hv), if_neg hv, if_true]

theorem sem_ifElse :
    ((ifElse c body other rest).sem e).1 =
      (if decide ((value e c).1 ≠ 0) then (body.sem (value e c).2).1 else body.skipped) ++
        (if decide ((value e c).1 = 0) then (other.sem (if (value e c).1 = 0 then (value e c).2
          else (body.sem (value e c).2).2)).1 else other.skipped) ++
        (rest.sem (if (value e c).1 = 0 then (other.sem (if (value e c).1 = 0 then (value e c).2
          else (body.sem (value e c).2).2)).2 else if (value e c).1 = 0 then (value e c).2
          else (body.sem (value e c).2).2)).1 := by
  rw [sem]
  by_cases hv : (value e c).1 = 0
  · simp only [decide_eq_false (not_not.mpr hv), decide_eq_true hv, if_pos hv, Bool.false_eq_true,
      if_false, if_true]
  · simp only [decide_eq_true (show (value e c).1 ≠ 0 from hv), decide_eq_false hv, if_neg hv,
      Bool.false_eq_true, if_false, if_true]

end Parts

/-- A part in front of another: the two lists agree on both. -/
theorem mask_append_iff {x y x' y' : List Bool} {p : Prog} (hx : x.length = p.skipped.length)
    (hy : y.length = p.skipped.length) : x ++ x' = y ++ y' ↔ x = y ∧ x' = y' :=
  List.append_eq_append_iff_of_size_eq_left (hx.trans hy.symm)

theorem length_taken (p : Prog) (taken : Bool) (e : Eval) :
    (if taken then (p.sem e).1 else p.skipped).length = p.skipped.length := by
  split
  · exact length_sem p e
  · rfl

/-! ### Parts without statements -/

/-- The blocks execute nothing of a part exactly when it is quiet. -/
theorem quiet_iff (p : Prog) (e : Eval) : (p.sem e).1 = p.skipped ↔ p.Quiet e := by
  induction p generalizing e with
  | nil => exact iff_of_true rfl trivial
  | line text rest ih => exact iff_of_false (fun h => by cases (List.cons.inj h).1) id
  | ifThen c body rest ihb ihr =>
    rw [sem_ifThen, skipped, mask_append_iff (length_taken _ _ _) rfl, ihr, Quiet]
    by_cases hv : (value e c).1 = 0
    · simp [hv]
    · have hne : ¬(value e c).1 = 0#32 := hv
      simp [hne, ihb]
  | ifElse c body other rest ihb iho ihr =>
    rw [sem_ifElse, skipped, List.append_assoc, List.append_assoc,
      mask_append_iff (length_taken _ _ _) rfl, mask_append_iff (length_taken _ _ _) rfl, ihr, Quiet]
    by_cases hv : (value e c).1 = 0
    · simp [hv, iho]
    · have hne : ¬(value e c).1 = 0#32 := hv
      simp [hne, ihb]

/-- A part that is skipped anyway need not be mute. -/
theorem pass_mute_iff {p : Prog} (h : ∀ e, (p.nested e).1 = p.skipped ↔ p.Mute e) (flag : Bool)
    (e : Eval) : (pass p.skipped p.nested flag e).1 = p.skipped ↔ (flag = false → p.Mute e) := by
  cases flag with
  | true => exact iff_of_true rfl fun hf => by cases hf
  | false => exact (h e).trans ⟨fun hm _ => hm, fun hm => hm rfl⟩

/-- The flag lets nothing of a part through exactly when it is mute. -/
theorem mute_iff (p : Prog) (e : Eval) : (p.nested e).1 = p.skipped ↔ p.Mute e := by
  -- A line is executed or passed over, so a program is mute when none of its lines is
  -- executed.
  induction p generalizing e with
  | nil => exact iff_of_true rfl trivial
  | line text rest ih => exact iff_of_false (fun h => by cases (List.cons.inj h).1) id
  | ifThen c body rest ihb ihr =>
    rw [nested, skipped, Mute]
    dsimp only
    rw [mask_append_iff (length_pass (length_nested body) _ _) rfl, pass_mute_iff ihb,
      pass_mute_iff ihr]
    by_cases hv : (value e c).1 = 0
    · simp [hv, pass]
    · have hne : ¬(value e c).1 = 0#32 := hv
      simp [hne, pass]
  | ifElse c body other rest ihb iho ihr =>
    rw [nested, skipped, Mute]
    dsimp only
    rw [List.append_assoc, List.append_assoc,
      mask_append_iff (length_pass (length_nested body) _ _) rfl,
      mask_append_iff (length_pass (length_nested other) _ _) rfl, pass_mute_iff ihb,
      pass_mute_iff iho, pass_mute_iff ihr]
    by_cases hv : (value e c).1 = 0
    · simp [hv, pass]
    · have hne : ¬(value e c).1 = 0#32 := hv
      cases hb : (body.nested (value e c).2).2.2 with
      | true => simp [hne, pass, hb]
      | false => simp [hne, pass, hb]

/-! ### Parts with statements -/

/-- What is asked of a part is what it takes for the two to agree on it. -/
theorem part_iff {p : Prog} (h : ∀ e e', (p.nested e').1 = (p.sem e).1 ↔ p.FitsIn e e')
    (taken flag : Bool) (e e' : Eval) :
    (pass p.skipped p.nested flag e').1 = (if taken then (p.sem e).1 else p.skipped) ↔
      Part taken flag (p.Quiet e) (p.Mute e') (p.FitsIn e e') := by
  cases taken with
  | true =>
    cases flag with
    | true => exact eq_comm.trans (quiet_iff p e)
    | false => exact h e e'
  | false =>
    cases flag with
    | true => exact iff_of_true rfl trivial
    | false => exact mute_iff p e'

/-- What follows a block is executed by the blocks in any case. -/
theorem rest_iff {p : Prog} (h : ∀ e e', (p.nested e').1 = (p.sem e).1 ↔ p.FitsIn e e')
    (flag : Bool) (e e' : Eval) :
    (pass p.skipped p.nested flag e').1 = (p.sem e).1 ↔
      if flag then p.Quiet e else p.FitsIn e e' := by
  cases flag with
  | true => exact eq_comm.trans (quiet_iff p e)
  | false => exact h e e'

/-- **Inside a block**, part by part. -/
theorem nested_iff (p : Prog) (e e' : Eval) : (p.nested e').1 = (p.sem e).1 ↔ p.FitsIn e e' := by
  induction p generalizing e e' with
  | nil => exact iff_of_true rfl trivial
  | line text rest ih =>
    rw [FitsIn, ← ih]
    exact ⟨fun h => (List.cons.inj h).2, fun h => congrArg (true :: ·) h⟩
  | ifThen c body rest ihb ihr =>
    rw [sem_ifThen, nested, FitsIn]
    dsimp only
    rw [mask_append_iff (length_pass (length_nested body) _ _) (length_taken _ _ _), part_iff ihb,
      rest_iff ihr]
  | ifElse c body other rest ihb iho ihr =>
    rw [sem_ifElse, nested, FitsIn]
    dsimp only
    rw [List.append_assoc, List.append_assoc,
      mask_append_iff (length_pass (length_nested body) _ _) (length_taken _ _ _),
      mask_append_iff (length_pass (length_nested other) _ _) (length_taken _ _ _), part_iff ihb,
      part_iff iho, rest_iff ihr]

/-- **Outside all blocks**, part by part. By induction on the program, from the same
statement about what is inside a block. -/
theorem top_iff (p : Prog) (e e' : Eval) : (p.top e').1 = (p.sem e).1 ↔ p.Fits e e' := by
  induction p generalizing e e' with
  | nil => exact iff_of_true rfl trivial
  | line text rest ih =>
    rw [Fits, ← ih]
    exact ⟨fun h => (List.cons.inj h).2, fun h => congrArg (true :: ·) h⟩
  | ifThen c body rest ihb ihr =>
    rw [sem_ifThen, top, Fits]
    dsimp only
    rw [mask_append_iff (length_pass (length_nested body) _ _) (length_taken _ _ _),
      part_iff (nested_iff body), ihr]
  | ifElse c body other rest ihb iho ihr =>
    rw [sem_ifElse, top, Fits]
    dsimp only
    rw [List.append_assoc, List.append_assoc,
      mask_append_iff (length_pass (length_nested body) _ _) (length_taken _ _ _),
      mask_append_iff (length_pass (length_nested other) _ _) (length_taken _ _ _),
      part_iff (nested_iff body), part_iff (nested_iff other), ihr]

end Prog

/-- On these lines, `execute_statement` executes the assignments and print statements that the
blocks of the program say, and no others, and is in no block in the end. -/
def Obeys (n : Nat) (p : Prog) (ls : List (List UInt8)) (s : Cospy) : Prop :=
  ∃ s', trace n ls (cospyInit s) = some ((p.sem (cospyInit s).ev).1, s') ∧
    s'.ifDepth = 0 ∧ s'.inIfFalse = false

/-- **Conditionals.** However its lines are indented, a program is executed as its blocks say if and
only if it fits. -/
theorem obeys_iff {p : Prog} (hp : p.Wf) {ls : List (List UInt8)}
    (hls : ls.map skipWhitespace = p.lines) (n : Nat) (s : Cospy) :
    Obeys (n + 1) p ls s ↔ p.Fits (cospyInit s).ev (cospyInit s).ev := by
  have htrace : trace (n + 1) ls (cospyInit s) =
      some ((p.top (cospyInit s).ev).1, (cospyInit s).withIf (p.top (cospyInit s).ev).2 0 false) := by
    rw [← trace_map, hls]
    exact trace_top (s := cospyInit s) hp rfl (cospyInit s).ev
  rw [← Prog.top_iff]
  constructor
  · rintro ⟨s', h, _⟩
    rw [htrace] at h
    exact (Prod.mk.inj (Option.some.inj h)).1
  · intro h
    exact ⟨_, by rw [htrace, h], rfl, rfl⟩

/-- Two conditions that are false, one behind the other, inside an `if` that is taken: the second is
never evaluated, and nothing is lost. -/
def innerFalses : Prog :=
  .ifThen (ascii "1:")
    (.ifThen (ascii "0:") (.line (ascii "x = 1") .nil)
      (.ifThen (ascii "0:") (.line (ascii "x = 2") .nil) .nil))
    (.line (ascii "print(x)") .nil)

/-- It is executed as it should be, and that is: nothing but the last line. -/
theorem obeys_iff_demo :
    let s := Cospy.start fun _ => []
    Obeys 1 innerFalses
        [ascii "if 1:", ascii " if 0:", ascii "  x = 1", ascii " endif", ascii " if 0:",
          ascii "  x = 2", ascii " endif", ascii "endif", ascii "print(x)"] s ∧
      (innerFalses.sem (cospyInit s).ev).1 = [false, false, true] := by
  intro s
  have hwf : innerFalses.Wf :=
    ⟨⟨⟨plain_x (ascii " 1") (by decide), trivial⟩,
      ⟨plain_x (ascii " 2") (by decide), trivial⟩, trivial⟩,
      .print (ascii "x)"), trivial⟩
  have hfits : innerFalses.Fits (cospyInit s).ev (cospyInit s).ev := by decide +kernel
  exact ⟨(obeys_iff hwf rfl 0 s).mpr hfits, by decide +kernel⟩

/-- An outer `if` that is taken, around an `if` that is not, with an assignment behind it. -/
def innerFalse : Prog :=
  .ifThen (ascii "1:") (.ifThen (ascii "0:") .nil (.line (ascii "x = 1") .nil)) .nil

/-- Behind the inner `endif`, the assignment is skipped. -/
theorem not_obeys_innerFalse :
    ¬∀ (p : Prog) (ls : List (List UInt8)) (n : Nat) (s : Cospy), p.Wf →
      ls.map skipWhitespace = p.lines → Obeys (n + 1) p ls s := by
  intro h
  obtain ⟨s', ht, _⟩ := h innerFalse innerFalse.lines 0 (.start fun _ => [])
    ⟨⟨trivial, plain_x (ascii " 1") (by decide), trivial⟩, trivial⟩ rfl
  have hcode : (trace 1 innerFalse.lines (cospyInit (.start fun _ => []))).map Prod.fst =
      some [false] := by decide +kernel
  have hsem : (innerFalse.sem (cospyInit (.start fun _ => [])).ev).1 = [true] := by
    decide +kernel
  rw [ht, hsem] at hcode
  have heq : [true] = [false] := Option.some.inj hcode
  exact absurd heq (by decide)

end OsU
