import OsU.Proof.Mirror

/-!
# A call and the lines of the function

`run_function` gives the lines of the function to `execute_statement`, one after the
other. That is what `cospy_run_file` does with lines of the script too, as long as no
`while` is executed: the driver collects a loop and executes it at its `endwhile`, and
`run_function` does neither, so a `while` in a function only counts `while_depth` up.
Names are the other limit: they are stored with 15 characters at most and looked up from
the first definition on.

The two sides are compared in the state that a script has come to behind the definition,
which may be any such state: what the script did before, and what other functions it
has, is left open (`Defined`). The body calls nothing and defines nothing. Its lines
then do the same wherever they are executed (`bodyStep`), and neither side needs fuel
for them.

The proof of the equivalence goes through `while_depth`: without a loop both sides keep
it, and with one the call leaves it higher than it was, while the lines in their place,
with their loops closed, leave it at zero.
-/

set_option autoImplicit false

namespace OsU

open CString

/-! ## Lines without a call

A line that calls nothing does what it does in one step, whatever functions there are.
So it can be executed with an interpreter that has none, and its effect is a function of
the state. -/

/-- A line that calls no function: the block lines, `print`, and what does not begin with a name and
a parenthesis. -/
def CallFree (line : List UInt8) : Prop :=
  let t := skipWhitespace line
  startsWith t (ascii "if ") = true ∨ startsWith t (ascii "while ") = true ∨
    (startsWith t (ascii "print") = true ∧ charAt t 5 = 0x28) ∨
    ¬((textLexer t).currentToken = .ident ∧ (nextToken (textLexer t)).currentToken = .lparen)

instance (line : List UInt8) : Decidable (CallFree line) := inferInstanceAs (Decidable (_ ∨ _))

/-- A line of a function body: no call, and neither the start nor the end of a
definition. Keywords of blocks and loops may be there. -/
structure BodyLine (line : List UInt8) : Prop where
  callFree : CallFree line
  no_def : startsWith (skipWhitespace line) (ascii "def ") = false
  no_enddef : startsWith (skipWhitespace line) (ascii "enddef") = false
  no_zero : (0 : UInt8) ∉ line

instance (line : List UInt8) : Decidable (BodyLine line) :=
  decidable_of_iff (CallFree line ∧ startsWith (skipWhitespace line) (ascii "def ") = false ∧
      startsWith (skipWhitespace line) (ascii "enddef") = false ∧ (0 : UInt8) ∉ line)
    ⟨fun ⟨h₁, h₂, h₃, h₄⟩ => ⟨h₁, h₂, h₃, h₄⟩, fun h => ⟨h.1, h.2, h.3, h.4⟩⟩

/-- The line is executed as the head of a loop. -/
def Enters (line : List UInt8) (s : Cospy) : Prop :=
  startsWith (skipWhitespace line) (ascii "while ") = true ∧ s.inIfFalse = false

/-- No functions to call. -/
def noCalls : List UInt8 → Cospy → Option (Int × Cospy) := fun _ _ => none

/-- What a line does to the state. A line of a body calls nothing, so what calls would
do is immaterial, and `noCalls` stands for it. -/
def bodyStep (line : List UInt8) (s : Cospy) : Cospy :=
  ((executeOver noCalls line s).map Prod.snd).getD s

def bodySteps (ls : List (List UInt8)) (s : Cospy) : Cospy :=
  ls.foldl (fun s line => bodyStep line s) s

/-- No line is executed as the head of a loop. -/
def NoLoop : List (List UInt8) → Cospy → Prop
  | [], _ => True
  | line :: ls, s => ¬Enters line s ∧ NoLoop ls (bodyStep line s)

section CallFree

variable (exec exec' : List UInt8 → Cospy → Option (Int × Cospy)) {line : List UInt8} (s : Cospy)

theorem callOrAssign_free {t : List UInt8}
    (h : ¬((textLexer t).currentToken = .ident ∧
      (nextToken (textLexer t)).currentToken = .lparen)) :
    callOrAssign exec t s = callOrAssign exec' t s ∧
      ∃ e, callOrAssign exec t s = some { s with ev := e } := by
  have hl : SameLexer (textLexer t) (s.ev.scan t).lex := nextToken_congr rfl
  have hnext := nextToken_congr hl.cursor
  unfold callOrAssign
  dsimp only
  by_cases hid : (s.ev.scan t).tok = .ident
  · have hparen : (s.ev.scan t).next.tok ≠ .lparen := by
      intro hparen
      exact h ⟨hl.currentToken.symm.trans hid, hnext.currentToken.symm.trans hparen⟩
    rw [if_pos hid, if_pos hid, if_neg hparen, if_neg hparen]
    refine ⟨rfl, ?_⟩
    split
    · obtain ⟨e, he⟩ := assign_total (s.ev.scan t).lex.tokenIdent (s.ev.scan t).next
      exact ⟨_, by rw [he]; rfl⟩
    · exact ⟨_, rfl⟩
  · rw [if_neg hid, if_neg hid]
    exact ⟨rfl, _, rfl⟩

/-- A line is executed whatever can be called, and returns, or it comes to the
tokenizer. The tests before that do not depend on the functions there are. -/
theorem executeOver_split (line : List UInt8) (s : Cospy) :
    (∃ r, ∀ exec, executeOver exec line s = some r) ∨
      (¬startsWith (skipWhitespace line) (ascii "if ") = true ∧
        ¬startsWith (skipWhitespace line) (ascii "while ") = true ∧
        ¬(startsWith (skipWhitespace line) (ascii "print") = true ∧
          charAt (skipWhitespace line) 5 = 0x28)) ∧
        ∀ exec, executeOver exec line s =
          (callOrAssign exec (skipWhitespace line) s).map fun s => (0, s) := by
  unfold executeOver
  dsimp only
  generalize skipWhitespace line = t
  -- a branch that calls nothing, before the others
  have first : ∀ {P c : Prop} [Decidable c] {a : Option (Int × Cospy)}
      {b x : (List UInt8 → Cospy → Option (Int × Cospy)) → Option (Int × Cospy)},
      (c → ∃ r, a = some r) →
      (¬c → (∃ r, ∀ exec, b exec = some r) ∨ P ∧ ∀ exec, b exec = x exec) →
      (∃ r, ∀ exec, (if c then a else b exec) = some r) ∨
        P ∧ ∀ exec, (if c then a else b exec) = x exec := by
    intro P c _ a b x ha hb
    by_cases hc : c
    · obtain ⟨r, hr⟩ := ha hc
      exact Or.inl ⟨r, fun _ => (if_pos hc).trans hr⟩
    · simp only [if_neg hc]
      exact hb hc
  refine first (fun _ => ⟨_, rfl⟩) fun _ => ?_
  refine first (fun _ => ⟨_, rfl⟩) fun _ => ?_
  refine first (fun _ => ⟨_, rfl⟩) fun _ => ?_
  refine first (fun _ => ⟨_, rfl⟩) fun _ => ?_
  refine first (fun _ => ⟨_, rfl⟩) fun _ => ?_
  refine first (fun _ => ?_) fun hif => ?_
  · obtain ⟨e, b, d, he⟩ := beginIf_flow (t.drop 3) s
    exact ⟨_, by rw [he]; rfl⟩
  refine first (fun _ => ⟨_, rfl⟩) fun _ => ?_
  refine first (fun _ => ⟨_, rfl⟩) fun _ => ?_
  refine first (fun _ => ⟨_, rfl⟩) fun hwhile => ?_
  refine first (fun _ => ⟨_, rfl⟩) fun _ => ?_
  refine first (fun _ => ?_) fun hprint => Or.inr ⟨⟨hif, hwhile, hprint⟩, fun _ => rfl⟩
  obtain ⟨e, he⟩ := printStatement_total (t.drop 6) s.ev
  exact ⟨_, by rw [he]; rfl⟩

/-- A line without a call is executed whatever can be called, and it returns. -/
theorem executeOver_free (h : CallFree line) :
    executeOver exec line s = executeOver exec' line s ∧ ∃ r, executeOver exec line s = some r := by
  obtain ⟨r, hr⟩ | ⟨⟨hif, hwhile, hprint⟩, hcall⟩ := executeOver_split line s
  · rw [hr, hr]
    exact ⟨rfl, r, rfl⟩
  · have hfree := ((h.resolve_left hif).resolve_left hwhile).resolve_left hprint
    obtain ⟨heq, e, he⟩ := callOrAssign_free exec exec' s hfree
    rw [hcall, hcall, ← heq, he]
    exact ⟨rfl, _, rfl⟩

theorem execute_body (h : CallFree line) (n : Nat) :
    ∃ v, executeStatement (n + 1) line s = some (v, bodyStep line s) := by
  obtain ⟨heq, r, hr⟩ := executeOver_free (executeStatement n) noCalls s h
  refine ⟨r.1, ?_⟩
  rw [executeStatement, bodyStep, ← heq, hr]
  rfl

end CallFree

/-- What a line of a body changes of functions and loops: it counts, if it is the head of a loop. -/
structure BodyMove (line : List UInt8) (s t : Cospy) : Prop where
  funcs : t.funcs = s.funcs
  no_def : t.definingFunction = s.definingFunction
  enters : Enters line s → t.whileDepth = s.whileDepth + 1
  stays : ¬Enters line s → t.whileDepth = s.whileDepth

section Body

variable {line : List UInt8} {s : Cospy}

theorem bodyStep_while {c : List UInt8} (hline : skipWhitespace line = ascii "while " ++ c)
    (hd : s.definingFunction = false) (h : CallFree line) : BodyMove line s (bodyStep line s) := by
  obtain ⟨v, hv⟩ := execute_body s h 0
  have hstart : startsWith (skipWhitespace line) (ascii "while ") = true := by
    rw [hline]
    exact (isPrefixOf_iff _ _).mpr (List.prefix_append _ _)
  cases hf : s.inIfFalse with
  | false =>
    rw [execute_while hline hd hf] at hv
    obtain ⟨-, hstep⟩ := Prod.mk.inj (Option.some.inj hv)
    rw [← hstep]
    exact ⟨rfl, rfl, fun _ => rfl, fun hno => absurd ⟨hstart, hf⟩ hno⟩
  | true =>
    -- In a branch that is not taken the line is passed over.
    have hskip : executeStatement 1 line s = some (0, s) := by
      have hmore : ¬(peek (ascii "while " ++ c) = 0 ∨ peek (ascii "while " ++ c) = 0x23) := by
        rintro (h | h)
        · exact absurd h (by decide : (0x77 : UInt8) ≠ 0)
        · exact absurd h (by decide : (0x77 : UInt8) ≠ 0x23)
      have hif : startsWith (ascii "while " ++ c) (ascii "if ") = false := rfl
      rw [executeStatement, executeOver, hline, if_neg hmore, hd, if_neg Bool.false_ne_true,
        if_neg (by rintro (h | h) <;> exact Bool.false_ne_true h),
        if_neg (by exact Bool.false_ne_true), if_neg (by exact Bool.false_ne_true), hif,
        if_neg Bool.false_ne_true, hf, if_pos rfl]
    rw [hskip] at hv
    obtain ⟨-, hstep⟩ := Prod.mk.inj (Option.some.inj hv)
    rw [← hstep]
    refine ⟨rfl, rfl, fun hin => ?_, fun _ => rfl⟩
    rw [hin.2] at hf
    exact absurd hf Bool.false_ne_true

/-- All that other lines can change is the evaluator and the conditionals. -/
theorem bodyStep_other (hb : BodyLine line)
    (hwhile : startsWith (skipWhitespace line) (ascii "while ") = false)
    (hd : s.definingFunction = false) : BodyMove line s (bodyStep line s) := by
  have hno : ¬Enters line s := fun h => by rw [h.1] at hwhile; exact Bool.noConfusion hwhile
  have hmove : ∀ e b d, BodyMove line s { s with ev := e, inIfFalse := b, ifDepth := d } :=
    fun _ _ _ => ⟨rfl, rfl, fun h => absurd h hno, fun _ => rfl⟩
  obtain ⟨v, hv⟩ := execute_body s hb.callFree 0
  have hfree : executeStatement 1 line s = executeOver noCalls line s :=
    (executeOver_free (executeStatement 0) noCalls s hb.callFree).1
  rw [hfree] at hv
  have hall : Keeps.Leads (BodyMove line s) (executeOver noCalls line s) := by
    refine executeOver_cases s (.some (hmove s.ev s.inIfFalse s.ifDepth)) ?_
      (fun _ => .some (hmove s.ev s.inIfFalse s.ifDepth))
      (fun e b d => .some (hmove e b d)) ?_ ?_ ?_
    · rw [hd]
      exact nofun
    · rw [hwhile]
      exact nofun
    · rw [hb.no_def]
      exact fun _ => nofun
    · intro hif hno hprint r hr
      obtain ⟨u, hu, rfl⟩ := Option.map_eq_some_iff.mp hr
      have hfree := ((hb.callFree.resolve_left hif).resolve_left hno).resolve_left hprint
      obtain ⟨-, e, he⟩ := callOrAssign_free noCalls noCalls s hfree
      cases he.symm.trans hu
      exact hmove e s.inIfFalse s.ifDepth
  exact hall _ hv

theorem bodyStep_move (hb : BodyLine line) (hd : s.definingFunction = false) :
    BodyMove line s (bodyStep line s) := by
  cases hwhile : startsWith (skipWhitespace line) (ascii "while ") with
  | false => exact bodyStep_other hb hwhile hd
  | true =>
    obtain ⟨c, hc⟩ := (isPrefixOf_iff _ _).mp hwhile
    exact bodyStep_while hc.symm hd hb.callFree

/-- Two interpreters that differ in nothing that matters. -/
theorem bodyStep_twin (h : CallFree line) {s' : Cospy} (hs : Twin Same s s') :
    Twin Same (bodyStep line s) (bodyStep line s') := by
  obtain ⟨he, hrest⟩ := hs
  generalize s'.ev = e' at he hrest
  subst hrest
  -- A call that may not nest: its first line answers nothing on both sides, and a body
  -- without lines returns.
  have hcall : ∀ name e e', Same e e' → Option.Rel (Twin Same)
      (runFunction noCalls name { s with ev := e })
      (runFunction noCalls name { s with ev := e' }) := by
    intro name e e' he
    have hlines : ∀ i js, Option.Rel (Twin Same) (runLines noCalls i js { s with ev := e })
        (runLines noCalls i js { s with ev := e' }) := by
      intro i js
      cases js with
      | nil => exact .some ⟨he, rfl⟩
      | cons j js =>
        rw [runLines, runLines]
        dsimp only
        split
        · exact .some ⟨he, rfl⟩
        · exact .none
    unfold runFunction
    dsimp only
    split
    · exact hlines _ _
    · exact .some ⟨he.display _, rfl⟩
  have hrel : Option.Rel (TwinResult Same) (executeOver noCalls line s)
      (executeOver noCalls line { s with ev := e' }) := Same.mirrors.executeOver he trivial hcall
  unfold bodyStep
  obtain ⟨-, r, hr⟩ := executeOver_free noCalls noCalls s h
  obtain ⟨-, r', hr'⟩ := executeOver_free noCalls noCalls { s with ev := e' } h
  rw [hr, hr'] at hrel ⊢
  cases hrel with
  | some hx => exact hx.2

end Body

/-! ## The lines of a body -/

section Lines

variable {ls : List (List UInt8)} {s : Cospy}

theorem bodySteps_cons (line : List UInt8) (ls : List (List UInt8)) (s : Cospy) :
    bodySteps (line :: ls) s = bodySteps ls (bodyStep line s) := rfl

/-- The depth does not go down, and it goes up if a loop is entered. -/
theorem bodySteps_depth (h : ∀ line ∈ ls, BodyLine line) (hd : s.definingFunction = false) :
    s.whileDepth ≤ (bodySteps ls s).whileDepth ∧
      (¬NoLoop ls s → s.whileDepth < (bodySteps ls s).whileDepth) := by
  induction ls generalizing s with
  | nil => exact ⟨le_refl _, fun h => absurd trivial h⟩
  | cons line ls ih =>
    have hmove := bodyStep_move (h line List.mem_cons_self) hd
    obtain ⟨hle, hlt⟩ := ih (fun l hl => h l (List.mem_cons_of_mem line hl)) (hmove.no_def.trans hd)
    rw [bodySteps_cons]
    by_cases hin : Enters line s
    · rw [hmove.enters hin] at hle
      exact ⟨(Nat.le_succ _).trans hle, fun _ => hle⟩
    · rw [hmove.stays hin] at hle hlt
      exact ⟨hle, fun hno => hlt fun hrest => hno ⟨hin, hrest⟩⟩

theorem bodySteps_noLoop (h : ∀ line ∈ ls, BodyLine line) (hd : s.definingFunction = false)
    (hno : NoLoop ls s) : (bodySteps ls s).whileDepth = s.whileDepth := by
  induction ls generalizing s with
  | nil => rfl
  | cons line ls ih =>
    have hmove := bodyStep_move (h line List.mem_cons_self) hd
    rw [bodySteps_cons, ih (fun l hl => h l (List.mem_cons_of_mem line hl)) (hmove.no_def.trans hd)
      hno.2]
    exact hmove.stays hno.1

/-- **Lines of a script.** Where no loop is entered, the driver executes the lines one by one. -/
theorem fileLines_free (n : Nat) (h : ∀ line ∈ ls, BodyLine line) (hd : s.definingFunction = false)
    (hw : s.whileDepth = 0) (hno : NoLoop ls s) (b : List (List UInt8)) :
    fileLines (n + 1) ls ⟨s, b⟩ = some ⟨bodySteps ls s, b⟩ := by
  induction ls generalizing s with
  | nil => rfl
  | cons line ls ih =>
    obtain ⟨v, hv⟩ := execute_body s (h line List.mem_cons_self).callFree n
    have hmove := bodyStep_move (h line List.mem_cons_self) hd
    have hline : fileLine (n + 1) line ⟨s, b⟩ = some ⟨bodyStep line s, b⟩ := by
      rw [fileLine, if_neg (by rw [hw]; exact lt_irrefl 0), execute_skipWhitespace, hv]
      rfl
    rw [fileLines, hline, Option.bind_some]
    exact ih (fun l hl => h l (List.mem_cons_of_mem line hl)) (hmove.no_def.trans hd)
      ((hmove.stays hno.1).trans hw) hno.2

theorem bodySteps_twin (h : ∀ line ∈ ls, BodyLine line) {s' : Cospy} (hs : Twin Same s s') :
    Twin Same (bodySteps ls s) (bodySteps ls s') := by
  induction ls generalizing s s' with
  | nil => exact hs
  | cons line ls ih =>
    exact ih (fun l hl => h l (List.mem_cons_of_mem line hl))
      (bodyStep_twin (h line List.mem_cons_self).callFree hs)

theorem noLoop_twin (h : ∀ line ∈ ls, BodyLine line) {s' : Cospy} (hs : Twin Same s s') :
    NoLoop ls s' ↔ NoLoop ls s := by
  induction ls generalizing s s' with
  | nil => exact Iff.rfl
  | cons line ls ih =>
    have hin : Enters line s' ↔ Enters line s := by
      rw [hs.rest]
      exact Iff.rfl
    exact and_congr (not_congr hin) (ih (fun l hl => h l (List.mem_cons_of_mem line hl))
      (bodyStep_twin (h line List.mem_cons_self).callFree hs))

end Lines

/-! ## The lines as they are stored -/

/-- A line that is neither empty nor a comment. -/
def isText (line : List UInt8) : Bool :=
  !(peek (skipWhitespace line) = 0 || peek (skipWhitespace line) = 0x23)

/-- The lines of a body as the function has them: without indentation, empty lines and comments. -/
def stored (ls : List (List UInt8)) : List (List UInt8) :=
  (ls.filter isText).map skipWhitespace

theorem bodyStep_blank {line : List UInt8} (h : isText line = false) (s : Cospy) :
    bodyStep line s = s := by
  have hmore : peek (skipWhitespace line) = 0 ∨ peek (skipWhitespace line) = 0x23 :=
    Decidable.or_iff_not_imp_left.mpr (by simpa [isText] using h)
  rw [bodyStep, executeOver, if_pos hmore]
  rfl

theorem bodyStep_skipWhitespace (line : List UInt8) (s : Cospy) :
    bodyStep (skipWhitespace line) s = bodyStep line s := by
  rw [bodyStep, bodyStep, executeOver, executeOver, skipWhitespace_idem]

theorem bodySteps_stored (ls : List (List UInt8)) (s : Cospy) :
    bodySteps (stored ls) s = bodySteps ls s := by
  induction ls generalizing s with
  | nil => rfl
  | cons line ls ih =>
    rw [bodySteps_cons, ← ih]
    cases ht : isText line with
    | true =>
      rw [stored, List.filter_cons_of_pos ht, List.map_cons, bodySteps_cons,
        bodyStep_skipWhitespace]
      rfl
    | false =>
      rw [stored, List.filter_cons_of_neg (by rw [ht]; exact Bool.false_ne_true), bodyStep_blank ht]
      rfl

theorem noLoop_stored (ls : List (List UInt8)) (s : Cospy) :
    NoLoop (stored ls) s ↔ NoLoop ls s := by
  induction ls generalizing s with
  | nil => exact Iff.rfl
  | cons line ls ih =>
    cases ht : isText line with
    | true =>
      rw [stored, List.filter_cons_of_pos ht, List.map_cons, NoLoop, NoLoop, Enters, Enters,
        skipWhitespace_idem, bodyStep_skipWhitespace]
      exact and_congr_right fun _ => ih _
    | false =>
      rw [stored, List.filter_cons_of_neg (by rw [ht]; exact Bool.false_ne_true), NoLoop,
        bodyStep_blank ht]
      refine (ih s).trans (iff_and_self.mpr fun _ hin => ?_)
      -- an empty line or a comment is not the head of a loop
      obtain ⟨c, hc⟩ := (isPrefixOf_iff _ _).mp hin.1
      rw [isText, ← hc] at ht
      have hw : (!(decide ((0x77 : UInt8) = 0) || decide ((0x77 : UInt8) = 0x23))) = true := by
        decide
      exact Bool.false_ne_true (ht.symm.trans hw)

theorem bodyLine_stored {ls : List (List UInt8)} (h : ∀ line ∈ ls, BodyLine line) :
    ∀ line ∈ stored ls, BodyLine line := by
  intro t ht
  obtain ⟨line, hline, rfl⟩ := List.mem_map.mp ht
  have hb := h line (List.mem_filter.mp hline).1
  refine ⟨?_, ?_, ?_, fun hz => hb.no_zero ((List.dropWhile_suffix _).subset hz)⟩
  · rw [CallFree, skipWhitespace_idem]
    exact hb.callFree
  · rw [skipWhitespace_idem]
    exact hb.no_def
  · rw [skipWhitespace_idem]
    exact hb.no_enddef

/-! ## A definition -/

/-- The interpreter reading a definition: its functions are those of before and `f`. -/
def Cospy.defining (s : Cospy) (f : Func) (open_ : Bool) : Cospy :=
  { s with funcs := s.funcs ++ [f], currentFuncIdx := s.funcs.length, definingFunction := open_ }

section Define

variable {n : Nat} {s : Cospy} {name line : List UInt8} {b : List (List UInt8)}

/-- `def NAME(` -/
theorem fileLine_def {rest : List UInt8}
    (hline : skipWhitespace line = ascii "def " ++ (name ++ 0x28 :: rest))
    (hname : ∀ c ∈ name, c ≠ 0 ∧ c ≠ 0x28) (hlen : name.length ≤ 15)
    (hd : s.definingFunction = false) (hf : s.inIfFalse = false) (hw : s.whileDepth = 0)
    (hroom : s.funcs.length < 16) :
    fileLine (n + 1) line ⟨s, b⟩ = some ⟨s.defining ⟨name, []⟩ true, b⟩ := by
  have hmore : ¬(peek (ascii "def " ++ (name ++ 0x28 :: rest)) = 0 ∨
      peek (ascii "def " ++ (name ++ 0x28 :: rest)) = 0x23) := by
    rintro (h | h)
    · exact absurd h (by decide : (0x64 : UInt8) ≠ 0)
    · exact absurd h (by decide : (0x64 : UInt8) ≠ 0x23)
  have hcopy : copyWhile (fun c => decide (c ≠ 0 ∧ c ≠ 0x28)) 15 (name ++ 0x28 :: rest) =
      (name, 0x28 :: rest) := by
    refine copyWhile_run (fun c hc => decide_eq_true (hname c hc)) hlen fun c hc => ?_
    cases hc
    rfl
  have hdefine : define (name ++ 0x28 :: rest) s = s.defining ⟨name, []⟩ true := by
    rw [define, if_neg (by omega), hcopy]
    rfl
  have hexec : executeStatement (n + 1) line s =
      some (0, define (name ++ 0x28 :: rest) s) := by
    rw [executeStatement, executeOver, hline, if_neg hmore, hd, if_neg Bool.false_ne_true,
      if_neg (by rintro (h | h) <;> exact Bool.false_ne_true h),
      if_neg (by exact Bool.false_ne_true), if_neg (by exact Bool.false_ne_true),
      if_neg (by exact Bool.false_ne_true), hf, if_neg Bool.false_ne_true]
    rfl
  rw [fileLine, if_neg (by rw [hw]; exact lt_irrefl 0), execute_skipWhitespace, hexec, hdefine]
  rfl

/-- While a definition is read, a line is not executed. -/
theorem execute_defining (ht : isText line = true) (hd : s.definingFunction = true) :
    executeStatement (n + 1) line s = some (0, defineLine (skipWhitespace line) s) := by
  have hmore : ¬(peek (skipWhitespace line) = 0 ∨ peek (skipWhitespace line) = 0x23) := by
    rw [not_or]
    simpa [isText] using ht
  rw [executeStatement, executeOver, if_neg hmore, if_pos hd]

theorem execute_blank (ht : isText line = false) :
    executeStatement (n + 1) line s = some (0, s) := by
  have hmore : peek (skipWhitespace line) = 0 ∨ peek (skipWhitespace line) = 0x23 :=
    Decidable.or_iff_not_imp_left.mpr (by simpa [isText] using ht)
  rw [executeStatement, executeOver, if_pos hmore]

/-- The line is put behind the lines of the function. -/
theorem defineLine_body {lines : List (List UInt8)} {t : List UInt8}
    (ht : startsWith t (ascii "enddef") = false) (hzero : (0 : UInt8) ∉ t)
    (hroom : s.funcs.length < 16) (hfits : lines.length < 32) :
    defineLine t (s.defining ⟨name, lines⟩ true) = s.defining ⟨name, lines ++ [t]⟩ true := by
  have hmodify : (s.funcs ++ [Func.mk name lines]).modify s.funcs.length (fun f =>
      if f.lines.length < 32 then { f with lines := f.lines ++ [strcpy t] } else f) =
      s.funcs ++ [⟨name, lines ++ [t]⟩] := by
    rw [List.modify_eq_take_cons_drop (by simp), strcpy_eq hzero]
    simp [hfits]
  rw [defineLine, ht, if_neg Bool.false_ne_true]
  unfold Cospy.defining
  dsimp only
  rw [if_pos hroom, hmodify]

/-- A line of the definition. -/
theorem fileLine_defining (hno : startsWith (skipWhitespace line) (ascii "enddef") = false)
    (hz : (0 : UInt8) ∉ line) (hw : s.whileDepth = 0) (hroom : s.funcs.length < 16)
    {lines : List (List UInt8)} (hfits : lines.length + (stored [line]).length ≤ 32) :
    fileLine (n + 1) line ⟨s.defining ⟨name, lines⟩ true, b⟩ =
      some ⟨s.defining ⟨name, lines ++ stored [line]⟩ true, b⟩ := by
  have hdepth : ¬(s.defining ⟨name, lines⟩ true).whileDepth > 0 := by
    show ¬s.whileDepth > 0
    rw [hw]
    exact lt_irrefl 0
  rw [fileLine, if_neg hdepth, execute_skipWhitespace]
  cases ht : isText line with
  | false =>
    have hstored : stored [line] = [] := by rw [stored, List.filter_cons_of_neg (by simp [ht])]; rfl
    rw [execute_blank ht, hstored, List.append_nil]
    rfl
  | true =>
    have hstored : stored [line] = [skipWhitespace line] := by
      rw [stored, List.filter_cons_of_pos ht]
      rfl
    have hzero : (0 : UInt8) ∉ skipWhitespace line := fun h =>
      hz ((List.dropWhile_suffix _).subset h)
    rw [hstored] at hfits ⊢
    rw [execute_defining ht rfl, defineLine_body hno hzero hroom hfits]
    rfl

theorem fileLines_defining {ls : List (List UInt8)} (hls : ∀ line ∈ ls, BodyLine line)
    (hw : s.whileDepth = 0) (hroom : s.funcs.length < 16) {lines : List (List UInt8)}
    (hfits : lines.length + (stored ls).length ≤ 32) :
    fileLines (n + 1) ls ⟨s.defining ⟨name, lines⟩ true, b⟩ =
      some ⟨s.defining ⟨name, lines ++ stored ls⟩ true, b⟩ := by
  induction ls generalizing lines with
  | nil =>
    rw [show stored [] = [] from rfl, List.append_nil]
    rfl
  | cons line ls ih =>
    have hcons : stored (line :: ls) = stored [line] ++ stored ls := by
      rw [stored, stored, stored, ← List.map_append, ← List.filter_append, List.singleton_append]
    rw [hcons, List.length_append] at hfits
    have hline := hls line List.mem_cons_self
    rw [fileLines, fileLine_defining hline.no_enddef hline.no_zero hw hroom (by omega),
      Option.bind_some, ih (fun l hl => hls l (List.mem_cons_of_mem line hl))
        (by rw [List.length_append]; omega), hcons, List.append_assoc]

/-- `enddef` -/
theorem fileLine_enddef {f : Func}
    (hline : startsWith (skipWhitespace line) (ascii "enddef") = true) (hw : s.whileDepth = 0) :
    fileLine (n + 1) line ⟨s.defining f true, b⟩ = some ⟨s.defining f false, b⟩ := by
  have hdepth : ¬(s.defining f true).whileDepth > 0 := by
    show ¬s.whileDepth > 0
    rw [hw]
    exact lt_irrefl 0
  have ht : isText line = true := by
    obtain ⟨c, hc⟩ := (isPrefixOf_iff _ _).mp hline
    rw [isText, ← hc]
    rfl
  rw [fileLine, if_neg hdepth, execute_skipWhitespace, execute_defining ht rfl, defineLine,
    if_pos hline]
  rfl

end Define

/-! ## A function stays what it is -/

/-- The first functions are these, and the one that is being defined, if any, is not among them. -/
structure HasFuncs (fs : List Func) (s : Cospy) : Prop where
  funcs : fs <+: s.funcs
  later : s.definingFunction = true → fs.length ≤ s.currentFuncIdx

theorem prefix_modify {α : Type} {l l' : List α} (h : l <+: l') {i : Nat} (hi : l.length ≤ i)
    (f : α → α) : l <+: l'.modify i f := by
  rw [List.prefix_iff_getElem?] at h ⊢
  intro j hj
  rw [List.getElem?_modify_ne f l' (by omega)]
  exact h j hj

theorem HasFuncs.keeps (fs : List Func) : Keeps (HasFuncs fs) fun _ => True where
  flow h _ _ _ := ⟨h.funcs, h.later⟩
  defineLine _ h hd := by
    unfold defineLine
    split
    · exact ⟨h.funcs, nofun⟩
    · split
      · exact ⟨prefix_modify h.funcs (h.later hd) _, h.later⟩
      · exact h
  define h hd p := by
    unfold define
    split
    · exact ⟨h.funcs, h.later⟩
    · exact ⟨h.funcs.trans (List.prefix_append _ _), fun _ => h.funcs.length_le⟩
  while_ _ _ h := ⟨h.funcs, h.later⟩
  lines _ _ _ _ _ := trivial
  depth h _ _ := ⟨h.funcs, h.later⟩
  stored _ := trivial

/-! ## A call -/

/-- A name that a line can begin with for a call. A name that begins with one of the
keywords that are tested as a prefix is taken for the keyword, and `print(` is a
statement of its own. -/
structure Callable (name : List UInt8) : Prop where
  word : Lexeme.IsWord name
  ident : wordType name = .ident
  no_prefix : ∀ kw ∈ [ascii "exit", ascii "quit", ascii "endif", ascii "endwhile"], ¬kw <+: name
  no_print : name ≠ ascii "print"

/-- The function of that name that a call finds. -/
theorem findIdx?_first {fs rest : List Func} {f : Func} {name : List UInt8} (hf : f.name = name)
    (hnew : ∀ g ∈ fs, g.name ≠ name) :
    (fs ++ [f] ++ rest).findIdx? (fun g => g.name = name) = some fs.length := by
  rw [List.append_assoc, List.findIdx?_append, List.findIdx?_eq_none_iff.mpr]
  · rw [List.singleton_append, List.findIdx?_cons, if_pos (decide_eq_true hf)]
    simp
  · intro g hg
    exact decide_eq_false (hnew g hg)

section Call

variable {n : Nat} {s : Cospy} {name line : List UInt8}

theorem isAlnum_paren : ∀ b ∈ (ascii "()").head?, isAlnum b = false := by
  rintro b ⟨⟩
  rfl

/-- The character behind a keyword on such a line. -/
theorem charAt_call {kw : List UInt8} (hname : Callable name) (hkw : ∀ b ∈ kw, isAlnum b = true)
    (h : startsWith (name ++ ascii "()") kw = true) :
    kw <+: name ∧ (isAlnum (charAt (name ++ ascii "()") kw.length) = true ∨
      name = kw ∧ charAt (name ++ ascii "()") kw.length = 0x28) := by
  have hpre := prefix_word hkw isAlnum_paren ((isPrefixOf_iff _ _).mp h)
  refine ⟨hpre, ?_⟩
  obtain ⟨w, rfl⟩ := hpre
  have hdrop : (kw ++ w ++ ascii "()").drop kw.length = w ++ ascii "()" := by
    rw [List.append_assoc, List.drop_left]
  rw [charAt, hdrop]
  cases w with
  | nil => exact Or.inr ⟨List.append_nil kw, rfl⟩
  | cons c w => exact Or.inl (hname.word.alnum c (by simp))

theorem noKeyword_call (hname : Callable name) : NoKeyword (name ++ ascii "()") := by
  have hpre : ∀ kw ∈ [ascii "exit", ascii "quit", ascii "endif", ascii "endwhile"],
      startsWith (name ++ ascii "()") kw = false := by
    intro kw hmem
    have hkw : ∀ kw ∈ [ascii "exit", ascii "quit", ascii "endif", ascii "endwhile"],
        kw.all isAlnum = true := by decide
    refine Bool.eq_false_iff.mpr fun h => hname.no_prefix kw hmem ?_
    exact (charAt_call hname (List.all_eq_true.mp (hkw kw hmem)) h).1
  -- a keyword with a blank behind it would have the parenthesis there
  have hwhole : ∀ kw ∈ [ascii "if", ascii "while", ascii "def"],
      startsWith (name ++ ascii "()") (kw ++ [0x20]) = false := by
    intro kw hmem
    have hkw : ∀ kw ∈ [ascii "if", ascii "while", ascii "def"], kw.all isAlnum = true := by decide
    refine startsWith_eq_false fun h => ?_
    have hsame := prefix_whole rfl hname.word.alnum (List.all_eq_true.mp (hkw kw hmem))
      isAlnum_paren h
    rw [hsame, List.prefix_append_right_inj] at h
    exact absurd h (by decide)
  have helse : isElse (name ++ ascii "()") = false := by
    refine Bool.eq_false_iff.mpr fun h => ?_
    obtain ⟨hstart, hchar⟩ := (Bool.and_eq_true _ _).mp h
    simp only [Bool.or_eq_true, decide_eq_true_eq] at hchar
    obtain ⟨-, hbehind⟩ := charAt_call hname (forall_mem_of_all (by decide)) hstart
    change isAlnum (charAt _ 4) = true ∨ _ ∧ charAt _ 4 = _ at hbehind
    obtain (hc | hc) | hc := hchar
    · rw [hc] at hbehind
      exact absurd (hbehind.imp id And.right) (by decide)
    · rw [hc] at hbehind
      exact absurd (hbehind.imp id And.right) (by decide)
    · rw [hc] at hbehind
      exact absurd (hbehind.imp id And.right) (by decide)
  exact
    { more := by
        obtain ⟨b, w, rfl, hb⟩ := hname.word.alpha
        rintro (h | h)
        · cases h
          exact absurd hb (by decide)
        · cases h
          exact absurd hb (by decide)
      exit := by
        rw [hpre _ (by decide), hpre _ (by decide)]
        exact fun h => h.elim Bool.false_ne_true Bool.false_ne_true
      endif := hpre _ (by decide)
      else_ := helse
      if_ := hwhole (ascii "if") (by decide)
      endwhile := hpre _ (by decide)
      while_ := hwhole (ascii "while") (by decide)
      def_ := hwhole (ascii "def") (by decide) }

theorem not_print_call (hname : Callable name) :
    ¬(startsWith (name ++ ascii "()") (ascii "print") = true ∧
      charAt (name ++ ascii "()") 5 = 0x28) := by
  rintro ⟨hstart, hchar⟩
  obtain ⟨-, hbehind⟩ := charAt_call hname (forall_mem_of_all (by decide)) hstart
  change isAlnum (charAt _ 5) = true ∨ _ ∧ _ at hbehind
  rw [hchar] at hbehind
  obtain h | ⟨h, -⟩ := hbehind
  · exact absurd h (by decide)
  · exact hname.no_print h

/-- The first two tokens of a call. -/
theorem scan_call (hname : Callable name) (e : Eval) :
    let e' := e.scan (name ++ ascii "()")
    e'.tok = .ident ∧ e'.lex.tokenIdent = name ∧ e'.next.tok = .lparen := by
  have hword := nextToken_lexeme { e.lex with cursor := name ++ ascii "()" } (g := [])
    (x := .word name) (s := ascii "()") (fun b hb => absurd hb List.not_mem_nil) hname.word
    isAlnum_paren rfl
  have htok : (Lexeme.word name).tok = .ident name := by
    rw [Lexeme.tok, Lexeme.wordTok, if_pos hname.ident]
  obtain ⟨hi, hn⟩ := Lexer.of_token_ident (hword.token.trans htok)
  have hparen := nextToken_lexeme (nextToken { e.lex with cursor := name ++ ascii "()" }) (g := [])
    (x := .op 0x28) (s := ascii ")") (fun b hb => absurd hb List.not_mem_nil)
    (by decide : Lexeme.isOp 0x28)
    ⟨fun h => absurd h (by decide), fun h => absurd h (by decide)⟩ hword.cursor
  refine ⟨hi, hn, ?_⟩
  have htype := congrArg Tok.type hparen.token
  rw [Lexer.token_type] at htype
  exact htype

/-- The state in which the lines of the function are executed. -/
def callState (line : List UInt8) (s : Cospy) : Cospy := { s with ev := (s.ev.scan line).next }

/-- The tests on a line `NAME()` let it through to the tokenizer. -/
theorem execute_call (hname : Callable name) (hline : skipWhitespace line = name ++ ascii "()")
    (hd : s.definingFunction = false) (hf : s.inIfFalse = false)
    (hcalls : (s.funcs.any fun f => f.name = name) = true) :
    executeStatement (n + 1) line s =
      (runFunction (executeStatement n) name (callState (name ++ ascii "()") s)).map
        fun s => (0, s) := by
  have hno := noKeyword_call hname
  rw [← hline] at hno
  obtain ⟨ht, hi, hparen⟩ := scan_call hname s.ev
  rw [execute_live hno hd hf, hline, if_neg (not_print_call hname), callOrAssign]
  dsimp only
  rw [if_pos ht, if_pos hparen, hi, if_pos hcalls]
  rfl

/-- `run_function` on lines that leave it the function. -/
theorem runLines_body {f : Func} (hls : ∀ line ∈ f.lines, BodyLine line) {i j m : Nat}
    (hlen : f.lines.length ≤ j + m) (hf : s.funcs[i]? = some f) (hd : s.definingFunction = false) :
    runLines (executeStatement (n + 1)) i (List.range' j m) s =
      some (bodySteps (f.lines.drop j) s) := by
  induction m generalizing j s with
  | zero =>
    have hnil : f.lines.drop j = [] := List.drop_eq_nil_of_le hlen
    rw [hnil]
    rfl
  | succ m ih =>
    rw [List.range'_succ, runLines, hf, Option.bind_some]
    by_cases hj : j < f.lines.length
    · have hmem := hls _ (List.getElem_mem hj)
      obtain ⟨v, hv⟩ := execute_body s hmem.callFree n
      have hmove := bodyStep_move hmem hd
      have hrest := ih (j := j + 1) (s := bodyStep f.lines[j] s) (by omega)
        (by rw [hmove.funcs]; exact hf) (hmove.no_def.trans hd)
      rw [List.getElem?_eq_getElem hj]
      dsimp only
      rw [hv, Option.bind_some, hrest, List.drop_eq_getElem_cons hj, bodySteps_cons]
    · rw [List.getElem?_eq_none (Nat.not_lt.mp hj), List.drop_eq_nil_of_le (Nat.not_lt.mp hj)]
      rfl

/-- **A call** executes the lines of the function. -/
theorem fileLine_call {fs : List Func} {lines : List (List UInt8)} {b : List (List UInt8)}
    (hname : Callable name) (hline : skipWhitespace line = name ++ ascii "()")
    (hfuncs : fs ++ [⟨name, lines⟩] <+: s.funcs) (hnew : ∀ g ∈ fs, g.name ≠ name)
    (hls : ∀ line ∈ lines, BodyLine line) (hlen : lines.length ≤ 32)
    (hd : s.definingFunction = false) (hf : s.inIfFalse = false) (hw : s.whileDepth = 0) :
    fileLine (n + 2) line ⟨s, b⟩ =
      some ⟨bodySteps lines (callState (name ++ ascii "()") s), b⟩ := by
  obtain ⟨rest, hrest⟩ := hfuncs
  have hfind : s.funcs.findIdx? (fun g => g.name = name) = some fs.length := by
    rw [← hrest]
    exact findIdx?_first rfl hnew
  have hat : s.funcs[fs.length]? = some ⟨name, lines⟩ := by
    rw [← hrest, List.append_assoc, List.getElem?_append_right (le_refl _), Nat.sub_self]
    rfl
  have hany : (s.funcs.any fun f => f.name = name) = true :=
    List.any_eq_true.mpr ⟨_, List.mem_of_getElem? hat, decide_eq_true rfl⟩
  have hrun : runFunction (executeStatement (n + 1)) name (callState (name ++ ascii "()") s) =
      some (bodySteps lines (callState (name ++ ascii "()") s)) := by
    have hlines := runLines_body (n := n) (s := callState (name ++ ascii "()") s)
      (f := ⟨name, lines⟩) hls (j := 0) (m := 32) (by omega) hat hd
    unfold runFunction
    rw [show (callState (name ++ ascii "()") s).funcs = s.funcs from rfl, hfind,
      List.range_eq_range']
    exact hlines
  rw [fileLine, if_neg (by rw [hw]; exact lt_irrefl 0), execute_skipWhitespace,
    execute_call hname hline hd hf hany, hrun]
  rfl

end Call

/-! ## Names that are too long -/

/-- A call of a name that is not in the table: the line does nothing. -/
theorem fileLine_unknown {n : Nat} {name line : List UInt8} {d : Driver} (hname : Callable name)
    (hline : skipWhitespace line = name ++ ascii "()") (hd : d.cospy.definingFunction = false)
    (hf : d.cospy.inIfFalse = false) (hw : d.cospy.whileDepth = 0)
    (hnew : ∀ g ∈ d.cospy.funcs, g.name ≠ name) :
    fileLine (n + 1) line d = some ⟨callState (name ++ ascii "()") d.cospy, d.whileBody⟩ := by
  have hno := noKeyword_call hname
  rw [← hline] at hno
  obtain ⟨ht, hi, hparen⟩ := scan_call hname d.cospy.ev
  have hany : ¬(d.cospy.funcs.any fun f => f.name = name) = true := by
    intro hany
    obtain ⟨g, hg, hgname⟩ := List.any_eq_true.mp hany
    exact hnew g hg (of_decide_eq_true hgname)
  rw [fileLine, if_neg (by rw [hw]; exact lt_irrefl 0), execute_skipWhitespace,
    execute_live hno hd hf, hline, if_neg (not_print_call hname), callOrAssign]
  dsimp only
  rw [if_pos ht, if_pos hparen, hi, if_neg hany]
  rfl

/-- Names are stored with 15 characters at most. -/
theorem shortNames : Keeps (fun s => ∀ f ∈ s.funcs, f.name.length ≤ 15) fun _ => True where
  flow h _ _ _ := h
  defineLine _ h _ := forall_funcs_defineLine (fun _ hf => hf) h
  define h _ p := forall_funcs_define (fun _ hname => hname) h p
  while_ _ _ h := h
  lines _ _ _ _ _ := trivial
  depth h _ _ := h
  stored _ := trivial

/-- **Long names.** No script defines a function that a call of a name of more than 15 characters
finds: the line does nothing. -/
theorem fileLine_long {n : Nat} {name line : List UInt8} {s : Cospy} {before : List (List UInt8)}
    {d : Driver} (hrun : fileLines n before ⟨cospyInit s, []⟩ = some d) (hname : Callable name)
    (hlong : 15 < name.length) (hline : skipWhitespace line = name ++ ascii "()")
    (hd : d.cospy.definingFunction = false) (hf : d.cospy.inIfFalse = false)
    (hw : d.cospy.whileDepth = 0) :
    fileLine (n + 1) line d = some ⟨callState (name ++ ascii "()") d.cospy, d.whileBody⟩ := by
  have hstart : Keeps.Kept (fun s : Cospy => ∀ f ∈ s.funcs, f.name.length ≤ 15) (fun _ => True)
      ⟨cospyInit s, []⟩ := ⟨fun _ hf => absurd hf List.not_mem_nil, fun _ _ => trivial⟩
  have hshort := (shortNames.fileLines n (fun _ _ => trivial) hstart hrun).cospy
  refine fileLine_unknown hname hline hd hf hw fun g hg hgname => ?_
  have hle := hshort g hg
  rw [hgname] at hle
  exact absurd hle (Nat.not_le.mpr hlong)

/-! ## Calls and lines in place -/

/-- The same lines printed, the same variables, and the same blocks. The table of
functions is left out, and so are the lexer and the messages. -/
structure SameEffect (a b : Cospy) : Prop where
  lines : a.ev.lines = b.ev.lines
  vars : a.ev.vars = b.ev.vars
  varCount : a.ev.varCount = b.ev.varCount
  ifDepth : a.ifDepth = b.ifDepth
  inIfFalse : a.inIfFalse = b.inIfFalse
  whileDepth : a.whileDepth = b.whileDepth

/-- A script that has come to `d`, outside skipped lines and loops, after it has defined `name` as
`body`. -/
structure Defined (n : Nat) (name : List UInt8) (body : List (List UInt8)) (d : Driver) : Prop where
  run : ∃ (s : Cospy) (before behind : List (List UInt8)) (first last rest : List UInt8)
      (d₀ : Driver),
    fileLines n before ⟨cospyInit s, []⟩ = some d₀ ∧
    -- the definition is executed, and no function has that name yet
    d₀.cospy.definingFunction = false ∧ d₀.cospy.inIfFalse = false ∧ d₀.cospy.whileDepth = 0 ∧
    d₀.cospy.funcs.length < 16 ∧ (∀ g ∈ d₀.cospy.funcs, g.name ≠ name) ∧
    skipWhitespace first = ascii "def " ++ (name ++ 0x28 :: rest) ∧
    startsWith (skipWhitespace last) (ascii "enddef") = true ∧
    fileLines n (first :: (body ++ last :: behind)) d₀ = some d
  no_def : d.cospy.definingFunction = false
  no_skip : d.cospy.inIfFalse = false
  no_loop : d.cospy.whileDepth = 0

theorem Callable.chars {name : List UInt8} (h : Callable name) : ∀ c ∈ name, c ≠ 0 ∧ c ≠ 0x28 := by
  intro c hc
  have halnum := h.word.alnum c hc
  constructor
  · rintro rfl
    exact absurd halnum (by decide)
  · rintro rfl
    exact absurd halnum (by decide)

/-- The function is in the table when the script has come to `d`, and a call finds it. -/
theorem Defined.funcs {n : Nat} {name : List UInt8} {body : List (List UInt8)} {d : Driver}
    (h : Defined (n + 1) name body d) (hname : Callable name) (hfits : name.length ≤ 15)
    (hbody : ∀ line ∈ body, BodyLine line) (hlen : (stored body).length ≤ 32) :
    ∃ fs, fs ++ [⟨name, stored body⟩] <+: d.cospy.funcs ∧ ∀ g ∈ fs, g.name ≠ name := by
  obtain ⟨s, before, behind, first, last, rest, d₀, -, hd, hf, hw, hroom, hnew, hfirst, hlast,
    hrun⟩ := h.run
  refine ⟨d₀.cospy.funcs, ?_, hnew⟩
  have hdef : fileLines (n + 1) (body ++ last :: behind)
      ⟨d₀.cospy.defining ⟨name, []⟩ true, d₀.whileBody⟩ = some d := by
    rwa [fileLines, fileLine_def hfirst hname.chars hfits hd hf hw hroom, Option.bind_some]
      at hrun
  have hfew : ([] : List (List UInt8)).length + (stored body).length ≤ 32 := by simpa using hlen
  have hlines : fileLines (n + 1) body ⟨d₀.cospy.defining ⟨name, []⟩ true, d₀.whileBody⟩ =
      some ⟨d₀.cospy.defining ⟨name, stored body⟩ true, d₀.whileBody⟩ :=
    fileLines_defining hbody hw hroom hfew
  rw [fileLines_append, hlines, Option.bind_some, fileLines, fileLine_enddef hlast hw,
    Option.bind_some] at hdef
  have hkept : Keeps.Kept (HasFuncs (d₀.cospy.funcs ++ [⟨name, stored body⟩])) (fun _ => True)
      ⟨d₀.cospy.defining ⟨name, stored body⟩ false, d₀.whileBody⟩ :=
    ⟨⟨List.prefix_refl _, fun h => by cases h⟩, fun _ _ => trivial⟩
  exact ((HasFuncs.keeps _).fileLines (n + 1) (fun _ _ => trivial) hkept hdef).cospy.funcs

/-- **Calling a function is executing its lines in place**, with the loops closed again,
if and only if no `while` of the body is executed. Which lines are executed depends on
the conditionals around them, so the condition follows the body from the state of the
call. -/
theorem call_inlines_iff {n : Nat} {name call : List UInt8} {body : List (List UInt8)} {d : Driver}
    (hd : Defined (n + 2) name body d) (hname : Callable name) (hfits : name.length ≤ 15)
    (hbody : ∀ line ∈ body, BodyLine line) (hlen : (stored body).length ≤ 32)
    (hcall : skipWhitespace call = name ++ ascii "()") :
    (∃ a b, fileLine (n + 2) call d = some a ∧ fileLines (n + 2) body d = some b ∧
      SameEffect a.cospy b.cospy ∧ b.cospy.whileDepth = 0) ↔ NoLoop body d.cospy := by
  obtain ⟨fs, hfuncs, hnew⟩ := hd.funcs hname hfits hbody hlen
  obtain ⟨s, b₀⟩ := d
  have hstored := bodyLine_stored hbody
  have htwin : Twin Same s (callState (name ++ ascii "()") s) := ⟨(Same.refl s.ev).at_ _ _, rfl⟩
  have ha := fileLine_call (n := n) (b := b₀) hname hcall hfuncs hnew hstored hlen hd.no_def
    hd.no_skip hd.no_loop
  have hno : NoLoop (stored body) (callState (name ++ ascii "()") s) ↔ NoLoop body s :=
    (noLoop_twin hstored htwin).trans (noLoop_stored body s)
  constructor
  · rintro ⟨a, b, hcall, -, hsame, hzero⟩
    cases ha.symm.trans hcall
    by_contra hloop
    -- the call leaves the depth above 0
    have hlt := (bodySteps_depth hstored (s := callState (name ++ ascii "()") s) hd.no_def).2
      fun h => hloop (hno.mp h)
    have hdepth : (bodySteps (stored body) (callState (name ++ ascii "()") s)).whileDepth = 0 :=
      hsame.whileDepth.trans hzero
    rw [hdepth] at hlt
    exact Nat.not_lt_zero _ hlt
  · intro hloop
    have hb := fileLines_free (n + 1) hbody hd.no_def hd.no_loop hloop b₀
    have heffect := bodySteps_twin hstored htwin
    rw [bodySteps_stored] at heffect
    obtain ⟨hev, hrest⟩ := heffect
    refine ⟨_, _, ha, hb, ?_, ?_⟩
    · rw [hrest]
      exact ⟨hev.lines, hev.vars, hev.varCount, rfl, rfl, rfl⟩
    · exact (bodySteps_noLoop hbody hd.no_def hloop).trans hd.no_loop

/-! ## A function with a conditional, and one with a loop -/

/-- A script that defines `f`. -/
def defineF (body : List (List UInt8)) : Option Driver :=
  fileLines 3 (ascii "def f():" :: (body ++ [ascii "enddef"])) ⟨cospyInit (.start fun _ => []), []⟩

theorem defineF_defined {body : List (List UInt8)} {d : Driver} (h : defineF body = some d)
    (hd : (d.cospy.definingFunction, d.cospy.inIfFalse, d.cospy.whileDepth) = (false, false, 0)) :
    Defined 3 (ascii "f") body d where
  run := ⟨.start fun _ => [], [], [], ascii "def f():", ascii "enddef", ascii "):",
    ⟨cospyInit (.start fun _ => []), []⟩, rfl, rfl, rfl, rfl, by decide, by decide, rfl, rfl, h⟩
  no_def := (Prod.mk.inj hd).1
  no_skip := (Prod.mk.inj (Prod.mk.inj hd).2).1
  no_loop := (Prod.mk.inj (Prod.mk.inj hd).2).2

/-- `if x < 1:`, `x = 1`, `endif` -/
def ifBody : List (List UInt8) := [ascii "  if x < 1:", ascii "    x = 1", ascii "  endif"]

/-- The call does what the lines do in its place. -/
theorem call_inlines_ifBody : ∃ d a b, defineF ifBody = some d ∧
    fileLine 3 (ascii "f()") d = some a ∧ fileLines 3 ifBody d = some b ∧
    SameEffect a.cospy b.cospy ∧ b.cospy.whileDepth = 0 := by
  have hrun : (defineF ifBody).map (fun d =>
      (d.cospy.definingFunction, d.cospy.inIfFalse, d.cospy.whileDepth)) =
      some (false, false, 0) := by
    decide +kernel
  obtain ⟨d, hd, hstate⟩ := Option.map_eq_some_iff.mp hrun
  have hname : Callable (ascii "f") :=
    ⟨⟨⟨_, _, rfl, by decide⟩, forall_mem_of_all (by decide), by decide⟩, by decide, by decide,
      by decide⟩
  have hloop : NoLoop ifBody d.cospy :=
    ⟨fun h => absurd h.1 (by decide), fun h => absurd h.1 (by decide),
      fun h => absurd h.1 (by decide), trivial⟩
  have hiff := call_inlines_iff (n := 1) (defineF_defined hd hstate) hname (by decide)
    (show ∀ line ∈ ifBody, BodyLine line by decide +kernel) (by decide)
    (show skipWhitespace (ascii "f()") = ascii "f" ++ ascii "()" from rfl)
  obtain ⟨a, b, ha, hb, heffect⟩ := hiff.mpr hloop
  exact ⟨d, a, b, hd, ha, hb, heffect⟩

/-- `while x < 1:`, `x = 1`, `endwhile` -/
def whileBody : List (List UInt8) := [ascii "while x < 1:", ascii "x = 1", ascii "endwhile"]

/-- The call leaves the loop open. -/
theorem call_differs_whileBody : ∃ d a b, defineF whileBody = some d ∧
    fileLine 3 (ascii "f()") d = some a ∧ fileLines 3 whileBody d = some b ∧
    ¬SameEffect a.cospy b.cospy := by
  have hcall : ((defineF whileBody).bind fun d => fileLine 3 (ascii "f()") d).map
      (·.cospy.whileDepth) = some 1 := by decide +kernel
  have hplace : ((defineF whileBody).bind fun d => fileLines 3 whileBody d).map
      (·.cospy.whileDepth) = some 0 := by decide +kernel
  obtain ⟨a, ha, hdepth⟩ := Option.map_eq_some_iff.mp hcall
  obtain ⟨b, hb, hdepth'⟩ := Option.map_eq_some_iff.mp hplace
  obtain ⟨d, hd, ha⟩ := Option.bind_eq_some_iff.mp ha
  rw [hd, Option.bind_some] at hb
  refine ⟨d, a, b, hd, ha, hb, fun h => ?_⟩
  have hsame := h.whileDepth
  rw [hdepth, hdepth'] at hsame
  exact absurd hsame (by decide)

end OsU
