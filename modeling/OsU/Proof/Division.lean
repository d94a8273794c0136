import OsU.Proof.ForthStack
import OsU.Proof.SyntaxTree

/-!
# Divisions

Both interpreters look at the divisor before they divide, and both look for zero only:
the quotient of -2^31 and -1 does not fit 32 bits, and the machine refuses it as it
refuses a division by zero. `Traps` and `Faults` say when that happens, on the tree of
an expression and on the cells of the stack.

The two interpreters are modelled differently in this. The one with expressions records
the operands of every division it executes, and goes on with a value that the machine
would never get to; what it does after such a division says nothing of the code, and
`ParseReturns` is the notion that leaves it out. The one with a stack stops, with
`divideError` for the outcome.

For both the condition is on the input alone: on the tree that the text is read as, or
on the words that are typed and the stack they meet.
-/

set_option autoImplicit false

namespace OsU

open CString

/-- The machine can divide: the divisor is not zero and the quotient fits 32 bits. -/
def Representable (q : BitVec 32 × BitVec 32) : Prop :=
  q.2 ≠ 0 ∧ -2 ^ 31 ≤ q.1.toInt.tdiv q.2.toInt ∧ q.1.toInt.tdiv q.2.toInt < 2 ^ 31

/-- There is one quotient that does not fit. -/
theorem representable_iff {a b : BitVec 32} (hb : b ≠ 0) :
    Representable (a, b) ↔ ¬(a = BitVec.intMin 32 ∧ b = -1) := by
  constructor
  · rintro ⟨-, -, hlt⟩ ⟨rfl, rfl⟩
    exact absurd hlt (by decide)
  · intro h
    have hquot := BitVec.toInt_sdiv_of_ne_or_ne a b (not_and_or.mp h)
    refine ⟨hb, ?_, ?_⟩
    · dsimp only
      rw [← hquot]
      exact BitVec.le_toInt _
    · dsimp only
      rw [← hquot]
      exact BitVec.toInt_lt

/-! ## Expressions -/

/-- In the tree, -2^31 is divided by -1: at some node, with the values its two operands
have when it is come to. All nodes count, since every operand is evaluated. -/
def Syn.Traps (w : World) : Syn → Nat → Prop
  | neg x, k => x.Traps w k
  | not x, k => x.Traps w k
  | bin op x y, k =>
    let a := x.eval w k
    let b := y.eval w a.2
    x.Traps w k ∨ y.Traps w a.2 ∨
      (op = .div ∨ op = .mod) ∧ a.1 = BitVec.intMin 32 ∧ b.1 = -1
  | _, _ => False

theorem BinOp.division_representable (op : BinOp) (a b : BitVec 32) :
    (∀ q ∈ op.division a b, Representable q) ↔
      ¬((op = .div ∨ op = .mod) ∧ a = BitVec.intMin 32 ∧ b = -1) := by
  rw [BinOp.division]
  split
  · rename_i h
    rw [List.forall_mem_singleton, representable_iff h.2, and_iff_right h.1]
  · rename_i h
    refine iff_of_true (fun q hq => absurd hq List.not_mem_nil) ?_
    rintro ⟨hop, -, rfl⟩
    exact h ⟨hop, by decide⟩

/-- **The divisions of a tree**, by its structure: all of them can be done exactly when
the tree divides -2^31 by -1 nowhere. -/
theorem Syn.divisions_representable (w : World) (t : Syn) (k : Nat) :
    (∀ q ∈ t.divisions w k, Representable q) ↔ ¬t.Traps w k := by
  induction t generalizing k with
  | neg x ih => exact ih k
  | not x ih => exact ih k
  | bin op x y ihx ihy =>
    rw [Syn.divisions, Syn.Traps, List.forall_mem_append, List.forall_mem_append, ihx, ihy,
      op.division_representable, not_or, not_or, and_assoc]
  | _ => exact iff_of_true (fun q hq => absurd hq List.not_mem_nil) not_false

/-- None of the divisions that one list has more than another is refused. -/
def DividedFrom (old new : List (BitVec 32 × BitVec 32)) : Prop :=
  ∀ q ∈ new.drop old.length, Representable q

theorem dividedFrom_append (old ds : List (BitVec 32 × BitVec 32)) :
    DividedFrom old (old ++ ds) ↔ ∀ q ∈ ds, Representable q := by
  rw [DividedFrom, List.drop_left]

/-- Between two states the machine executed no division that it refuses. -/
def Divided (e e' : Eval) : Prop := DividedFrom e.divs e'.divs

/-- In the text the lexer is at, -2^31 is divided by -1. -/
def Eval.Traps (e : Eval) : Prop := (readExpr e.lex).Traps e.world e.reads

/-- `parse_expr` adds to the list, and what it adds is refused when the tree of the text traps. -/
theorem parse_divided {e : Eval} {r : BitVec 32 × Eval} (h : parseExpr e = some r) :
    e.divs <+: r.2.divs ∧ (Divided e r.2 ↔ ¬e.Traps) := by
  obtain ⟨r', hr', hran⟩ := parseExpr_syntax e
  obtain rfl : r' = r := Option.some.inj (hr'.symm.trans h)
  rw [Divided, hran.divs, dividedFrom_append]
  exact ⟨List.prefix_append _ _, Syn.divisions_representable _ _ _⟩

/-- `parse_expr` comes back with a result. Running to the end of the model is not enough for that:
a division the machine refuses is taken again and again, and nothing behind it is reached. -/
structure ParseReturns (e : Eval) (r : BitVec 32 × Eval) : Prop where
  runs : parseExpr e = some r
  divides : Divided e r.2

/-- It does unless the tree of the text divides -2^31 by -1. -/
theorem parseReturns_iff (e : Eval) : (∃ r, ParseReturns e r) ↔ ¬e.Traps := by
  constructor
  · rintro ⟨r, hr, hdiv⟩
    exact (parse_divided hr).2.mp hdiv
  · intro h
    obtain ⟨r, hr, -⟩ := parseExpr_total e
    exact ⟨r, hr, (parse_divided hr).2.mpr h⟩

/-! ## Words

The same for the prompt of `lang.c`. The words of a line are followed on a stack that is
a list; a run of them faults where one does, and leaves its stack to the next line
otherwise. -/

/-- The words one after the other, from any stack. -/
def runWords : List (List UInt8) → Lang → LangOut
  | [], s => .running s
  | tok :: toks, s =>
    match langWord tok s with
    | .running s => runWords toks s
    | out => out

/-- The words of a line. -/
def lineToks : Nat → List UInt8 → List (List UInt8)
  | 0, _ => []
  | n + 1, p =>
    match nextTok p with
    | none => []
    | some (tok, p) => tok :: lineToks n p

/-- The words of what is typed on a line. -/
def typedToks (typed : List UInt8) : List (List UInt8) :=
  lineToks (typed.take (langLine - 1)).length (typed.take (langLine - 1))

/-- A `/` is reached with -1 on top of -2^31. What the words before leave is that of
`stackWord`, so the condition is on the line and the stack at its beginning. -/
def Faults (used : BitVec 32) : List (List UInt8) → List (BitVec 32) → Prop
  | [], _ => False
  | tok :: toks, c =>
    (tok = ascii "/" ∧ ∃ below, c = -1 :: BitVec.intMin 32 :: below) ∨
      match stackWord used tok c with
      | .next c _ => Faults used toks c
      | _ => False

theorem tokLoop_runWords (n : Nat) (p : List UInt8) (s : Lang) :
    tokLoop n p s = runWords (lineToks n p) s := by
  induction n generalizing p s with
  | zero => rfl
  | succ n ih =>
    rw [tokLoop, lineToks]
    cases nextTok p with
    | none => rfl
    | some r =>
      dsimp only
      rw [runWords]
      cases langWord r.1 s with
      | running t => exact ih r.2 t
      | left t => rfl
      | divideError => rfl

section Fault

variable {c : List (BitVec 32)}

theorem noFault_ite {p : Prop} [Decidable p] {o o' : WordOut} (h : p → o ≠ .fault)
    (h' : ¬p → o' ≠ .fault) : (if p then o else o') ≠ .fault := by
  split
  · exact h ‹_›
  · exact h' ‹_›

theorem arith_fault {f : BitVec 32 → BitVec 32 → List (BitVec 32) → WordOut} :
    arith f c = .fault ↔ ∃ b a below, c = b :: a :: below ∧ f a b below = .fault := by
  rcases c with _ | ⟨b, _ | ⟨a, c⟩⟩
  · exact iff_of_false nofun fun ⟨_, _, _, h, _⟩ => absurd h nofun
  · exact iff_of_false nofun fun ⟨_, _, _, h, _⟩ => absurd h nofun
  · constructor
    · exact fun h => ⟨b, a, c, rfl, h⟩
    · rintro ⟨b', a', below, h, hf⟩
      cases h
      exact hf

theorem quotient_fault {a b : BitVec 32} :
    quotient a b c = .fault ↔ a = BitVec.intMin 32 ∧ b = -1 := by
  rw [quotient]
  split
  · rename_i hb
    refine iff_of_false nofun ?_
    rintro ⟨-, rfl⟩
    exact absurd hb (by decide)
  · split
    · rename_i h
      exact iff_of_true rfl h
    · rename_i h
      exact iff_of_false nofun h

/-- The other words come to something else. -/
theorem stackWord_fault (used : BitVec 32) (tok : List UInt8) (c : List (BitVec 32)) :
    stackWord used tok c = .fault ↔
      tok = ascii "/" ∧ ∃ below, c = -1 :: BitVec.intMin 32 :: below := by
  have hpush : ∀ v full c, pushCell v full c ≠ .fault := by
    intro v full c
    exact noFault_ite (fun _ => nofun) fun _ => nofun
  by_cases htok : tok = ascii "/"
  · subst htok
    have hdiv : stackWord used (ascii "/") c = arith quotient c := rfl
    rw [hdiv, arith_fault, and_iff_right rfl]
    simp only [quotient_fault]
    constructor
    · rintro ⟨b, a, below, rfl, rfl, rfl⟩
      exact ⟨below, rfl⟩
    · rintro ⟨below, rfl⟩
      exact ⟨_, _, below, rfl, rfl, rfl⟩
  · -- No other word divides.
    refine iff_of_false ?_ fun h => htok h.1
    have harith : ∀ f : BitVec 32 → BitVec 32 → List (BitVec 32) → WordOut,
        (∀ a b c, f a b c ≠ .fault) → arith f c ≠ .fault := by
      intro f hf h
      obtain ⟨_, _, _, -, h⟩ := arith_fault.mp h
      exact hf _ _ _ h
    unfold stackWord
    refine noFault_ite (fun _ => nofun) fun _ => ?_
    refine noFault_ite (fun _ => harith _ nofun) fun _ => ?_
    refine noFault_ite (fun _ => harith _ nofun) fun _ => ?_
    refine noFault_ite (fun _ => harith _ nofun) fun _ => ?_
    refine noFault_ite (fun h => absurd h htok) fun _ => ?_
    refine noFault_ite (fun _ => ?_) fun _ => ?_
    · cases c with
      | nil => exact nofun
      | cons v c => exact hpush _ _ _
    refine noFault_ite (fun _ => ?_) fun _ => ?_
    · cases c <;> exact nofun
    refine noFault_ite (fun _ => ?_) fun _ => ?_
    · rcases c with _ | ⟨b, _ | ⟨a, c⟩⟩ <;> exact nofun
    refine noFault_ite (fun _ => ?_) fun _ => ?_
    · cases c <;> exact nofun
    refine noFault_ite (fun _ => nofun) fun _ => ?_
    refine noFault_ite (fun _ => nofun) fun _ => ?_
    refine noFault_ite (fun _ => nofun) fun _ => ?_
    refine noFault_ite (fun _ => nofun) fun _ => ?_
    exact noFault_ite (fun _ => hpush _ _ _) fun _ => nofun

/-- What the words of a run leave for those behind them. -/
def Passes (heap : Heap) (toks : List (List UInt8)) (c : List (BitVec 32)) : LangOut → Prop
  | .running t => t.heap = heap ∧
    ∀ rest, Faults (heap.heapCurr - heap.heapStart) (toks ++ rest) c ↔
      Faults (heap.heapCurr - heap.heapStart) rest t.cells
  | .left _ => ∀ rest, ¬Faults (heap.heapCurr - heap.heapStart) (toks ++ rest) c
  | .divideError => ∀ rest, Faults (heap.heapCurr - heap.heapStart) (toks ++ rest) c

/-- **A run of words**, from any stack: it faults where the words do, and otherwise
leaves for the words behind it what the cells say. -/
theorem runWords_passes (toks : List (List UInt8)) (s : Lang) :
    Passes s.heap toks s.cells (runWords toks s) := by
  induction toks generalizing s with
  | nil => exact ⟨rfl, fun _ => Iff.rfl⟩
  | cons tok toks ih =>
    have hdoes := langWord_stackWord tok s
    have hfault := stackWord_fault (s.heap.heapCurr - s.heap.heapStart) tok s.cells
    rw [runWords]
    generalize ho : stackWord _ tok s.cells = o at hdoes hfault
    cases o with
    | next c text =>
      obtain ⟨t, ht, rfl, -, hheap⟩ := hdoes
      have hno := mt hfault.mpr nofun
      -- A word that goes on has not trapped, so the line traps when what is left of it
      -- does.
      have hstep : ∀ rest, Faults (s.heap.heapCurr - s.heap.heapStart) (tok :: toks ++ rest)
          s.cells ↔ Faults (s.heap.heapCurr - s.heap.heapStart) (toks ++ rest) t.cells := by
        intro rest
        rw [List.cons_append, Faults, ho, or_iff_right hno]
      have hrest := ih t
      rw [hheap] at hrest
      rw [ht]
      dsimp only
      cases hout : runWords toks t with
      | running u =>
        rw [hout] at hrest
        exact ⟨hrest.1, fun rest => (hstep rest).trans (hrest.2 rest)⟩
      | left u =>
        rw [hout] at hrest
        exact fun rest => mt (hstep rest).mp (hrest rest)
      | divideError =>
        rw [hout] at hrest
        exact fun rest => (hstep rest).mpr (hrest rest)
    | left =>
      obtain ⟨t, ht⟩ := hdoes
      rw [ht]
      intro rest h
      rw [List.cons_append, Faults, ho] at h
      exact h.elim (mt hfault.mpr nofun) id
    | fault =>
      rw [show langWord tok s = .divideError from hdoes]
      exact fun rest => Or.inl (hfault.mp rfl)

/-- **The prompt** faults when the words that are typed do. -/
theorem langLoop_fault_iff (typed : List (List UInt8)) (s : Lang) :
    langLoop typed s = .divideError ↔
      Faults (s.heap.heapCurr - s.heap.heapStart) (typed.flatMap typedToks) s.cells := by
  induction typed generalizing s with
  | nil => exact iff_of_false (fun h => by cases h) id
  | cons line typed ih =>
    rw [langLoop, List.flatMap_cons, tokLoop_runWords]
    have hpass := runWords_passes (typedToks line) (s.puts (ascii "forth> "))
    rw [Lang.puts_heap, Lang.puts_cells] at hpass
    rw [← typedToks]
    cases hout : runWords (typedToks line) (s.puts (ascii "forth> ")) with
    | running t =>
      rw [hout] at hpass
      obtain ⟨hheap, hfaults⟩ := hpass
      rw [hfaults, ← hheap]
      exact ih t
    | left t =>
      rw [hout] at hpass
      have hno : LangOut.left t ≠ .divideError := fun h => by cases h
      exact iff_of_false hno (hpass _)
    | divideError =>
      rw [hout] at hpass
      exact iff_of_true rfl (hpass _)

end Fault

/-- The machine refuses the division of the word `/` when the quotient does not fit. -/
theorem divide_error_iff (a b : BitVec 32) (s : Lang) :
    divide a b s = .divideError ↔ b ≠ 0 ∧ ¬Representable (a, b) := by
  rw [divide]
  split
  · rename_i hb
    exact iff_of_false (fun h => by cases h) fun h => h.1 hb
  · rename_i hb
    rw [representable_iff hb, not_not, and_iff_right hb]
    split
    · rename_i h
      exact iff_of_true rfl h
    · rename_i h
      exact iff_of_false (fun h => by cases h) h

/-- **Divisions.** `parse_expr` divides what the machine can divide exactly when nothing in the
expression divides -2^31 by -1; the prompt does not fault exactly when no `/` finds these two on the
stack. -/
theorem divisions_iff (e : Eval) (typed : List (List UInt8)) (s : Lang) :
    (∃ r ds, parseExpr e = some r ∧ r.2.divs = e.divs ++ ds ∧
      ((∀ q ∈ ds, Representable q) ↔ ¬(readExpr e.lex).Traps e.world e.reads)) ∧
    (∀ a b s, divide a b s = .divideError ↔ b ≠ 0 ∧ ¬Representable (a, b)) ∧
    (langLoop typed s ≠ .divideError ↔
      ¬Faults (s.heap.heapCurr - s.heap.heapStart) (typed.flatMap typedToks) s.cells) := by
  refine ⟨?_, divide_error_iff, not_congr (langLoop_fault_iff typed s)⟩
  obtain ⟨r, hr, hran⟩ := parseExpr_syntax e
  exact ⟨r, _, hr, hran.divs, Syn.divisions_representable _ _ _⟩

/-- `(0 - 2147483647 - 1) / -1`, and the same at the prompt. -/
theorem division_traps :
    (¬∀ (text : List UInt8) (e : Eval), ∃ r ds, parseExpr (e.scan text) = some r ∧
      r.2.divs = e.divs ++ ds ∧ ∀ q ∈ ds, Representable q) ∧
    ¬∀ typed s, langLoop typed s ≠ .divideError := by
  constructor
  · intro h
    obtain ⟨r, ds, hr, hds, hall⟩ := h (ascii "(0 - 2147483647 - 1) / -1") (.start fun _ => [])
    have hdivs : (parseExpr ((Eval.start fun _ => []).scan
        (ascii "(0 - 2147483647 - 1) / -1"))).map (fun r => r.2.divs) =
          some [(BitVec.intMin 32, -1)] := by
      decide +kernel
    rw [hr] at hdivs
    obtain rfl : ds = [(BitVec.intMin 32, -1)] := hds.symm.trans (Option.some.inj hdivs)
    exact (representable_iff (by decide)).mp (hall _ List.mem_cons_self) ⟨rfl, rfl⟩
  · intro h
    have hfault : (match langLoop [ascii "-2147483647 1 - -1 /"] demoLang with
        | .divideError => true
        | _ => false) = true := by
      decide +kernel
    split at hfault
    · rename_i hout
      exact h _ _ hout
    · exact nomatch hfault

end OsU
