import OsU.Kernel.Lang
import OsU.Lib.Rpn
import OsU.Proof.Lexing

/-!
# Forth evaluates postfix

The words `+ - * /` and the number word are the machine of `OsU/Lib/Rpn.lean` on the
cells of the stack (`langWord_item`). The tokenizer gives `langWord` the items of a tree
in their order, however they are laid on the lines, and the stack stays from one line to
the next.

Arithmetic is that of the machine: sums and products are taken modulo 2 ^ 32 and
quotients are rounded toward zero. A tree has no value when it divides by zero, where
the source shows a message, or when a quotient does not fit, where the machine traps;
nothing is said of such trees here.

The stack has 128 cells, and how many a tree needs depends on its shape, so `Fits`
follows the notation of the tree and not the tree's size. Lines have at most 95
characters, because the prompt reads them into a buffer of that many; the notation may
be cut into lines between any two items.
-/

set_option autoImplicit false

namespace OsU

open CString Rpn

/-! ## Arithmetic trees -/

inductive ForthOp where
  | add
  | sub
  | mul
  | div

def ForthOp.text : ForthOp → List UInt8
  | add => ascii "+"
  | sub => ascii "-"
  | mul => ascii "*"
  | div => ascii "/"

/-- What an operator does to two numbers: the result modulo `2 ^ 32`, the quotient rounded toward
zero. There is none for a divisor 0, and none for the quotient that does not fit. -/
def ForthOp.apply (op : ForthOp) (a b : BitVec 32) : Option (BitVec 32) :=
  match op with
  | add => some (BitVec.ofInt 32 (a.toInt + b.toInt))
  | sub => some (BitVec.ofInt 32 (a.toInt - b.toInt))
  | mul => some (BitVec.ofInt 32 (a.toInt * b.toInt))
  | div =>
    if b.toInt = 0 ∨ (a.toInt = -2 ^ 31 ∧ b.toInt = -1) then none
    else some (BitVec.ofInt 32 (a.toInt.tdiv b.toInt))

inductive Sign where
  | bare
  | plus
  | minus

def Sign.text : Sign → List UInt8
  | bare => []
  | plus => ascii "+"
  | minus => ascii "-"

/-- The number a sign and digits write. -/
def signed (sign : Sign) (digits : List UInt8) : Int :=
  match sign with
  | .bare => Lexeme.digitsValue digits
  | .plus => Lexeme.digitsValue digits
  | .minus => -Lexeme.digitsValue digits

/-- A decimal literal of an `int32_t`: a sign or none, and digits, as many zeros in
front as one likes. That the number fits is part of it. -/
structure Literal where
  sign : Sign
  digits : List UInt8
  digits_ne : digits ≠ []
  digits_ok : ∀ b ∈ digits, isDigit b = true
  fits : -2 ^ 31 ≤ signed sign digits ∧ signed sign digits < 2 ^ 31

namespace Literal

def text (l : Literal) : List UInt8 := l.sign.text ++ l.digits

def value (l : Literal) : BitVec 32 := BitVec.ofInt 32 (signed l.sign l.digits)

end Literal

/-- A tree over literals, and an item of its notation. -/
abbrev Arith : Type := Tree Literal ForthOp

abbrev ArithItem : Type := Item Literal ForthOp

/-- What literals and operators mean. -/
def forth : Meaning Literal ForthOp (BitVec 32) := ⟨Literal.value, ForthOp.apply⟩

def itemText : ArithItem → List UInt8
  | .lit l => l.text
  | .op o => o.text

/-! ## Numbers -/

theorem isDigit_not_blank (c : UInt8) :
    isDigit c = true → c ≠ 0 ∧ isBlank c = false ∧ c ≠ 0x2D ∧ c ≠ 0x2B := by
  revert c
  exact forall_byte (by decide +kernel)

theorem atoiLoop_eq (s : List UInt8) (v : BitVec 32) : atoiLoop s v = (numberLoop s v).1 := by
  induction s generalizing v with
  | nil => rfl
  | cons b s ih =>
    rw [atoiLoop, numberLoop]
    split
    · exact ih _
    · rfl

theorem atoiLoop_digits {digits : List UInt8} (hd : ∀ b ∈ digits, isDigit b = true) :
    atoiLoop digits 0 = BitVec.ofNat 32 (Lexeme.digitsValue digits) := by
  have hloop := numberLoop_append (s := []) hd (by simp) 0
  rw [List.append_nil] at hloop
  rw [atoiLoop_eq, show (0 : BitVec 32) = BitVec.ofNat 32 0 from rfl, hloop]
  rfl

/-- The first character of the digits. -/
theorem Literal.peek_digits (l : Literal) : isDigit (peek l.digits) = true := by
  have hd := l.digits_ok
  cases hl : l.digits with
  | nil => exact absurd hl l.digits_ne
  | cons d ds =>
    rw [hl] at hd
    exact hd d List.mem_cons_self

theorem Literal.isNumber_text (l : Literal) : isNumber l.text = true := by
  obtain ⟨h0, -, hminus, hplus⟩ := isDigit_not_blank _ l.peek_digits
  have hall : allDigits l.digits = true := List.all_eq_true.mpr l.digits_ok
  rw [isNumber, Literal.text]
  cases l.sign with
  | bare => simp [Sign.text, h0, hminus, hplus, hall]
  | plus => simp [Sign.text, ascii, h0, hall]
  | minus => simp [Sign.text, ascii, h0, hall]

theorem Literal.atoi_text (l : Literal) : atoi l.text = l.value := by
  obtain ⟨-, hblank, hminus, hplus⟩ := isDigit_not_blank _ l.peek_digits
  have hloop := atoiLoop_digits l.digits_ok
  rw [Literal.text, Literal.value]
  cases l.sign with
  | bare =>
    have hskip : l.digits.dropWhile isBlank = l.digits := by
      cases hl : l.digits with
      | nil => rfl
      | cons d ds =>
        rw [hl] at hblank
        exact List.dropWhile_cons_of_neg (by simpa using hblank)
    rw [Sign.text, List.nil_append, atoi]
    simp only [hskip, if_neg hminus, if_neg hplus, hloop]
    exact BitVec.mul_one _
  | plus =>
    have hskip : (ascii "+" ++ l.digits).dropWhile isBlank = ascii "+" ++ l.digits := rfl
    rw [Sign.text, atoi, hskip]
    exact (congrArg (· * 1) hloop).trans (BitVec.mul_one _)
  | minus =>
    have hskip : (ascii "-" ++ l.digits).dropWhile isBlank = ascii "-" ++ l.digits := rfl
    rw [Sign.text, atoi, hskip]
    refine (congrArg (· * -1) hloop).trans ?_
    show BitVec.ofNat 32 _ * -1#32 = BitVec.ofInt 32 (-(Lexeme.digitsValue l.digits : Int))
    rw [BitVec.ofInt_neg, BitVec.ofInt_natCast, BitVec.mul_neg, BitVec.mul_one]

/-! ## Cells -/

/-- The cells below `sp`, the top one first. What is in the array above `sp` is left
over from earlier words, and is no part of the stack. -/
def stackCells (stack : Nat → BitVec 32) : Nat → List (BitVec 32)
  | 0 => []
  | sp + 1 => stack sp :: stackCells stack sp

def Lang.cells (s : Lang) : List (BitVec 32) := stackCells s.stack s.sp

/-- What arithmetic does not touch. -/
structure SameRest (s t : Lang) : Prop where
  vga : t.vga = s.vga
  heap : t.heap = s.heap

theorem SameRest.refl (s : Lang) : SameRest s s := ⟨rfl, rfl⟩

theorem SameRest.trans {s t u : Lang} (h : SameRest s t) (h' : SameRest t u) : SameRest s u :=
  ⟨h'.vga.trans h.vga, h'.heap.trans h.heap⟩

theorem length_stackCells (stack : Nat → BitVec 32) (n : Nat) :
    (stackCells stack n).length = n := by
  induction n with
  | zero => rfl
  | succ n ih => rw [stackCells, List.length_cons, ih]

theorem Lang.length_cells (s : Lang) : s.cells.length = s.sp := length_stackCells _ _

theorem stackCells_update (stack : Nat → BitVec 32) (v : BitVec 32) {n m : Nat} (h : n ≤ m) :
    stackCells (Function.update stack m v) n = stackCells stack n := by
  induction n with
  | zero => rfl
  | succ n ih =>
    rw [stackCells, stackCells, ih (Nat.le_of_succ_le h),
      Function.update_of_ne (Nat.ne_of_lt (Nat.lt_of_succ_le h))]

/-- `push`, with room for the word. -/
theorem Lang.push_cells (s : Lang) (v : BitVec 32) (h : s.sp < stackMax) :
    ∃ t, s.push v = some t ∧ t.cells = v :: s.cells ∧ SameRest s t := by
  refine ⟨_, dif_neg (Nat.not_le.mpr h), ?_, rfl, rfl⟩
  show Function.update s.stack s.sp v s.sp ::
    stackCells (Function.update s.stack s.sp v) s.sp = v :: stackCells s.stack s.sp
  rw [Function.update_self, stackCells_update _ _ (Nat.le_refl _)]

/-- `pop`, with a word to take. -/
theorem Lang.pop_cells {s : Lang} {v : BitVec 32} {c : List (BitVec 32)} (h : s.cells = v :: c) :
    ∃ t, s.pop = some (v, t) ∧ t.cells = c ∧ SameRest s t := by
  cases hsp : s.sp with
  | zero =>
    rw [Lang.cells, hsp] at h
    exact nomatch h
  | succ n =>
    rw [Lang.cells, hsp, stackCells, List.cons.injEq] at h
    obtain ⟨rfl, rfl⟩ := h
    have hpos : ¬ s.sp ≤ 0 := by
      rw [hsp]
      exact Nat.not_succ_le_zero n
    have htop : s.sp - 1 = n := by rw [hsp, Nat.succ_sub_one]
    refine ⟨{ s with sp := s.sp - 1, sp_le := Nat.le_trans (Nat.sub_le _ _) s.sp_le }, ?_, ?_,
      rfl, rfl⟩
    · rw [Lang.pop, if_neg hpos]
      simp only [htop]
    · show stackCells s.stack (s.sp - 1) = stackCells s.stack n
      rw [htop]

/-! ## Words -/

/-- The two operands of a word. -/
theorem binary_cells {s : Lang} {a b : BitVec 32} {c : List (BitVec 32)}
    (h : s.cells = b :: a :: c) (f : BitVec 32 → BitVec 32 → Lang → LangOut) :
    ∃ t, binary f s = f a b t ∧ t.cells = c ∧ SameRest s t := by
  obtain ⟨t, ht, hc, hs⟩ := Lang.pop_cells h
  obtain ⟨u, hu, hc', hs'⟩ := Lang.pop_cells hc
  refine ⟨u, ?_, hc', hs.trans hs'⟩
  simp only [binary, ht, hu]

theorem Lang.pushed_cells (s : Lang) (v : BitVec 32) (h : s.sp < stackMax) :
    (s.pushed v).cells = v :: s.cells ∧ SameRest s (s.pushed v) := by
  obtain ⟨t, ht, hc, hs⟩ := s.push_cells v h
  rw [Lang.pushed, ht]
  exact ⟨hc, hs⟩

/-- A word that looks like a number is none of the others. -/
theorem langWord_number {tok : List UInt8} (h : isNumber tok = true) {s t : Lang}
    (hpush : s.push (atoi tok) = some t) : langWord tok s = .running t := by
  have hne : ∀ w, isNumber w = false → tok ≠ w := by
    rintro w hw rfl
    rw [h] at hw
    exact nomatch hw
  rw [langWord, if_neg (not_or.mpr ⟨hne _ (by decide), hne _ (by decide)⟩),
    if_neg (hne _ (by decide)), if_neg (hne _ (by decide)), if_neg (hne _ (by decide)),
    if_neg (hne _ (by decide)), if_neg (hne _ (by decide)), if_neg (hne _ (by decide)),
    if_neg (hne _ (by decide)), if_neg (hne _ (by decide)), if_neg (hne _ (by decide)),
    if_neg (hne _ (by decide)), if_neg (hne _ (by decide)), if_neg (hne _ (by decide)), if_pos h]
  simp only [hpush]

/-- `/`, where there is a quotient. -/
theorem divide_eq {a b v : BitVec 32} (h : ForthOp.div.apply a b = some v) (s : Lang) :
    divide a b s = .running (s.pushed v) := by
  rw [ForthOp.apply] at h
  split at h
  · exact nomatch h
  · rename_i hno
    obtain ⟨hzero, hmin⟩ := not_or.mp hno
    have hb : b ≠ 0 := by
      rintro rfl
      exact hzero rfl
    have hfault : ¬ (a = BitVec.intMin 32 ∧ b = -1) := by
      rintro ⟨rfl, rfl⟩
      exact hmin ⟨by decide, by decide⟩
    have hv : a.sdiv b = v := by
      rw [← Option.some.inj h, ← BitVec.toInt_sdiv_of_ne_or_ne a b (not_and_or.mp hfault),
        BitVec.ofInt_toInt]
    rw [divide, if_neg hb, if_neg hfault, hv]

/-- The word of an operator pops `b`, then `a`, and pushes what the operator makes of them. -/
theorem langWord_op {o : ForthOp} {a b v : BitVec 32} (h : o.apply a b = some v) {s : Lang}
    {c : List (BitVec 32)} (hs : s.cells = b :: a :: c) :
    ∃ t, langWord o.text s = .running (t.pushed v) ∧ t.cells = c ∧ SameRest s t := by
  cases o with
  | add =>
    obtain ⟨t, ht, hrest⟩ := binary_cells hs fun a b s => .running (s.pushed (a + b))
    refine ⟨t, ?_, hrest⟩
    rw [← Option.some.inj h, BitVec.ofInt_add, BitVec.ofInt_toInt, BitVec.ofInt_toInt]
    exact ht
  | sub =>
    obtain ⟨t, ht, hrest⟩ := binary_cells hs fun a b s => .running (s.pushed (a - b))
    refine ⟨t, ?_, hrest⟩
    rw [← Option.some.inj h, Int.sub_eq_add_neg, BitVec.ofInt_add, BitVec.ofInt_neg,
      BitVec.ofInt_toInt, BitVec.ofInt_toInt, ← BitVec.sub_eq_add_neg]
    exact ht
  | mul =>
    obtain ⟨t, ht, hrest⟩ := binary_cells hs fun a b s => .running (s.pushed (a * b))
    refine ⟨t, ?_, hrest⟩
    rw [← Option.some.inj h, BitVec.ofInt_mul, BitVec.ofInt_toInt, BitVec.ofInt_toInt]
    exact ht
  | div =>
    obtain ⟨t, ht, hrest⟩ := binary_cells hs divide
    rw [divide_eq h] at ht
    exact ⟨t, ht, hrest⟩

/-- **An item's word is the machine's step.** A literal is pushed, and an operator takes
its two operands; what arithmetic does not touch stays. -/
theorem langWord_item {i : ArithItem} {s : Lang} {c : List (BitVec 32)}
    (h : step forth stackMax i s.cells = some c) :
    ∃ t, langWord (itemText i) s = .running t ∧ t.cells = c ∧ SameRest s t := by
  cases i with
  | lit l =>
    by_cases hroom : s.cells.length < stackMax
    · rw [step, if_pos hroom, Option.some.injEq] at h
      rw [s.length_cells] at hroom
      obtain ⟨t, ht, hc, hrest⟩ := s.push_cells l.value hroom
      rw [← l.atoi_text] at ht
      exact ⟨t, langWord_number l.isNumber_text ht, hc.trans h, hrest⟩
    · rw [step, if_neg hroom] at h
      cases h
  | op o =>
    obtain ⟨b, a, below, hcells⟩ : ∃ b a below, s.cells = b :: a :: below := by
      rcases hs : s.cells with _ | ⟨b, _ | ⟨a, below⟩⟩
      · rw [hs] at h
        cases h
      · rw [hs] at h
        cases h
      · exact ⟨b, a, below, rfl⟩
    rw [hcells, step] at h
    obtain ⟨v, hv, rfl⟩ := Option.map_eq_some_iff.mp h
    obtain ⟨t, ht, hc, hrest⟩ := langWord_op hv hcells
    have hlt : t.sp < stackMax := by
      have hsp := s.sp_le
      rw [← s.length_cells, hcells] at hsp
      rw [← t.length_cells, hc]
      exact Nat.lt_of_succ_lt hsp
    obtain ⟨hc', hrest'⟩ := t.pushed_cells v hlt
    exact ⟨t.pushed v, ht, by rw [hc', hc], hrest.trans hrest'⟩

/-! ## Lines -/

/-- A line with tokens between blanks. -/
inductive LineOf : List (List UInt8) → List UInt8 → Prop
  | done {b : List UInt8} : (∀ c ∈ b, isBlank c = true) → LineOf [] b
  | last {b tok : List UInt8} : (∀ c ∈ b, isBlank c = true) → LineOf [tok] (b ++ tok)
  | more {b tok : List UInt8} {c : UInt8} {toks : List (List UInt8)} {rest : List UInt8} :
      (∀ c ∈ b, isBlank c = true) → isBlank c = true → LineOf toks rest →
      LineOf (tok :: toks) (b ++ (tok ++ c :: rest))

/-- The items are laid on the lines, in their order; a line has at most 95 characters. A
line may have no item on it. -/
def Laid (is : List ArithItem) (lines : List (List UInt8)) : Prop :=
  ∃ groups : List (List ArithItem), groups.flatten = is ∧
    List.Forall₂ (fun g line => LineOf (g.map itemText) line ∧ line.length ≤ 95) groups lines

/-- What `next_tok` can return. -/
structure IsTok (tok : List UInt8) : Prop where
  ne_nil : tok ≠ []
  char : ∀ c ∈ tok, c ≠ 0 ∧ isBlank c = false

theorem ForthOp.isTok (o : ForthOp) : IsTok o.text := by
  cases o with
  | add => exact ⟨by decide, forall_mem_of_all (by decide)⟩
  | sub => exact ⟨by decide, forall_mem_of_all (by decide)⟩
  | mul => exact ⟨by decide, forall_mem_of_all (by decide)⟩
  | div => exact ⟨by decide, forall_mem_of_all (by decide)⟩

theorem Literal.isTok (l : Literal) : IsTok l.text := by
  have hsign : ∀ sign : Sign, ∀ c ∈ sign.text, c ≠ 0 ∧ isBlank c = false := by
    intro sign
    cases sign with
    | bare => exact forall_mem_of_all (by decide)
    | plus => exact forall_mem_of_all (by decide)
    | minus => exact forall_mem_of_all (by decide)
  refine ⟨fun h => l.digits_ne (List.append_eq_nil_iff.mp h).2, ?_⟩
  intro c hc
  rcases List.mem_append.mp hc with hc | hc
  · exact hsign l.sign c hc
  · obtain ⟨h0, hblank, -⟩ := isDigit_not_blank c (l.digits_ok c hc)
    exact ⟨h0, hblank⟩

theorem isTok_item (i : ArithItem) : IsTok (itemText i) := by
  cases i with
  | lit l => exact l.isTok
  | op o => exact o.isTok

theorem nextTok_blanks {b : List UInt8} (hb : ∀ c ∈ b, isBlank c = true) : nextTok b = none := by
  have hskip : b.dropWhile isBlank = [] := List.dropWhile_eq_nil_iff.mpr hb
  rw [nextTok, hskip]
  rfl

/-- A token at the end of the line, or in front of a blank. -/
theorem nextTok_tok {b tok tail : List UInt8} (hb : ∀ c ∈ b, isBlank c = true) (htok : IsTok tok)
    (htail : ∀ c ∈ tail.head?, isBlank c = true) :
    nextTok (b ++ (tok ++ tail)) = some (tok, tail.tail) := by
  obtain ⟨hne, hch⟩ := htok
  have hskip : (b ++ (tok ++ tail)).dropWhile isBlank = tok ++ tail := by
    rw [List.dropWhile_append_of_pos hb]
    cases tok with
    | nil => exact absurd rfl hne
    | cons d ds =>
      exact List.dropWhile_cons_of_neg (by simp [(hch d List.mem_cons_self).2])
  have hpeek : peek (tok ++ tail) ≠ 0 := by
    cases tok with
    | nil => exact absurd rfl hne
    | cons d ds => exact (hch d List.mem_cons_self).1
  have htake : (tok ++ tail).takeWhile (fun c => decide (c ≠ 0 ∧ isBlank c = false)) = tok := by
    rw [List.takeWhile_append_of_pos fun c hc => decide_eq_true (hch c hc)]
    cases tail with
    | nil => exact List.append_nil tok
    | cons c rest =>
      have hc := htail c rfl
      rw [List.takeWhile_cons_of_neg (by simp [hc]), List.append_nil]
  have hrest : (if peek tail = 0 then tail else tail.tail) = tail.tail := by
    cases tail with
    | nil => rfl
    | cons c rest =>
      have hc : ¬ c = 0 := by
        rintro rfl
        exact absurd (htail 0 rfl) (by decide)
      exact if_neg hc
  rw [nextTok, hskip]
  simp only [if_neg hpeek, htake, List.drop_left, hrest]

/-- The first token of a line, and the line behind it. -/
theorem nextTok_line {tok line : List UInt8} {toks : List (List UInt8)} (htok : IsTok tok)
    (h : LineOf (tok :: toks) line) :
    ∃ rest, nextTok line = some (tok, rest) ∧ LineOf toks rest ∧ rest.length < line.length := by
  have hpos := List.length_pos_of_ne_nil htok.ne_nil
  cases h with
  | @last b _ hb =>
    have hnext : nextTok (b ++ (tok ++ [])) = some (tok, []) := nextTok_tok hb htok (by simp)
    rw [List.append_nil] at hnext
    refine ⟨[], hnext, .done (by simp), ?_⟩
    rw [List.length_append]
    exact Nat.lt_of_lt_of_le hpos (Nat.le_add_left _ _)
  | @more b _ c _ rest hb hc hrest =>
    refine ⟨rest, nextTok_tok hb htok ?_, hrest, ?_⟩
    · intro d hd
      obtain rfl : c = d := Option.some.inj hd
      exact hc
    · simp only [List.length_append, List.length_cons]
      omega

/-- **A line of items is a run of the machine.** -/
theorem tokLoop_line {is : List ArithItem} {n : Nat} {line : List UInt8} {s : Lang}
    {c : List (BitVec 32)} (h : LineOf (is.map itemText) line) (hn : line.length ≤ n)
    (hrun : run forth stackMax is s.cells = some c) :
    ∃ t, tokLoop n line s = .running t ∧ t.cells = c ∧ SameRest s t := by
  induction is generalizing n line s with
  | nil =>
    refine ⟨s, ?_, Option.some.inj hrun, SameRest.refl s⟩
    cases h with
    | done hb =>
      cases n with
      | zero => rfl
      | succ n =>
        rw [tokLoop, nextTok_blanks hb]
  | cons i is ih =>
    obtain ⟨rest, hnext, hrest, hlt⟩ := nextTok_line (isTok_item i) h
    obtain ⟨c', hstep, hrun⟩ := Option.bind_eq_some_iff.mp hrun
    obtain ⟨t, ht, hc, hsame⟩ := langWord_item hstep
    cases n with
    | zero => exact absurd (Nat.lt_of_lt_of_le hlt hn) (Nat.not_lt_zero _)
    | succ n =>
      obtain ⟨u, hu, hc', hsame'⟩ := ih (n := n) (s := t) hrest
        (Nat.le_of_lt_succ (Nat.lt_of_lt_of_le hlt hn)) (by rw [hc]; exact hrun)
      refine ⟨u, ?_, hc', hsame.trans hsame'⟩
      simp only [tokLoop, hnext, ht, hu]

/-- The prompt in front of every line. -/
def prompt (v : Vga) : Vga := vgaPuts (ascii "forth> ") v

theorem Lang.puts_cells (str : List UInt8) (s : Lang) : (s.puts str).cells = s.cells := rfl

theorem Lang.puts_heap (str : List UInt8) (s : Lang) : (s.puts str).heap = s.heap := rfl

theorem puts_prompt (s : Lang) : (s.puts (ascii "forth> ")).vga = prompt s.vga := rfl

/-- **So are lines**: the stack stays from one to the next, and nothing but the prompts is
shown. -/
theorem langLoop_laid {is : List ArithItem} {lines : List (List UInt8)} {s : Lang}
    {c : List (BitVec 32)} (h : Laid is lines) (hrun : run forth stackMax is s.cells = some c) :
    ∃ t, langLoop lines s = .running t ∧ t.cells = c ∧ t.vga = prompt^[lines.length] s.vga ∧
      t.heap = s.heap := by
  obtain ⟨groups, rfl, hlines⟩ := h
  induction hlines generalizing s with
  | nil => exact ⟨s, rfl, Option.some.inj hrun, rfl, rfl⟩
  | @cons g line groups lines hg _ ih =>
    obtain ⟨hline, hlen⟩ := hg
    rw [List.flatten_cons, run_append] at hrun
    obtain ⟨c', hrun, hrest⟩ := Option.bind_eq_some_iff.mp hrun
    have hkeep : line.take (langLine - 1) = line := List.take_of_length_le hlen
    rw [← Lang.puts_cells (ascii "forth> ") s] at hrun
    obtain ⟨t, ht, hc, hsame⟩ := tokLoop_line hline (Nat.le_refl _) hrun
    obtain ⟨u, hu, hcu, hvga, hheap⟩ := ih (s := t) (by rw [hc]; exact hrest)
    refine ⟨u, ?_, hcu, ?_, ?_⟩
    · simp only [langLoop, hkeep, ht, hu]
    · rw [hvga, hsame.vga, puts_prompt, List.length_cons, Function.iterate_succ_apply]
    · rw [hheap, hsame.heap, Lang.puts_heap]

/-- **Forth evaluates postfix**: on a stack with room for it, the notation of a tree that has a
value pushes that value, and leaves what was there. -/
theorem forth_evaluates {t : Arith} {v : BitVec 32} (hv : t.value forth = some v) {s : Lang}
    (hfits : Fits stackMax s.cells.length t.items) {lines : List (List UInt8)}
    (hlaid : Laid t.items lines) :
    ∃ s', langLoop lines s = .running s' ∧ s'.cells = v :: s.cells ∧
      s'.vga = prompt^[lines.length] s.vga ∧ s'.heap = s.heap :=
  langLoop_laid hlaid (run_items t hv hfits)

/-- A session of the prompt starts with an empty stack, and ends with the value alone on it. -/
theorem langRepl_value {t : Arith} {v : BitVec 32} (hv : t.value forth = some v) (s : Lang)
    (hfits : Fits stackMax 0 t.items) {lines : List (List UInt8)} (hlaid : Laid t.items lines) :
    ∃ s', langRepl lines s = .running s' ∧ s'.cells = [v] := by
  rw [langRepl]
  generalize hs : Lang.puts _ (Lang.puts _ _) = start
  have hempty : start.cells = [] := by
    rw [← hs, Lang.puts_cells, Lang.puts_cells]
    rfl
  have hrun : run forth stackMax t.items start.cells = some (v :: start.cells) :=
    run_items t hv (by rw [hempty]; exact hfits)
  obtain ⟨s', hout, hc, -⟩ := langLoop_laid hlaid hrun
  exact ⟨s', hout, by rw [hc, hempty]⟩

/-- `-7 +2 /` -/
def demoArith : Arith :=
  .node .div (.lit ⟨.minus, ascii "7", by decide, forall_mem_of_all (by decide), by decide⟩)
    (.lit ⟨.plus, ascii "2", by decide, forall_mem_of_all (by decide), by decide⟩)

/-- A stack that holds a 9. -/
def demoLang : Lang where
  stack := fun _ => 9
  sp := 1
  vga := ⟨⟨fun _ => 0, 0⟩, 0, 0, 7, 0⟩
  heap := memoryInit 0
  sp_le := by decide

/-- On three lines, with a tab and spare blanks: -3 on the 9. -/
theorem forth_evaluates_demo :
    ∃ s', langLoop [ascii "-7\t", ascii "+2", ascii "  / "] demoLang = .running s' ∧
      s'.cells = [-3, 9] := by
  have hlaid : Laid demoArith.items [ascii "-7\t", ascii "+2", ascii "  / "] := by
    refine ⟨[[demoArith.items[0]], [demoArith.items[1]], [demoArith.items[2]]], rfl,
      .cons ⟨?_, by decide⟩ (.cons ⟨?_, by decide⟩ (.cons ⟨?_, by decide⟩ .nil))⟩
    · exact .more (b := []) (by simp) (by decide) (.done (b := []) (by simp))
    · exact .last (b := []) (by simp)
    · exact .more (b := ascii "  ") (forall_mem_of_all (by decide)) (by decide)
        (.done (b := []) (by simp))
  have hv : demoArith.value forth = some (-3) := by decide
  obtain ⟨s', hs, hc, -⟩ := forth_evaluates hv (s := demoLang)
    ⟨by decide, by decide, trivial⟩ hlaid
  exact ⟨s', hs, hc⟩

end OsU
