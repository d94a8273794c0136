import OsU.Proof.Forth
import OsU.Proof.Precedence

/-!
# The stack of the Forth prompt

`stackWord` is what each word does, on a list of cells with the top one first;
`langWord_stackWord` is that `lang_repl` does it. The operands of a word are popped one
by one, so an operator that finds one cell only has popped it when it finds that there
is no second.

The list says what a word is meant to do to the stack, and with it what it shows, since
whether a word has reported an error can be told from the text alone. The messages are a
list (`errorTexts`), and it has to be checked that nothing else a word shows is one of
them, numbers in particular.

All words of the prompt are covered, the one that ends it included; the heap is there
only because `mem` shows how much of it is used.
-/

set_option autoImplicit false

namespace OsU

open CString

/-! ## What a word does -/

/-- What a word comes to: the cells and the text it has shown, the end of the prompt, or
a fault of the machine. -/
inductive WordOut where
  /-- The prompt goes on with these cells, and has shown this text. -/
  | next (cells : List (BitVec 32)) (text : List UInt8)
  | left
  | fault

/-- A word of two operands. Those that are there are popped. -/
def arith (f : BitVec 32 → BitVec 32 → List (BitVec 32) → WordOut) : List (BitVec 32) → WordOut
  | b :: a :: c => f a b c
  | _ => .next [] (ascii "stack underflow\n")

def quotient (a b : BitVec 32) (c : List (BitVec 32)) : WordOut :=
  if b = 0 then .next (b :: a :: c) (ascii "div by zero\n")
  else if a = BitVec.intMin 32 ∧ b = -1 then .fault
  else .next (a.sdiv b :: c) []

/-- A cell on top of those there are, if there is room for it. -/
def pushCell (v : BitVec 32) (full : List UInt8) (c : List (BitVec 32)) : WordOut :=
  if c.length < stackMax then .next (v :: c) [] else .next c full

/-- What `.s` shows. -/
def stackText (c : List (BitVec 32)) : List UInt8 :=
  ascii "<" ++ vgaPrintDec (BitVec.ofNat 32 c.length) ++ ascii "> " ++
    c.reverse.flatMap (fun v => vgaPrintDec v ++ [0x20]) ++ [0x0A]

/-- A word on a stack that is a list, with what `mem` will say is used. It follows the
loop of `lang_repl` word by word, in its order, so a number is tried last; the 128
cells are those of `pushCell`. -/
def stackWord (used : BitVec 32) (tok : List UInt8) (c : List (BitVec 32)) : WordOut :=
  if tok = ascii "bye" ∨ tok = ascii "exit" then .left
  else if tok = ascii "+" then arith (fun a b c => .next ((a + b) :: c) []) c
  else if tok = ascii "-" then arith (fun a b c => .next ((a - b) :: c) []) c
  else if tok = ascii "*" then arith (fun a b c => .next ((a * b) :: c) []) c
  else if tok = ascii "/" then arith quotient c
  else if tok = ascii "dup" then
    match c with
    | [] => .next [] (ascii "stack error\n")
    | v :: c => pushCell v (ascii "stack error\n") (v :: c)
  else if tok = ascii "drop" then
    match c with
    | [] => .next [] (ascii "stack underflow\n")
    | _ :: c => .next c []
  else if tok = ascii "swap" then
    match c with
    | b :: a :: c => .next (a :: b :: c) []
    | c => .next c (ascii "stack underflow\n")
  else if tok = ascii "." then
    match c with
    | [] => .next [] (ascii "stack underflow\n")
    | v :: c => .next c (vgaPrintDec v ++ [0x0A])
  else if tok = ascii ".s" then .next c (stackText c)
  else if tok = ascii "mem" then
    .next c (ascii "heap used: " ++ vgaPrintDec used ++ ascii " bytes\n")
  else if tok = ascii "clear" then .next [] []
  else if tok = ascii "words" then
    .next c (ascii "+ - * / dup drop swap . .s mem clear words bye\n")
  else if isNumber tok then pushCell (atoi tok) (ascii "stack full\n") c
  else .next c (ascii "unknown word: " ++ strcpy tok ++ [0x0A])

/-! ## The screen -/

/-- A text on the screen. -/
def shown (text : List UInt8) (v : Vga) : Vga := text.foldl (fun v c => vgaPutc c v) v

theorem shown_append (t t' : List UInt8) (v : Vga) : shown (t ++ t') v = shown t' (shown t v) :=
  List.foldl_append

theorem vgaDecLoop_digits (n value : Nat) (buf : List UInt8) (hbuf : ∀ b ∈ buf, isDigit b = true) :
    ∀ b ∈ vgaDecLoop n value buf, isDigit b = true := by
  induction n generalizing value buf with
  | zero => exact hbuf
  | succ n ih =>
    rw [vgaDecLoop]
    split
    · exact hbuf
    · refine ih _ _ fun b hb => ?_
      rcases List.mem_cons.mp hb with rfl | hb
      · exact isDigit_ofNat (Nat.mod_lt value (by decide))
      · exact hbuf b hb

/-- A number is shown as digits. -/
theorem vgaPrintDec_digits (v : BitVec 32) : ∀ b ∈ vgaPrintDec v, isDigit b = true := by
  rw [vgaPrintDec]
  split
  · exact forall_mem_of_all (by decide)
  · exact vgaDecLoop_digits 10 v.toNat [] fun b hb => absurd hb List.not_mem_nil

theorem vgaPrintDec_no_zero (v : BitVec 32) : (0 : UInt8) ∉ vgaPrintDec v := fun hz =>
  absurd (vgaPrintDec_digits v 0 hz) (by decide)

/-- From `s` to `t`, a text has been shown and nothing else was done. -/
structure Showed (text : List UInt8) (s t : Lang) : Prop where
  stack : t.stack = s.stack
  sp : t.sp = s.sp
  heap : t.heap = s.heap
  vga : t.vga = shown text s.vga

namespace Showed

variable {text : List UInt8} {s t : Lang}

theorem nil (s : Lang) : Showed [] s s := ⟨rfl, rfl, rfl, rfl⟩

theorem puts_any (h : Showed text s t) (str : List UInt8) :
    Showed (text ++ strcpy str) s (t.puts str) := by
  refine ⟨h.stack, h.sp, h.heap, ?_⟩
  rw [shown_append, ← h.vga]
  rfl

theorem puts (h : Showed text s t) (str : List UInt8) (hz : (0 : UInt8) ∉ str) :
    Showed (text ++ str) s (t.puts str) := by
  have hshow := h.puts_any str
  rwa [strcpy_eq hz] at hshow

theorem putc (h : Showed text s t) (c : UInt8) : Showed (text ++ [c]) s (t.putc c) := by
  refine ⟨h.stack, h.sp, h.heap, ?_⟩
  rw [shown_append, ← h.vga]
  rfl

theorem cells (h : Showed text s t) : t.cells = s.cells := by
  rw [Lang.cells, Lang.cells, h.stack, h.sp]

/-- The loop of `.s`. -/
theorem printLoop (h : Showed text s t) (n i : Nat) :
    Showed (text ++ (List.range' i n).flatMap fun j => vgaPrintDec (s.stack j) ++ [0x20]) s
      (Lang.printLoop n i t) := by
  induction n generalizing i text t with
  | zero =>
    rw [List.range'_zero, List.flatMap_nil, List.append_nil]
    exact h
  | succ n ih =>
    rw [List.range'_succ, List.flatMap_cons, ← List.append_assoc, ← List.append_assoc]
    refine ih ?_ (i + 1)
    rw [← h.stack]
    exact (h.puts _ (vgaPrintDec_no_zero _)).putc 0x20

end Showed

theorem stackCells_reverse (stack : Nat → BitVec 32) (n : Nat) :
    (stackCells stack n).reverse = (List.range' 0 n).map stack := by
  induction n with
  | zero => rfl
  | succ n ih =>
    rw [stackCells, List.reverse_cons, ih, List.range'_concat, List.map_append, Nat.zero_add,
      Nat.one_mul]
    rfl

theorem showed_printStack (s : Lang) : Showed (stackText s.cells) s s.printStack := by
  have hhead := (((Showed.nil s).puts (ascii "<") (by decide)).puts
    _ (vgaPrintDec_no_zero (BitVec.ofNat 32 s.sp))).puts (ascii "> ") (by decide)
  rw [List.nil_append] at hhead
  unfold Lang.printStack
  dsimp only
  generalize ((s.puts (ascii "<")).puts _).puts (ascii "> ") = u at hhead ⊢
  have h := (hhead.printLoop u.sp 0).putc 0x0A
  rw [hhead.sp] at h ⊢
  rw [stackText, s.length_cells, Lang.cells, stackCells_reverse, List.flatMap_map]
  exact h

/-! ## `lang_repl` does it -/

/-- The prompt comes to `o`. -/
def Realises (o : WordOut) (s : Lang) (out : LangOut) : Prop :=
  match o with
  | .next c text =>
    ∃ t, out = .running t ∧ t.cells = c ∧ t.vga = shown text s.vga ∧ t.heap = s.heap
  | .left => ∃ t, out = .left t
  | .fault => out = .divideError

section Words

variable {s t : Lang} {c : List (BitVec 32)} {o o' : WordOut} {out out' : LangOut}

theorem Realises.ite {p : Prop} [Decidable p] (h : p → Realises o s out)
    (h' : ¬p → Realises o' s out') :
    Realises (if p then o else o') s (if p then out else out') := by
  by_cases hp : p
  · rw [if_pos hp, if_pos hp]
    exact h hp
  · rw [if_neg hp, if_neg hp]
    exact h' hp

theorem Realises.of_sameRest (h : Realises o t out) (hs : SameRest s t) : Realises o s out := by
  cases o with
  | next c text =>
    obtain ⟨u, hu, hc, hv, hh⟩ := h
    exact ⟨u, hu, hc, hv.trans (congrArg _ hs.vga), hh.trans hs.heap⟩
  | left => exact h
  | fault => exact h

/-- A word that shows a text and does nothing else. -/
theorem Showed.realises {text : List UInt8} (h : Showed text s t) :
    Realises (.next s.cells text) s (.running t) :=
  ⟨t, rfl, h.cells, h.vga, h.heap⟩

theorem realises_puts (h : s.cells = c) (text : List UInt8) (hz : (0 : UInt8) ∉ text) :
    Realises (.next c text) s (.running (s.puts text)) :=
  h ▸ ((Showed.nil s).puts text hz).realises

theorem Lang.pop_nil (h : s.cells = []) : s.pop = none := by
  have hsp := s.length_cells
  rw [h, List.length_nil] at hsp
  exact if_pos hsp.symm.le

theorem realises_pushCell (v : BitVec 32) {full : List UInt8} (hz : (0 : UInt8) ∉ full)
    (h : s.cells = c) : Realises (pushCell v full c) s
      (match s.push v with
        | none => .running (s.puts full)
        | some s => .running s) := by
  have hlen := s.length_cells
  rw [h] at hlen
  rw [pushCell]
  split
  · rename_i hroom
    obtain ⟨t, ht, hc, hsame⟩ := s.push_cells v (hlen ▸ hroom)
    rw [ht]
    exact ⟨t, rfl, by rw [hc, h], hsame.vga, hsame.heap⟩
  · rename_i hfull
    have hnone : s.push v = none := dif_pos (Nat.not_lt.mp (hlen ▸ hfull))
    rw [hnone]
    exact realises_puts h full hz

theorem realises_pushed (v : BitVec 32) (h : s.cells = c) (hroom : c.length < stackMax) :
    Realises (.next (v :: c) []) s (.running (s.pushed v)) := by
  obtain ⟨hc, hsame⟩ := s.pushed_cells v (by rwa [← s.length_cells, h])
  exact ⟨_, rfl, by rw [hc, h], hsame.vga, hsame.heap⟩

/-- A word of two operands, with what it does when it has them. -/
theorem realises_binary {f : BitVec 32 → BitVec 32 → List (BitVec 32) → WordOut}
    {g : BitVec 32 → BitVec 32 → Lang → LangOut}
    (h : ∀ a b t, t.cells.length + 2 ≤ stackMax → Realises (f a b t.cells) t (g a b t)) :
    Realises (arith f s.cells) s (binary g s) := by
  rcases hc : s.cells with _ | ⟨b, _ | ⟨a, c⟩⟩
  · rw [binary, Lang.pop_nil hc]
    exact realises_puts hc _ (by decide)
  · -- `b` has been popped
    obtain ⟨t, ht, htc, hsame⟩ := Lang.pop_cells hc
    rw [binary, ht]
    dsimp only
    rw [Lang.pop_nil htc]
    exact (realises_puts htc _ (by decide)).of_sameRest hsame
  · obtain ⟨t, ht, rfl, hsame⟩ := binary_cells hc g
    rw [ht]
    have hlen := s.sp_le
    rw [← s.length_cells, hc] at hlen
    exact (h a b t hlen).of_sameRest hsame

theorem realises_divide (a b : BitVec 32) (h : t.cells.length + 2 ≤ stackMax) :
    Realises (quotient a b t.cells) t (divide a b t) := by
  refine Realises.ite (fun _ => ?_) fun _ => Realises.ite (fun _ => rfl) fun _ => ?_
  · obtain ⟨u, hu, hc, hv, hh⟩ := realises_puts (s := t) rfl (ascii "div by zero\n") (by decide)
    obtain rfl := LangOut.running.inj hu
    have hsp : (t.puts (ascii "div by zero\n")).sp < stackMax := by
      rw [← Lang.length_cells, hc]
      omega
    obtain ⟨hca, hsa⟩ := Lang.pushed_cells _ a hsp
    have hsp' : ((t.puts (ascii "div by zero\n")).pushed a).sp < stackMax := by
      rw [← Lang.length_cells, hca, List.length_cons, hc]
      omega
    obtain ⟨hcb, hsb⟩ := Lang.pushed_cells _ b hsp'
    refine ⟨_, rfl, by rw [hcb, hca, hc], ?_, ?_⟩
    · rw [hsb.vga, hsa.vga, hv]
    · rw [hsb.heap, hsa.heap, hh]
  · exact realises_pushed _ rfl (by omega)

theorem Lang.swap_cells {a b : BitVec 32} (h : s.cells = b :: a :: c) :
    s.swap.cells = a :: b :: c := by
  have hlen := s.length_cells
  rw [h, List.length_cons, List.length_cons] at hlen
  rw [Lang.cells, ← hlen, stackCells, stackCells] at h
  obtain ⟨rfl, rfl, hc⟩ : s.stack (c.length + 1) = b ∧ s.stack c.length = a ∧
      stackCells s.stack c.length = c := by
    simpa using h
  rw [Lang.cells, Lang.swap]
  dsimp only
  rw [← hlen, stackCells, stackCells]
  have hone : c.length + 1 + 1 - 1 = c.length + 1 := rfl
  have htwo : c.length + 1 + 1 - 2 = c.length := rfl
  rw [hone, htwo, Function.update_of_ne (Nat.succ_ne_self _), Function.update_self,
    Function.update_self, stackCells_update _ _ (Nat.le_refl _),
    stackCells_update _ _ (Nat.le_succ _), hc]

/-- **Words.** `lang_repl` does what `stackWord` says. -/
theorem langWord_stackWord (tok : List UInt8) (s : Lang) :
    Realises (stackWord (s.heap.heapCurr - s.heap.heapStart) tok s.cells) s (langWord tok s) := by
  unfold stackWord langWord
  -- One word after the other, in the order in which the source compares them.
  refine .ite (fun _ => ⟨_, rfl⟩) fun _ => ?_
  refine .ite (fun _ => ?_) fun _ => ?_
  · exact realises_binary fun a b t h => realises_pushed (a + b) rfl (by omega)
  refine .ite (fun _ => ?_) fun _ => ?_
  · exact realises_binary fun a b t h => realises_pushed (a - b) rfl (by omega)
  refine .ite (fun _ => ?_) fun _ => ?_
  · exact realises_binary fun a b t h => realises_pushed (a * b) rfl (by omega)
  refine .ite (fun _ => realises_binary fun a b t h => realises_divide a b h) fun _ => ?_
  refine .ite (fun _ => ?dup) fun _ => ?_
  case dup =>
    have hlen := s.length_cells
    rcases hc : s.cells with _ | ⟨v, c⟩
    · rw [hc, List.length_nil] at hlen
      rw [if_pos hlen.symm.le]
      exact realises_puts hc _ (by decide)
    · rw [hc, List.length_cons] at hlen
      have htop : s.stack (s.sp - 1) = v := by
        rw [Lang.cells, ← hlen, stackCells] at hc
        rw [← hlen]
        exact (List.cons.inj hc).1
      rw [if_neg (by omega), htop]
      exact realises_pushCell v (by decide) hc
  refine .ite (fun _ => ?drop) fun _ => ?_
  case drop =>
    rcases hc : s.cells with _ | ⟨v, c⟩
    · rw [Lang.pop_nil hc]
      exact realises_puts hc _ (by decide)
    · obtain ⟨t, ht, htc, hsame⟩ := Lang.pop_cells hc
      rw [ht]
      exact ⟨t, rfl, htc, hsame.vga, hsame.heap⟩
  refine .ite (fun _ => ?swap) fun _ => ?_
  case swap =>
    have hlen := s.length_cells
    rcases hc : s.cells with _ | ⟨b, _ | ⟨a, c⟩⟩
    · rw [hc, List.length_nil] at hlen
      rw [if_pos (by omega)]
      exact realises_puts hc _ (by decide)
    · rw [hc, List.length_singleton] at hlen
      rw [if_pos (by omega)]
      exact realises_puts hc _ (by decide)
    · rw [hc, List.length_cons, List.length_cons] at hlen
      rw [if_neg (by omega)]
      exact ⟨s.swap, rfl, Lang.swap_cells hc, rfl, rfl⟩
  refine .ite (fun _ => ?print) fun _ => ?_
  case print =>
    rcases hc : s.cells with _ | ⟨v, c⟩
    · rw [Lang.pop_nil hc]
      exact realises_puts hc _ (by decide)
    · obtain ⟨t, ht, htc, hsame⟩ := Lang.pop_cells hc
      rw [ht]
      have hshow := ((Showed.nil t).puts _ (vgaPrintDec_no_zero v)).putc 0x0A
      exact (htc ▸ hshow.realises).of_sameRest hsame
  refine .ite (fun _ => (showed_printStack s).realises) fun _ => ?_
  refine .ite (fun _ => ?mem) fun _ => ?_
  case mem =>
    have hshow := ((Showed.nil s).puts (ascii "heap used: ") (by decide)).puts
      _ (vgaPrintDec_no_zero (s.heap.heapCurr - s.heap.heapStart))
    exact (hshow.puts _ (by decide)).realises
  refine .ite (fun _ => ⟨_, rfl, rfl, rfl, rfl⟩) fun _ => ?_
  refine .ite (fun _ => realises_puts rfl _ (by decide)) fun _ => ?_
  refine .ite (fun _ => realises_pushCell _ (by decide) rfl) fun _ => ?_
  -- Nothing has matched, and it is no number: the word is named on the screen.
  have hshow := (Showed.nil s).puts (ascii "unknown word: ") (by decide)
  exact ((hshow.puts_any tok).putc 0x0A).realises

end Words

/-! ## Errors

An error is a message that says a word could not be executed. Every word is looked at:
those with one operand look before they pop, and only an operator pops one cell and then
finds no second. -/

/-- The messages about a word that cannot be executed. -/
def errorTexts : List (List UInt8) :=
  [ascii "stack underflow\n", ascii "stack error\n", ascii "stack full\n", ascii "div by zero\n"]

/-- The words of two operands. -/
def binaryWords : List (List UInt8) := [ascii "+", ascii "-", ascii "*", ascii "/"]

/-- The text a word shows. -/
def wordText (tok : List UInt8) (s : Lang) : List UInt8 :=
  match stackWord (s.heap.heapCurr - s.heap.heapStart) tok s.cells with
  | .next _ text => text
  | _ => []

/-- A word that reports an error leaves the stack as it was: the same cells, in the same
order. -/
def KeepsStack (tok : List UInt8) (s : Lang) : Prop :=
  ∀ t, langWord tok s = .running t → wordText tok s ∈ errorTexts →
    t.sp = s.sp ∧ ∀ i < s.sp, t.stack i = s.stack i

section Errors

variable {tok : List UInt8} {s t : Lang} {c : List (BitVec 32)}

theorem langWord_next (h : langWord tok s = .running t) :
    stackWord (s.heap.heapCurr - s.heap.heapStart) tok s.cells =
      .next t.cells (wordText tok s) ∧ t.vga = shown (wordText tok s) s.vga := by
  have hdoes := langWord_stackWord tok s
  rw [h] at hdoes
  rw [wordText]
  generalize stackWord _ tok s.cells = o at hdoes
  cases o with
  | next c text =>
    obtain ⟨u, hu, rfl, hv, -⟩ := hdoes
    obtain rfl := LangOut.running.inj hu
    exact ⟨rfl, hv⟩
  | left => exact nomatch hdoes
  | fault => exact nomatch hdoes

/-- Where `p` fails, a message about an error comes with the cells that there were. -/
def Stays (p : Prop) (c : List (BitVec 32)) : WordOut → Prop
  | .next c' text => text ∈ errorTexts → c' = c ∨ p
  | _ => True

theorem kept_same (p : Prop) (c : List (BitVec 32)) (text : List UInt8) :
    Stays p c (.next c text) := fun _ => Or.inl rfl

theorem kept_silent (p : Prop) (c c' : List (BitVec 32)) : Stays p c (.next c' []) :=
  fun h => absurd h (by decide)

theorem kept_pushCell (p : Prop) (v : BitVec 32) (full : List UInt8) (c : List (BitVec 32)) :
    Stays p c (pushCell v full c) :=
  iteInduction (fun _ => kept_silent p c _) fun _ => kept_same p c full

theorem kept_arith {f : BitVec 32 → BitVec 32 → List (BitVec 32) → WordOut}
    (hf : ∀ p a b c, Stays p (b :: a :: c) (f a b c)) (htok : tok ∈ binaryWords)
    (c : List (BitVec 32)) : Stays (tok ∈ binaryWords ∧ c.length = 1) c (arith f c) := by
  rcases c with _ | ⟨b, _ | ⟨a, c⟩⟩
  · exact kept_same _ _ _
  · exact fun _ => Or.inr ⟨htok, rfl⟩
  · exact hf _ a b c

theorem kept_quotient (p : Prop) (a b : BitVec 32) (c : List (BitVec 32)) :
    Stays p (b :: a :: c) (quotient a b c) :=
  iteInduction (fun _ => kept_same p _ _)
    fun _ => iteInduction (fun _ => trivial) fun _ => kept_silent p _ _

/-- A number is no error. -/
theorem number_not_error (v : BitVec 32) : vgaPrintDec v ++ [0x0A] ∉ errorTexts := by
  have hletter : ∀ text ∈ errorTexts, ∃ b ∈ text, isDigit b = false ∧ b ≠ 0x0A := by
    decide
  intro h
  obtain ⟨b, hb, hdigit, hline⟩ := hletter _ h
  rcases List.mem_append.mp hb with hb | hb
  · exact absurd (vgaPrintDec_digits v b hb) (by rw [hdigit]; exact Bool.false_ne_true)
  · exact hline (List.mem_singleton.mp hb)

/-- **Every word but an operator on a single cell.** One case for each word; those that
need an operand look for it before they take it, except when they need a second. -/
theorem stackWord_kept (used : BitVec 32) (tok : List UInt8) (c : List (BitVec 32)) :
    Stays (tok ∈ binaryWords ∧ c.length = 1) c (stackWord used tok c) := by
  unfold stackWord
  -- A word that prints an error has left the stack alone, but for the arithmetic ones,
  -- which have popped the one cell there was.
  refine iteInduction (fun _ => trivial) fun _ => ?_
  refine iteInduction (fun h => ?_) fun _ => ?_
  · exact kept_arith (fun p _ _ _ => kept_silent p _ _) (h ▸ by decide) c
  refine iteInduction (fun h => ?_) fun _ => ?_
  · exact kept_arith (fun p _ _ _ => kept_silent p _ _) (h ▸ by decide) c
  refine iteInduction (fun h => ?_) fun _ => ?_
  · exact kept_arith (fun p _ _ _ => kept_silent p _ _) (h ▸ by decide) c
  refine iteInduction (fun h => kept_arith kept_quotient (h ▸ by decide) c) fun _ => ?_
  refine iteInduction (fun _ => ?dup) fun _ => ?_
  case dup =>
    cases c with
    | nil => exact kept_same _ _ _
    | cons v c => exact kept_pushCell _ _ _ _
  refine iteInduction (fun _ => ?drop) fun _ => ?_
  case drop =>
    cases c with
    | nil => exact kept_same _ _ _
    | cons v c => exact kept_silent _ _ _
  refine iteInduction (fun _ => ?swap) fun _ => ?_
  case swap =>
    rcases c with _ | ⟨b, _ | ⟨a, c⟩⟩
    · exact kept_same _ _ _
    · exact kept_same _ _ _
    · exact kept_silent _ _ _
  refine iteInduction (fun _ => ?print) fun _ => ?_
  case print =>
    cases c with
    | nil => exact kept_same _ _ _
    | cons v c => exact fun h => absurd h (number_not_error v)
  refine iteInduction (fun _ => kept_same _ _ _) fun _ => ?_
  refine iteInduction (fun _ => kept_same _ _ _) fun _ => ?_
  refine iteInduction (fun _ => kept_silent _ _ _) fun _ => ?_
  refine iteInduction (fun _ => kept_same _ _ _) fun _ => ?_
  exact iteInduction (fun _ => kept_pushCell _ _ _ _) fun _ => kept_same _ _ _

theorem stackCells_inj {f g : Nat → BitVec 32} {n : Nat} (h : stackCells f n = stackCells g n) :
    ∀ i < n, f i = g i := by
  induction n with
  | zero => exact fun i hi => absurd hi (Nat.not_lt_zero i)
  | succ n ih =>
    obtain ⟨htop, hrest⟩ := List.cons.inj h
    intro i hi
    rcases Nat.lt_succ_iff_lt_or_eq.mp hi with hlt | rfl
    · exact ih hrest i hlt
    · exact htop

/-- An operator that finds one cell shows an error, and the cell is gone. -/
theorem langWord_one_cell (htok : tok ∈ binaryWords) (hs : s.sp = 1) :
    ∃ t, langWord tok s = .running t ∧ wordText tok s ∈ errorTexts ∧ t.sp = 0 := by
  have hlen := s.length_cells
  rw [hs] at hlen
  obtain ⟨b, hb⟩ := List.length_eq_one_iff.mp hlen
  have hword : ∀ used, stackWord used tok [b] = .next [] (ascii "stack underflow\n") := by
    intro used
    simp only [binaryWords, List.mem_cons, List.not_mem_nil, or_false] at htok
    obtain rfl | rfl | rfl | rfl := htok <;> rfl
  have hdoes := langWord_stackWord tok s
  rw [hb, hword] at hdoes
  obtain ⟨t, ht, hc, -⟩ := hdoes
  refine ⟨t, ht, ?_, ?_⟩
  · rw [wordText, hb, hword]
    decide
  · rw [← t.length_cells, hc, List.length_nil]

/-- **Errors leave the stack alone** for every word and every stack, except where an operator finds
a single cell. Whether there is an error is read off the text on the screen. -/
theorem keepsStack_iff (tok : List UInt8) (s : Lang) :
    (∀ t, langWord tok s = .running t → t.vga = shown (wordText tok s) s.vga) ∧
      (KeepsStack tok s ↔ ¬(tok ∈ binaryWords ∧ s.sp = 1)) := by
  refine ⟨fun t ht => (langWord_next ht).2, ?_, ?_⟩
  · rintro h ⟨htok, hs⟩
    obtain ⟨t, ht, herror, hsp⟩ := langWord_one_cell htok hs
    have hkeep := (h t ht herror).1
    omega
  · intro h t ht herror
    have hkept := stackWord_kept (s.heap.heapCurr - s.heap.heapStart) tok s.cells
    rw [(langWord_next ht).1, s.length_cells] at hkept
    have hcells : t.cells = s.cells := (hkept herror).resolve_right h
    have hsp : t.sp = s.sp := by
      rw [← t.length_cells, hcells, s.length_cells]
    rw [Lang.cells, Lang.cells, hsp] at hcells
    exact ⟨hsp, stackCells_inj hcells⟩

end Errors

/-- `+` on a stack that holds a 9: the 9 is lost. -/
theorem plus_loses_cell : ¬KeepsStack (ascii "+") demoLang := by
  intro h
  have htok : ascii "+" ∈ binaryWords := by decide
  obtain ⟨t, ht, herror, hsp⟩ := langWord_one_cell htok (s := demoLang) rfl
  have hkeep : t.sp = 1 := (h t ht herror).1
  omega

end OsU
