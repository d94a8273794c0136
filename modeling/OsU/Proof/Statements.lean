import OsU.Cospy.Run
import OsU.Proof.Parsing
import OsU.Proof.Rendering

/-!
# Lines and what they do

One lemma for each kind of line says what `execute_statement` makes of it. `Plain` is an
assignment or a print statement that is read as one: the source looks for its keywords
at the start of a line, so a variable whose name begins with `exit`, `quit`, `endif` or
`endwhile` is out.

The order of the tests in the source matters, since a line can pass several. A line is
known here by the letters it begins with: a keyword that is a prefix of it is a prefix
of its first word (`prefix_word`), so all tests that fail for the word fail for the
line, and the proofs about blocks and loops never look at the chain of tests again.
-/

set_option autoImplicit false

namespace OsU

open CString

/-- The value of the expression a text begins with. -/
def value (e : Eval) (text : List UInt8) : BitVec 32 × Eval :=
  (parseExpr (e.scan text)).getD (0, e)

theorem parseExpr_value (e : Eval) (text : List UInt8) :
    parseExpr (e.scan text) = some (value e text) := by
  obtain ⟨r, hr, _⟩ := parseExpr_total (e.scan text)
  rw [value, hr]
  rfl

/-- A name that no keyword test of the source takes. -/
structure NotKeyword (name : List UInt8) : Prop where
  no_prefix : ∀ kw ∈ [ascii "exit", ascii "quit", ascii "endif", ascii "endwhile"], ¬kw <+: name
  not_mem : name ∉ [ascii "else", ascii "if", ascii "while", ascii "def"]
  ident : wordType name = .ident

/-- An assignment or a print statement, without the blanks in front of it. It is said by
how the line begins; what stands behind the `=` or the parenthesis may be anything. -/
inductive Plain : List UInt8 → Prop where
  | print (arg : List UInt8) : Plain (ascii "print(" ++ arg)
  | assign {name g rest : List UInt8} (hw : Lexeme.IsWord name) (hk : NotKeyword name)
      (hg : ∀ b ∈ g, isBlank b = true) (hr : rest.head? ≠ some 0x3D) :
      Plain (name ++ (g ++ 0x3D :: rest))

/-- What a plain statement does. -/
def plainStep (line : List UInt8) (e : Eval) : Eval :=
  if startsWith line (ascii "print(") then (printStatement (line.drop 6) e).getD e
  else (assign (e.scan line).lex.tokenIdent (e.scan line).next).getD e

theorem printStatement_total (arg : List UInt8) (e : Eval) :
    ∃ e', printStatement arg e = some e' := by
  unfold printStatement
  dsimp only
  split
  · exact ⟨_, rfl⟩
  · rw [parseExpr_value]
    exact ⟨_, rfl⟩

theorem assign_total (name : List UInt8) (e : Eval) : ∃ e', assign name e = some e' := by
  obtain ⟨r, hr, _⟩ := parseExpr_total e.next
  unfold assign
  rw [hr]
  exact ⟨_, rfl⟩

/-! ## The keyword tests on a line that begins with a name -/

theorem isPrefixOf_iff (kw s : List UInt8) : startsWith s kw = true ↔ kw <+: s :=
  List.isPrefixOf_iff_prefix

/-- Letters at the start of a line are the start of the word there. -/
theorem prefix_word {kw name rest : List UInt8} (hkw : ∀ b ∈ kw, isAlnum b = true)
    (hrest : ∀ b ∈ rest.head?, isAlnum b = false) (h : kw <+: name ++ rest) : kw <+: name := by
  induction kw generalizing name with
  | nil => exact List.nil_prefix
  | cons b kw ih =>
    cases name with
    | nil =>
      obtain ⟨t, ht⟩ := h
      rw [List.nil_append] at ht
      have hb := hrest b (by rw [← ht]; rfl)
      exact absurd (hb.symm.trans (hkw b List.mem_cons_self)) Bool.false_ne_true
    | cons c name =>
      rw [List.cons_append, List.cons_prefix_cons] at h
      rw [List.cons_prefix_cons]
      exact ⟨h.1, ih (fun c hc => hkw c (List.mem_cons_of_mem b hc)) h.2⟩

/-- A word and a character that ends it, at the start of a line: that is the word there. -/
theorem prefix_whole {kw name rest : List UInt8} {b : UInt8} (hb : isAlnum b = false)
    (hname : ∀ c ∈ name, isAlnum c = true) (hkw : ∀ c ∈ kw, isAlnum c = true)
    (hrest : ∀ c ∈ rest.head?, isAlnum c = false) (h : kw ++ [b] <+: name ++ rest) :
    name = kw := by
  induction kw generalizing name with
  | nil =>
    cases name with
    | nil => rfl
    | cons c name =>
      rw [List.nil_append, List.cons_append, List.cons_prefix_cons] at h
      have hc := hname c List.mem_cons_self
      rw [← h.1, hb] at hc
      exact absurd hc Bool.false_ne_true
  | cons c kw ih =>
    cases name with
    | nil =>
      obtain ⟨t, ht⟩ := h
      rw [List.nil_append] at ht
      have hc := hrest c (by rw [← ht]; rfl)
      exact absurd (hc.symm.trans (hkw c List.mem_cons_self)) Bool.false_ne_true
    | cons d name =>
      rw [List.cons_append, List.cons_append, List.cons_prefix_cons] at h
      rw [h.1, ih (fun c hc => hname c (List.mem_cons_of_mem d hc))
        (fun e he => hkw e (List.mem_cons_of_mem c he)) h.2]

/-- What decides how a line is read: every test for a keyword fails. The tests are on
the beginning of the line, so a name like `exitcode` is taken for the keyword. -/
structure NoKeyword (line : List UInt8) : Prop where
  more : ¬(peek line = 0 ∨ peek line = 0x23)
  exit : ¬(startsWith line (ascii "exit") = true ∨ startsWith line (ascii "quit") = true)
  endif : startsWith line (ascii "endif") = false
  else_ : isElse line = false
  if_ : startsWith line (ascii "if ") = false
  endwhile : startsWith line (ascii "endwhile") = false
  while_ : startsWith line (ascii "while ") = false
  def_ : startsWith line (ascii "def ") = false

theorem head_gap {g rest : List UInt8} (hg : ∀ b ∈ g, isBlank b = true) :
    ∀ b ∈ (g ++ 0x3D :: rest).head?, isAlnum b = false := by
  intro b hb
  cases g with
  | nil =>
    cases hb
    rfl
  | cons c g =>
    cases hb
    exact (isBlank_closes (hg b List.mem_cons_self)).2.1

theorem startsWith_eq_false {kw s : List UInt8} (h : ¬kw <+: s) : startsWith s kw = false :=
  Bool.eq_false_iff.mpr fun h' => h ((isPrefixOf_iff kw s).mp h')

section Assign

variable {name g rest : List UInt8}

/-- A line that begins with letters begins with a name that begins with them; the character behind
them belongs to the name, or stands between the name and the `=`. -/
theorem charAt_behind {kw : List UInt8} (hw : ∀ b ∈ name, isAlnum b = true)
    (hg : ∀ b ∈ g, isBlank b = true) (hkw : ∀ b ∈ kw, isAlnum b = true)
    (h : startsWith (name ++ (g ++ 0x3D :: rest)) kw = true) :
    isAlnum (charAt (name ++ (g ++ 0x3D :: rest)) kw.length) = true ∨
      name = kw ∧ (isBlank (charAt (name ++ (g ++ 0x3D :: rest)) kw.length) = true ∨
        charAt (name ++ (g ++ 0x3D :: rest)) kw.length = 0x3D) := by
  obtain ⟨w, rfl⟩ := prefix_word hkw (head_gap hg) ((isPrefixOf_iff _ _).mp h)
  have hdrop : (kw ++ w ++ (g ++ 0x3D :: rest)).drop kw.length = w ++ (g ++ 0x3D :: rest) := by
    rw [List.append_assoc, List.drop_left]
  rw [charAt, hdrop]
  cases w with
  | nil =>
    refine Or.inr ⟨List.append_nil kw, ?_⟩
    cases g with
    | nil => exact Or.inr rfl
    | cons c g => exact Or.inl (hg c List.mem_cons_self)
  | cons c w => exact Or.inl (hw c (by simp))

/-- `else` is a keyword before a colon, a blank or the end of the line. -/
theorem isElse_assign (hw : Lexeme.IsWord name) (hk : NotKeyword name)
    (hg : ∀ b ∈ g, isBlank b = true) : isElse (name ++ (g ++ 0x3D :: rest)) = false := by
  refine Bool.eq_false_iff.mpr fun h => ?_
  obtain ⟨hstart, hchar⟩ := (Bool.and_eq_true _ _).mp h
  simp only [Bool.or_eq_true, decide_eq_true_eq] at hchar
  obtain hal | ⟨hname, -⟩ := charAt_behind hw.alnum hg (forall_mem_of_all (by decide)) hstart
  · change isAlnum (charAt _ 4) = true at hal
    obtain (hc | hc) | hc := hchar
    · rw [hc] at hal
      exact absurd hal (by decide)
    · rw [hc] at hal
      exact absurd hal (by decide)
    · rw [hc] at hal
      exact absurd hal (by decide)
  · exact hk.not_mem (by rw [hname]; decide)

theorem noKeyword_assign (hw : Lexeme.IsWord name) (hk : NotKeyword name)
    (hg : ∀ b ∈ g, isBlank b = true) : NoKeyword (name ++ (g ++ 0x3D :: rest)) := by
  have hpre : ∀ kw ∈ [ascii "exit", ascii "quit", ascii "endif", ascii "endwhile"],
      startsWith (name ++ (g ++ 0x3D :: rest)) kw = false := by
    intro kw hmem
    refine startsWith_eq_false fun h => hk.no_prefix kw hmem ?_
    have hkw : ∀ kw ∈ [ascii "exit", ascii "quit", ascii "endif", ascii "endwhile"],
        kw.all isAlnum = true := by decide
    exact prefix_word (List.all_eq_true.mp (hkw kw hmem)) (head_gap hg) h
  -- with the blank behind it, the keyword is the whole name
  have hwhole : ∀ kw ∈ [ascii "else", ascii "if", ascii "while", ascii "def"],
      startsWith (name ++ (g ++ 0x3D :: rest)) (kw ++ [0x20]) = false := by
    intro kw hmem
    refine startsWith_eq_false fun h => hk.not_mem ?_
    have hkw : ∀ kw ∈ [ascii "else", ascii "if", ascii "while", ascii "def"],
        kw.all isAlnum = true := by decide
    rw [prefix_whole rfl hw.alnum (List.all_eq_true.mp (hkw kw hmem)) (head_gap hg) h]
    exact hmem
  exact
    { more := by
        obtain ⟨b, w, rfl, hb⟩ := hw.alpha
        rintro (h | h)
        · cases h
          exact absurd hb (by decide)
        · cases h
          exact absurd hb (by decide)
      exit := by
        rw [hpre _ (by decide), hpre _ (by decide)]
        exact fun h => h.elim Bool.false_ne_true Bool.false_ne_true
      endif := hpre _ (by decide)
      else_ := isElse_assign hw hk hg
      if_ := hwhole (ascii "if") (by decide)
      endwhile := hpre _ (by decide)
      while_ := hwhole (ascii "while") (by decide)
      def_ := hwhole (ascii "def") (by decide) }

/-- No name ends before a parenthesis on such a line. -/
theorem not_print_assign (hw : Lexeme.IsWord name) (hg : ∀ b ∈ g, isBlank b = true) :
    ¬(startsWith (name ++ (g ++ 0x3D :: rest)) (ascii "print") = true ∧
      charAt (name ++ (g ++ 0x3D :: rest)) 5 = 0x28) := by
  rintro ⟨hstart, hchar⟩
  have hbehind := charAt_behind hw.alnum hg (forall_mem_of_all (by decide)) hstart
  change isAlnum (charAt _ 5) = true ∨ _ ∧ (isBlank (charAt _ 5) = true ∨ charAt _ 5 = _) at hbehind
  rw [hchar] at hbehind
  obtain h | ⟨-, h | h⟩ := hbehind
  · exact absurd h (by decide)
  · exact absurd h (by decide)
  · exact absurd h (by decide)

end Assign

theorem noKeyword_print (arg : List UInt8) : NoKeyword (ascii "print(" ++ arg) := by
  refine ⟨?_, ?_, rfl, rfl, rfl, rfl, rfl, rfl⟩
  · rintro (h | h)
    · exact absurd h (by decide : (0x70 : UInt8) ≠ 0)
    · exact absurd h (by decide : (0x70 : UInt8) ≠ 0x23)
  · rintro (h | h)
    · exact Bool.false_ne_true h
    · exact Bool.false_ne_true h

theorem Plain.noKeyword {line : List UInt8} (h : Plain line) : NoKeyword line := by
  cases h with
  | print arg => exact noKeyword_print arg
  | assign hw hk hg hr => exact noKeyword_assign hw hk hg

theorem skipWhitespace_plain {text : List UInt8} (h : Plain text) : skipWhitespace text = text := by
  refine skipWhitespace_append (g := []) (fun b hb => absurd hb List.not_mem_nil) ?_
  intro b hb
  cases h with
  | print arg =>
    cases hb
    rfl
  | assign hw hk hg hr =>
    obtain ⟨c, w, rfl, hc⟩ := hw.alpha
    cases hb
    exact isAlpha_not_isBlank hc

theorem plain_x (rest : List UInt8) (hr : rest.head? ≠ some 0x3D) :
    Plain (ascii "x" ++ (ascii " " ++ 0x3D :: rest)) :=
  .assign ⟨⟨_, _, rfl, by decide⟩, forall_mem_of_all (by decide), by decide⟩ ⟨by decide, by decide, by decide⟩
    (forall_mem_of_all rfl) hr

/-! ## What `execute_statement` does -/

section Execute

variable {n : Nat} {line : List UInt8} {s : Cospy}

/-- While lines are skipped, a line without a keyword does nothing. -/
theorem execute_skip (h : NoKeyword (skipWhitespace line)) (hd : s.definingFunction = false)
    (hf : s.inIfFalse = true) : executeStatement (n + 1) line s = some (0, s) := by
  rw [executeStatement, executeOver, if_neg h.more, hd, if_neg Bool.false_ne_true, if_neg h.exit, h.endif,
    if_neg Bool.false_ne_true, h.else_, if_neg Bool.false_ne_true, h.if_, if_neg Bool.false_ne_true,
    hf, if_pos rfl]

/-- Behind the keyword tests, a statement is a print statement, a call or an assignment. -/
theorem execute_live (h : NoKeyword (skipWhitespace line)) (hd : s.definingFunction = false)
    (hf : s.inIfFalse = false) :
    executeStatement (n + 1) line s =
      if startsWith (skipWhitespace line) (ascii "print") ∧
          charAt (skipWhitespace line) 5 = 0x28 then
        (printStatement ((skipWhitespace line).drop 6) s.ev).map fun e => (0, { s with ev := e })
      else (callOrAssign (executeStatement n) (skipWhitespace line) s).map fun s => (0, s) := by
  rw [executeStatement, executeOver, if_neg h.more, hd, if_neg Bool.false_ne_true, if_neg h.exit, h.endif,
    if_neg Bool.false_ne_true, h.else_, if_neg Bool.false_ne_true, h.if_, if_neg Bool.false_ne_true,
    hf, if_neg Bool.false_ne_true, h.endwhile, if_neg Bool.false_ne_true, h.while_,
    if_neg Bool.false_ne_true, h.def_, if_neg Bool.false_ne_true]

/-- The first two tokens of an assignment. -/
theorem scanned_assign {name g rest : List UInt8} (hw : Lexeme.IsWord name) (hk : NotKeyword name)
    (hg : ∀ b ∈ g, isBlank b = true) (hr : rest.head? ≠ some 0x3D) (e : Eval) :
    Scanned (e.scan (name ++ (g ++ 0x3D :: rest))).lex (.ident name) (g ++ 0x3D :: rest) ∧
      Scanned (e.scan (name ++ (g ++ 0x3D :: rest))).next.lex (.op .eq) rest := by
  have hname := nextToken_lexeme { e.lex with cursor := name ++ (g ++ 0x3D :: rest) } (g := [])
    (x := .word name) (fun b hb => absurd hb List.not_mem_nil) hw (head_gap hg) rfl
  have htok : (Lexeme.word name).tok = .ident name := by
    rw [Lexeme.tok, Lexeme.wordTok, if_pos hk.ident]
  rw [htok] at hname
  exact ⟨hname, nextToken_lexeme _ (x := .op 0x3D) hg (by decide : Lexeme.isOp 0x3D)
    ⟨fun _ => hr, fun h => absurd h (by decide)⟩ hname.cursor⟩

theorem scan_assign {name g rest : List UInt8} (hw : Lexeme.IsWord name) (hk : NotKeyword name)
    (hg : ∀ b ∈ g, isBlank b = true) (hr : rest.head? ≠ some 0x3D) (e : Eval) :
    let e' := e.scan (name ++ (g ++ 0x3D :: rest))
    e'.tok = .ident ∧ e'.lex.tokenIdent = name ∧ e'.next.tok = .eq := by
  obtain ⟨hname, heq⟩ := scanned_assign hw hk hg hr e
  obtain ⟨hi, hn⟩ := Lexer.of_token_ident hname.token
  refine ⟨hi, hn, ?_⟩
  have htype := congrArg Tok.type heq.token
  rw [Lexer.token_type] at htype
  exact htype

/-- A line that begins with a name and a `=`. -/
theorem execute_name {name g rest : List UInt8} (hw : Lexeme.IsWord name) (hk : NotKeyword name)
    (hg : ∀ b ∈ g, isBlank b = true) (hr : rest.head? ≠ some 0x3D)
    (h : skipWhitespace line = name ++ (g ++ 0x3D :: rest)) (hd : s.definingFunction = false)
    (hf : s.inIfFalse = false) :
    executeStatement (n + 1) line s =
      (assign name (s.ev.scan (name ++ (g ++ 0x3D :: rest))).next).map fun e =>
        (0, { s with ev := e }) := by
  obtain ⟨ht, hn, heq⟩ := scan_assign hw hk hg hr s.ev
  rw [execute_live (h ▸ noKeyword_assign hw hk hg) hd hf, h, if_neg (not_print_assign hw hg),
    callOrAssign]
  dsimp only
  rw [if_pos ht, if_neg (by rw [heq]; exact nofun), if_pos heq, hn, Option.map_map]
  rfl

/-- **Plain statements.** Where lines are not skipped, one is executed; the rest of the
state stays as it is. One unit of fuel is enough, since nothing is called. -/
theorem execute_plain (h : Plain (skipWhitespace line)) (hd : s.definingFunction = false)
    (hf : s.inIfFalse = false) :
    executeStatement (n + 1) line s =
      some (0, { s with ev := plainStep (skipWhitespace line) s.ev }) := by
  generalize hl : skipWhitespace line = l at h
  unfold plainStep
  cases h with
  | print arg =>
    rw [execute_live (hl ▸ noKeyword_print arg) hd hf, hl]
    obtain ⟨e', he'⟩ := printStatement_total arg s.ev
    have hp : startsWith (ascii "print(" ++ arg) (ascii "print(") = true := rfl
    have hdrop : (ascii "print(" ++ arg).drop 6 = arg := rfl
    rw [if_pos ⟨rfl, rfl⟩, if_pos hp, hdrop, he']
    rfl
  | @assign name g rest hw hk hg hr =>
    obtain ⟨_, hn, _⟩ := scan_assign hw hk hg hr s.ev
    have hno : ¬startsWith (name ++ (g ++ 0x3D :: rest)) (ascii "print(") = true := by
      intro hstart
      have hp := (isPrefixOf_iff _ _).mp hstart
      refine not_print_assign hw hg
        ⟨(isPrefixOf_iff _ _).mpr ((by decide : ascii "print" <+: ascii "print(").trans hp), ?_⟩
      obtain ⟨t, ht⟩ := hp
      rw [← ht]
      rfl
    obtain ⟨e', he'⟩ := assign_total name (s.ev.scan (name ++ (g ++ 0x3D :: rest))).next
    rw [execute_name hw hk hg hr hl hd hf, if_neg hno, hn, he']
    rfl

theorem execute_begin {c : List UInt8} (h : skipWhitespace line = ascii "if " ++ c)
    (hd : s.definingFunction = false) :
    executeStatement (n + 1) line s = (beginIf c s).map fun s => (0, s) := by
  have hmore : ¬(peek (ascii "if " ++ c) = 0 ∨ peek (ascii "if " ++ c) = 0x23) := by
    rintro (h | h)
    · exact absurd h (by decide : (0x69 : UInt8) ≠ 0)
    · exact absurd h (by decide : (0x69 : UInt8) ≠ 0x23)
  rw [executeStatement, executeOver, h, if_neg hmore, if_neg (by rw [hd]; exact Bool.false_ne_true)]
  rfl

/-- A line `if cond` that is evaluated. -/
theorem execute_if {c : List UInt8} (h : skipWhitespace line = ascii "if " ++ c)
    (hd : s.definingFunction = false) (hf : s.inIfFalse = false) :
    executeStatement (n + 1) line s =
      some (0, { s with
        ev := (value s.ev c).2
        ifDepth := s.ifDepth + 1
        inIfFalse := decide ((value s.ev c).1 = 0) }) := by
  rw [execute_begin h hd, beginIf]
  dsimp only
  rw [hf, if_neg Bool.false_ne_true, parseExpr_value]
  by_cases hv : (value s.ev c).1 = 0#32
  · have hdec : decide ((value s.ev c).1 = 0) = true := decide_eq_true hv
    rw [hdec, Option.map_some, if_pos hv]
    rfl
  · have hdec : decide ((value s.ev c).1 = 0) = false := decide_eq_false hv
    rw [hdec, Option.map_some, if_neg hv]
    rfl

/-- A line `if cond` among lines that are skipped. -/
theorem execute_if_skip {c : List UInt8} (h : skipWhitespace line = ascii "if " ++ c)
    (hd : s.definingFunction = false) (hf : s.inIfFalse = true) :
    executeStatement (n + 1) line s = some (0, { s with ifDepth := s.ifDepth + 1 }) := by
  rw [execute_begin h hd, beginIf]
  dsimp only
  rw [if_pos hf]
  rfl

theorem execute_else (h : skipWhitespace line = ascii "else:") (hd : s.definingFunction = false) :
    executeStatement (n + 1) line s = some (0, elseBranch s) := by
  rw [executeStatement, executeOver, h, hd]
  rfl

theorem execute_endif (h : skipWhitespace line = ascii "endif") (hd : s.definingFunction = false) :
    executeStatement (n + 1) line s = some (0, endIf s) := by
  rw [executeStatement, executeOver, h, hd]
  rfl

/-- A line `while cond` is remembered, and counted. -/
theorem execute_while {c : List UInt8} (h : skipWhitespace line = ascii "while " ++ c)
    (hd : s.definingFunction = false) (hf : s.inIfFalse = false) :
    executeStatement (n + 1) line s =
      some (0, { s with whileCond := strcpy c, whileDepth := s.whileDepth + 1 }) := by
  have hmore : ¬(peek (ascii "while " ++ c) = 0 ∨ peek (ascii "while " ++ c) = 0x23) := by
    rintro (h | h)
    · exact absurd h (by decide : (0x77 : UInt8) ≠ 0)
    · exact absurd h (by decide : (0x77 : UInt8) ≠ 0x23)
  have hif : startsWith (ascii "while " ++ c) (ascii "if ") = false := rfl
  rw [executeStatement, executeOver, h, if_neg hmore, if_neg (by rw [hd]; exact Bool.false_ne_true),
    if_neg (by rintro (h | h) <;> exact Bool.false_ne_true h), if_neg (by exact Bool.false_ne_true),
    if_neg (by exact Bool.false_ne_true), hif, if_neg Bool.false_ne_true,
    if_neg (by rw [hf]; exact Bool.false_ne_true)]
  rfl

end Execute

end OsU
