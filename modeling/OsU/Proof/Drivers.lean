import OsU.Proof.NoInput

/-!
# The prompt and the file

`cospy_repl` and `cospy_run_file` give the same lines to the same `execute_statement`,
and each has its own copy of the loop around it. The copies differ in one thing: a
file's line is looked at behind its blanks, a typed line is not, so an indented `while`
or `endwhile` is not seen at the prompt while a loop is collected. Where no such line is
met, the two stay side by side.

Lines that end the session are left out, because there the two differ by design: the
prompt stops, and a file goes on. So are calls of `input()`, which at the prompt takes
one of the lines that are typed, and for a file does not. Both are conditions on the
text of the lines, and they must hold of the lines of functions and of the stored
condition as well, which come from earlier lines (`Mute`).

The two runs are a simulation, line by line (`DriverTwin`), in which the prompt has read
one key line more for each line done.
-/

set_option autoImplicit false

namespace OsU

open CString

/-- A line that `execute_statement` takes for the end of the session. -/
def Exits (line : List UInt8) : Prop :=
  startsWith (skipWhitespace line) (ascii "exit") ∨ startsWith (skipWhitespace line) (ascii "quit")

instance (line : List UInt8) : Decidable (Exits line) := inferInstanceAs (Decidable (_ ∨ _))

/-- No `exit`, `quit` or call of `input()`. -/
structure QuietLine (line : List UInt8) : Prop where
  no_zero : (0 : UInt8) ∉ line
  no_exit : ¬Exits line
  no_input : Silent (textLexer (exprText (skipWhitespace line)))

/-- Such a statement goes on. -/
theorem execute_quiet {n : Nat} {line : List UInt8} {s : Cospy} {r : Int × Cospy}
    (hl : ¬Exits line) (hr : executeStatement n line s = some r) : r.1 = 0 := by
  cases n with
  | zero => exact nomatch hr
  | succ n =>
    -- every branch but that of `exit` returns 0
    have hzero : ∀ r ∈ executeOver (executeStatement n) line s, r.1 = 0 := by
      have some_zero : ∀ s : Cospy, ∀ r ∈ some ((0 : Int), s), r.1 = 0 := by
        rintro s r ⟨⟩
        rfl
      refine executeOver_cases (P := fun o => ∀ r ∈ o, r.1 = 0) s (some_zero _)
        (fun _ => some_zero _) (fun hexit => absurd hexit hl) (fun _ _ _ => some_zero _)
        (fun _ => some_zero _) (fun _ _ => some_zero _) ?_
      intro _ _ _ r hr
      obtain ⟨t, -, rfl⟩ := Option.map_eq_some_iff.mp hr
      rfl
    exact hzero r hr

/-! ## Quiet functions and conditions -/

/-- Every function has quiet lines; so has the condition of a loop, when there is one, or always if
`p` says so. -/
structure Mute (p : Prop) (s : Cospy) : Prop where
  funcs : ∀ f ∈ s.funcs, ∀ line ∈ f.lines, QuietLine line
  cond : p ∨ s.whileDepth > 0 → Silent (textLexer s.whileCond)

theorem QuietLine.stored {line : List UInt8} (h : QuietLine line) :
    QuietLine (strcpy (skipWhitespace line)) := by
  have hzero : (0 : UInt8) ∉ skipWhitespace line :=
    fun hz => h.no_zero ((List.dropWhile_suffix _).subset hz)
  have hexit := h.no_exit
  have hinput := h.no_input
  rw [strcpy_eq hzero]
  unfold Exits at hexit
  rw [← skipWhitespace_idem] at hexit hinput
  exact ⟨hzero, hexit, hinput⟩

/-- The text behind a `while`. -/
theorem exprText_while {line : List UInt8} (h : startsWith line (ascii "while ") = true) :
    exprText line = line.drop 6 := by
  have hif : startsWith line (ascii "if ") = false := by
    obtain ⟨t, rfl⟩ := List.isPrefixOf_iff_prefix.mp h
    rfl
  unfold exprText
  rw [hif, if_neg Bool.false_ne_true, if_pos h]

theorem Mute.keeps (p : Prop) : Keeps (Mute p) QuietLine where
  flow h _ _ _ := ⟨h.funcs, h.cond⟩
  defineLine {line s} hl h _ := by
    refine ⟨forall_funcs_defineLine (fun f hf l hmem => ?_) h.funcs, ?_⟩
    · rcases List.mem_append.mp hmem with hmem | hmem
      · exact hf l hmem
      · rw [List.mem_singleton.mp hmem]
        exact hl.stored
    · unfold defineLine
      split
      · exact h.cond
      · split <;> exact h.cond
  define {s} h _ q := by
    refine ⟨forall_funcs_define (fun _ _ _ hmem => absurd hmem List.not_mem_nil) h.funcs q, ?_⟩
    unfold define
    split <;> exact h.cond
  while_ {line s} hl hstart h := by
    refine ⟨h.funcs, fun _ => ?_⟩
    have hinput := hl.no_input
    have hzero : (0 : UInt8) ∉ (skipWhitespace line).drop 6 := fun hz =>
      hl.no_zero ((List.dropWhile_suffix _).subset (List.mem_of_mem_drop hz))
    rw [exprText_while hstart] at hinput
    dsimp only
    rw [strcpy_eq hzero]
    exact hinput
  lines h := h.funcs
  depth h hdepth _ := ⟨h.funcs, fun _ => h.cond (Or.inr hdepth)⟩
  stored h := h.stored

/-! ## One line -/

/-- An indented `while` or `endwhile`. -/
def Indented (line : List UInt8) : Prop :=
  isBlank (peek line) = true ∧
    (startsWith (skipWhitespace line) (ascii "while ") = true ∨
      startsWith (skipWhitespace line) (ascii "endwhile") = true)

instance (line : List UInt8) : Decidable (Indented line) := inferInstanceAs (Decidable (_ ∧ _))

theorem startsWith_blank {line kw : List UInt8} {c : UInt8} (hb : isBlank (peek line) = true)
    (hc : isBlank c = false) : startsWith line (c :: kw) = false := by
  cases line with
  | nil => rfl
  | cons b rest =>
    have hne : (c == b) = false := by
      refine beq_false_of_ne ?_
      rintro rfl
      exact Bool.false_ne_true (hc.symm.trans hb)
    unfold startsWith
    rw [List.isPrefixOf_cons_cons, hne, Bool.false_and]

/-- The two drivers see the same keyword in a line that is not indented. -/
theorem startsWith_flush {line : List UInt8} (h : ¬Indented line) :
    startsWith line (ascii "while ") = startsWith (skipWhitespace line) (ascii "while ") ∧
      startsWith line (ascii "endwhile") =
        startsWith (skipWhitespace line) (ascii "endwhile") := by
  by_cases hb : isBlank (peek line) = true
  · obtain ⟨hwhile, hend⟩ := not_or.mp fun hkw => h ⟨hb, hkw⟩
    rw [Bool.eq_false_iff.mpr hwhile, Bool.eq_false_iff.mpr hend]
    exact ⟨startsWith_blank hb (c := 0x77) rfl, startsWith_blank hb (c := 0x65) rfl⟩
  · have hskip : skipWhitespace line = line := by
      cases line with
      | nil => rfl
      | cons b rest => exact List.dropWhile_cons_of_neg hb
    rw [hskip]
    exact ⟨rfl, rfl⟩

/-- At the prompt, every indented line is one of the body. -/
theorem replLine_indented (n : Nat) {line : List UInt8} (hb : isBlank (peek line) = true)
    {d : Driver} (hdepth : d.cospy.whileDepth > 0) :
    replLine n line d = some (true, ⟨d.cospy, push d.whileBody line⟩) := by
  have hwhile : startsWith line (ascii "while ") = false := startsWith_blank hb (c := 0x77) rfl
  have hend : startsWith line (ascii "endwhile") = false := startsWith_blank hb (c := 0x65) rfl
  rw [replLine, if_pos hdepth, hend, if_neg Bool.false_ne_true, collect, hwhile,
    if_neg Bool.false_ne_true]
  rfl

/-- The driver of a file and the prompt, with the same done so far. -/
structure DriverTwin (keys : Nat → List UInt8) (reads : Nat) (d d' : Driver) : Prop where
  cospy : Twin (AtPrompt keys reads) d.cospy d'.cospy
  body : d.whileBody = d'.whileBody.map skipWhitespace

theorem Twin.depth {R : Eval → Eval → Prop} {s s' : Cospy} (h : Twin R s s') (k : Nat) :
    Twin R { s with whileDepth := k } { s' with whileDepth := k } := by
  refine ⟨h.ev, ?_⟩
  rw [h.rest]

/-- QuietLine lines are executed by both drivers in the same way. -/
theorem replBody_eq (n : Nat) {ls : List (List UInt8)}
    (hls : ∀ line ∈ ls.map skipWhitespace, QuietLine line) (s : Cospy) :
    replBody n ls s = fileBody n (ls.map skipWhitespace) s := by
  induction ls generalizing s with
  | nil => rfl
  | cons line ls ih =>
    rw [List.map_cons] at hls ⊢
    obtain ⟨hl, hls⟩ := List.forall_mem_cons.mp hls
    rw [replBody, fileBody, execute_skipWhitespace]
    cases hr : executeStatement n line s with
    | none => rfl
    | some r =>
      rw [← execute_skipWhitespace] at hr
      have hzero := execute_quiet hl.no_exit hr
      rw [Option.bind_some, Option.bind_some, if_neg (by omega), ih hls]

section Step

variable {n : Nat} {line : List UInt8} {keys : Nat → List UInt8} {reads : Nat} {d d' : Driver}

theorem endWhile_twin (hk : Keeps.Kept (Mute False) QuietLine d) (hdepth : d.cospy.whileDepth > 0)
    (ht : DriverTwin keys reads d d') :
    Option.Rel (DriverTwin keys reads) (endWhile (fileBody n) d) (endWhile (replBody n) d') := by
  have hsame : d'.cospy.whileDepth = d.cospy.whileDepth := by rw [ht.cospy.rest]
  have hbody : replBody n d'.whileBody = fileBody n d.whileBody := by
    have hquiet := hk.body
    rw [ht.body] at hquiet ⊢
    exact funext (replBody_eq n hquiet)
  -- the condition of the loop that ends here has been set
  have hmute : Mute True { d.cospy with whileDepth := d.cospy.whileDepth - 1 } :=
    ⟨hk.cospy.funcs, fun _ => hk.cospy.cond (Or.inr hdepth)⟩
  have hm := AtPrompt.mirrors keys reads
  have hkeep := Mute.keeps True
  have hquiet : ∀ line, QuietLine line → Silent (textLexer (exprText (skipWhitespace line))) :=
    fun _ hl => hl.no_input
  unfold endWhile
  dsimp only
  rw [hsame, hbody]
  refine rel_ite (fun _ => ?_) fun _ => .some ⟨ht.cospy.depth _, ht.body⟩
  refine rel_map (hm.iterate hkeep (fun _ hs => hs.cond (Or.inl trivial))
    (fun s t hs => hkeep.fileBody n hk.body hs)
    (fun s s' hs => hm.fileBody hkeep hquiet n hk.body hs) 1000 hmute (ht.cospy.depth _)) ?_
  exact fun _ _ hx => ⟨hx, rfl⟩

theorem collect_twin (hl : QuietLine line) (hind : ¬Indented line)
    (ht : DriverTwin keys reads d d') :
    DriverTwin keys reads (collect (skipWhitespace line) d) (collect line d') := by
  have hsame : d'.cospy.whileDepth = d.cospy.whileDepth := by rw [ht.cospy.rest]
  have hzero : (0 : UInt8) ∉ skipWhitespace line :=
    fun hz => hl.no_zero ((List.dropWhile_suffix _).subset hz)
  constructor
  · unfold collect
    dsimp only
    rw [(startsWith_flush hind).1, hsame]
    split
    · exact ht.cospy.depth _
    · exact ht.cospy
  · unfold collect
    dsimp only
    rw [ht.body, List.length_map, strcpy_eq hl.no_zero, strcpy_eq hzero]
    split
    · rw [List.map_append]
      rfl
    · rfl

/-- **One line.** The prompt goes on, and the two have done the same. -/
theorem replLine_twin (hl : QuietLine line) (hk : Keeps.Kept (Mute False) QuietLine d)
    (hind : d.cospy.whileDepth > 0 → ¬Indented line) (ht : DriverTwin keys reads d d') :
    Option.Rel (fun d r => r.1 = true ∧ DriverTwin keys reads d r.2) (fileLine n line d)
      (replLine n line d') := by
  have hsame : d'.cospy.whileDepth = d.cospy.whileDepth := by rw [ht.cospy.rest]
  unfold fileLine replLine
  dsimp only
  rw [hsame]
  refine rel_ite (fun hdepth => ?_) fun _ => ?_
  · rw [(startsWith_flush (hind hdepth)).2]
    refine rel_ite (fun _ => ?_) fun _ => .some ⟨rfl, collect_twin hl (hind hdepth) ht⟩
    exact rel_map_right (endWhile_twin hk hdepth ht) fun _ _ hx => ⟨rfl, hx⟩
  · have hrel := (AtPrompt.mirrors keys reads).executeStatement (Mute.keeps False)
      (fun _ hl => hl.no_input) n hl hk.cospy ht.cospy
    rw [execute_skipWhitespace]
    refine rel_map (rel_and hrel fun _ hr => execute_quiet hl.no_exit hr) fun r r' hx => ?_
    obtain ⟨hzero, hsame, htwin⟩ := hx
    rw [if_neg (by omega)]
    exact ⟨rfl, htwin, ht.body⟩

end Step

/-! ## All lines -/

/-- No indented `while` or `endwhile` comes while a loop is collected. It is on the line
and `while_depth` before it, along the run of the file. -/
def Aligned (n : Nat) : List (List UInt8) → Driver → Prop
  | [], _ => True
  | line :: lines, d =>
    (d.cospy.whileDepth > 0 → ¬Indented line) ∧ ∀ d' ∈ fileLine n line d, Aligned n lines d'

instance Aligned.decidable (n : Nat) :
    (lines : List (List UInt8)) → (d : Driver) → Decidable (Aligned n lines d)
  | [], _ => .isTrue trivial
  | line :: lines, d =>
    have := Aligned.decidable n lines
    inferInstanceAs (Decidable ((d.cospy.whileDepth > 0 → ¬Indented line) ∧
      ∀ d' ∈ fileLine n line d, Aligned n lines d'))

/-- **Lines typed one by one.** -/
theorem replLines_twin {n : Nat} {keys : Nat → List UInt8} {reads : Nat}
    {lines : List (List UInt8)} {d d' : Driver} (hl : ∀ line ∈ lines, QuietLine line)
    (hlen : ∀ line ∈ lines, line.length ≤ 127)
    (hkeys : ∀ i (hi : i < lines.length), keys (reads + i) = lines[i])
    (hk : Keeps.Kept (Mute False) QuietLine d) (ha : Aligned n lines d)
    (ht : DriverTwin keys reads d d') :
    Option.Rel (DriverTwin keys (reads + lines.length)) (fileLines n lines d)
      (replLines n lines.length d') := by
  induction lines generalizing d d' reads with
  | nil => exact .some ht
  | cons line lines ih =>
    obtain ⟨hquiet, hl⟩ := List.forall_mem_cons.mp hl
    obtain ⟨hfits, hlen⟩ := List.forall_mem_cons.mp hlen
    have hev := ht.cospy.ev.message (ascii "py> ")
    -- What is typed is the next line of the file, which fits into the buffer of the
    -- prompt.
    have hread :
        (keyboardReadline 128 (d'.cospy.ev.display (.message (ascii "py> ")))).1 = line := by
      have hline : keys reads = line := hkeys 0 (Nat.succ_pos _)
      unfold keyboardReadline
      dsimp only
      rw [hev.keys_eq, hev.reads_eq, hline]
      exact List.take_of_length_le hfits
    have hstart : DriverTwin keys (reads + 1) d
        ⟨{ d'.cospy with
          ev := (keyboardReadline 128 (d'.cospy.ev.display (.message (ascii "py> ")))).2 },
          d'.whileBody⟩ := by
      refine ⟨⟨hev.readline 128, ?_⟩, ht.body⟩
      rw [ht.cospy.rest]
    rw [List.length_cons, replLines]
    dsimp only
    rw [hread]
    refine rel_bind (replLine_twin hquiet hk ha.1 hstart) fun u r hu _ hx => ?_
    rw [hx.1, if_pos rfl]
    have hnext : ∀ i (hi : i < lines.length), keys (reads + 1 + i) = lines[i] := by
      intro i hi
      have hline := hkeys (i + 1) (Nat.succ_lt_succ hi)
      rwa [← Nat.add_assoc, Nat.add_right_comm] at hline
    have hrest := ih hl hlen hnext ((Mute.keeps False).fileLine n hquiet hk hu) (ha.2 u hu) hx.2
    rwa [Nat.add_right_comm] at hrest

/-! ## The file -/

/-- An empty line does nothing, and is not missed. -/
theorem fileLines_read (n : Nat) {lines : List (List UInt8)} (hlen : lines.length ≤ 64)
    (hl : ∀ line ∈ lines, IsLine line) (final : Bool) (d : Driver) :
    (fileLines (n + 1) (readLines 64 (fileText final lines)) d).map Driver.cospy =
      (fileLines (n + 1) lines d).map Driver.cospy := by
  rcases readLines_fileText hlen hl final with h | h
  · rw [h]
  · have hempty : ∀ d, (fileLine (n + 1) [] d).map Driver.cospy = some d.cospy := by
      intro d
      unfold fileLine
      dsimp only
      split <;> rfl
    conv_rhs => rw [h, fileLines_append]
    cases fileLines (n + 1) (readLines 64 (fileText final lines)) d with
    | none => rfl
    | some d' =>
      have hlast := hempty d'
      obtain ⟨d'', hd'', hsame⟩ := Option.map_eq_some_iff.mp hlast
      rw [Option.bind_some, fileLines, hd'', Option.bind_some]
      exact congrArg some hsame.symm

/-! ## The two drivers -/

/-- A line of printable characters, without `exit`, `quit` and calls of `input()`: one
that can be typed at the prompt as it stands in the file, and that asks for nothing more
to be typed. -/
structure Typed (line : List UInt8) : Prop where
  length : line.length ≤ 127
  printable : ∀ b ∈ line, 0x20 ≤ b ∧ b ≤ 0x7E
  no_exit : ¬Exits line
  no_input : Silent (textLexer (exprText (skipWhitespace line)))

namespace Typed

variable {line : List UInt8}

theorem isLine (h : Typed line) : IsLine line := by
  refine ⟨h.length, fun b hb => ?_⟩
  have hprint := (h.printable b hb).1
  constructor
  · rintro rfl
    exact absurd hprint (by decide)
  · rintro rfl
    exact absurd hprint (by decide)

theorem quiet (h : Typed line) : QuietLine line :=
  ⟨fun hz => (h.isLine.2 0 hz).1 rfl, h.no_exit, h.no_input⟩

end Typed

/-- The same lines printed, and the same variables. -/
structure SameOutput (e e' : Eval) : Prop where
  lines : e'.lines = e.lines
  vars : e'.vars = e.vars
  varCount : e'.varCount = e.varCount

/-- The file and the prompt, as they end: what they have printed and the variables are the same, and
so are functions and blocks. -/
def EndAlike (n : Nat) (filename : List UInt8) (final : Bool) (lines : List (List UInt8))
    (s : Cospy) : Prop :=
  Option.Rel (Twin SameOutput)
    ((cospyRunFile n filename (some (fileText final lines)) s).map Prod.snd)
    ((cospyRepl n lines.length s).map Driver.cospy)

/-- **Typing the lines is running the file**, where no indented `while` or `endwhile` comes while a
loop is collected. -/
theorem drivers_agree {n : Nat} {filename : List UInt8} {lines : List (List UInt8)} {s : Cospy}
    (hname : peek filename ≠ 0) (hlen : lines.length ≤ 64) (hlines : ∀ line ∈ lines, Typed line)
    (hkeys : ∀ i (hi : i < lines.length), s.ev.keys (s.ev.reads + i) = lines[i])
    (halign : Aligned (n + 1) lines ⟨cospyInit s, []⟩) (final : Bool) :
    EndAlike (n + 1) filename final lines s := by
  have hev : AtPrompt s.ev.keys s.ev.reads (cospyInit s).ev (cospyInit s).ev :=
    ⟨rfl, rfl, rfl, rfl, rfl⟩
  have hstart := (hev.message (ascii "\nCosyPy v1.0 - Python-like interpreter\n")).message
    (ascii "Type 'exit' to return to shell\n\n")
  -- Both drivers start with nothing defined and no loop open.
  have hkept : Keeps.Kept (Mute False) QuietLine ⟨cospyInit s, []⟩ := by
    refine ⟨⟨fun f hf => absurd hf List.not_mem_nil, fun h => ?_⟩,
      fun line hm => absurd hm List.not_mem_nil⟩
    exact h.elim False.elim fun hdepth => absurd hdepth (lt_irrefl 0)
  have htwin : DriverTwin s.ev.keys s.ev.reads ⟨cospyInit s, []⟩
      ⟨{ cospyInit s with ev := _ }, []⟩ := ⟨⟨hstart, rfl⟩, rfl⟩
  have hrun := replLines_twin (fun line hm => (hlines line hm).quiet)
    (fun line hm => (hlines line hm).length) hkeys hkept halign htwin
  have hread := fileLines_read n hlen (fun line hm => (hlines line hm).isLine) final
    ⟨cospyInit s, []⟩
  have hfile : (cospyRunFile (n + 1) filename (some (fileText final lines)) s).map Prod.snd =
      (fileLines (n + 1) lines ⟨cospyInit s, []⟩).map Driver.cospy := by
    rw [cospyRunFile, if_neg hname, ← hread]
    exact Option.map_map _ _ _
  unfold EndAlike
  rw [hfile]
  exact rel_map hrun fun _ _ hx =>
    ⟨⟨hx.cospy.ev.lines, hx.cospy.ev.vars, hx.cospy.ev.varCount⟩, hx.cospy.rest⟩

/-! ## Two loops -/

/-- A check of a line, `k` tokens long at most. -/
def Typed.Check (k : Nat) (line : List UInt8) : Prop :=
  let l := textLexer (exprText (skipWhitespace line))
  line.length ≤ 127 ∧ (line.all fun b => 0x20 ≤ b ∧ b ≤ 0x7E) = true ∧ ¬Exits line ∧
    (∀ i < k, ¬CallsInput (nextToken^[i] l)) ∧ (nextToken^[k] l).cursor = [] ∧
    (nextToken^[k] l).currentToken = .eof

instance (k : Nat) : DecidablePred (Typed.Check k) := fun _ => inferInstanceAs (Decidable (_ ∧ _))

theorem Typed.of_check {k : Nat} {line : List UInt8} (h : Typed.Check k line) : Typed line := by
  obtain ⟨hlen, hprint, hexit, hinput, hc, ht⟩ := h
  exact ⟨hlen, forall_mem_of_all hprint, hexit, Silent.of_tokens k hinput hc ht⟩

/-- An interpreter that has these lines typed. -/
def typing (lines : List (List UInt8)) : Cospy := .start fun i => lines.getD i []

theorem typing_keys (lines : List (List UInt8)) (i : Nat) (hi : i < lines.length) :
    (typing lines).ev.keys ((typing lines).ev.reads + i) = lines[i] := by
  change lines.getD (0 + i) [] = lines[i]
  rw [Nat.zero_add, List.getD_eq_getElem?_getD, List.getElem?_eq_getElem hi]
  rfl

/-- The body of a loop is indented, its end is not. -/
def flushLoop : List (List UInt8) :=
  [ascii "while x < 2:", ascii "  x = x + 1", ascii "  print(x)", ascii "endwhile"]

theorem drivers_agree_flushLoop : EndAlike 1 (ascii "a.py") false flushLoop (typing flushLoop) := by
  have htyped : ∀ line ∈ flushLoop, Typed line :=
    fun line hm => .of_check ((by decide +kernel : ∀ line ∈ flushLoop, Typed.Check 8 line) line hm)
  exact drivers_agree (by decide) (by decide) htyped (typing_keys _) (by decide +kernel) false

/-- The end of the loop is indented with its body. -/
def indentedLoop : List (List UInt8) :=
  [ascii "while x < 2:", ascii "  x = x + 1", ascii "  endwhile", ascii "print(x)"]

/-- The file prints 2; at the prompt the loop goes on, and nothing is printed. -/
theorem drivers_disagree :
    ¬∀ (n : Nat) (filename : List UInt8) (lines : List (List UInt8)) (s : Cospy) (final : Bool),
      peek filename ≠ 0 → lines.length ≤ 64 → (∀ line ∈ lines, Typed line) →
      (∀ i (hi : i < lines.length), s.ev.keys (s.ev.reads + i) = lines[i]) →
      EndAlike (n + 1) filename final lines s := by
  intro h
  have htyped : ∀ line ∈ indentedLoop, Typed line := fun line hm =>
    .of_check ((by decide +kernel : ∀ line ∈ indentedLoop, Typed.Check 8 line) line hm)
  have halike := h 0 (ascii "a.py") indentedLoop (typing indentedLoop) false (by decide)
    (by decide) htyped (typing_keys _)
  have hfile : ((cospyRunFile 1 (ascii "a.py") (some (fileText false indentedLoop))
      (typing indentedLoop)).map Prod.snd).map (fun s => s.ev.lines) = some [ascii "2"] := by
    decide +kernel
  have hprompt : ((cospyRepl 1 indentedLoop.length (typing indentedLoop)).map Driver.cospy).map
      (fun s => s.ev.lines) = some [] := by
    decide +kernel
  unfold EndAlike at halike
  generalize (cospyRunFile _ _ _ _).map Prod.snd = o at halike hfile
  generalize (cospyRepl _ _ _).map Driver.cospy = o' at halike hprompt
  cases halike with
  | none => exact nomatch hfile
  | some hx =>
    have hlines := hx.ev.lines
    have hprompt := (Option.some.inj hprompt).symm.trans (hlines.trans (Option.some.inj hfile))
    exact absurd hprompt (by decide)

end OsU
