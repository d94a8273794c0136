import OsU.Proof.ScriptRun

/-!
# One command for each line

Both runners take the lines of a file into buffers of 128 bytes, and what they take of a
longer line is a line of its own to them. Here everything that is handed on goes with
the place in the file it was taken from: what `script_run` gives to `execute_line`, and
what `cospy_run_file` gives to `execute_statement` or puts into the body of a loop. All
of it is from the beginning of a line in a script without a longer line, and what is
left of a longer line is handed on like a line, unless `cospy_run_file` drops it because
of a loop.

The places are ghosts. The run with the places is shown to be the run without them
(`cospyRunFile_marked`), and lines are then told apart by where they begin and not by
what they say: two lines of a file may be alike, and the rest of a long line may be the
same as a whole one.

The two runners differ in what they may do with a line. `script_run` hands on every
piece. `cospy_run_file` takes the first 64 pieces, and an `endwhile` is handed on to no
one, nor is a line for which a body has no room; so its condition is about the run.
-/

set_option autoImplicit false

namespace OsU

open CString

/-- A line of the file begins at `p`. -/
abbrev IsLineStart (content : List UInt8) (p : Nat) : Prop := LineCut.IsLineStart 0x0A content p

/-- The string is from the beginning of a line of the file, up to skipped blanks. -/
structure BeginsLine (content : List UInt8) (q : Piece) : Prop where
  line : IsLineStart content q.start
  text : q.text = (linePiece content q.start).text ∨
    strcpy q.text = strcpy (skipWhitespace (linePiece content q.start).text)

/-- No line is longer than what the buffer has room for. -/
def ShortLines (lines : List (List UInt8)) : Prop := ∀ line ∈ lines, line.length ≤ 127

instance : DecidablePred ShortLines := fun lines =>
  inferInstanceAs (Decidable (∀ line ∈ lines, _))

theorem forall_linePieces {content : List UInt8} {k p : Nat} :
    (∀ q ∈ linePieces content k p, IsLineStart content q.start) ↔
      ∀ i ∈ LineCut.starts 0x0A (scriptLineMax - 1) content k p, IsLineStart content i := by
  rw [linePieces, List.forall_mem_map]
  rfl

/-! ## `script_run` -/

/-- What `script_run` gives to `execute_line`. -/
def scriptRunPieces (filename : List UInt8) (s : Session) : List Piece :=
  if peek filename = 0 then []
  else
    let r := vfsReadPtr filename s.fs
    match r.1 with
    | none => []
    | some len => scriptPieces len len 0 { s with fs := r.2 }

theorem scriptRunPieces_text (filename : List UInt8) (s : Session) :
    (scriptRunPieces filename s).map Piece.text = (scriptRun filename s).2.1 := by
  unfold scriptRunPieces scriptRun
  split
  · rfl
  · dsimp only
    cases (vfsReadPtr filename s.fs).1 with
    | none => rfl
    | some len => exact scriptPieces_text len len 0 _

/-- A line that is taken is from the beginning of a line, if one begins there. -/
theorem beginsLine_linePieces {content : List UInt8} {k p : Nat} :
    (∀ q ∈ linePieces content k p, BeginsLine content q) ↔
      ∀ q ∈ linePieces content k p, IsLineStart content q.start := by
  refine forall₂_congr fun q hq => ⟨BeginsLine.line, fun h => ⟨h, Or.inl ?_⟩⟩
  obtain ⟨i, -, rfl⟩ := List.mem_map.mp hq
  rfl

/-- **The lines of `script_run`**, as long as the script is still there when it looks for them. -/
theorem scriptRunPieces_iff {filename : List UInt8} {s : Session} (h : ScriptSafe filename s) :
    (∀ q ∈ scriptRunPieces filename s, BeginsLine (loadedBytes filename s.fs) q) ↔
      ShortLines ((loadedBytes filename s.fs).splitOn 0x0A) := by
  have hempty : ShortLines (([] : List UInt8).splitOn 0x0A) := by decide
  unfold scriptRunPieces loadedBytes
  by_cases hname : peek filename = 0
  · rw [if_pos hname, vfsReadPtr, normalize, if_pos hname]
    exact iff_of_true (fun q hq => absurd hq List.not_mem_nil) hempty
  · rw [if_neg hname]
    dsimp only
    cases hread : (vfsReadPtr filename s.fs).1 with
    | none => exact iff_of_true (fun q hq => absurd hq List.not_mem_nil) hempty
    | some len =>
      have hlines := scriptPieces_lines len (m := (vfsReadPtr filename s.fs).2.readCache)
        (s := { s with fs := (vfsReadPtr filename s.fs).2 }) (fun i _ _ => rfl) (h len hread)
      dsimp only
      rw [hlines, Option.getD_some, beginsLine_linePieces, forall_linePieces]
      have hpos : 0 < scriptLineMax - 1 := by decide
      have hiff := LineCut.forall_starts_length_iff 0x0A hpos
        ((vfsReadPtr filename s.fs).2.readCache.toList len)
      rw [ByteMem.length_toList] at hiff
      exact hiff

/-! ## `cospy_run_file`

Every line keeps the place in the file where it begins, also while it waits in
`while_body` for its loop to be run. The run with the places is the run without them, so
what is shown of the places is true of the lines that are executed. The condition on a
line is about where it begins and about the state it meets, not about what is executed
for it. -/

/-- The driver between two lines, with the places the body of the loop is from. -/
structure Marked where
  cospy : Cospy
  whileBody : List Piece

def Marked.driver (d : Marked) : Driver := ⟨d.cospy, d.whileBody.map Piece.text⟩

/-- What `while_body` holds after a line. -/
def bodyAfter (q : Piece) (d : Marked) : List Piece :=
  let line := skipWhitespace q.text
  if d.cospy.whileDepth > 0 then
    if startsWith line (ascii "endwhile") then
      if d.cospy.whileDepth - 1 = 0 then [] else d.whileBody
    else if d.whileBody.length < 16 then d.whileBody ++ [⟨q.start, strcpy line⟩] else d.whileBody
  else d.whileBody

/-- `fileLine`, with the places. -/
def markedLine (n : Nat) (q : Piece) (d : Marked) : Option Marked :=
  (fileLine n q.text d.driver).map fun r => ⟨r.cospy, bodyAfter q d⟩

def markedLines (n : Nat) : List Piece → Marked → Option Marked
  | [], d => some d
  | q :: qs, d => (markedLine n q d).bind (markedLines n qs)

theorem fileLine_body {n : Nat} {q : Piece} {d : Marked} {r : Driver}
    (h : fileLine n q.text d.driver = some r) : r.whileBody = (bodyAfter q d).map Piece.text := by
  unfold fileLine at h
  unfold bodyAfter
  dsimp only at h ⊢
  split at h
  · -- Within a loop: at an `endwhile` it is run when it is the outermost one, and any
    -- other line is collected while there is room.
    rename_i hdepth
    rw [if_pos (show d.cospy.whileDepth > 0 from hdepth)]
    split at h
    · rename_i hend
      rw [if_pos hend]
      unfold endWhile at h
      dsimp only at h
      split at h
      · rename_i hzero
        rw [if_pos (show d.cospy.whileDepth - 1 = 0 from hzero)]
        obtain ⟨t, -, rfl⟩ := Option.map_eq_some_iff.mp h
        rfl
      · rename_i hmore
        rw [if_neg (show ¬d.cospy.whileDepth - 1 = 0 from hmore)]
        obtain rfl := Option.some.inj h
        rfl
    · rename_i hend
      rw [if_neg hend]
      obtain rfl := Option.some.inj h
      change (if (d.whileBody.map Piece.text).length < 16 then
        d.whileBody.map Piece.text ++ [strcpy (skipWhitespace q.text)]
        else d.whileBody.map Piece.text) = _
      rw [List.length_map]
      split
      · rw [List.map_append]
        rfl
      · rfl
  · rename_i hdepth
    rw [if_neg (show ¬d.cospy.whileDepth > 0 from hdepth)]
    obtain ⟨t, -, rfl⟩ := Option.map_eq_some_iff.mp h
    rfl

/-- Without the places it is `fileLine`. -/
theorem markedLine_driver (n : Nat) (q : Piece) (d : Marked) :
    (markedLine n q d).map Marked.driver = fileLine n q.text d.driver := by
  rw [markedLine, Option.map_map]
  cases h : fileLine n q.text d.driver with
  | none => rw [Option.map_none]
  | some r =>
    rw [Option.map_some, Function.comp_apply, Marked.driver, ← fileLine_body h]

theorem markedLines_driver (n : Nat) (qs : List Piece) (d : Marked) :
    (markedLines n qs d).map Marked.driver = fileLines n (qs.map Piece.text) d.driver := by
  induction qs generalizing d with
  | nil => rfl
  | cons q qs ih =>
    rw [markedLines, List.map_cons, fileLines, ← markedLine_driver]
    cases markedLine n q d with
    | none => rfl
    | some d' => exact ih d'

/-- `lines[]` of `cospy_run_file`. -/
def filePieces (content : List UInt8) : List Piece := linePieces content 64 0

/-- `cospy_run_file` is the run with the places. -/
theorem cospyRunFile_marked (n : Nat) {filename : List UInt8} (hname : peek filename ≠ 0)
    (content : List UInt8) (s : Cospy) :
    cospyRunFile n filename (some content) s =
      (markedLines n (filePieces content) ⟨cospyInit s, []⟩).map fun d => (0, d.cospy) := by
  have hlines := markedLines_driver n (filePieces content) ⟨cospyInit s, []⟩
  rw [filePieces, linePieces_text, List.drop_zero] at hlines
  rw [cospyRunFile, if_neg hname]
  change Option.map _ (fileLines n (readLines 64 content) (Marked.driver ⟨cospyInit s, []⟩)) = _
  rw [← hlines, Option.map_map]
  rfl

/-- What one execution of a body hands on. -/
def bodyHanded (n : Nat) : List Piece → Cospy → List Piece
  | [], _ => []
  | q :: body, s =>
    q :: ((executeStatement n q.text s).elim [] fun r => bodyHanded n body r.2)

/-- What a loop hands on. -/
def loopHanded (n : Nat) (body : List Piece) : Nat → Cospy → List Piece
  | 0, _ => []
  | maxIter + 1, s =>
    (evalCond s).elim [] fun r =>
      if r.1 = 0 then []
      else bodyHanded n body r.2 ++
        ((fileBody n (body.map Piece.text) r.2).elim [] (loopHanded n body maxIter))

/-- What a line gives to `execute_statement` or puts into `while_body`. The `endwhile`
that closes the outermost loop gives the lines of its body, once for each time round;
every other line gives itself or nothing. -/
def lineHanded (n : Nat) (q : Piece) (d : Marked) : List Piece :=
  let line := skipWhitespace q.text
  if d.cospy.whileDepth > 0 then
    if startsWith line (ascii "endwhile") then
      if d.cospy.whileDepth - 1 = 0 then
        loopHanded n d.whileBody 1000 { d.cospy with whileDepth := d.cospy.whileDepth - 1 }
      else []
    else if d.whileBody.length < 16 then [⟨q.start, strcpy line⟩] else []
  else [⟨q.start, line⟩]

/-- The lines that the driver comes to, and its state there. -/
def fileSteps (n : Nat) : List Piece → Marked → List (Piece × Marked)
  | [], _ => []
  | q :: qs, d => (q, d) :: (markedLine n q d).elim [] (fileSteps n qs)

def cospySteps (n : Nat) (content : List UInt8) (s : Cospy) : List (Piece × Marked) :=
  fileSteps n (filePieces content) ⟨cospyInit s, []⟩

/-- What `cospy_run_file` gives to `execute_statement` or puts into `while_body`. -/
def cospyHanded (n : Nat) (content : List UInt8) (s : Cospy) : List Piece :=
  (cospySteps n content s).flatMap fun step => lineHanded n step.1 step.2

/-- A loop drops the line: it is the end of the loop, or there is no more room in its
body. It is on the line and the state it meets. -/
def Drops (q : Piece) (d : Marked) : Prop :=
  d.cospy.whileDepth > 0 ∧
    (startsWith (skipWhitespace q.text) (ascii "endwhile") = true ∨ 16 ≤ d.whileBody.length)

instance (q : Piece) (d : Marked) : Decidable (Drops q d) := inferInstanceAs (Decidable (_ ∧ _))

theorem bodyHanded_subset (n : Nat) (body : List Piece) (s : Cospy) :
    bodyHanded n body s ⊆ body := by
  induction body generalizing s with
  | nil => exact List.Subset.refl []
  | cons q body ih =>
    rw [bodyHanded]
    refine List.cons_subset_cons q ?_
    cases executeStatement n q.text s with
    | none => exact List.nil_subset body
    | some r => exact ih r.2

/-- A loop hands on what is in its body. -/
theorem loopHanded_subset (n : Nat) (body : List Piece) (k : Nat) (s : Cospy) :
    loopHanded n body k s ⊆ body := by
  induction k generalizing s with
  | zero => exact List.nil_subset body
  | succ k ih =>
    rw [loopHanded]
    cases evalCond s with
    | none => exact List.nil_subset body
    | some r =>
      rw [Option.elim_some]
      split
      · exact List.nil_subset body
      · refine List.append_subset.mpr ⟨bodyHanded_subset n body r.2, ?_⟩
        cases fileBody n (body.map Piece.text) r.2 with
        | none => exact List.nil_subset body
        | some t => exact ih t

section Step

variable {content : List UInt8} {n i : Nat} {d : Marked}

theorem beginsLine_executed :
    BeginsLine content ⟨i, skipWhitespace (linePiece content i).text⟩ ↔ IsLineStart content i :=
  ⟨BeginsLine.line, fun h => ⟨h, Or.inr rfl⟩⟩

theorem beginsLine_stored :
    BeginsLine content ⟨i, strcpy (skipWhitespace (linePiece content i).text)⟩ ↔
      IsLineStart content i :=
  ⟨BeginsLine.line, fun h => ⟨h, Or.inr List.takeWhile_idem⟩⟩

/-- A line hands on what is from the beginning of a line, if and only if it is a line of the file
itself or is dropped. -/
theorem lineHanded_iff (hbody : ∀ b ∈ d.whileBody, BeginsLine content b) :
    (∀ q ∈ lineHanded n (linePiece content i) d, BeginsLine content q) ↔
      IsLineStart content i ∨ Drops (linePiece content i) d := by
  unfold lineHanded Drops
  dsimp only
  by_cases hdepth : d.cospy.whileDepth > 0
  · rw [if_pos hdepth, and_iff_right hdepth]
    by_cases hend : startsWith (skipWhitespace (linePiece content i).text) (ascii "endwhile") = true
    · rw [if_pos hend]
      refine iff_of_true (fun q hq => ?_) (Or.inr (Or.inl hend))
      split at hq
      · exact hbody q (loopHanded_subset _ _ _ _ hq)
      · exact absurd hq List.not_mem_nil
    · rw [if_neg hend, or_iff_right hend]
      by_cases hroom : d.whileBody.length < 16
      · rw [if_pos hroom, List.forall_mem_singleton, or_iff_left (Nat.not_le.mpr hroom)]
        exact beginsLine_stored
      · rw [if_neg hroom]
        exact iff_of_true (fun q hq => absurd hq List.not_mem_nil)
          (Or.inr (Nat.not_lt.mp hroom))
  · rw [if_neg hdepth, List.forall_mem_singleton, or_iff_left fun h => hdepth h.1]
    exact beginsLine_executed

/-- The body of the loop stays as it should be. -/
theorem bodyAfter_begins (hbody : ∀ b ∈ d.whileBody, BeginsLine content b)
    (h : IsLineStart content i ∨ Drops (linePiece content i) d) :
    ∀ b ∈ bodyAfter (linePiece content i) d, BeginsLine content b := by
  unfold bodyAfter
  dsimp only
  split
  · split
    · split
      · exact fun b hb => absurd hb List.not_mem_nil
      · exact hbody
    · rename_i hend
      split
      · rename_i hroom
        have hline : IsLineStart content i :=
          h.resolve_right fun hdrop => hdrop.2.elim hend (Nat.not_le.mpr hroom)
        intro b hb
        rcases List.mem_append.mp hb with hb | hb
        · exact hbody b hb
        · rw [List.mem_singleton.mp hb]
          exact beginsLine_stored.mpr hline
      · exact hbody
  · exact hbody

/-- The run, from a state on. -/
theorem fileSteps_iff (starts : List Nat) (hbody : ∀ b ∈ d.whileBody, BeginsLine content b) :
    (∀ step ∈ fileSteps n (starts.map (linePiece content)) d,
        ∀ q ∈ lineHanded n step.1 step.2, BeginsLine content q) ↔
      ∀ step ∈ fileSteps n (starts.map (linePiece content)) d,
        IsLineStart content step.1.start ∨ Drops step.1 step.2 := by
  induction starts generalizing d with
  | nil =>
    exact iff_of_true (fun step hstep => absurd hstep List.not_mem_nil)
      fun step hstep => absurd hstep List.not_mem_nil
  | cons i starts ih =>
    rw [List.map_cons, fileSteps, List.forall_mem_cons, List.forall_mem_cons, lineHanded_iff hbody]
    refine and_congr_right fun hline => ?_
    cases hnext : markedLine n (linePiece content i) d with
    | none =>
      exact iff_of_true (fun step hstep => absurd hstep List.not_mem_nil)
        fun step hstep => absurd hstep List.not_mem_nil
    | some d' =>
      obtain ⟨r, -, rfl⟩ := Option.map_eq_some_iff.mp hnext
      exact ih (bodyAfter_begins hbody hline)

end Step

/-- What `cospy_run_file` hands on is from the beginning of a line, if and only if every line that
it comes to is one of the file or is dropped. -/
theorem cospyHanded_iff (n : Nat) (content : List UInt8) (s : Cospy) :
    (∀ q ∈ cospyHanded n content s, BeginsLine content q) ↔
      ∀ step ∈ cospySteps n content s,
        IsLineStart content step.1.start ∨ Drops step.1 step.2 := by
  have hbody : ∀ b ∈ (⟨cospyInit s, []⟩ : Marked).whileBody, BeginsLine content b :=
    fun b hb => absurd hb List.not_mem_nil
  have hrun := fileSteps_iff (n := n) (LineCut.starts 0x0A (scriptLineMax - 1) content 64 0) hbody
  refine Iff.trans ⟨fun h step hstep q hq => ?_, fun h q hq => ?_⟩ hrun
  · exact h q (List.mem_flatMap.mpr ⟨step, hstep, hq⟩)
  · obtain ⟨step, hstep, hq⟩ := List.mem_flatMap.mp hq
    exact h step hstep q hq

theorem fileSteps_pieces {n : Nat} {qs : List Piece} {d : Marked} {step : Piece × Marked}
    (h : step ∈ fileSteps n qs d) : step.1 ∈ qs := by
  induction qs generalizing d with
  | nil => exact absurd h List.not_mem_nil
  | cons q qs ih =>
    rcases List.mem_cons.mp h with rfl | h
    · exact List.mem_cons_self
    · cases hnext : markedLine n q d with
      | none =>
        rw [hnext] at h
        exact absurd h List.not_mem_nil
      | some d' =>
        rw [hnext] at h
        exact List.mem_cons_of_mem q (ih h)

/-- **The lines of `cospy_run_file`.** -/
theorem filePieces_iff (content : List UInt8) :
    (∀ q ∈ filePieces content, IsLineStart content q.start) ↔
      ShortLines ((content.splitOn 0x0A).take 63) :=
  forall_linePieces.trans (LineCut.forall_starts_iff 0x0A (by decide) 63 content)

/-- **One command for each line.** While a script stays what it is, `script_run` hands on lines of
the file if and only if none of them is too long. `cospy_run_file` does for every state it starts in
if none of the first 63 is, and in a run with a longer one as long as what is left of it is always
dropped. -/
theorem one_command_per_line (filename content : List UInt8) (s : Session) (n : Nat) (t : Cospy) :
    (ScriptSafe filename s →
      ((∀ q ∈ scriptRunPieces filename s, BeginsLine (loadedBytes filename s.fs) q) ↔
        ShortLines ((loadedBytes filename s.fs).splitOn 0x0A))) ∧
    (ShortLines ((content.splitOn 0x0A).take 63) →
      ∀ q ∈ cospyHanded n content t, BeginsLine content q) ∧
    ((∀ q ∈ cospyHanded n content t, BeginsLine content q) ↔
      ∀ step ∈ cospySteps n content t,
        IsLineStart content step.1.start ∨ Drops step.1 step.2) ∧
    ((∀ q ∈ filePieces content, IsLineStart content q.start) ↔
      ShortLines ((content.splitOn 0x0A).take 63)) := by
  refine ⟨scriptRunPieces_iff, fun hshort => ?_, cospyHanded_iff n content t,
    filePieces_iff content⟩
  have hall := (filePieces_iff content).mpr hshort
  exact (cospyHanded_iff n content t).mpr fun step hstep =>
    Or.inl (hall step.1 (fileSteps_pieces hstep))

/-- A script with short lines, which adds to a file and shows it. -/
theorem one_command_per_line_short :
    (∀ q ∈ scriptRunPieces (ascii "s")
        (scriptDisk (ascii "cat b\nappend b x\necho 1\n") (ascii "abc")),
      BeginsLine (loadedBytes (ascii "s")
        (scriptDisk (ascii "cat b\nappend b x\necho 1\n") (ascii "abc")).fs) q) ∧
    ∀ q ∈ cospyHanded 2 (ascii "x = 1\nprint(x)\n") (.start fun _ => []),
      BeginsLine (ascii "x = 1\nprint(x)\n") q := by
  have h := one_command_per_line (ascii "s") (ascii "x = 1\nprint(x)\n")
    (scriptDisk (ascii "cat b\nappend b x\necho 1\n") (ascii "abc")) 2 (.start fun _ => [])
  exact ⟨(h.1 (by decide +kernel)).mpr (by decide +kernel), h.2.1 (by decide)⟩

/-- A comment of 127 characters with more behind them. -/
def longComment (rest : List UInt8) : List UInt8 := List.replicate 127 0x23 ++ rest

/-- What is behind them is a command. -/
theorem longComment_cut :
    (¬∀ (filename : List UInt8) (s : Session), (loadedBytes filename s.fs).length ≤ 4096 →
      (0 : UInt8) ∉ loadedBytes filename s.fs →
      ∀ q ∈ scriptRunPieces filename s, BeginsLine (loadedBytes filename s.fs) q) ∧
    ¬∀ (n : Nat) (content : List UInt8) (t : Cospy), content.length ≤ 4096 →
      (0 : UInt8) ∉ content → ∀ q ∈ cospyHanded n content t, BeginsLine content q := by
  constructor
  · intro h
    have hline := h (ascii "s") (scriptDisk (longComment (ascii "echo 2\n")) (ascii "abc"))
      (by decide +kernel) (by decide +kernel) ⟨127, ascii "echo 2"⟩ (by decide +kernel)
    exact absurd hline.line (by decide +kernel)
  · intro h
    have hline := h 2 (longComment (ascii "print(2)\n")) (.start fun _ => [])
      (by decide +kernel) (by decide +kernel) ⟨127, ascii "print(2)"⟩ (by decide +kernel)
    exact absurd hline.line (by decide)

end OsU
