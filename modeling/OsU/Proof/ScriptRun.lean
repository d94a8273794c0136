import OsU.Kernel.Script
import OsU.Lib.LineCut
import OsU.Proof.ReadCache
import OsU.Proof.Format

/-!
# A running script

`script_run` has no copy of the script: it takes each line out of `read_cache` after the
commands of the lines before it have run. A `cat` or an `append` loads its file over the
script, from the first byte on; the rest of the script is still there as long as what
they store ends before the next line (`Undisturbed`). Every other command leaves the
buffer alone.

The condition follows the run: how far a line stores depends on the file it names and on
what the file holds by then (`lineReach`). The last line may store as far as it likes,
since nothing is taken from the buffer after it. That a file loaded over the script may
have the same bytes is not made use of; the condition is on how far, and not on what.

The end of the script is an address that was taken when it was loaded, so a shorter
script is not ended by a longer file, nor the other way round.
-/

set_option autoImplicit false

namespace OsU

open CString

/-! ## Lines of a file -/

/-- The lines of a file, as `script_run` cuts them. -/
def splitLines (bytes : List UInt8) : List (List UInt8) := readLines bytes.length bytes

/-- The rest of a file behind its first line. -/
def behindLine (bytes : List UInt8) : List UInt8 :=
  let r := copyWhile (fun c => c ≠ 0x0A) (scriptLineMax - 1) bytes
  if peek r.2 = 0x0A then r.2.tail else r.2

theorem readLines_cons (k : Nat) (b : UInt8) (p : List UInt8) :
    readLines (k + 1) (b :: p) = (copyWhile (fun c => c ≠ 0x0A) (scriptLineMax - 1) (b :: p)).1 ::
      readLines k (behindLine (b :: p)) := rfl

/-- A line takes at least one byte: its first, or the newline it is in front of. -/
theorem length_behindLine (b : UInt8) (p : List UInt8) :
    (behindLine (b :: p)).length ≤ p.length := by
  by_cases hb : b = 0x0A
  · have : behindLine (b :: p) = p := by
      subst hb
      rfl
    rw [this]
  · have hsplit := copyWhile_append (fun c => c ≠ 0x0A) (scriptLineMax - 1) (b :: p)
    have hlen := congrArg List.length hsplit
    rw [List.length_append, List.length_cons] at hlen
    have hpos : 0 < (copyWhile (fun c => c ≠ 0x0A) (scriptLineMax - 1) (b :: p)).1.length := by
      rw [show scriptLineMax - 1 = 126 + 1 from rfl, copyWhile, if_pos (by simpa using hb)]
      exact Nat.succ_pos _
    unfold behindLine
    dsimp only
    split
    · rw [List.length_tail]
      omega
    · omega

/-- The bound on the number of lines does not matter once it is that of the bytes. -/
theorem readLines_enough {j k : Nat} {bytes : List UInt8} (hj : bytes.length ≤ j)
    (hk : bytes.length ≤ k) : readLines j bytes = readLines k bytes := by
  induction j generalizing k bytes with
  | zero =>
    obtain rfl := List.length_eq_zero_iff.mp (Nat.le_zero.mp hj)
    rw [readLines_nil, readLines_nil]
  | succ j ih =>
    cases bytes with
    | nil => rw [readLines_nil, readLines_nil]
    | cons b p =>
      have hrest := length_behindLine b p
      cases k with
      | zero => exact absurd hk (Nat.not_succ_le_zero _)
      | succ k =>
        rw [readLines_cons, readLines_cons]
        exact congrArg _ (ih (hrest.trans (Nat.le_of_succ_le_succ hj))
          (hrest.trans (Nat.le_of_succ_le_succ hk)))

/-- The lines of a file are its first line and the lines behind it. -/
theorem splitLines_cons (b : UInt8) (p : List UInt8) :
    splitLines (b :: p) = (copyWhile (fun c => c ≠ 0x0A) (scriptLineMax - 1) (b :: p)).1 ::
      splitLines (behindLine (b :: p)) := by
  rw [splitLines, List.length_cons, readLines_cons, splitLines,
    readLines_enough (length_behindLine b p) (Nat.le_refl _)]

/-- What is copied at `p`. -/
theorem copyWhile_piece (bytes : List UInt8) (p : Nat) :
    (copyWhile (fun c => c ≠ 0x0A) (scriptLineMax - 1) (bytes.drop p)).1 =
      LineCut.piece 0x0A (scriptLineMax - 1) bytes p :=
  copyWhile_fst _ _ _

/-- The rest of a file behind the line at `p`. -/
theorem behindLine_at (bytes : List UInt8) (p : Nat) :
    behindLine (bytes.drop p) = bytes.drop (LineCut.next 0x0A (scriptLineMax - 1) bytes p) := by
  unfold behindLine LineCut.next
  dsimp only
  rw [copyWhile_rest, copyWhile_piece, List.drop_drop]
  generalize p + (LineCut.piece 0x0A (scriptLineMax - 1) bytes p).length = q
  cases hq : bytes[q]? with
  | none =>
    have hnil : bytes.drop q = [] := List.drop_eq_nil_iff.mpr (List.getElem?_eq_none_iff.mp hq)
    rw [hnil, if_neg (by decide), if_neg nofun, hnil]
  | some b =>
    obtain ⟨hlt, rfl⟩ := List.getElem?_eq_some_iff.mp hq
    rw [List.drop_eq_getElem_cons hlt, peek_cons, List.tail_cons]
    by_cases hb : bytes[q] = 0x0A
    · rw [if_pos hb, if_pos (congrArg some hb)]
    · rw [if_neg hb, if_neg fun h => hb (Option.some.inj h), List.drop_eq_getElem_cons hlt]

/-- The lines from `p` on, and where they begin. -/
theorem readLines_starts (k : Nat) (bytes : List UInt8) (p : Nat) :
    readLines k (bytes.drop p) = (LineCut.starts 0x0A (scriptLineMax - 1) bytes k p).map
      (LineCut.piece 0x0A (scriptLineMax - 1) bytes) := by
  induction k generalizing p with
  | zero => rfl
  | succ k ih =>
    rw [LineCut.starts]
    split
    · rename_i hlt
      have hcons := readLines_cons k bytes[p] (bytes.drop (p + 1))
      rw [← List.drop_eq_getElem_cons hlt, copyWhile_piece, behindLine_at, ih] at hcons
      rw [hcons, List.map_cons]
    · rename_i hend
      rw [List.drop_eq_nil_iff.mpr (Nat.not_lt.mp hend)]
      rfl

/-! ## Lines and where they are taken -/

/-- A string that is handed on, with the place in the file where it was taken. -/
structure Piece where
  start : Nat
  text : List UInt8
  deriving DecidableEq

/-- The line that is taken at `p`. -/
def linePiece (content : List UInt8) (p : Nat) : Piece :=
  ⟨p, LineCut.piece 0x0A (scriptLineMax - 1) content p⟩

/-- The lines that are taken from `p` on. -/
def linePieces (content : List UInt8) (k p : Nat) : List Piece :=
  (LineCut.starts 0x0A (scriptLineMax - 1) content k p).map (linePiece content)

theorem linePieces_text (content : List UInt8) (k p : Nat) :
    (linePieces content k p).map Piece.text = readLines k (content.drop p) := by
  rw [readLines_starts, linePieces, List.map_map]
  rfl

/-! ## Lines in the buffer -/

section Buffer

variable (m : ByteMem) {p stop : Nat}

theorem length_drop_toList : ((m.toList stop).drop p).length = stop - p := by
  rw [List.length_drop, ByteMem.length_toList]

theorem drop_toList (hp : p < stop) :
    (m.toList stop).drop p = m p :: (m.toList stop).drop (p + 1) := by
  have hlt : p < (m.toList stop).length := by rwa [ByteMem.length_toList]
  rw [List.drop_eq_getElem_cons hlt]
  simp [ByteMem.toList]

theorem drop_toList_congr {m' : ByteMem} (h : ∀ i, p ≤ i → i < stop → m i = m' i) :
    (m.toList stop).drop p = (m'.toList stop).drop p := by
  apply List.ext_getElem
  · simp
  · intro i h₁ h₂
    rw [length_drop_toList] at h₁
    simpa [ByteMem.toList] using h (p + i) (Nat.le_add_right p i) (by omega)

theorem scriptLine_eq :
    scriptLine m p stop = LineCut.piece 0x0A (scriptLineMax - 1) (m.toList stop) p :=
  copyWhile_piece _ _

theorem scriptNext_eq :
    scriptNext m p stop = LineCut.next 0x0A (scriptLineMax - 1) (m.toList stop) p := by
  unfold scriptNext LineCut.next
  dsimp only
  rw [← scriptLine_eq]
  refine if_congr ?_ rfl rfl
  rw [List.getElem?_eq_some_iff]
  simp [ByteMem.toList]

/-- The line at `p` is in the bytes from `p` on. -/
theorem scriptLine_congr {m' : ByteMem} (h : ∀ i, p ≤ i → i < stop → m i = m' i) :
    scriptLine m p stop = scriptLine m' p stop := by
  rw [scriptLine, drop_toList_congr m h]
  rfl

theorem scriptNext_congr {m' : ByteMem} (h : ∀ i, p ≤ i → i < stop → m i = m' i) :
    scriptNext m p stop = scriptNext m' p stop := by
  unfold scriptNext
  dsimp only
  rw [scriptLine_congr m h]
  refine if_congr (and_congr_right fun hlt => ?_) rfl rfl
  rw [h _ (Nat.le_add_right _ _) hlt]

/-- The rest of the script behind the line at `p`. -/
theorem behindLine_drop :
    behindLine ((m.toList stop).drop p) = (m.toList stop).drop (scriptNext m p stop) := by
  rw [behindLine_at, scriptNext_eq]

/-- The loop goes on: a line, or the newline it is in front of, is behind it. -/
theorem lt_scriptNext (hp : p < stop) : p < scriptNext m p stop := by
  have hlen := length_behindLine (m p) ((m.toList stop).drop (p + 1))
  rw [← drop_toList m hp, behindLine_drop, length_drop_toList, length_drop_toList] at hlen
  by_contra hnext
  omega

end Buffer

/-- `len` rounds are enough for the loop, whatever its lines do. -/
theorem scriptLoop_enough {stop n p : Nat} (h : stop ≤ p + n) (k : Nat) (s : Session) :
    scriptLoop stop (n + k) p s = scriptLoop stop n p s := by
  induction n generalizing p s with
  | zero =>
    cases k with
    | zero => rfl
    | succ k =>
      have hp : ¬ p < stop := Nat.not_lt.mpr h
      rw [Nat.zero_add, scriptLoop, scriptLoop, if_neg hp]
  | succ n ih =>
    rw [Nat.succ_add, scriptLoop, scriptLoop]
    by_cases hp : p < stop
    · rw [if_pos hp, if_pos hp]
      have hnext := lt_scriptNext s.fs.readCache hp
      have hrest := ih (p := scriptNext s.fs.readCache p stop) (by omega)
        (executeLine (scriptLine s.fs.readCache p stop) s).2
      dsimp only
      rw [hrest]
    · rw [if_neg hp, if_neg hp]

/-! ## What a line can store -/

/-- The last byte of `read_cache` a line of a script can store, `none` where it stores
none. Only `cat` and `append` store there, up to the NUL behind the text. The script
itself lies in the same buffer, from its first byte on. -/
def lineReach (line : List UInt8) (s : Fs) : Option Nat :=
  let line := skipWhitespace line
  if peek line = 0 ∨ peek line = 0x23 then none
  else
    let cmdBuf := (strcpy line).take (scriptLineMax - 1)
    let args := (splitArg cmdBuf).2
    if (splitArg cmdBuf).1 = ascii "append" then
      (normalize (splitArg args).1).bind fun n => appendReach n (splitArg args).2 s
    else if (splitArg cmdBuf).1 = ascii "cat" then (normalize args).bind fun n => foundSize n s
    else none

theorem lsLoop_readCache (n idx : Nat) (s : Session) :
    (s.lsLoop n idx).2.fs.readCache = s.fs.readCache := by
  induction n generalizing idx s with
  | zero => rfl
  | succ n ih =>
    rw [Session.lsLoop]
    dsimp only
    split
    · exact fsListDirEntry_readCache s.fs idx
    · rw [ih]
      split <;> exact fsListDirEntry_readCache s.fs idx

theorem cat_keeps (name : List UInt8) (s : Session) {i : Nat}
    (hi : ∀ r, ((normalize name).bind fun n => foundSize n s.fs) = some r → r < i) :
    (s.cat name).fs.readCache i = s.fs.readCache i := by
  rw [Session.cat_fs, vfsReadPtr]
  cases hn : normalize name with
  | none => rfl
  | some n =>
    rw [hn] at hi
    exact (fsReadPtr_keeps n s.fs).2 i hi

theorem append_keeps (name text : List UInt8) (s : Fs) {i : Nat}
    (hi : ∀ r, ((normalize name).bind fun n => appendReach n text s) = some r → r < i) :
    (vfsAppend name text s).2.readCache i = s.readCache i := by
  rw [vfsAppend]
  cases hn : normalize name with
  | none => rfl
  | some n =>
    rw [hn] at hi
    exact fsAppend_keeps n text s hi

/-- A call that leaves the buffer alone. -/
theorem call_readCache {f : List UInt8 → Fs → Int × Fs}
    (hf : ∀ n s, (f n s).2.readCache = s.readCache) (name : Option (List UInt8))
    (ok failed : List UInt8) (s : Session) :
    (s.call (onName f name) ok failed).fs.readCache = s.fs.readCache := by
  rw [Session.call_fs]
  cases name with
  | none => rfl
  | some n => exact hf n s.fs

/-- The buffer is what it was in `s`. -/
def CacheKept (s : Session) (r : Int × Session) : Prop := r.2.fs.readCache = s.fs.readCache

/-- The commands of a script but `append` and `cat` leave the buffer alone. -/
theorem executeCommand_kept {cmd : List UInt8} (args : List UInt8) (s : Session)
    (happend : cmd ≠ ascii "append") (hcat : cmd ≠ ascii "cat") :
    CacheKept s (executeCommand cmd args s) := by
  -- The commands in the order of the source; only the two that are excluded read a
  -- file.
  unfold executeCommand
  refine iteInduction (motive := CacheKept s) (fun h => ?_) fun _ => ?_
  · exact congrArg Fs.readCache ((Session.putc_fs _ _).trans (Session.puts_fs _ s))
  refine iteInduction (motive := CacheKept s) (fun h => ?_) fun _ => ?_
  · exact call_readCache (fun n s => fsTouch_readCache s n) _ _ _ s
  refine iteInduction (motive := CacheKept s) (fun h => ?_) fun _ => ?_
  · exact call_readCache (fun n s => fsRemove_readCache s n) _ _ _ s
  refine iteInduction (motive := CacheKept s) (fun h => ?_) fun _ => ?_
  · exact call_readCache (fun n s => fsWriteRaw_readCache s n _) _ _ _ s
  refine iteInduction (motive := CacheKept s) (fun h => ?_) fun _ => ?_
  · exact absurd h happend
  refine iteInduction (motive := CacheKept s) (fun h => ?_) fun _ => ?_
  · exact absurd h hcat
  refine iteInduction (motive := CacheKept s) (fun h => ?_) fun _ => ?_
  · exact call_readCache (fun n s => fsMkdir_readCache s n) _ _ _ s
  refine iteInduction (motive := CacheKept s) (fun h => ?_) fun _ => ?_
  · exact call_readCache (fun n s => fsRmdir_readCache s n) _ _ _ s
  refine iteInduction (motive := CacheKept s) (fun h => ?_) fun _ => ?_
  · refine iteInduction (motive := CacheKept s) (fun _ => ?_) fun _ => ?_
    · exact call_readCache (fun n s => fsChdir_readCache s n) _ [] [] s
    · exact call_readCache (fun n s => fsChdir_readCache s n) _ _ _ s
  refine iteInduction (motive := CacheKept s) (fun h => ?_) fun _ => ?_
  · exact fsGetcwd_readCache s.fs
  refine iteInduction (motive := CacheKept s) (fun h => ?_) fun _ => ?_
  · rfl
  refine iteInduction (motive := CacheKept s) (fun h => ?_) fun _ => ?_
  · exact lsLoop_readCache _ _ _
  refine iteInduction (motive := CacheKept s) (fun h => ?_) fun _ => ?_
  · exact congrArg Fs.readCache ((Session.putc_fs _ _).trans
      ((Session.puts_fs _ _).trans (Session.puts_fs _ s)))
  · rfl

/-- **Frame.** A line leaves the buffer as it was beyond its reach. One case for each
command, and most have no reach at all. -/
theorem executeLine_keeps (line : List UInt8) (s : Session) {i : Nat}
    (hi : ∀ r, lineReach line s.fs = some r → r < i) :
    (executeLine line s).2.fs.readCache i = s.fs.readCache i := by
  unfold lineReach at hi
  unfold executeLine
  dsimp only at hi ⊢
  split
  · rfl
  · rename_i hline
    rw [if_neg hline] at hi
    generalize (strcpy (skipWhitespace line)).take (scriptLineMax - 1) = cmdBuf at hi ⊢
    by_cases happend : (splitArg cmdBuf).1 = ascii "append"
    · rw [if_pos happend] at hi
      rw [happend]
      exact append_keeps _ _ _ hi
    · by_cases hcat : (splitArg cmdBuf).1 = ascii "cat"
      · rw [if_neg happend, if_pos hcat] at hi
        rw [hcat]
        exact cat_keeps _ _ hi
      · exact congrFun (executeCommand_kept _ s happend hcat) i

/-! ## The run -/

/-- No line but the last stores at the next one or behind it, in `n` lines from `p` on.
The next line is where the buffer says before the line is executed. -/
def Undisturbed (stop : Nat) : Nat → Nat → Session → Prop
  | 0, _, _ => True
  | n + 1, p, s =>
    p < stop →
      let line := scriptLine s.fs.readCache p stop
      let next := scriptNext s.fs.readCache p stop
      (next < stop → ∀ r ∈ lineReach line s.fs, r < next) ∧
        Undisturbed stop n next (executeLine line s).2

/-- The rest of the script is still there behind a line. -/
theorem Undisturbed.kept {stop n p : Nat} {s : Session} (h : Undisturbed stop (n + 1) p s)
    (hp : p < stop) :
    ∀ i, scriptNext s.fs.readCache p stop ≤ i → i < stop →
      (executeLine (scriptLine s.fs.readCache p stop) s).2.fs.readCache i = s.fs.readCache i := by
  intro i hi hstop
  refine executeLine_keeps _ s fun r hr => ?_
  exact ((h hp).1 (hi.trans_lt hstop) r hr).trans_le hi

/-- What the loop gives to `execute_line`. -/
def scriptPieces (stop : Nat) : Nat → Nat → Session → List Piece
  | 0, _, _ => []
  | n + 1, p, s =>
    if p < stop then
      let line := scriptLine s.fs.readCache p stop
      ⟨p, line⟩ ::
        scriptPieces stop n (scriptNext s.fs.readCache p stop) (executeLine line s).2
    else []

/-- They are the lines it executes. -/
theorem scriptPieces_text (stop n p : Nat) (s : Session) :
    (scriptPieces stop n p s).map Piece.text = (scriptLoop stop n p s).1 := by
  induction n generalizing p s with
  | zero => rfl
  | succ n ih =>
    rw [scriptPieces, scriptLoop]
    split
    · exact congrArg _ (ih _ _)
    · rfl

/-- As long as the script is still there, it is taken apart like the file. -/
theorem scriptPieces_lines {stop : Nat} (n : Nat) {p : Nat} {s : Session} {m : ByteMem}
    (hm : ∀ i, p ≤ i → i < stop → s.fs.readCache i = m i) (hsafe : Undisturbed stop n p s) :
    scriptPieces stop n p s = linePieces (m.toList stop) n p := by
  induction n generalizing p s with
  | zero => rfl
  | succ n ih =>
    rw [scriptPieces, linePieces, LineCut.starts, ByteMem.length_toList]
    by_cases hp : p < stop
    · have hline : scriptLine s.fs.readCache p stop = (linePiece (m.toList stop) p).text := by
        rw [scriptLine_congr _ hm, scriptLine_eq]
        rfl
      have hnext : scriptNext s.fs.readCache p stop =
          LineCut.next 0x0A (scriptLineMax - 1) (m.toList stop) p := by
        rw [scriptNext_congr _ hm, scriptNext_eq]
      have hkeep : ∀ i, scriptNext s.fs.readCache p stop ≤ i → i < stop →
          (executeLine (scriptLine s.fs.readCache p stop) s).2.fs.readCache i = m i := by
        intro i hi hstop
        rw [hsafe.kept hp i hi hstop]
        exact hm i ((Nat.le_of_lt (lt_scriptNext _ hp)).trans hi) hstop
      rw [if_pos hp, if_pos hp, List.map_cons]
      dsimp only
      rw [ih hkeep (hsafe hp).2, hnext, hline]
      rfl
    · rw [if_neg hp, if_neg hp]
      rfl

/-- The lines executed are those of the buffer the loop started with. -/
theorem scriptLoop_lines {stop : Nat} (n : Nat) {p : Nat} {s : Session} {m : ByteMem}
    (hm : ∀ i, p ≤ i → i < stop → s.fs.readCache i = m i) (hsafe : Undisturbed stop n p s) :
    (scriptLoop stop n p s).1 = readLines n ((m.toList stop).drop p) := by
  rw [← scriptPieces_text, scriptPieces_lines n hm hsafe, linePieces_text]

instance instDecidableUndisturbed (stop : Nat) :
    (n p : Nat) → (s : Session) → Decidable (Undisturbed stop n p s)
  | 0, _, _ => isTrue trivial
  | n + 1, p, s =>
    have := instDecidableUndisturbed stop n (scriptNext s.fs.readCache p stop)
      (executeLine (scriptLine s.fs.readCache p stop) s).2
    inferInstanceAs (Decidable (p < stop → _ ∧ _))

/-- `Undisturbed`, for a run of `script_run`. -/
def ScriptSafe (filename : List UInt8) (s : Session) : Prop :=
  ∀ len ∈ (vfsReadPtr filename s.fs).1,
    Undisturbed len len 0 { s with fs := (vfsReadPtr filename s.fs).2 }

instance (filename : List UInt8) (s : Session) : Decidable (ScriptSafe filename s) :=
  inferInstanceAs (Decidable (∀ _ ∈ _, _))

/-- A disk with a script `s` and a file `b`. -/
def scriptDisk (script file : List UInt8) : Session :=
  let s := (fsWriteRaw (ascii "s") script freshFs).2
  ⟨(fsWriteRaw (ascii "b") file s).2, ⟨⟨fun _ => 0, 0⟩, 0, 0, 7, 0⟩, []⟩

/-- **The script that runs is the script that was read**, in every run no line of which loads a
file over the lines still to come. -/
theorem scriptRun_lines {filename : List UInt8} {s : Session} (h : ScriptSafe filename s) :
    (scriptRun filename s).2.1 = splitLines (loadedBytes filename s.fs) := by
  unfold scriptRun loadedBytes
  by_cases hname : peek filename = 0
  · rw [if_pos hname, vfsReadPtr, normalize, if_pos hname]
    rfl
  · rw [if_neg hname]
    dsimp only
    cases hread : (vfsReadPtr filename s.fs).1 with
    | none => rfl
    | some len =>
      have hrun := scriptLoop_lines len (m := (vfsReadPtr filename s.fs).2.readCache)
        (fun i _ _ => rfl) (h len hread)
      rw [List.drop_zero] at hrun
      refine hrun.trans ?_
      rw [Option.getD_some, splitLines, ByteMem.length_toList]

/-- A script that shows a file shorter than its first line, and adds to it. -/
theorem scriptRun_lines_short :
    (scriptRun (ascii "s") (scriptDisk (ascii "cat b\nappend b x\necho 1\n") (ascii "abc"))).2.1 =
      splitLines (loadedBytes (ascii "s")
        (scriptDisk (ascii "cat b\nappend b x\necho 1\n") (ascii "abc")).fs) :=
  scriptRun_lines (by decide +kernel)

/-- `cat` of a file longer than the script: the second line executed is one of that file. -/
theorem scriptRun_overwritten :
    (scriptRun (ascii "s") (scriptDisk (ascii "cat b\necho 1\n") (ascii "      echo 2\n      "))).2.1 ≠
      splitLines (loadedBytes (ascii "s")
        (scriptDisk (ascii "cat b\necho 1\n") (ascii "      echo 2\n      ")).fs) := by
  decide +kernel

end OsU
