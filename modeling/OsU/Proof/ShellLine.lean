import Mathlib.Data.List.DropRight
import OsU.Kernel.Shell
import OsU.Proof.Format

/-!
# A line in a script and at the prompt

`execute_line` and the dispatch of `shell_run` split a line alike and make the same call
of `vfs.c` with the same arguments. They differ where an argument is missing: the prompt
shows its usage, a script makes the call anyway. A call without a name is refused before
it reaches the driver, so it makes no difference (`onName_empty`); `write` and `append`
with a name and no text are not refused, and empty or create the file.

The commands are those that change files. They are compared by what they leave of the
file system: files, contents, directories and the current directory, and neither the
screen nor the buffers of the driver, which the two executors use differently.

The statement is on a line and all states. For a line with a text the two agree in each;
for one without there is a state in which they do not, the driver on an empty volume.
-/

set_option autoImplicit false

namespace OsU

open CString

/-- The files, their contents, the directories and the current directory are the same: the two
states may differ in the device's clock and log and in the scratch buffers. -/
structure SameFiles (a b : Fs) : Prop where
  sectors : a.dev.sectors = b.dev.sectors
  fatBuf : a.fatBuf = b.fatBuf
  rootBuf : a.rootBuf = b.rootBuf
  fsReady : a.fsReady = b.fsReady
  currentDirCluster : a.currentDirCluster = b.currentDirCluster
  currentPath : a.currentPath = b.currentPath

theorem SameFiles.refl (a : Fs) : SameFiles a a := ⟨rfl, rfl, rfl, rfl, rfl, rfl⟩

/-- The words of a command line: the command and its arguments. -/
def commandOf (line : List UInt8) : List UInt8 × List UInt8 := splitArg (skipWhitespace line)

/-- The commands that change files. -/
def fileCommands : List (List UInt8) :=
  [ascii "touch", ascii "rm", ascii "write", ascii "append", ascii "mkdir", ascii "rmdir", ascii "cd"]

/-- `write` or `append`, with a name the driver accepts and no text. The name is checked
as `vfs.c` checks it, with a leading slash taken off. -/
def NoText (line : List UInt8) : Prop :=
  ((commandOf line).1 = ascii "write" ∨ (commandOf line).1 = ascii "append") ∧
    (splitArg (commandOf line).2).2 = [] ∧
    ∃ n, normalize (splitArg (commandOf line).2).1 = some n ∧ validName n = true

/-! ## Splitting -/

theorem peek_eq_zero {s : List UInt8} (hz : 0 ∉ s) : peek s = 0 ↔ s = [] := by
  cases s with
  | nil => exact iff_of_true rfl rfl
  | cons b s =>
    refine iff_of_false (fun hb => hz ?_) nofun
    rw [show b = 0 from hb]
    exact List.mem_cons_self

theorem zero_notMem_skipWhitespace {s : List UInt8} (hz : 0 ∉ s) : 0 ∉ skipWhitespace s :=
  fun h => hz ((List.dropWhile_suffix _).subset h)

theorem zero_notMem_args {s : List UInt8} (hz : 0 ∉ s) : 0 ∉ (splitArg s).2 := by
  unfold splitArg
  dsimp only
  split
  · exact List.not_mem_nil
  · exact zero_notMem_skipWhitespace fun h => hz (List.mem_of_mem_drop (List.mem_of_mem_tail h))

/-- The arguments begin with a character of a word. -/
theorem skipWhitespace_args (s : List UInt8) : skipWhitespace (splitArg s).2 = (splitArg s).2 := by
  unfold splitArg
  dsimp only
  split
  · rfl
  · exact List.dropWhile_idempotent _ _

/-- The command begins where the line does, behind its blanks. -/
theorem peek_commandOf (line : List UInt8) :
    peek (commandOf line).1 = peek (skipWhitespace line) := by
  unfold commandOf splitArg
  dsimp only
  cases hs : skipWhitespace line with
  | nil => rfl
  | cons b rest =>
    have hb : isBlank b = false := by
      have hid : (b :: rest).dropWhile isBlank = b :: rest := by
        rw [← hs]
        exact List.dropWhile_idempotent _ _
      by_contra hblank
      rw [List.dropWhile_cons_of_pos (by simpa using hblank)] at hid
      have hlen := (List.dropWhile_suffix isBlank (l := rest)).length_le
      rw [hid] at hlen
      exact absurd hlen (Nat.not_succ_le_self _)
    by_cases hz : b = 0
    · rw [List.takeWhile_cons_of_neg (by simp [hz]), hz]
      rfl
    · rw [List.takeWhile_cons_of_pos (by simp [hz, hb])]
      rfl

/-! ## The two dispatches -/

section Dispatch

variable (other : List UInt8 → List UInt8 → Session → Session) {line : List UInt8}

theorem peek_command (hcmd : (commandOf line).1 ∈ fileCommands) :
    peek (skipWhitespace line) ≠ 0 ∧ peek (skipWhitespace line) ≠ 0x23 := by
  rw [← peek_commandOf]
  revert hcmd
  generalize (commandOf line).1 = cmd
  revert cmd
  decide

theorem executeLine_eq (hz : 0 ∉ line) (hlen : line.length ≤ 127)
    (hcmd : (commandOf line).1 ∈ fileCommands) (s : Session) :
    executeLine line s = executeCommand (commandOf line).1 (commandOf line).2 s := by
  obtain ⟨h0, hhash⟩ := peek_command hcmd
  have hbuf : (strcpy (skipWhitespace line)).take (scriptLineMax - 1) = skipWhitespace line := by
    rw [strcpy_eq (zero_notMem_skipWhitespace hz)]
    exact List.take_of_length_le (((List.dropWhile_suffix _).length_le).trans hlen)
  unfold executeLine
  dsimp only
  rw [if_neg (not_or.mpr ⟨h0, hhash⟩), hbuf]
  rfl

theorem shellLine_eq (hcmd : (commandOf line).1 ∈ fileCommands) (s : Session) :
    shellLine other line s = shellDispatch other (commandOf line).1 (commandOf line).2
      { s with history := saveHistory line s.history } := by
  obtain ⟨h0, -⟩ := peek_command hcmd
  have hne : line ≠ ascii "!!" := by
    rintro rfl
    exact absurd hcmd (by decide)
  have hline : peek line ≠ 0 := by
    intro hpeek
    cases line with
    | nil => exact h0 rfl
    | cons b rest =>
      obtain rfl : b = 0 := hpeek
      exact h0 rfl
  unfold shellLine
  dsimp only
  rw [if_neg hline, if_neg hne, splitCmd, if_neg h0]
  rfl

end Dispatch

/-! ## The calls -/

/-- A path without a character is refused. -/
theorem onName_empty (f : List UInt8 → Fs → Int × Fs) {path : List UInt8} (h : peek path = 0)
    (s : Fs) : onName f (normalize path) s = (-1, s) := by
  rw [normalize, if_pos h]
  rfl

/-- The prompt shows its usage when the name is missing: the call would have been
refused. So the file system is the same with the test and without. -/
theorem fs_of_tested (f : List UInt8 → Fs → Int × Fs) {args : List UInt8} {s shown called : Session}
    (hshown : shown.fs = s.fs) (hcalled : called.fs = (onName f (normalize args) s.fs).2) :
    (if peek args = 0 then shown else called).fs = (onName f (normalize args) s.fs).2 := by
  split
  · rename_i h
    rw [hshown, onName_empty f h]
  · exact hcalled

theorem cmdTouch_fs (args : List UInt8) (s : Session) :
    (cmdTouch args s).fs = (vfsTouch args s.fs).2 :=
  fs_of_tested fsTouch (Session.puts_fs _ s) (Session.call_fs _ _ _ s)

theorem cmdRm_fs (args : List UInt8) (s : Session) :
    (cmdRm args s).fs = (vfsRemove args s.fs).2 :=
  fs_of_tested fsRemove (Session.puts_fs _ s) (Session.call_fs _ _ _ s)

theorem cmdMkdir_fs (args : List UInt8) (s : Session) :
    (cmdMkdir args s).fs = (vfsMkdir args s.fs).2 :=
  fs_of_tested fsMkdir (Session.puts_fs _ s) (Session.call_fs _ _ _ s)

theorem cmdRmdir_fs (args : List UInt8) (s : Session) :
    (cmdRmdir args s).fs = (vfsRmdir args s.fs).2 := by
  refine fs_of_tested fsRmdir (Session.puts_fs _ s) ?_
  -- the three messages leave the driver alike
  dsimp only
  split
  · exact Session.puts_fs _ _
  · split
    · exact Session.puts_fs _ _
    · exact Session.puts_fs _ _

/-- The call of `write` and of `append`. -/
def vfsText (append : Bool) (name text : List UInt8) (s : Fs) : Int × Fs :=
  if append then vfsAppend name text s else vfsWrite name text s

theorem cmdWriteCommon_fs (args : List UInt8) (append : Bool) (s : Session) :
    (cmdWriteCommon args append s).fs =
      if peek args = 0 ∨ peek (splitFirstArg args).1 = 0 ∨ peek (splitFirstArg args).2 = 0 then s.fs
      else (vfsText append (splitFirstArg args).1 (splitFirstArg args).2 s.fs).2 := by
  unfold cmdWriteCommon
  by_cases hargs : peek args = 0
  · simp only [if_pos hargs, if_pos (Or.inl hargs), Session.puts_fs]
  · simp only [if_neg hargs]
    by_cases hmiss : peek (splitFirstArg args).1 = 0 ∨ peek (splitFirstArg args).2 = 0
    · rw [if_pos hmiss, if_pos (Or.inr hmiss)]
      rfl
    · rw [if_neg hmiss, if_neg (not_or.mpr ⟨hargs, hmiss⟩), Session.call_fs, vfsText]
      cases append <;> rfl

/-- A name the driver does not accept is refused, whatever the text. -/
theorem vfsText_invalid {append : Bool} {name : List UInt8} (text : List UInt8) (s : Fs)
    (h : ∀ n, normalize name = some n → validName n = false) :
    SameFiles (vfsText append name text s).2 s := by
  have hcall : ∀ f : List UInt8 → Fs → Int × Fs,
      (∀ n, normalize name = some n → SameFiles (f n s).2 s) →
        SameFiles (onName f (normalize name) s).2 s := by
    intro f hf
    cases hn : normalize name with
    | none => exact .refl s
    | some n => exact hf n hn
  cases append with
  | false =>
    refine hcall (fun n => fsWrite n text) fun n hn => ?_
    show SameFiles (fsWriteRaw n _ s).2 s
    rw [fsWriteRaw, if_pos (Or.inr (Or.inl (h n hn)))]
    exact .refl s
  | true =>
    refine hcall (fun n => fsAppend n text) fun n hn => ?_
    have hnone : fatNameFromInput n = none := by simpa [validName] using h n hn
    have hread : fsReadPtr n s = (none, s) := by
      simp [fsReadPtr, findEntryInCurrent, hnone]
    show SameFiles (fsAppend n text s).2 s
    -- only the cache can change: the write that follows is refused
    unfold fsAppend
    dsimp only
    rw [hread]
    split
    · exact .refl s
    · split
      · exact .refl s
      · rw [fsWriteRaw, if_pos (Or.inr (Or.inl (h n hn)))]
        exact ⟨rfl, rfl, rfl, rfl, rfl, rfl⟩

/-! ## A line -/

section Line

variable (other : List UInt8 → List UInt8 → Session → Session) {line : List UInt8}

/-- With a text, or a name that is refused, `write` and `append` do alike. -/
theorem text_same (append : Bool) {args : List UInt8} (hz : 0 ∉ args)
    (hskip : skipWhitespace args = args)
    (hgood : (splitArg args).2 = [] → ∀ n, normalize (splitArg args).1 = some n →
      validName n = false) (s a : Session) (hs : a.fs = s.fs) :
    SameFiles (vfsText append (splitArg args).1 (splitArg args).2 s.fs).2
      (cmdWriteCommon args append a).fs := by
  rw [cmdWriteCommon_fs, hs, splitFirstArg, hskip]
  split
  · rename_i hmiss
    refine vfsText_invalid _ _ fun n hn => ?_
    have hname : peek (splitArg args).1 ≠ 0 := by
      intro hname
      rw [normalize, if_pos hname] at hn
      exact nomatch hn
    have hargs : peek args ≠ 0 := by
      intro hargs
      rw [(peek_eq_zero hz).mp hargs] at hname
      exact hname rfl
    have htext : peek (splitArg args).2 = 0 := (hmiss.resolve_left hargs).resolve_left hname
    exact hgood ((peek_eq_zero (zero_notMem_args hz)).mp htext) n hn
  · exact .refl _

theorem same_of_text (hz : 0 ∉ line) (hlen : line.length ≤ 127)
    (hcmd : (commandOf line).1 ∈ fileCommands) (hgood : ¬ NoText line) (s : Session) :
    SameFiles (executeLine line s).2.fs (shellLine other line s).fs := by
  rw [executeLine_eq hz hlen hcmd, shellLine_eq other hcmd]
  have hargs : 0 ∉ (commandOf line).2 := zero_notMem_args (zero_notMem_skipWhitespace hz)
  have hskip : skipWhitespace (commandOf line).2 = (commandOf line).2 := skipWhitespace_args _
  -- The shell prints its usage when a text is missing, and the script goes on. That is
  -- the difference, unless the name is refused anyhow.
  have htext : (commandOf line).1 = ascii "write" ∨ (commandOf line).1 = ascii "append" →
      (splitArg (commandOf line).2).2 = [] →
      ∀ n, normalize (splitArg (commandOf line).2).1 = some n → validName n = false := by
    intro hw hnil n hn
    by_contra hvalid
    exact hgood ⟨hw, hnil, n, hn, by simpa using hvalid⟩
  generalize commandOf line = c at hcmd hargs hskip htext
  obtain ⟨cmd, args⟩ := c
  dsimp only at hcmd hargs hskip htext ⊢
  simp only [fileCommands, List.mem_cons, List.not_mem_nil, or_false] at hcmd
  generalize ha : { s with history := saveHistory line s.history } = a
  have hs : a.fs = s.fs := by rw [← ha]
  -- Of the seven commands five make the same call on both sides.
  rcases hcmd with rfl | rfl | rfl | rfl | rfl | rfl | rfl
  · show SameFiles (vfsTouch args s.fs).2 (cmdTouch args a).fs
    rw [cmdTouch_fs, hs]
    exact .refl _
  · show SameFiles (vfsRemove args s.fs).2 (cmdRm args a).fs
    rw [cmdRm_fs, hs]
    exact .refl _
  · exact text_same false hargs hskip (htext (Or.inl rfl)) s a hs
  · exact text_same true hargs hskip (htext (Or.inr rfl)) s a hs
  · show SameFiles (vfsMkdir args s.fs).2 (cmdMkdir args a).fs
    rw [cmdMkdir_fs, hs]
    exact .refl _
  · show SameFiles (vfsRmdir args s.fs).2 (cmdRmdir args a).fs
    rw [cmdRmdir_fs, hs]
    exact .refl _
  · show SameFiles (if peek args = 0 then _ else _ : Int × Session).2.fs (cmdCd args a).fs
    unfold cmdCd
    split
    · rw [hs]
      exact .refl _
    · show SameFiles (vfsChdir args s.fs).2 (vfsChdir args a.fs).2
      rw [hs]
      exact .refl _

end Line

/-! ## The lines they differ on -/

/-- The scan of a root directory whose first slot was never used. -/
theorem findEntry_new {s : Fs} {name f11 : List UInt8} (hroot : s.currentDirCluster = 0)
    (h0 : (s.ent 0).lead = 0) (hname : fatNameFromInput name = some f11) :
    findEntryInCurrent name s = (⟨none, some 0⟩, s) := by
  have hdir : currentDirEntries s = (true, s) := by rw [currentDirEntries, if_pos hroot]
  have hloop : findLoop s.ent f11 (31 + 1) 0 none = ⟨none, some 0⟩ := by
    rw [findLoop, if_pos (Or.inl h0), if_pos rfl, if_pos h0]
  rw [findEntryInCurrent, hname]
  simp only [hdir, hroot]
  exact congrArg (fun r => (r, s)) hloop

/-- Nothing written to an entry without clusters: its name stays. -/
theorem writeEntry_lead {u : Fs} (hu : u.currentDirCluster = 0) (hfirst : (u.ent 0).fstClusLo = 0) :
    (entryAt (writeEntry 0 [] u).2.rootBuf 0).lead = (u.ent 0).lead := by
  have hdrop : dropChain 0 u = u := by
    rw [dropChain, if_neg]
    rw [hfirst]
    decide
  generalize hput : u.setEnt 0 (((u.ent 0).setFstClusLo 0).setFileSize 0) = v
  have hv : v.currentDirCluster = 0 := by rw [← hput, setEnt_currentDirCluster, hu]
  have hbuf : (writeEntry 0 [] u).2.rootBuf = v.rootBuf := by
    unfold writeEntry
    rw [hdrop]
    simp only [show writeClusterChain [] u = (some 0, u) from rfl, List.length_nil, hput]
    split
    · rfl
    · unfold flushCurrentDir
      simp only [show (flushFat v).2.currentDirCluster = 0 from hv, if_true]
      split <;> rfl
  have hent : entryAt v.rootBuf 0 = v.ent 0 := by rw [Fs.ent, Fs.entBuf, if_pos hv]
  rw [hbuf, hent, ← hput]
  simp

/-- `fs_write_raw` of a name that is not there takes the first slot. -/
theorem fsWriteRaw_new {s : Fs} {name f11 : List UInt8} (hr : s.fsReady = true)
    (hroot : s.currentDirCluster = 0) (h0 : (s.ent 0).lead = 0)
    (hname : fatNameFromInput name = some f11) :
    (entryAt (fsWriteRaw name [] s).2.rootBuf 0).lead = f11.getD 0 0 := by
  have hwrite : fsWriteRaw name [] s = writeEntry 0 [] (s.setEnt 0 (newEntry f11 fatAttrArchive)) := by
    rw [fsWriteRaw, if_neg]
    · simp only [findEntry_new hroot h0 hname, currentDirEntries, if_pos hroot, nameBytes, hname]
      rfl
    · simp [hr, validName, hname]
  rw [hwrite, writeEntry_lead]
  · simp [newEntry]
  · rw [setEnt_currentDirCluster, hroot]
  · simp [newEntry]

theorem fsAppend_new {s : Fs} {name f11 : List UInt8} (hr : s.fsReady = true)
    (hroot : s.currentDirCluster = 0) (h0 : (s.ent 0).lead = 0)
    (hname : fatNameFromInput name = some f11) :
    (entryAt (fsAppend name [] s).2.rootBuf 0).lead = f11.getD 0 0 := by
  have hread : fsReadPtr name s = (none, s) := by
    rw [fsReadPtr, if_neg (by simp [hr])]
    simp only [findEntry_new hroot h0 hname]
  have hwrite : fsAppend name [] s = fsWriteRaw name []
      { s with readCache := (s.readCache.copy 0 (ByteMem.ofList []) 0).put 0 0 } := by
    rw [fsAppend, if_neg (by simp [hr])]
    simp only [hread]
    rfl
  rw [hwrite]
  exact fsWriteRaw_new hr hroot h0 hname

/-- The driver mounted on an empty volume, a blank screen and no history. -/
def freshSession : Session := ⟨freshFs, ⟨⟨fun _ => 0, 0⟩, 0, 0, 7, 0⟩, []⟩

theorem freshFs_rootBuf : (entryAt freshFs.rootBuf 0).lead = 0 := freshFs_empty.root 0

theorem freshFs_ent : (freshFs.ent 0).lead = 0 := by
  rw [Fs.ent, Fs.entBuf, if_pos freshFs_cluster]
  exact freshFs_rootBuf

/-- Without a text, `write` and `append` take a slot of an empty directory. -/
theorem vfsText_new {name n : List UInt8} (append : Bool) (hn : normalize name = some n)
    (hvalid : validName n = true) :
    (entryAt (vfsText append name [] freshFs).2.rootBuf 0).lead ≠ 0 := by
  obtain ⟨f11, hname⟩ := Option.isSome_iff_exists.mp hvalid
  have hlead : (entryAt (vfsText append name [] freshFs).2.rootBuf 0).lead = f11.getD 0 0 := by
    cases append with
    | false =>
      show (entryAt (onName (fun n => fsWriteRaw n []) (normalize name) freshFs).2.rootBuf 0).lead = _
      rw [hn]
      exact fsWriteRaw_new freshFs_ready freshFs_cluster freshFs_ent hname
    | true =>
      show (entryAt (onName (fun n => fsAppend n []) (normalize name) freshFs).2.rootBuf 0).lead = _
      rw [hn]
      exact fsAppend_new freshFs_ready freshFs_cluster freshFs_ent hname
  rw [hlead]
  exact (valid_ne (head_of_fatNameFromInput hname)).1

theorem differ_of_noText (other : List UInt8 → List UInt8 → Session → Session) {line : List UInt8}
    (hz : 0 ∉ line) (hlen : line.length ≤ 127) (h : NoText line) :
    ¬ SameFiles (executeLine line freshSession).2.fs (shellLine other line freshSession).fs := by
  obtain ⟨hcmd, hnil, n, hn, hvalid⟩ := h
  have hmem : (commandOf line).1 ∈ fileCommands := by
    rcases hcmd with hcmd | hcmd
    · rw [hcmd]; decide
    · rw [hcmd]; decide
  rw [executeLine_eq hz hlen hmem, shellLine_eq other hmem]
  have hskip : skipWhitespace (commandOf line).2 = (commandOf line).2 := skipWhitespace_args _
  generalize commandOf line = c at hcmd hnil hn hskip
  obtain ⟨cmd, args⟩ := c
  dsimp only at hcmd hnil hn hskip ⊢
  generalize ha : { freshSession with history := saveHistory line freshSession.history } = a
  have hs : a.fs = freshFs := by rw [← ha]; rfl
  -- The shell leaves the files alone, and the script has made an entry in the root.
  have hprompt : ∀ append, (cmdWriteCommon args append a).fs = freshFs := by
    intro append
    rw [cmdWriteCommon_fs, splitFirstArg, hskip, hnil, if_pos (Or.inr (Or.inr peek_nil)), hs]
  have hscript : ∀ append,
      ¬ SameFiles (vfsText append (splitArg args).1 (splitArg args).2 freshFs).2 freshFs := by
    intro append hsame
    refine vfsText_new append hn hvalid ?_
    rw [hnil] at hsame
    rw [hsame.rootBuf]
    exact freshFs_rootBuf
  rcases hcmd with rfl | rfl
  · show ¬ SameFiles (vfsText false (splitArg args).1 (splitArg args).2 freshFs).2
      (cmdWriteCommon args false a).fs
    rw [hprompt]
    exact hscript false
  · show ¬ SameFiles (vfsText true (splitArg args).1 (splitArg args).2 freshFs).2
      (cmdWriteCommon args true a).fs
    rw [hprompt]
    exact hscript true

/-- **One line, two executors.** In every state a line leaves the same files, contents and
directories in a script and at the prompt, unless it is a `write` or `append` with a name and
no text. -/
theorem script_agrees_iff (other : List UInt8 → List UInt8 → Session → Session) {line : List UInt8}
    (hz : 0 ∉ line) (hlen : line.length ≤ 127) (hcmd : (commandOf line).1 ∈ fileCommands) :
    (∀ s, SameFiles (executeLine line s).2.fs (shellLine other line s).fs) ↔ ¬ NoText line := by
  constructor
  · intro h hno
    exact differ_of_noText other hz hlen hno (h freshSession)
  · intro hgood s
    exact same_of_text other hz hlen hcmd hgood s

/-- A line with blanks in front and between the words. -/
theorem script_agrees_append : SameFiles
    (executeLine (ascii "  append  f a b ") freshSession).2.fs
    (shellLine (fun _ _ s => s) (ascii "  append  f a b ") freshSession).fs := by
  have htext : ¬ NoText (ascii "  append  f a b ") := by
    rintro ⟨-, hnone, -⟩
    exact absurd hnone (by decide)
  exact (script_agrees_iff (fun _ _ s => s) (by decide) (by decide) (by decide)).mpr htext
    freshSession

/-- A script empties or creates the file; the prompt shows its usage. -/
theorem script_disagrees : ¬ ∀ s, SameFiles (executeLine (ascii "write f") s).2.fs
    (shellLine (fun _ _ s => s) (ascii "write f") s).fs :=
  fun h => differ_of_noText _ (by decide) (by decide)
    ⟨Or.inl (by decide), by decide, ascii "f", by decide, by decide⟩ (h freshSession)

end OsU
