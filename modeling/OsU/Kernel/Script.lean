import OsU.Cospy.Run
import OsU.Kernel.Vfs
import OsU.Kernel.Vga

/-!
# `script.c` — shell scripts

`script_run` takes its lines one by one out of the buffer `vfs_read_ptr` returned, which
is the `read_cache` of the driver, and gives each to `execute_line` before it looks for
the next. A command that reads a file fills the same buffer, so what the loop finds next
need not be the script any more; the model reads it from the state, as the code does.

The commands are those of the shell written a second time, with other messages and
without its checks. What they share (`call`, `cat`, `lsLoop`) is one definition here;
each command keeps its own texts and order of tests.

A line is cut at 127 characters, and the rest of it is the next line.
-/

set_option autoImplicit false

namespace OsU

open CString

/-- The driver, the screen, and the history of the shell: what a command can change. -/
structure Session where
  fs : Fs
  vga : Vga
  history : List (List UInt8)

namespace Session

/-- `vga_puts` -/
def puts (str : List UInt8) (s : Session) : Session := { s with vga := vgaPuts str s.vga }

/-- `vga_putc` -/
def putc (c : UInt8) (s : Session) : Session := { s with vga := vgaPutc c s.vga }

/-- A call of `vfs.c` that returns a status: `ok` is shown if it is 0, and `failed` if not. -/
def call (f : Fs → Int × Fs) (ok failed : List UInt8) (s : Session) : Session :=
  let r := f s.fs
  { s with fs := r.2 }.puts (if r.1 = 0 then ok else failed)

@[simp] theorem puts_fs (str : List UInt8) (s : Session) : (s.puts str).fs = s.fs := rfl

@[simp] theorem putc_fs (c : UInt8) (s : Session) : (s.putc c).fs = s.fs := rfl

@[simp] theorem call_fs (f : Fs → Int × Fs) (ok failed : List UInt8) (s : Session) :
    (s.call f ok failed).fs = (f s.fs).2 := rfl

/-- `cat`, with a name. -/
def cat (name : List UInt8) (s : Session) : Session :=
  let r := vfsReadPtr name s.fs
  let s := { s with fs := r.2 }
  match r.1 with
  | none => s.puts (ascii "file not found\n")
  | some len =>
    let s := s.puts (r.2.readCache.toList len)
    if len = 0 ∨ r.2.readCache (len - 1) ≠ 0x0A then s.putc 0x0A else s

@[simp] theorem cat_fs (name : List UInt8) (s : Session) :
    (s.cat name).fs = (vfsReadPtr name s.fs).2 := by
  unfold cat
  dsimp only
  split
  · rfl
  · split <;> rfl

/-- The loop of `ls` from entry `idx` on, over `n` entries at most, and the number of
the last. Each round is a call of its own, which goes through the directory from its
start; the first call without an entry ends the loop. -/
def lsLoop : Nat → Nat → Session → Nat × Session
  | 0, idx, s => (idx, s)
  | n + 1, idx, s =>
    let r := vfsListDirEntry idx s.fs
    let s := { s with fs := r.2 }
    match r.1 with
    | none => (idx, s)
    | some e =>
      let s := s.puts e.name
      let s := if e.isDir then s.puts (ascii "  <DIR>\n")
        else ((s.puts (ascii "  ")).puts (vgaPrintDec (BitVec.ofNat 32 e.len))).puts (ascii "b\n")
      lsLoop n (idx + 1) s

/-- `pwd` -/
def pwd (s : Session) : Session :=
  let r := vfsGetcwd s.fs
  ({ s with fs := r.2 }.puts r.1).putc 0x0A

end Session

/-- The first word of a line and what follows the blanks behind it. -/
def splitArg (s : List UInt8) : List UInt8 × List UInt8 :=
  let word := s.takeWhile fun c => c ≠ 0 ∧ isBlank c = false
  let rest := s.drop word.length
  (word, if peek rest = 0 then [] else skipWhitespace rest.tail)

/-- SCRIPT_LINE_MAX -/
def scriptLineMax : Nat := 128

/-- `execute_line`, with the command and its arguments split. It is a chain of
comparisons, and each branch prints its own complaint; only a command that is not known
makes the return value -1. A command of no characters is none and not an error. -/
def executeCommand (cmd args : List UInt8) (s : Session) : Int × Session :=
  if cmd = ascii "echo" then (0, (s.puts args).putc 0x0A)
  else if cmd = ascii "touch" then (0, s.call (vfsTouch args) [] (ascii "touch failed\n"))
  else if cmd = ascii "rm" then (0, s.call (vfsRemove args) [] (ascii "rm failed\n"))
  else if cmd = ascii "write" then
    (0, s.call (vfsWrite (splitArg args).1 (splitArg args).2) [] (ascii "write failed\n"))
  else if cmd = ascii "append" then
    (0, s.call (vfsAppend (splitArg args).1 (splitArg args).2) [] (ascii "append failed\n"))
  else if cmd = ascii "cat" then (0, s.cat args)
  else if cmd = ascii "mkdir" then (0, s.call (vfsMkdir args) [] (ascii "mkdir failed\n"))
  else if cmd = ascii "rmdir" then (0, s.call (vfsRmdir args) [] (ascii "rmdir failed\n"))
  else if cmd = ascii "cd" then
    if peek args = 0 then (0, { s with fs := (vfsChdir (ascii "/") s.fs).2 })
    else (0, s.call (vfsChdir args) [] (ascii "directory not found\n"))
  else if cmd = ascii "pwd" then (0, s.pwd)
  else if cmd = ascii "clear" then (0, { s with vga := vgaClear s.vga })
  else if cmd = ascii "ls" then (0, (s.lsLoop (fsMaxFiles + 1) 0).2)
  else if peek cmd ≠ 0 then (-1, ((s.puts (ascii "unknown command: ")).puts cmd).putc 0x0A)
  else (0, s)

/-- `execute_line`: blanks in front are skipped, an empty line and a comment do nothing,
and the command is the first word of what fits the buffer. -/
def executeLine (line : List UInt8) (s : Session) : Int × Session :=
  let line := skipWhitespace line
  if peek line = 0 ∨ peek line = 0x23 then (0, s)
  else
    let cmdBuf := (strcpy line).take (scriptLineMax - 1)
    executeCommand (splitArg cmdBuf).1 (splitArg cmdBuf).2 s

/-- The line `script_run` finds at `p`, in a buffer that ends at `stop`. -/
def scriptLine (m : ByteMem) (p stop : Nat) : List UInt8 :=
  (copyWhile (fun c => c ≠ 0x0A) (scriptLineMax - 1) ((m.toList stop).drop p)).1

/-- Where the next one begins. -/
def scriptNext (m : ByteMem) (p stop : Nat) : Nat :=
  let p := p + (scriptLine m p stop).length
  if p < stop ∧ m p = 0x0A then p + 1 else p

/-- The loop of `script_run` at `p`, `n` lines at most: the lines it has executed. Each
takes a character, so the length of the script is enough. -/
def scriptLoop (stop : Nat) : Nat → Nat → Session → List (List UInt8) × Session
  | 0, _, s => ([], s)
  | n + 1, p, s =>
    if p < stop then
      let line := scriptLine s.fs.readCache p stop
      let r := scriptLoop stop n (scriptNext s.fs.readCache p stop) (executeLine line s).2
      (line :: r.1, r.2)
    else ([], s)

/-- `script_run`: its return value, the lines it has given to `execute_line`, and the
state. The lines are a ghost; the value is 0 whatever the commands returned. -/
def scriptRun (filename : List UInt8) (s : Session) : Int × List (List UInt8) × Session :=
  if peek filename = 0 then (-1, [], s)
  else
    let r := vfsReadPtr filename s.fs
    let s := { s with fs := r.2 }
    match r.1 with
    | none => (-1, [], ((s.puts (ascii "script not found: ")).puts filename).putc 0x0A)
    | some len => (0, scriptLoop len len 0 s)

end OsU
