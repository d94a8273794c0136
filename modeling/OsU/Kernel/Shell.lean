import OsU.Kernel.Script

/-!
# `shell.c` — the prompt

One line of `shell_run`. The commands that start another program of the kernel, and
those that only print, are not here: `other` stands for them, a function of the command,
its arguments and the state, about which nothing is assumed.

The history is kept because `!!` runs the last line of it again, and saves it once more.
The loop around a line, the prompt and the reading of the line are in other modules.
-/

set_option autoImplicit false

namespace OsU

open CString

/-- HISTORY_MAX -/
def historyMax : Nat := 16

/-- `save_history`: the oldest line goes when there is no room. -/
def saveHistory (line : List UInt8) (history : List (List UInt8)) : List (List UInt8) :=
  if peek line = 0 then history
  else if history.length < historyMax then history ++ [line]
  else history.tail ++ [line]

/-- `split_cmd`: the command and its arguments; `none` for the return value 0. -/
def splitCmd (line : List UInt8) : Option (List UInt8 × List UInt8) :=
  let p := skipWhitespace line
  if peek p = 0 then none else some (splitArg p)

/-- `split_first_arg` -/
def splitFirstArg (args : List UInt8) : List UInt8 × List UInt8 := splitArg (skipWhitespace args)

def cmdCd (args : List UInt8) (s : Session) : Session :=
  if peek args = 0 then { s with fs := (vfsChdir (ascii "/") s.fs).2 }
  else s.call (vfsChdir args) [] (ascii "directory not found\n")

def cmdMkdir (args : List UInt8) (s : Session) : Session :=
  if peek args = 0 then s.puts (ascii "usage: mkdir DIR\n")
  else s.call (vfsMkdir args) (ascii "ok\n") (ascii "mkdir failed\n")

def cmdRmdir (args : List UInt8) (s : Session) : Session :=
  if peek args = 0 then s.puts (ascii "usage: rmdir DIR\n")
  else
    let r := vfsRmdir args s.fs
    let s := { s with fs := r.2 }
    if r.1 = 0 then s.puts (ascii "ok\n")
    else if r.1 = -4 then s.puts (ascii "directory not empty\n")
    else s.puts (ascii "rmdir failed\n")

def cmdCat (args : List UInt8) (s : Session) : Session :=
  if peek args = 0 then s.puts (ascii "usage: cat FILE\n") else s.cat args

def cmdTouch (args : List UInt8) (s : Session) : Session :=
  if peek args = 0 then s.puts (ascii "usage: touch FILE\n")
  else s.call (vfsTouch args) (ascii "ok\n") (ascii "touch failed\n")

def cmdRm (args : List UInt8) (s : Session) : Session :=
  if peek args = 0 then s.puts (ascii "usage: rm FILE\n")
  else s.call (vfsRemove args) (ascii "ok\n") (ascii "file not found\n")

/-- `cmd_write_common`, for `write` and `append`. Without a name or without a text it
shows the usage and touches no file. -/
def cmdWriteCommon (args : List UInt8) (append : Bool) (s : Session) : Session :=
  let usage := if append then ascii "usage: append FILE TEXT\n" else ascii "usage: write FILE TEXT\n"
  if peek args = 0 then s.puts usage
  else
    let name := (splitFirstArg args).1
    let text := (splitFirstArg args).2
    if peek name = 0 ∨ peek text = 0 then s.puts usage
    else
      s.call (if append then vfsAppend name text else vfsWrite name text) (ascii "ok\n")
        (ascii "write failed\n")

def cmdLs (s : Session) : Session :=
  let r := s.lsLoop (fsMaxFiles + 1) 0
  if r.1 = 0 then r.2.puts (ascii "(empty)\n") else r.2

def cmdRun (args : List UInt8) (s : Session) : Session :=
  if peek args = 0 then s.puts (ascii "usage: run FILE.sh\n")
  else
    let r := scriptRun args s
    if r.1 ≠ 0 then r.2.2.puts (ascii "script error\n") else r.2.2

/-- The dispatch of `shell_run`, in the order in which it compares. The commands here
are those that a script has too; the order matters to none of them, for no two names
agree. -/
def shellDispatch (other : List UInt8 → List UInt8 → Session → Session) (cmd args : List UInt8)
    (s : Session) : Session :=
  if cmd = ascii "clear" then { s with vga := vgaClear s.vga }
  else if cmd = ascii "echo" then (s.puts args).putc 0x0A
  else if cmd = ascii "ls" then cmdLs s
  else if cmd = ascii "cat" then cmdCat args s
  else if cmd = ascii "touch" then cmdTouch args s
  else if cmd = ascii "rm" then cmdRm args s
  else if cmd = ascii "write" then cmdWriteCommon args false s
  else if cmd = ascii "append" then cmdWriteCommon args true s
  else if cmd = ascii "pwd" then s.pwd
  else if cmd = ascii "cd" then cmdCd args s
  else if cmd = ascii "mkdir" then cmdMkdir args s
  else if cmd = ascii "rmdir" then cmdRmdir args s
  else if cmd = ascii "run" then cmdRun args s
  else other cmd args s

/-- `shell_run`, with the line `keyboard_readline` has read. An empty line is not saved.
`!!` is the last line again, shown before it is run; it is compared with the whole line,
so `!!` with a blank behind it is a command like others. -/
def shellLine (other : List UInt8 → List UInt8 → Session → Session) (line : List UInt8)
    (s : Session) : Session :=
  let run (line : List UInt8) (s : Session) : Session :=
    let s := { s with history := saveHistory line s.history }
    match splitCmd line with
    | none => s
    | some (cmd, args) => shellDispatch other cmd args s
  if peek line = 0 then s
  else if line = ascii "!!" then
    match s.history.getLast? with
    | none => s.puts (ascii "no history\n")
    | some last => run last ((s.puts last).putc 0x0A)
  else run line s

end OsU
