import Mathlib.Data.List.DropRight
import OsU.Kernel.Vfs
import OsU.Kernel.Keyboard
import OsU.Kernel.Vga

/-!
# `editor.c` — the text editor

`editor_edit_file` between two calls of `keyboard_getchar`: `Editor.key` is what it does
with one key, in its own loop or in that of `read_colon_cmd`. A run of the editor is
then a list of keys, and what it does in between is one function.

The text is an array of which the indices used are kept (`Cells`), so that "stays inside
`text[4096]`" is a statement about `top`. What the array holds before is whatever was on
the stack, and is a parameter. `writes` is a history of the calls of `vfs_write_raw`
with what they returned; no code reads it.

`char` is signed on this machine, so the codes from 128 on are below 32 in a comparison,
and the arrow keys, which have such codes, are not typed into the text.

The functions on lines return the array with the characters they have looked at marked
as used: a search that ran out of the text would show in `top` as a write would.
-/

set_option autoImplicit false

namespace OsU

open CString

/-- `mode_t` -/
inductive Mode where
  | normal
  | insert
  deriving DecidableEq, Repr

/-- Where the editor waits for a key. It has two places for that, each with a loop
around it, and what it does with a key depends on the place before it depends on the
mode. -/
inductive Waits where
  /-- In the loop of `editor_edit_file`. -/
  | key
  /-- In the loop of `read_colon_cmd`, with these characters in `cmd`. -/
  | colon (cmd : List UInt8)
  /-- It has returned, after this command. -/
  | returned (cmd : List UInt8)
  deriving DecidableEq, Repr

/-- The local variables of `editor_edit_file`, the driver and the screen below it, and
the history of its writes. -/
structure Editor where
  name : List UInt8
  text : Cells UInt8
  len : Nat
  cursor : Nat
  mode : Mode
  dirty : Bool
  msg : List UInt8
  waits : Waits
  fs : Fs
  vga : Vga
  writes : List (List UInt8 × Int)

/-! ## Lines -/

/-- `line_start`: back over the characters of the line, to the first behind a newline.
-/
def lineStart (buf : Cells UInt8) : Nat → Nat × Cells UInt8
  | 0 => (0, buf)
  | pos + 1 =>
    if buf.val pos ≠ 0x0A then lineStart (buf.use pos) pos else (pos + 1, buf.use pos)

/-- The loop of `line_end`, `n` characters before the end of the text. -/
def lineEndLoop (buf : Cells UInt8) : Nat → Nat → Nat × Cells UInt8
  | 0, pos => (pos, buf)
  | n + 1, pos =>
    if buf.val pos ≠ 0x0A then lineEndLoop (buf.use pos) n (pos + 1) else (pos, buf.use pos)

/-- `line_end`: on to the newline that ends the line, or to the end of the text. -/
def lineEnd (buf : Cells UInt8) (len pos : Nat) : Nat × Cells UInt8 :=
  lineEndLoop buf (len - pos) pos

/-! ## Drawing -/

/-- The local variables of `draw_editor`, with the screen. -/
structure Drawing where
  buf : Cells UInt8
  row : Nat
  col : Nat
  curRow : Nat
  curCol : Nat
  vga : Vga

def Drawing.newline (d : Drawing) : Drawing :=
  { d with vga := vgaPutc 0x0A d.vga, row := d.row + 1, col := 0 }

/-- The loop of `draw_editor` from character `i` on, `n` characters before the end of
the text. A row is left at a newline and when it is full, before the character that has
no place in it. The place of the cursor is noted as its character is reached, before
that row is left. -/
def drawLoop (cursor : Nat) : Nat → Nat → Drawing → Drawing
  | 0, _, d => d
  | n + 1, i, d =>
    if d.row < vgaHeight then
      let d := if i = cursor then { d with curRow := d.row, curCol := d.col } else d
      let c := d.buf.val i
      let d := { d with buf := d.buf.use i }
      if c = 0x0A then drawLoop cursor n (i + 1) d.newline
      else
        let d := if d.col ≥ vgaWidth then d.newline else d
        -- only the line just ended can have been the last
        if d.row ≥ vgaHeight then d
        else drawLoop cursor n (i + 1) { d with vga := vgaPutc c d.vga, col := d.col + 1 }
    else d

/-- `draw_editor`. The text is laid out a second time here, next to the console that
prints it; where the cursor is to go is taken from this layout. -/
def drawEditor (name : List UInt8) (buf : Cells UInt8) (len cursor : Nat) (mode : Mode)
    (msg : List UInt8) (vga : Vga) : Cells UInt8 × Vga :=
  let title := ascii "[" ++ (if mode = .insert then ascii "INSERT" else ascii "NORMAL") ++
    ascii "] " ++ cstr name ++ ascii " | " ++ cstr msg ++ [0x0A]
  let d := drawLoop cursor len 0
    { buf := buf, row := 1, col := 0, curRow := 1, curCol := 0, vga := vgaPuts title (vgaClear vga) }
  let d := if cursor = len ∧ d.row < vgaHeight then { d with curRow := d.row, curCol := d.col } else d
  let curRow := if d.curRow ≥ vgaHeight then vgaHeight - 1 else d.curRow
  let curCol := if d.curCol ≥ vgaWidth then vgaWidth - 1 else d.curCol
  (d.buf, vgaSetCursor curCol curRow d.vga)

namespace Editor

/-! ## Edits of the text -/

/-- `insert_char`. The array is full one character early, since a zero is kept behind
the text. -/
def insertChar (c : UInt8) (e : Editor) : Int × Editor :=
  if e.len + 1 ≥ fsMaxFileSize then (-1, e)
  else
    let buf := e.text.copyDown (e.cursor + 1) e.cursor (e.len - e.cursor)
    let buf := buf.set e.cursor c
    let buf := buf.set (e.len + 1) 0
    (0, { e with text := buf, len := e.len + 1, cursor := e.cursor + 1 })

/-- `delete_at`: what is behind the character moves up, and the zero with it. The loop
moves one byte at a time, from the character on, so the bytes do not run over each
other. -/
def deleteAt (pos : Nat) (e : Editor) : Editor :=
  if pos ≥ e.len then e
  else
    let buf := e.text.copyUp pos (pos + 1) (e.len - 1 - pos)
    let buf := buf.set (e.len - 1) 0
    { e with text := buf, len := e.len - 1 }

/-- `insert_char` as the loop calls it. -/
def type (c : UInt8) (e : Editor) : Editor :=
  let r := e.insertChar c
  if r.1 = 0 then { r.2 with dirty := true } else { r.2 with msg := ascii "file full" }

/-! ## Saving -/

/-- `vfs_write_raw(name, text, len)`, and an entry in the history. -/
def vfsWriteRaw (e : Editor) : Int × Editor :=
  let data := e.text.slice 0 e.len
  let r := OsU.vfsWriteRaw e.name data e.fs
  (r.1, { e with text := e.text.useTo e.len, fs := r.2, writes := e.writes ++ [(data, r.1)] })

/-- Ctrl+S in either mode, and `:w`. -/
def write (e : Editor) : Editor :=
  let r := e.vfsWriteRaw
  if r.1 = 0 then { r.2 with dirty := false, msg := ascii "written" }
  else { r.2 with msg := ascii "write failed" }

/-! ## Keys -/

/-- KEY_LEFT in either mode, and `h`. -/
def left (e : Editor) : Editor := if e.cursor > 0 then { e with cursor := e.cursor - 1 } else e

/-- KEY_RIGHT in either mode, and `l`. -/
def right (e : Editor) : Editor := if e.cursor < e.len then { e with cursor := e.cursor + 1 } else e

/-- `j`: the same column of the next line, or its end if it is shorter. In the last line
the cursor stays. -/
def down (e : Editor) : Editor :=
  let s := lineStart e.text e.cursor
  let col := e.cursor - s.1
  let t := lineEnd s.2 e.len e.cursor
  if t.1 < e.len then
    let e := { e with text := t.2.use t.1 }
    if t.2.val t.1 = 0x0A then
      let nextStart := t.1 + 1
      let u := lineEnd e.text e.len nextStart
      let nextLen := u.1 - nextStart
      { e with text := u.2, cursor := nextStart + if col < nextLen then col else nextLen }
    else e
  else { e with text := t.2 }

/-- `k`: the same column of the line before, or its end. In the first line the cursor
stays. -/
def up (e : Editor) : Editor :=
  let s := lineStart e.text e.cursor
  if s.1 > 0 then
    let col := e.cursor - s.1
    let prevEnd := s.1 - 1
    let t := lineStart s.2 prevEnd
    let prevLen := prevEnd - t.1
    { e with text := t.2, cursor := t.1 + if col < prevLen then col else prevLen }
  else { e with text := s.2 }

/-- The body of the loop in MODE_INSERT. Ctrl-S and ESC come first, so they are never
typed; the arrows are last, behind the test for a printable character, and they are
none. Only left and right move the cursor in this mode. -/
def insertKey (c : UInt8) (e : Editor) : Editor :=
  if c = 19 then e.write
  else if c = 27 then { e with mode := .normal }
  else if c = 0x08 then
    if e.cursor > 0 then
      { { e with cursor := e.cursor - 1 }.deleteAt (e.cursor - 1) with dirty := true }
    else e
  else if c = 0x0A ∨ c = 0x0D then e.type 0x0A
  else
    let e := if 32 ≤ c ∧ c ≤ 126 then e.type c else e
    if c = keyLeft ∧ e.cursor > 0 then { e with cursor := e.cursor - 1 }
    else if c = keyRight ∧ e.cursor < e.len then { e with cursor := e.cursor + 1 }
    else e

/-- The body of the loop in MODE_NORMAL; `:` goes on in `read_colon_cmd`, which waits
for keys of its own and draws over the last row. A key without a meaning changes
nothing. -/
def normalKey (c : UInt8) (e : Editor) : Editor :=
  if c = 19 then e.write
  else if c = 0x69 then { e with mode := .insert }
  else if c = 0x68 ∨ c = keyLeft then e.left
  else if c = 0x6C ∨ c = keyRight then e.right
  else if c = 0x78 ∨ c = keyDelete then
    if e.cursor < e.len then { e.deleteAt e.cursor with dirty := true } else e
  else if c = 0x6A ∨ c = keyDown then e.down
  else if c = 0x6B ∨ c = keyUp then e.up
  else if c = 0x3A then
    { e with waits := .colon [], vga := vgaPuts (ascii ":") (vgaSetCursor 0 (vgaHeight - 1) e.vga) }
  else e

/-- The colon command `cmd`, when `read_colon_cmd` has returned 0. `q` is refused while
there are unsaved changes; `wq` and `x` leave only if the file could be written. -/
def command (cmd : List UInt8) (e : Editor) : Editor :=
  if cmd = [] then e
  else if cmd = ascii "w" then e.write
  else if cmd = ascii "q" then
    if e.dirty then { e with msg := ascii "unsaved changes" } else { e with waits := .returned cmd }
  else if cmd = ascii "q!" then { e with waits := .returned cmd }
  else if cmd = ascii "wq" ∨ cmd = ascii "x" then
    let r := e.vfsWriteRaw
    if r.1 = 0 then { r.2 with waits := .returned cmd } else { r.2 with msg := ascii "write failed" }
  else { e with msg := ascii "unknown :cmd" }

/-- A key in `read_colon_cmd`, with `cmd` typed so far. A zero is no key. The command is
cut at its trailing blanks only; ESC gives it up, and a rubout on an empty line is
ignored. -/
def colonKey (c : UInt8) (cmd : List UInt8) (e : Editor) : Editor :=
  if c = 0 then e
  else if c = 0x0A ∨ c = 0x0D then
    { e with waits := .key }.command (cmd.rdropWhile (· == 0x20))
  else if c = 27 then { e with waits := .key }
  else if c = 0x08 then
    if cmd.length > 0 then { e with waits := .colon cmd.dropLast, vga := vgaPutc 0x08 e.vga } else e
  else if cmd.length + 1 < 16 ∧ 32 ≤ c ∧ c ≤ 126 then
    { e with waits := .colon (cmd ++ [c]), vga := vgaPutc c e.vga }
  else e

/-- The top of the loop, before `keyboard_getchar`. -/
def draw (e : Editor) : Editor :=
  let d := drawEditor e.name e.text e.len e.cursor e.mode e.msg e.vga
  { e with text := d.1, vga := d.2, msg := [] }

/-- What the editor does with the next key. At the top of its loop the screen is drawn
first, which also clears the message; in the command line nothing is drawn but the key
itself. -/
def key (c : UInt8) (e : Editor) : Editor :=
  match e.waits with
  | .key =>
    match e.mode with
    | .insert => e.draw.insertKey c
    | .normal => e.draw.normalKey c
  | .colon cmd => e.colonKey c cmd
  | .returned _ => e

end Editor

/-- `editor_edit_file` up to its loop. `stack` is what the array holds before. A file
that cannot be read is an empty text. -/
def editorEditFile (name : List UInt8) (stack : Nat → UInt8) (vga : Vga) (s : Fs) : Editor :=
  let r := vfsReadPtr name s
  let text : Cells UInt8 := match r.1 with
    | none => Cells.set ⟨stack, 0⟩ 0 0
    | some len => (Cells.load ⟨stack, 0⟩ len r.2.readCache).set len 0
  { name := name
    text := text
    len := r.1.getD 0
    cursor := 0
    mode := .normal
    dirty := false
    msg := ascii "i insert | h/j/k/l move | :w :q :wq | Ctrl+S save"
    waits := .key
    fs := r.2
    vga := vga
    writes := [] }

section Start

variable {name : List UInt8} (stack : Nat → UInt8) (vga : Vga) {s : Fs}

theorem editorEditFile_none (h : (vfsReadPtr name s).1 = none) :
    (editorEditFile name stack vga s).text = Cells.set ⟨stack, 0⟩ 0 0 ∧
      (editorEditFile name stack vga s).len = 0 := by
  simp [editorEditFile, h]

theorem editorEditFile_some {n : Nat} (h : (vfsReadPtr name s).1 = some n) :
    (editorEditFile name stack vga s).text =
        (Cells.load ⟨stack, 0⟩ n (vfsReadPtr name s).2.readCache).set n 0 ∧
      (editorEditFile name stack vga s).len = n := by
  simp [editorEditFile, h]

end Start

end OsU
