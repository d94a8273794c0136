import OsU.Kernel.Gui
import OsU.Lib.Assigns
import OsU.Lib.Runs

/-!
# The terminal in the window

A terminal is a history of lines and a line that is edited. `gui.c` has eight rows for
the history, which move up when they are full, and a buffer for the line. `GuiShows`
ties them together, and each character does to the buffers what it does to the terminal
(`GuiShows.key`).

The history of the terminal is as long as it gets, and its last eight lines are the
rows. So a line that is logged is one line more, whether the rows move or not; that
`gui_log_line` makes two cases of it is its own affair (`Terminal.rows_log_of_lt`,
`Terminal.rows_log_of_le`).

A row is a buffer of 64 bytes and a line may have 127 characters, so 63 of them are
kept. The bytes of the line behind its length are not looked at: the zero behind it is
written when it is entered. The last byte of a row is zero throughout, which is what
ends a full one.
-/

set_option autoImplicit false

namespace OsU

open CString ByteMem

/-- What the keys have made of the terminal. -/
structure Terminal where
  /-- The lines entered, the oldest one first, behind the two that greet. -/
  history : List (List UInt8)
  edit : List UInt8
  lastKey : List UInt8
  closed : Bool
  deriving DecidableEq

namespace Terminal

/-- The terminal as the desktop comes up. -/
def start : Terminal :=
  ⟨[ascii "GUI ready. Type text and press Enter.", ascii "ESC exits to shell."], [], [], false⟩

/-- A line has room for 63 characters. -/
def log (line : List UInt8) (t : Terminal) : Terminal :=
  { t with history := t.history ++ [line.take 63] }

/-- The name of a key that is no character of a line. -/
def caret (c : UInt8) : List UInt8 := [0x5E, 0x40 + (c &&& 0x1F)]

/-- A key: ESC closes the terminal, Enter enters the line unless it is empty. A key that
is no character of a line is named as the control key it comes from, and a closed
terminal takes none. -/
def key (c : UInt8) (t : Terminal) : Terminal :=
  if t.closed then t
  else if c = 27 then { t with closed := true }
  else if c = 0x08 then { t with edit := t.edit.dropLast }
  else if c = 0x0D then t
  else if c = 0x0A then { (if t.edit = [] then t else t.log t.edit) with edit := [] }
  else if 32 ≤ c ∧ c ≤ 126 then
    { t with edit := if t.edit.length < 127 then t.edit ++ [c] else t.edit, lastKey := [c] }
  else { t with lastKey := caret c }

/-- The terminal after some keys. -/
def keys (cs : List UInt8) : Terminal := cs.foldl (fun t c => t.key c) start

theorem keys_append (cs : List UInt8) (c : UInt8) : keys (cs ++ [c]) = (keys cs).key c :=
  List.foldl_concat ..

/-- The lines there are rows for. -/
def rows (t : Terminal) : List (List UInt8) := t.history.drop (t.history.length - 8)

end Terminal

/-- The buffers of `gui.c` hold the terminal. What is printable is asked of the line
only, since a line is entered as it stands. -/
structure GuiShows (g : Gui) (t : Terminal) : Prop where
  edit : g.inputLine.toList g.inputLen = t.edit
  room : t.edit.length ≤ 127
  printable : ∀ b ∈ t.edit, 32 ≤ b ∧ b ≤ 126
  count : g.logCount = min 8 t.history.length
  rows : ∀ i row, t.rows[i]? = some row → (g.logLines i).Stores 63 row
  last : ∀ i < 8, g.logLines i 63 = 0
  lastKey : g.lastKey.Stores 15 t.lastKey
  running : g.running = !t.closed

theorem ne_zero_of_printable {b : UInt8} (h : 32 ≤ b ∧ b ≤ 126) : b ≠ 0 := by
  rintro rfl
  exact absurd h.1 (by decide)

/-! ## The log -/

/-- The rows, moved up by one. -/
theorem moved_rows (rows : Nat → ByteMem) (i : Nat) :
    (List.range 7).foldl
        (fun rows i => Function.update rows i (moveText (rows (i + 1)) 63 0 (rows i))) rows i =
      if i < 7 then moveText (rows (i + 1)) 63 0 (rows i) else rows i := by
  have hround : ∀ a ∈ List.range 7, Assigns (fun _ => True) (fun i (rows : Nat → ByteMem) => rows i)
      a (fun rows => moveText (rows (a + 1)) 63 0 (rows a))
      (fun rows => Function.update rows a (moveText (rows (a + 1)) 63 0 (rows a))) := by
    intro a _
    exact ⟨fun _ _ => trivial, fun _ _ => Function.update_self .., fun _ _ _ hb =>
      Function.update_of_ne hb ..⟩
  -- a round reads its own row and the one behind it
  have hord : (List.range 7).Pairwise fun a b => ∀ rows : Nat → ByteMem, True →
      moveText (Function.update rows a (moveText (rows (a + 1)) 63 0 (rows a)) (b + 1)) 63 0
          (Function.update rows a (moveText (rows (a + 1)) 63 0 (rows a)) b) =
        moveText (rows (b + 1)) 63 0 (rows b) := by
    refine List.pairwise_lt_range.imp ?_
    intro a b hab rows _
    rw [Function.update_of_ne (by omega), Function.update_of_ne (by omega)]
  have hget := (Assigns.foldl hround hord (s := rows) trivial).2 i
  rw [hget]
  simp only [List.mem_range]

section Log

variable {g : Gui} {t : Terminal} {s : ByteMem} {line : List UInt8}

/-- Where there is a row left, the lines stay in their rows. -/
theorem Terminal.rows_log_of_lt (h : t.history.length < 8) :
    (t.log line).rows = t.rows ++ [line.take 63] := by
  rw [Terminal.rows, Terminal.rows, Terminal.log, List.length_append, List.length_singleton]
  rw [show t.history.length + 1 - 8 = 0 by omega, show t.history.length - 8 = 0 by omega]
  simp

/-- Where there is none, the oldest line goes. -/
theorem Terminal.rows_log_of_le (h : 8 ≤ t.history.length) :
    (t.log line).rows = t.rows.tail ++ [line.take 63] := by
  rw [Terminal.rows, Terminal.rows, Terminal.log, List.length_append, List.length_singleton]
  rw [List.drop_append_of_le_length (by omega), List.tail_drop]
  congr 2
  omega

theorem Terminal.length_rows (t : Terminal) : t.rows.length = min 8 t.history.length := by
  rw [Terminal.rows, List.length_drop]
  omega

/-- **A line is logged.** In a row that is free, or in the last one when all have moved
up. -/
theorem GuiShows.log (h : GuiShows g t) {k : Nat} (hs : s.Stores k line) :
    GuiShows (guiLogLine s g) (t.log line) := by
  have hlen := t.length_rows
  have hcount := h.count
  unfold guiLogLine
  split
  · -- there is a row left
    rename_i hroom
    have hlt : t.history.length < 8 := by omega
    have hrow : g.logCount = t.rows.length := by omega
    refine ⟨h.edit, h.room, h.printable, ?_, ?_, ?_, h.lastKey, h.running⟩
    · change g.logCount + 1 = min 8 (t.history ++ [line.take 63]).length
      rw [List.length_append, List.length_singleton]
      omega
    · intro i row hi
      rw [Terminal.rows_log_of_lt hlt] at hi
      by_cases hin : i < t.rows.length
      · rw [List.getElem?_append_left hin] at hi
        dsimp only
        rw [Function.update_of_ne (by omega)]
        exact h.rows i row hi
      · rw [List.getElem?_append_right (by omega), List.getElem?_singleton] at hi
        obtain ⟨hi0, hsome⟩ := Option.ite_none_right_eq_some.mp hi
        obtain rfl := Option.some.inj hsome
        obtain rfl : i = g.logCount := by omega
        dsimp only
        rw [Function.update_self]
        exact hs.copied 63 _
    · intro i hi
      dsimp only
      by_cases hin : i = g.logCount
      · rw [hin, Function.update_self]
        exact hs.copied_last (h.last _ hroom)
      · rw [Function.update_of_ne hin]
        exact h.last i hi
  · -- each row gets what the one behind it held, and the line the last row
    rename_i hfull
    have hle : 8 ≤ t.history.length := by omega
    refine ⟨h.edit, h.room, h.printable, ?_, ?_, ?_, h.lastKey, h.running⟩
    · change g.logCount = min 8 (t.history ++ [line.take 63]).length
      rw [List.length_append, List.length_singleton]
      omega
    · intro i row hi
      rw [Terminal.rows_log_of_le hle] at hi
      dsimp only
      by_cases hin : i < 7
      · rw [List.getElem?_append_left (by rw [List.length_tail]; omega), List.getElem?_tail] at hi
        rw [Function.update_of_ne (by omega), moved_rows, if_pos hin]
        exact (h.rows (i + 1) row hi).moved (h.last i (by omega))
      · rw [List.getElem?_append_right (by rw [List.length_tail]; omega),
          List.getElem?_singleton] at hi
        obtain ⟨hi0, hsome⟩ := Option.ite_none_right_eq_some.mp hi
        obtain rfl := Option.some.inj hsome
        obtain rfl : i = 7 := by
          rw [List.length_tail] at hi0
          omega
        rw [Function.update_self]
        exact hs.copied 63 _
    · intro i hi
      dsimp only
      by_cases hin : i = 7
      · rw [hin, Function.update_self]
        refine hs.copied_last ?_
        rw [moved_rows, if_neg (by decide)]
        exact h.last 7 (by decide)
      · rw [Function.update_of_ne hin, moved_rows, if_pos (by omega)]
        have hget := List.getElem?_eq_getElem (show i + 1 < t.rows.length by omega)
        exact (h.rows (i + 1) _ hget).moved_last (h.last i hi)

/-! ## A key -/

/-- The line so far is a string, once its zero is written. -/
theorem GuiShows.entered (h : GuiShows g t) : (g.inputLine.put g.inputLen 0).Stores 127 t.edit := by
  have hlen : g.inputLen = t.edit.length := by rw [← h.edit, length_toList]
  have hline := h.edit
  rw [hlen] at hline ⊢
  exact stores_put hline h.room fun b hb => ne_zero_of_printable (h.printable b hb)

/-- The name of the last key fits its buffer. -/
theorem stores_key (m : ByteMem) (c : UInt8) (hc : c ≠ 0) :
    ((m.put 0 c).put 1 0).Stores 15 [c] where
  room := by simp
  nonzero b hb := List.mem_singleton.mp hb ▸ hc
  chars i b hb := by
    cases i with
    | zero => exact Option.some.inj hb
    | succ i => cases hb
  ends := rfl

theorem stores_caret (m : ByteMem) (c : UInt8) :
    (((m.put 0 0x5E).put 1 (0x40 + (c &&& 0x1F))).put 2 0).Stores 15 (Terminal.caret c) where
  room := by simp [Terminal.caret]
  nonzero b hb := by
    have hname : 0x40 + (c &&& 0x1F) ≠ 0 := forall_byte (p := fun c => 0x40 + (c &&& 0x1F) ≠ 0)
      (by decide +kernel) c
    rcases List.mem_cons.mp hb with rfl | hb
    · decide
    · exact List.mem_singleton.mp hb ▸ hname
  chars i b hb := by
    cases i with
    | zero => exact Option.some.inj hb
    | succ i =>
      cases i with
      | zero => exact Option.some.inj hb
      | succ i => cases hb
  ends := rfl

/-- BACKSPACE -/
theorem GuiShows.rubbed (h : GuiShows g t) :
    GuiShows (if g.inputLen > 0 then { g with inputLen := g.inputLen - 1 } else g)
      { t with edit := t.edit.dropLast } := by
  have hlen : g.inputLen = t.edit.length := by rw [← h.edit, length_toList]
  split
  · rename_i hpos
    obtain ⟨n, hn⟩ := Nat.exists_eq_succ_of_ne_zero (Nat.ne_of_gt hpos)
    refine ⟨?_, ?_, ?_, h.count, h.rows, h.last, h.lastKey, h.running⟩
    · have hline := h.edit
      rw [hn, toList_add g.inputLine n 1] at hline
      change g.inputLine.toList (g.inputLen - 1) = t.edit.dropLast
      rw [← hline, hn, Nat.succ_sub_one]
      exact (List.dropLast_concat ..).symm
    · exact (List.dropLast_sublist _).length_le.trans h.room
    · exact fun b hb => h.printable b (List.mem_of_mem_dropLast hb)
  · have hnil : t.edit = [] := List.length_eq_zero_iff.mp (by omega)
    have hsame : { t with edit := t.edit.dropLast } = t := by
      rw [hnil]
      cases t
      simp_all
    rw [hsame]
    exact h

/-- Enter: the zero behind the line is written, and the line logged unless it is empty. -/
theorem GuiShows.logged (h : GuiShows g t) :
    GuiShows (if g.inputLen > 0 then
        guiLogLine (g.inputLine.put g.inputLen 0)
          { g with inputLine := g.inputLine.put g.inputLen 0 }
        else { g with inputLine := g.inputLine.put g.inputLen 0 })
      (if t.edit = [] then t else t.log t.edit) := by
  have hlen : g.inputLen = t.edit.length := by rw [← h.edit, length_toList]
  have hput : GuiShows { g with inputLine := g.inputLine.put g.inputLen 0 } t := by
    refine ⟨?_, h.room, h.printable, h.count, h.rows, h.last, h.lastKey, h.running⟩
    rw [← h.edit]
    exact toList_congr fun i hi => if_neg (Nat.ne_of_lt hi)
  by_cases hnil : t.edit = []
  · rw [if_neg (by simp [hlen, hnil]), if_pos hnil]
    exact hput
  · rw [if_pos (by rw [hlen]; exact List.length_pos_of_ne_nil hnil), if_neg hnil]
    exact hput.log h.entered

/-- A character goes to the end of the line, as long as there is room. -/
theorem GuiShows.pushed (h : GuiShows g t) {c : UInt8} (hc : 32 ≤ c ∧ c ≤ 126) :
    GuiShows
      (if 32 ≤ c ∧ c ≤ 126 ∧ g.inputLen + 1 < 128 then
        { g with inputLine := g.inputLine.put g.inputLen c, inputLen := g.inputLen + 1 } else g)
      { t with edit := if t.edit.length < 127 then t.edit ++ [c] else t.edit } := by
  have hlen : g.inputLen = t.edit.length := by rw [← h.edit, length_toList]
  by_cases hroom : t.edit.length < 127
  · rw [if_pos ⟨hc.1, hc.2, by omega⟩, if_pos hroom]
    refine ⟨?_, ?_, ?_, h.count, h.rows, h.last, h.lastKey, h.running⟩
    · change (g.inputLine.put g.inputLen c).toList (g.inputLen + 1) = t.edit ++ [c]
      have hfront : (g.inputLine.put g.inputLen c).toList g.inputLen = t.edit :=
        (toList_congr fun j hj => if_neg (Nat.ne_of_lt hj)).trans h.edit
      rw [toList_add _ g.inputLen 1, hfront]
      exact congrArg (t.edit ++ [·]) (if_pos rfl)
    · simpa using hroom
    · intro b hb
      rcases List.mem_append.mp hb with hb | hb
      · exact h.printable b hb
      · exact List.mem_singleton.mp hb ▸ hc
  · rw [if_neg (fun hp => hroom (by omega)), if_neg hroom]
    exact h

/-- The name of the last key is noted. -/
theorem GuiShows.named (h : GuiShows g t) {m : ByteMem} {name : List UInt8}
    (hm : m.Stores 15 name) :
    GuiShows { g with lastKey := m } { t with lastKey := name } :=
  ⟨h.edit, h.room, h.printable, h.count, h.rows, h.last, hm, h.running⟩

/-- **One key**, of any kind. -/
theorem GuiShows.key (h : GuiShows g t) (hopen : t.closed = false) (c : UInt8) :
    GuiShows (guiKey c g) (t.key c) := by
  unfold guiKey Terminal.key
  rw [if_neg (show ¬ t.closed = true by simp [hopen])]
  by_cases hesc : c = 27
  · rw [if_pos hesc, if_pos hesc]
    exact ⟨h.edit, h.room, h.printable, h.count, h.rows, h.last, h.lastKey, rfl⟩
  rw [if_neg hesc, if_neg hesc]
  by_cases hb : c = 0x08
  · rw [if_pos hb, if_pos hb]
    exact h.rubbed
  rw [if_neg hb, if_neg hb]
  by_cases hcr : c = 0x0D
  · rw [if_pos hcr, if_pos hcr]
    exact h
  rw [if_neg hcr, if_neg hcr]
  by_cases hn : c = 0x0A
  · rw [if_pos hn, if_pos hn]
    have hlogged := h.logged
    exact ⟨rfl, by simp, by simp, hlogged.count, hlogged.rows, hlogged.last, hlogged.lastKey,
      hlogged.running⟩
  rw [if_neg hn, if_neg hn]
  by_cases hc : 32 ≤ c ∧ c ≤ 126
  · rw [if_pos hc, if_pos hc]
    exact (h.pushed hc).named (stores_key _ c (ne_zero_of_printable hc))
  · -- any other key leaves the line, and is shown by its name
    rw [if_neg hc, if_neg (fun hp => hc ⟨hp.1, hp.2.1⟩), if_neg hc]
    exact h.named (stores_caret g.lastKey c)

end Log

end OsU
