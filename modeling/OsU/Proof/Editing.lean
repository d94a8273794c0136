import OsU.Lib.Runs
import OsU.Lib.TextCursor
import OsU.Kernel.Editor

/-!
# The editor's buffer is a text with a cursor

`Shows` ties the array, the length and the cursor to the lists before and after the
cursor. Every routine that moves the cursor is a motion of those lists and leaves the
array as it is; the two that shift the array are the insertion and the deletion of one
element.

The abstract side is `TextCursor`, two lists with the cursor between them, and what a
key asks for is an edit of it (`KeyEdit`). Which edit that is depends on the mode the
editor is in, so the two run side by side (`editBoth`): the editor takes the key, and
the text takes the edit.

`Shows` has the array's bound in it. An index is used when it is read or written, and
the array counts the highest (`Cells.top`), so the refinement says at the same time that
no key reaches outside the array. A text of 4095 characters is full: the array has one
cell more, for the zero behind it. A file of 4096 bytes is loaded without that cell, and
is the one start the refinement does not cover (`OpenSave`).
-/

set_option autoImplicit false

namespace OsU

open Runs Cells

/-! ## Reading the lines -/

theorem lineStart_fst (buf : Cells UInt8) (pos : Nat) :
    (lineStart buf pos).1 = pos - ((buf.slice 0 pos).reverse.takeWhile (· ≠ 0x0A)).length := by
  induction pos generalizing buf with
  | zero => rfl
  | succ pos ih =>
    rw [lineStart, slice_succ, List.reverse_append, Nat.zero_add]
    by_cases hc : buf.val pos ≠ 0x0A
    · rw [if_pos hc, ih]
      simp [hc, Cells.slice]
    · rw [if_neg hc]
      simp [not_not.mp hc]

theorem lineEndLoop_fst (buf : Cells UInt8) (n pos : Nat) :
    (lineEndLoop buf n pos).1 = pos + ((buf.slice pos n).takeWhile (· ≠ 0x0A)).length := by
  induction n generalizing buf pos with
  | zero => rfl
  | succ n ih =>
    rw [lineEndLoop, slice_cons]
    by_cases hc : buf.val pos ≠ 0x0A
    · rw [if_pos hc, ih]
      simp [hc, Cells.slice]
      omega
    · rw [if_neg hc]
      simp [not_not.mp hc]

theorem lineStart_reads {buf : Cells UInt8} {pos b : Nat} (h : pos ≤ b) :
    ReadsTo b buf (lineStart buf pos).2 := by
  induction pos generalizing buf with
  | zero => exact .refl b buf
  | succ pos ih =>
    have huse : ReadsTo b buf (buf.use pos) := .use h buf
    rw [lineStart]
    split
    · exact huse.trans (ih (Nat.le_of_succ_le h))
    · exact huse

theorem lineEndLoop_reads {buf : Cells UInt8} {n pos b : Nat} (h : pos + n ≤ b) :
    ReadsTo b buf (lineEndLoop buf n pos).2 := by
  induction n generalizing buf pos with
  | zero => exact .refl b buf
  | succ n ih =>
    have huse : ReadsTo b buf (buf.use pos) := .use (by omega) buf
    rw [lineEndLoop]
    split
    · exact huse.trans (ih (by omega))
    · exact huse

theorem drawLoop_reads {cursor n i b : Nat} {d : Drawing} (h : i + n ≤ b) :
    ReadsTo b d.buf (drawLoop cursor n i d).buf := by
  induction n generalizing i d with
  | zero => exact .refl b d.buf
  | succ n ih =>
    rw [drawLoop]
    split
    · have hnext : ∀ d' : Drawing, d'.buf = d.buf.use i →
          ReadsTo b d.buf (drawLoop cursor n (i + 1) d').buf := by
        intro d' hd'
        have hrest := ih (i := i + 1) (d := d') (by omega)
        rw [hd'] at hrest
        exact (ReadsTo.use (by omega) _).trans hrest
      dsimp only
      split_ifs
      all_goals first
        | exact hnext _ rfl
        | exact .use (by omega) _
    · exact .refl b d.buf

/-! ## The refinement -/

/-- The text before the cursor and the text behind it. It is all that the motions need,
and it holds of a text of any length. -/
structure Editor.Splits (e : Editor) (z : TextCursor UInt8) : Prop where
  left : e.text.slice 0 e.cursor = z.left.reverse
  right : e.text.slice e.cursor (e.len - e.cursor) = z.right
  cursor_le : e.cursor ≤ e.len

/-- The buffer holds the text of `z` with the cursor where `z` has it; the text ends with a zero
byte inside the array, and no index outside the array has been used. -/
structure Editor.Shows (e : Editor) (z : TextCursor UInt8) : Prop where
  left : e.text.slice 0 e.cursor = z.left.reverse
  right : e.text.slice e.cursor (e.len - e.cursor) = z.right
  cursor_le : e.cursor ≤ e.len
  len_le : e.len ≤ 4095
  term : e.text.val e.len = 0
  top : e.text.top ≤ 4096

/-- The text of `e'` is that of `e`, after reads of it. The drawing of the screen is
such a step, and it comes before every key. -/
structure Editor.Reads (e e' : Editor) : Prop where
  text : ReadsTo 4096 e.text e'.text
  len : e'.len = e.len

/-! ## The line motions

`j` and `k` look for the ends of lines byte by byte, with the length as their only
bound. Each is followed on the text that is split at the cursor; what it reads of the
array is noted with it. -/

theorem lineStart_val (buf : Cells UInt8) (pos : Nat) : (lineStart buf pos).2.val = buf.val :=
  (lineStart_reads (le_refl pos)).val

theorem lineEnd_val (buf : Cells UInt8) (len pos : Nat) : (lineEnd buf len pos).2.val = buf.val :=
  (lineEndLoop_reads (le_refl (pos + (len - pos)))).val

section Splits

variable {e e' : Editor} {z : TextCursor UInt8}

theorem Editor.Splits.cursor_eq (h : e.Splits z) : e.cursor = z.left.length := by
  have hlen := congrArg List.length h.left
  rwa [length_slice, List.length_reverse] at hlen

theorem Editor.Splits.len_eq (h : e.Splits z) : e.len = z.left.length + z.right.length := by
  have hlen := congrArg List.length h.right
  rw [length_slice] at hlen
  have hc := h.cursor_eq
  have hle := h.cursor_le
  omega

theorem Editor.Splits.text_eq (h : e.Splits z) : e.text.slice 0 e.len = z.text := by
  have hle := h.cursor_le
  rw [show e.len = e.cursor + (e.len - e.cursor) by omega, slice_add, Nat.zero_add, h.left, h.right]
  rfl

/-- The cursor moves to the right over the same text. -/
theorem Editor.Splits.forward (h : e.Splits z) (ht : e'.text.val = e.text.val)
    (hl : e'.len = e.len) {n : Nat} (hn : e.cursor + n ≤ e.len) (hc : e'.cursor = e.cursor + n) :
    e'.Splits (z.forward n) := by
  have hslice := slice_of_val ht
  have hright := h.right
  rw [show e.len - e.cursor = n + (e.len - (e.cursor + n)) by omega, slice_add] at hright
  have htake : z.right.take n = e.text.slice e.cursor n := by
    rw [← hright]
    exact List.take_left' (length_slice _ _ _)
  have hdrop : z.right.drop n = e.text.slice (e.cursor + n) (e.len - (e.cursor + n)) := by
    rw [← hright]
    exact List.drop_left' (length_slice _ _ _)
  constructor
  · rw [hslice, hc, slice_add, Nat.zero_add, h.left, TextCursor.forward, htake,
      List.reverse_append, List.reverse_reverse]
  · rw [hslice, hl, hc, TextCursor.forward, hdrop]
  · rw [hl, hc]
    exact hn

/-- Nothing moves. -/
theorem Editor.Splits.stay (h : e.Splits z) (ht : e'.text.val = e.text.val) (hl : e'.len = e.len)
    (hc : e'.cursor = e.cursor) : e'.Splits z :=
  h.forward (n := 0) ht hl h.cursor_le hc

/-- The cursor moves to the left over the same text. -/
theorem Editor.Splits.back (h : e.Splits z) (ht : e'.text.val = e.text.val) (hl : e'.len = e.len)
    {n : Nat} (hc : e'.cursor + n = e.cursor) : e'.Splits (z.back n) := by
  have hslice := slice_of_val ht
  have hle := h.cursor_le
  have hleft := h.left
  rw [← hc, slice_add, Nat.zero_add] at hleft
  have hz : z.left = (e.text.slice e'.cursor n).reverse ++ (e.text.slice 0 e'.cursor).reverse := by
    rw [← List.reverse_append, hleft, List.reverse_reverse]
  have hlen : (e.text.slice e'.cursor n).reverse.length = n := by
    rw [List.length_reverse, length_slice]
  constructor
  · rw [hslice, TextCursor.back, hz, List.drop_left' hlen, List.reverse_reverse]
  · rw [hslice, hl, show e.len - e'.cursor = n + (e.len - e.cursor) by omega, slice_add,
      hc, h.right, TextCursor.back, hz, List.take_left' hlen, List.reverse_reverse]
  · rw [hl]
    omega

/-- The position `line_start` comes to from the cursor. -/
theorem Editor.Splits.lineStart_fst (h : e.Splits z) :
    (lineStart e.text e.cursor).1 = e.cursor - z.column 0x0A := by
  rw [OsU.lineStart_fst, h.left, List.reverse_reverse]
  rfl

theorem Editor.Splits.moveDown (h : e.Splits z) : e.down.Splits (z.down 0x0A) := by
  have hcur := h.cursor_eq
  have hlen := h.len_eq
  have hstart := h.lineStart_fst
  have hval : (lineStart e.text e.cursor).2.val = e.text.val := lineStart_val _ _
  have hend : (lineEnd (lineStart e.text e.cursor).2 e.len e.cursor).1 =
      e.cursor + (z.right.takeWhile (· ≠ 0x0A)).length := by
    rw [lineEnd, lineEndLoop_fst, slice_of_val hval, h.right]
  have hval' : (lineEnd (lineStart e.text e.cursor).2 e.len e.cursor).2.val = e.text.val :=
    (lineEnd_val _ _ _).trans hval
  unfold Editor.down TextCursor.down
  dsimp only
  generalize lineEnd (lineStart e.text e.cursor).2 e.len e.cursor = t at *
  generalize lineStart e.text e.cursor = s at *
  cases hd : z.right.dropWhile (· ≠ 0x0A) with
  | nil =>
    -- the cursor is on the last line
    have hline : z.right.takeWhile (· ≠ 0x0A) = z.right :=
      List.takeWhile_eq_self_iff.mpr (List.dropWhile_eq_nil_iff.mp hd)
    rw [if_neg (by rw [hend, hline]; omega)]
    exact h.stay hval' rfl rfl
  | cons x below =>
    have hsplit := TextCursor.split_line hd
    have hright := h.right
    rw [hsplit] at hright
    obtain ⟨-, hbelow⟩ := e.text.slice_append_inv hright
    rw [← hend] at hbelow
    have hsizes : e.len = t.1 + (below.length + 1) := by
      have hlen' := congrArg List.length hsplit
      rw [List.length_append, List.length_cons] at hlen'
      omega
    rw [show e.len - e.cursor - (z.right.takeWhile (· ≠ 0x0A)).length = below.length + 1 by omega,
      slice_cons] at hbelow
    obtain ⟨hbreak, hnext⟩ := List.cons.inj hbelow
    have hnextEnd : (lineEnd (t.2.use t.1) e.len (t.1 + 1)).1 =
        t.1 + 1 + (below.takeWhile (· ≠ 0x0A)).length := by
      rw [lineEnd, lineEndLoop_fst, slice_of_val (show (t.2.use t.1).val = e.text.val from hval'),
        show e.len - (t.1 + 1) = below.length by omega, hnext]
    have hcol := z.column_le 0x0A
    have hwidth : (below.takeWhile (· ≠ 0x0A)).length ≤ below.length :=
      (List.takeWhile_prefix _).length_le
    have hbreak' : t.2.val t.1 = 0x0A := by rw [hval', hbreak]
    rw [if_pos (by omega), if_pos hbreak', hnextEnd]
    refine h.forward ?_ ?_ ?_ ?_
    · exact (lineEnd_val _ _ _).trans hval'
    · rfl
    · omega
    · change t.1 + 1 + _ = e.cursor + _
      rw [hstart, Nat.add_sub_cancel_left]
      split <;> omega

theorem Editor.Splits.moveUp (h : e.Splits z) : e.up.Splits (z.up 0x0A) := by
  have hcur := h.cursor_eq
  have hcol := z.column_le 0x0A
  have hstart := h.lineStart_fst
  have hval : (lineStart e.text e.cursor).2.val = e.text.val := lineStart_val _ _
  unfold Editor.up TextCursor.up
  dsimp only
  generalize lineStart e.text e.cursor = s at *
  cases hd : z.left.dropWhile (· ≠ 0x0A) with
  | nil =>
    -- the cursor is on the first line
    have hline : z.column 0x0A = z.left.length := by
      rw [TextCursor.column, List.takeWhile_eq_self_iff.mpr (List.dropWhile_eq_nil_iff.mp hd)]
    rw [if_neg (by omega)]
    exact h.stay hval rfl rfl
  | cons x above =>
    have hsplit := TextCursor.split_line hd
    have hsizes : z.left.length = z.column 0x0A + (above.length + 1) := by
      have hlen := congrArg List.length hsplit
      rwa [List.length_append, List.length_cons] at hlen
    have habove : e.text.slice 0 (s.1 - 1) = above.reverse := by
      have hleft := h.left
      rw [hsplit, List.reverse_append, List.reverse_cons, List.append_assoc] at hleft
      have hfront := (e.text.slice_append_inv hleft).1
      rwa [List.length_reverse, show above.length = s.1 - 1 by omega] at hfront
    have hprev : (lineStart s.2 (s.1 - 1)).1 =
        s.1 - 1 - (above.takeWhile (· ≠ 0x0A)).length := by
      rw [OsU.lineStart_fst, slice_of_val hval, habove, List.reverse_reverse]
    have hwidth : (above.takeWhile (· ≠ 0x0A)).length ≤ above.length :=
      (List.takeWhile_prefix _).length_le
    rw [if_pos (by omega), hprev]
    refine h.back ?_ ?_ ?_
    · exact (lineStart_val _ _).trans hval
    · rfl
    · change s.1 - 1 - (above.takeWhile (· ≠ 0x0A)).length + _ + _ = e.cursor
      split <;> omega

/-- What the line motions use is below the length. -/
theorem Editor.down_reads (e : Editor) {b : Nat} (h : e.cursor ≤ e.len) (hb : e.len ≤ b) :
    ReadsTo b e.text e.down.text := by
  have hs : ReadsTo b e.text (lineStart e.text e.cursor).2 := lineStart_reads (by omega)
  have ht : ReadsTo b e.text (lineEnd (lineStart e.text e.cursor).2 e.len e.cursor).2 :=
    hs.trans (lineEndLoop_reads (by omega))
  unfold Editor.down
  dsimp only
  generalize lineEnd (lineStart e.text e.cursor).2 e.len e.cursor = t at *
  split
  · have huse : ReadsTo b e.text (t.2.use t.1) := ht.trans (.use (by omega) _)
    split
    · exact huse.trans (lineEndLoop_reads (by omega))
    · exact huse
  · exact ht

theorem Editor.up_reads (e : Editor) {b : Nat} (h : e.cursor ≤ b) :
    ReadsTo b e.text e.up.text := by
  have hs : ReadsTo b e.text (lineStart e.text e.cursor).2 := lineStart_reads h
  have hfst : (lineStart e.text e.cursor).1 ≤ e.cursor := by
    rw [lineStart_fst]
    exact Nat.sub_le _ _
  unfold Editor.up
  dsimp only
  generalize lineStart e.text e.cursor = s at *
  split
  · exact hs.trans (lineStart_reads (by omega))
  · exact hs

end Splits

section Motions

variable {e e' : Editor} {z z' : TextCursor UInt8}

theorem Editor.Shows.splits (h : e.Shows z) : e.Splits z := ⟨h.left, h.right, h.cursor_le⟩

/-- A motion of the cursor over the same text. -/
theorem Editor.Shows.moved (h : e.Shows z) (hr : e.Reads e') (hs : e'.Splits z') : e'.Shows z' where
  left := hs.left
  right := hs.right
  cursor_le := hs.cursor_le
  len_le := hr.len ▸ h.len_le
  term := by
    rw [hr.text.val, hr.len]
    exact h.term
  top := hr.text.top.trans (max_le h.top (le_refl _))

theorem Editor.Shows.cursor_eq (h : e.Shows z) : e.cursor = z.left.length := h.splits.cursor_eq

theorem Editor.Shows.len_eq (h : e.Shows z) : e.len = z.left.length + z.right.length :=
  h.splits.len_eq

theorem Editor.Shows.text_eq (h : e.Shows z) : e.text.slice 0 e.len = z.text := h.splits.text_eq

theorem Editor.Shows.forward (h : e.Shows z) (hr : e.Reads e') {n : Nat} (hn : e.cursor + n ≤ e.len)
    (hc : e'.cursor = e.cursor + n) : e'.Shows (z.forward n) :=
  h.moved hr (h.splits.forward hr.text.val hr.len hn hc)

theorem Editor.Shows.back (h : e.Shows z) (hr : e.Reads e') {n : Nat}
    (hc : e'.cursor + n = e.cursor) : e'.Shows (z.back n) :=
  h.moved hr (h.splits.back hr.text.val hr.len hc)

/-- Nothing moves. -/
theorem Editor.Shows.stay (h : e.Shows z) (hr : e.Reads e') (hc : e'.cursor = e.cursor) :
    e'.Shows z := h.forward (n := 0) hr h.cursor_le hc

/-- Moving the cursor reads nothing. -/
theorem Editor.Reads.setCursor (e : Editor) (c : Nat) : e.Reads { e with cursor := c } :=
  ⟨.refl _ _, rfl⟩

theorem drawEditor_reads (name : List UInt8) {buf : Cells UInt8} {len : Nat} (cursor : Nat)
    (mode : Mode) (msg : List UInt8) (vga : Vga) (h : len ≤ 4096) :
    ReadsTo 4096 buf (drawEditor name buf len cursor mode msg vga).1 := by
  have hloop : ∀ v, ReadsTo 4096 buf (drawLoop cursor len 0 ⟨buf, 1, 0, 1, 0, v⟩).buf :=
    fun v => drawLoop_reads (d := ⟨buf, 1, 0, 1, 0, v⟩) (show 0 + len ≤ 4096 by omega)
  unfold drawEditor
  dsimp only
  split_ifs <;> exact hloop _

theorem Editor.Shows.draw (h : e.Shows z) : e.draw.Shows z :=
  h.stay ⟨drawEditor_reads _ _ _ _ _ (h.len_le.trans (by decide)), rfl⟩ rfl

theorem Editor.Shows.moveLeft (h : e.Shows z) : e.left.Shows (z.back 1) := by
  unfold Editor.left
  split
  · rename_i hpos
    exact h.back (.setCursor e (e.cursor - 1)) (show e.cursor - 1 + 1 = e.cursor by omega)
  · rename_i hpos
    have hnil : z.left = [] := List.length_eq_zero_iff.mp (by have := h.cursor_eq; omega)
    have hz : z.back 1 = z := by
      unfold TextCursor.back
      rw [hnil]
      obtain ⟨l, r⟩ := z
      obtain rfl : l = [] := hnil
      rfl
    rw [hz]
    exact h

theorem Editor.Shows.moveRight (h : e.Shows z) : e.right.Shows (z.forward 1) := by
  unfold Editor.right
  split
  · rename_i hlt
    exact h.forward (.setCursor e (e.cursor + 1)) (show e.cursor + 1 ≤ e.len by omega) rfl
  · rename_i hge
    have hnil : z.right = [] := List.length_eq_zero_iff.mp (by
      have := h.cursor_eq
      have := h.len_eq
      have := h.cursor_le
      omega)
    have hz : z.forward 1 = z := by
      obtain ⟨l, r⟩ := z
      obtain rfl : r = [] := hnil
      rfl
    rw [hz]
    exact h

theorem Editor.down_len (e : Editor) : e.down.len = e.len := by
  unfold Editor.down
  dsimp only
  split_ifs <;> rfl

theorem Editor.up_len (e : Editor) : e.up.len = e.len := by
  unfold Editor.up
  dsimp only
  split_ifs <;> rfl

theorem Editor.Shows.moveDown (h : e.Shows z) : e.down.Shows (z.down 0x0A) :=
  h.moved ⟨e.down_reads h.cursor_le (h.len_le.trans (by decide)), e.down_len⟩ h.splits.moveDown

theorem Editor.Shows.moveUp (h : e.Shows z) : e.up.Shows (z.up 0x0A) :=
  h.moved ⟨e.up_reads (h.cursor_le.trans (h.len_le.trans (by decide))), e.up_len⟩ h.splits.moveUp

end Motions

/-! ## Edits -/

section Edits

variable {e : Editor} {z : TextCursor UInt8}

theorem Editor.insertChar_full (h : e.len = 4095) (c : UInt8) : e.insertChar c = (-1, e) :=
  if_pos (by rw [h]; decide)

theorem Editor.insertChar_room (h : e.len < 4095) (c : UInt8) :
    e.insertChar c = (0, { e with
      text := ((e.text.copyDown (e.cursor + 1) e.cursor (e.len - e.cursor)).set e.cursor c).set
        (e.len + 1) 0
      len := e.len + 1
      cursor := e.cursor + 1 }) :=
  if_neg (by unfold fsMaxFileSize; omega)

/-- **An insertion.** The characters from the cursor on move up by one, the last of them
first, so that none is overwritten before it has moved. -/
theorem Editor.Shows.insertChar (h : e.Shows z) (hroom : e.len < 4095) (c : UInt8) :
    (e.insertChar c).2.Shows (z.insert c) := by
  have hle := h.cursor_le
  rw [Editor.insertChar_room hroom]
  set buf := ((e.text.copyDown (e.cursor + 1) e.cursor (e.len - e.cursor)).set e.cursor c).set
    (e.len + 1) 0 with hbuf
  have hval : ∀ i, buf.val i = if i = e.len + 1 then 0 else if i = e.cursor then c
      else if e.cursor + 1 ≤ i ∧ i < e.len + 1 then e.text.val (i - 1) else e.text.val i := by
    intro i
    rw [hbuf, set_val, Function.update_apply, set_val, Function.update_apply,
      copyDown_val _ (show e.cursor ≤ e.cursor + 1 by omega),
      show e.cursor + 1 + (e.len - e.cursor) = e.len + 1 by omega, Nat.add_sub_cancel_left]
  constructor
  · -- before the cursor nothing moves, and the new character comes last
    change buf.slice 0 (e.cursor + 1) = (c :: z.left).reverse
    have hfront : buf.slice 0 e.cursor = e.text.slice 0 e.cursor := by
      refine slice_congr fun k hk => ?_
      rw [hval, if_neg (by omega), if_neg (by omega), if_neg (by omega)]
    rw [slice_succ, hfront, h.left, List.reverse_cons, hval, if_neg (by omega),
      if_pos (Nat.zero_add _)]
  · change buf.slice (e.cursor + 1) (e.len + 1 - (e.cursor + 1)) = z.right
    rw [Nat.add_sub_add_right, ← h.right]
    refine slice_congr fun k hk => ?_
    rw [hval, if_neg (by omega), if_neg (by omega), if_pos (by omega)]
    congr 1
    omega
  · exact Nat.succ_le_succ hle
  · exact hroom
  · exact (hval _).trans (if_pos rfl)
  · have hcopy : (e.text.copyDown (e.cursor + 1) e.cursor (e.len - e.cursor)).top ≤ 4096 :=
      copyDown_top_le _ h.top (by omega) (by omega)
    change max (max _ _) _ ≤ 4096
    omega

/-- **A deletion at the cursor.** The characters behind it move down by one. -/
theorem Editor.Shows.deleteAt (h : e.Shows z) (hlt : e.cursor < e.len) :
    (e.deleteAt e.cursor).Shows z.deleteRight := by
  have hmax := h.len_le
  have hdel : e.deleteAt e.cursor = { e with
      text := (e.text.copyUp e.cursor (e.cursor + 1) (e.len - 1 - e.cursor)).set (e.len - 1) 0
      len := e.len - 1 } := if_neg (by omega)
  rw [hdel]
  set buf := (e.text.copyUp e.cursor (e.cursor + 1) (e.len - 1 - e.cursor)).set (e.len - 1) 0
    with hbuf
  have hval : ∀ i, buf.val i = if i = e.len - 1 then 0
      else if e.cursor ≤ i ∧ i < e.len - 1 then e.text.val (i + 1) else e.text.val i := by
    intro i
    rw [hbuf, set_val, Function.update_apply, copyUp_val _ (show e.cursor ≤ e.cursor + 1 by omega),
      show e.cursor + (e.len - 1 - e.cursor) = e.len - 1 by omega, Nat.add_sub_cancel_left]
  have hright := h.right
  rw [show e.len - e.cursor = e.len - 1 - e.cursor + 1 by omega, slice_cons] at hright
  constructor
  · change buf.slice 0 e.cursor = z.left.reverse
    rw [← h.left]
    refine slice_congr fun k hk => ?_
    rw [hval, if_neg (by omega), if_neg (by omega)]
  · change buf.slice e.cursor (e.len - 1 - e.cursor) = z.right.tail
    rw [← hright, List.tail_cons]
    refine slice_congr fun k hk => ?_
    rw [hval, if_neg (by omega), if_pos (by omega)]
    congr 1
    omega
  · exact Nat.le_sub_one_of_lt hlt
  · exact (Nat.sub_le _ _).trans hmax
  · exact (hval _).trans (if_pos rfl)
  · have hcopy : (e.text.copyUp e.cursor (e.cursor + 1) (e.len - 1 - e.cursor)).top ≤ 4096 :=
      copyUp_top_le _ h.top (by omega) (by omega)
    change max _ _ ≤ 4096
    omega

/-- Fields other than the text, its length and the cursor. -/
theorem Editor.Shows.congr {e' : Editor} (h : e.Shows z) (ht : e'.text = e.text)
    (hl : e'.len = e.len) (hc : e'.cursor = e.cursor) : e'.Shows z :=
  h.stay ⟨ht ▸ .refl _ _, hl⟩ hc

theorem Editor.Shows.vfsWriteRaw (h : e.Shows z) : e.vfsWriteRaw.2.Shows z := by
  refine h.stay ⟨⟨rfl, ?_⟩, rfl⟩ rfl
  exact max_le_max (le_refl _) (h.len_le.trans (by decide))

theorem Editor.Shows.write (h : e.Shows z) : e.write.Shows z := by
  unfold Editor.write
  dsimp only
  split
  · exact h.vfsWriteRaw.congr rfl rfl rfl
  · exact h.vfsWriteRaw.congr rfl rfl rfl

end Edits

/-! ## Keys

A key asks for an edit of the text; which one depends on the mode and on nothing else.
One key is one edit, and a sequence of keys is followed by induction on it. Commands and
saving ask for none. -/

/-- What a key asks for, apart from the mode it is typed in: each mode has a table of
its own from keys to edits, and both end here. -/
inductive KeyEdit where
  | insert (c : UInt8)
  | deleteLeft
  | deleteRight
  | left
  | right
  | up
  | down
  /-- Nothing that is about the text or the cursor. -/
  | none
  deriving DecidableEq, Repr

/-- A motion moves the cursor only. -/
def KeyEdit.IsMotion : KeyEdit → Prop
  | .left | .right | .up | .down => True
  | _ => False

/-- The edit, in a text of at most 4095 characters. An insertion into a full text is
refused; every other edit that has nothing to work on leaves the text as it is by
itself. -/
def KeyEdit.apply : KeyEdit → TextCursor UInt8 → TextCursor UInt8
  | .insert c, z => if z.text.length = 4095 then z else z.insert c
  | .deleteLeft, z => z.deleteLeft
  | .deleteRight, z => z.deleteRight
  | .left, z => z.back 1
  | .right, z => z.forward 1
  | .up, z => z.up 0x0A
  | .down, z => z.down 0x0A
  | .none, z => z

/-- The keys of MODE_INSERT. -/
def insertEdit (c : UInt8) : KeyEdit :=
  if c = 0x08 then .deleteLeft
  else if c = 0x0A ∨ c = 0x0D then .insert 0x0A
  else if 32 ≤ c ∧ c ≤ 126 then .insert c
  else if c = keyLeft then .left
  else if c = keyRight then .right
  else .none

/-- The keys of MODE_NORMAL. -/
def normalEdit (c : UInt8) : KeyEdit :=
  if c = 0x68 ∨ c = keyLeft then .left
  else if c = 0x6C ∨ c = keyRight then .right
  else if c = 0x78 ∨ c = keyDelete then .deleteRight
  else if c = 0x6A ∨ c = keyDown then .down
  else if c = 0x6B ∨ c = keyUp then .up
  else .none

/-- What a key asks for, where the editor is. -/
def Editor.edit (e : Editor) (c : UInt8) : KeyEdit :=
  match e.waits, e.mode with
  | .key, .insert => insertEdit c
  | .key, .normal => normalEdit c
  | _, _ => .none

section Keys

variable {e : Editor} {z : TextCursor UInt8}

theorem Editor.type_full (h : e.len = 4095) (c : UInt8) :
    e.type c = { e with msg := CString.ascii "file full" } := by
  unfold Editor.type
  rw [Editor.insertChar_full h]
  rfl

theorem Editor.type_room (h : e.len < 4095) (c : UInt8) :
    e.type c = { (e.insertChar c).2 with dirty := true } := by
  unfold Editor.type
  rw [Editor.insertChar_room h]
  rfl

theorem Editor.Shows.type (h : e.Shows z) (c : UInt8) :
    (e.type c).Shows ((KeyEdit.insert c).apply z) := by
  have hlen : e.len = z.text.length := by
    rw [← h.text_eq, length_slice]
  have happly : (KeyEdit.insert c).apply z = if e.len = 4095 then z else z.insert c := by
    rw [hlen]
    rfl
  rw [happly]
  by_cases hfull : e.len = 4095
  · rw [Editor.type_full hfull, if_pos hfull]
    exact h.congr rfl rfl rfl
  · have hroom : e.len < 4095 := Nat.lt_of_le_of_ne h.len_le hfull
    rw [Editor.type_room hroom, if_neg hfull]
    exact (h.insertChar hroom c).congr rfl rfl rfl

/-- Backspace: a step to the left, and a deletion there. -/
theorem Editor.Shows.backspace (h : e.Shows z) (hpos : 0 < e.cursor) :
    ({ e with cursor := e.cursor - 1 }.deleteAt (e.cursor - 1)).Shows z.deleteLeft := by
  have hle := h.cursor_le
  have hback : Editor.Shows { e with cursor := e.cursor - 1 } (z.back 1) :=
    h.back (.setCursor e (e.cursor - 1)) (show e.cursor - 1 + 1 = e.cursor by omega)
  have hdel := hback.deleteAt (show e.cursor - 1 < e.len by omega)
  have hz : (z.back 1).deleteRight = z.deleteLeft := by
    obtain ⟨left, right⟩ := z
    cases left with
    | nil => exact absurd h.cursor_eq (Nat.ne_of_gt hpos)
    | cons x left => rfl
  rwa [hz] at hdel

theorem Editor.Shows.backspace_start (h : e.Shows z) (hzero : ¬ 0 < e.cursor) :
    z.deleteLeft = z := by
  obtain ⟨left, right⟩ := z
  cases left with
  | nil => rfl
  | cons x left => exact absurd h.cursor_eq (by simp; omega)

theorem Editor.Shows.deleteRight_end (h : e.Shows z) (hend : ¬ e.cursor < e.len) :
    z.deleteRight = z := by
  obtain ⟨left, right⟩ := z
  cases right with
  | nil => rfl
  | cons x right =>
    have hcur := h.cursor_eq
    have hlen := h.len_eq
    exact absurd hlen (by simp at hcur ⊢; omega)

theorem Editor.Shows.insertKey (h : e.Shows z) (c : UInt8) :
    (e.insertKey c).Shows ((insertEdit c).apply z) := by
  unfold Editor.insertKey
  by_cases hsave : c = 19
  · rw [if_pos hsave, hsave]
    exact h.write
  rw [if_neg hsave]
  by_cases hesc : c = 27
  · rw [if_pos hesc, hesc]
    exact h.congr rfl rfl rfl
  rw [if_neg hesc]
  unfold insertEdit
  by_cases hback : c = 0x08
  · rw [if_pos hback, if_pos hback]
    split
    · rename_i hpos
      exact (h.backspace hpos).congr rfl rfl rfl
    · rename_i hzero
      change e.Shows z.deleteLeft
      rw [h.backspace_start hzero]
      exact h
  rw [if_neg hback, if_neg hback]
  by_cases hbreak : c = 0x0A ∨ c = 0x0D
  · rw [if_pos hbreak, if_pos hbreak]
    exact h.type 0x0A
  rw [if_neg hbreak, if_neg hbreak]
  by_cases hprint : 32 ≤ c ∧ c ≤ 126
  · -- a printable character is not an arrow
    have hleft : c ≠ keyLeft := fun he => absurd (he ▸ hprint.2) (by decide)
    have hright : c ≠ keyRight := fun he => absurd (he ▸ hprint.2) (by decide)
    simp only [hprint, hleft, hright, false_and, and_self, if_true, if_false]
    exact h.type c
  simp only [hprint, if_false]
  by_cases hleft : c = keyLeft
  · have hne : c ≠ keyRight := fun he => absurd (hleft.symm.trans he) (by decide)
    simp only [hleft, hleft ▸ hne, true_and, false_and, if_true, if_false]
    exact h.moveLeft
  simp only [hleft, false_and, if_false]
  by_cases hright : c = keyRight
  · simp only [hright, true_and, if_true]
    exact h.moveRight
  · simp only [hright, false_and, if_false]
    exact h

theorem Editor.Shows.normalKey (h : e.Shows z) (c : UInt8) :
    (e.normalKey c).Shows ((normalEdit c).apply z) := by
  unfold Editor.normalKey
  by_cases hsave : c = 19
  · rw [if_pos hsave, hsave]
    exact h.write
  rw [if_neg hsave]
  by_cases hi : c = 0x69
  · rw [if_pos hi, hi]
    exact h.congr rfl rfl rfl
  rw [if_neg hi]
  unfold normalEdit
  by_cases hleft : c = 0x68 ∨ c = keyLeft
  · rw [if_pos hleft, if_pos hleft]
    exact h.moveLeft
  rw [if_neg hleft, if_neg hleft]
  by_cases hright : c = 0x6C ∨ c = keyRight
  · rw [if_pos hright, if_pos hright]
    exact h.moveRight
  rw [if_neg hright, if_neg hright]
  by_cases hdel : c = 0x78 ∨ c = keyDelete
  · rw [if_pos hdel, if_pos hdel]
    split
    · rename_i hlt
      exact (h.deleteAt hlt).congr rfl rfl rfl
    · rename_i hend
      change e.Shows z.deleteRight
      rw [h.deleteRight_end hend]
      exact h
  rw [if_neg hdel, if_neg hdel]
  by_cases hdown : c = 0x6A ∨ c = keyDown
  · rw [if_pos hdown, if_pos hdown]
    exact h.moveDown
  rw [if_neg hdown, if_neg hdown]
  by_cases hup : c = 0x6B ∨ c = keyUp
  · rw [if_pos hup, if_pos hup]
    exact h.moveUp
  rw [if_neg hup, if_neg hup]
  split
  · exact h.congr rfl rfl rfl
  · exact h

theorem Editor.Shows.command (h : e.Shows z) (cmd : List UInt8) : (e.command cmd).Shows z := by
  unfold Editor.command
  split
  · exact h
  split
  · exact h.write
  split
  · split
    · exact h.congr rfl rfl rfl
    · exact h.congr rfl rfl rfl
  split
  · exact h.congr rfl rfl rfl
  split
  · dsimp only
    split
    · exact h.vfsWriteRaw.congr rfl rfl rfl
    · exact h.vfsWriteRaw.congr rfl rfl rfl
  · exact h.congr rfl rfl rfl

theorem Editor.Shows.colonKey (h : e.Shows z) (c : UInt8) (cmd : List UInt8) :
    (e.colonKey c cmd).Shows z := by
  unfold Editor.colonKey
  split
  · exact h
  split
  · exact (h.congr rfl rfl rfl : Editor.Shows { e with waits := .key } z).command _
  split
  · exact h.congr rfl rfl rfl
  split
  · split
    · exact h.congr rfl rfl rfl
    · exact h
  split
  · exact h.congr rfl rfl rfl
  · exact h

/-- **One key**: the buffer follows the edit the key asks for. A key of a command asks
for none, and saving reads the text only. -/
theorem Editor.Shows.key (h : e.Shows z) (c : UInt8) : (e.key c).Shows ((e.edit c).apply z) := by
  unfold Editor.key Editor.edit
  cases hw : e.waits with
  | key =>
    cases hm : e.mode with
    | insert => exact h.draw.insertKey c
    | normal => exact h.draw.normalKey c
  | colon cmd => exact h.colonKey c cmd
  | returned cmd => exact h

end Keys

/-! ## Runs -/

/-- The editor starts with the file's bytes, the cursor before the first. -/
theorem editorEditFile_shows (name : List UInt8) (stack : Nat → UInt8) (vga : Vga) {s : Fs}
    (h : (editorEditFile name stack vga s).len ≤ 4095) :
    (editorEditFile name stack vga s).Shows
      ⟨[], (editorEditFile name stack vga s).text.slice 0 (editorEditFile name stack vga s).len⟩ where
  left := rfl
  right := rfl
  cursor_le := Nat.zero_le _
  len_le := h
  term := by
    cases hr : (vfsReadPtr name s).1 with
    | none =>
      obtain ⟨ht, hl⟩ := editorEditFile_none stack vga hr
      rw [ht, hl]
      rfl
    | some n =>
      obtain ⟨ht, hl⟩ := editorEditFile_some stack vga hr
      rw [ht, hl]
      exact Function.update_self _ _ _
  top := by
    cases hr : (vfsReadPtr name s).1 with
    | none =>
      rw [(editorEditFile_none stack vga hr).1]
      exact (show max 0 1 ≤ 4096 by decide)
    | some n =>
      obtain ⟨ht, hl⟩ := editorEditFile_some stack vga hr
      rw [hl] at h
      rw [ht]
      change max (max 0 n) (n + 1) ≤ 4096
      omega

/-- The editor, and beside it the text with a cursor that follows the edits. -/
def editBoth (c : UInt8) (s : Editor × TextCursor UInt8) : Editor × TextCursor UInt8 :=
  (s.1.key c, (s.1.edit c).apply s.2)

theorem KeyEdit.text_of_isMotion {m : KeyEdit} (h : m.IsMotion) (z : TextCursor UInt8) :
    (m.apply z).text = z.text := by
  cases m with
  | left => exact TextCursor.text_back 1 z
  | right => exact TextCursor.text_forward 1 z
  | up => exact TextCursor.text_up _ z
  | down => exact TextCursor.text_down _ z
  | insert c => exact h.elim
  | deleteLeft => exact h.elim
  | deleteRight => exact h.elim
  | none => exact h.elim

/-- **The editor is a text with a cursor.** From any state that shows a text of at most 4095 bytes,
after any keys in any modes, the buffer shows the text the edits lead to; the next key, if it is a
motion, leaves the text as it is, and if it is an insertion, is refused only when the text is full. -/
theorem editor_refines {e : Editor} {z : TextCursor UInt8} (h : e.Shows z) (keys : List UInt8)
    (c : UInt8) :
    let s := run editBoth (e, z) keys
    s.1.Shows s.2 ∧ (s.1.key c).Shows ((s.1.edit c).apply s.2) ∧
      ((s.1.edit c).IsMotion → (s.1.key c).text.slice 0 (s.1.key c).len = s.1.text.slice 0 s.1.len) ∧
      ∀ b, s.1.edit c = .insert b → s.1.len ≠ 4095 →
        (s.1.key c).Shows (s.2.insert b) := by
  intro s
  have hs : s.1.Shows s.2 :=
    run_of_step (P := fun s : Editor × TextCursor UInt8 => s.1.Shows s.2)
      (fun _ c hs => hs.key c) keys h
  refine ⟨hs, hs.key c, fun hm => ?_, fun b hb hne => ?_⟩
  · rw [(hs.key c).text_eq, KeyEdit.text_of_isMotion hm, hs.text_eq]
  · have hkey := hs.key c
    rw [hb] at hkey
    have hlen : s.2.text.length ≠ 4095 := by
      rw [← hs.text_eq, length_slice]
      exact hne
    rwa [KeyEdit.apply, if_neg hlen] at hkey

/-- The editor on a file that does not exist, before a volume is mounted. -/
def newFile : Editor :=
  editorEditFile [0x66] (fun _ => 0) ⟨⟨fun _ => 0, 0⟩, 0, 0, 7, 0⟩
    (.boot ⟨fun _ _ => 0, fun _ => true, 0, []⟩)

theorem newFile_shows : newFile.Shows ⟨[], []⟩ := by
  have hlen : newFile.len = 0 := (editorEditFile_none _ _ rfl).2
  have h := editorEditFile_shows [0x66] (fun _ => 0) ⟨⟨fun _ => 0, 0⟩, 0, 0, 7, 0⟩
    (s := .boot ⟨fun _ _ => 0, fun _ => true, 0, []⟩) (hlen ▸ Nat.zero_le _)
  exact h

/-- `iab`, Enter, the left arrow, Escape, and then `x`. -/
theorem editor_refines_newFile :
    ((run editBoth (newFile, ⟨[], []⟩) [0x69, 0x61, 0x62, 0x0A, keyLeft, 27]).1.key 0x78).Shows
      (((run editBoth (newFile, ⟨[], []⟩) [0x69, 0x61, 0x62, 0x0A, keyLeft, 27]).1.edit 0x78).apply
        (run editBoth (newFile, ⟨[], []⟩) [0x69, 0x61, 0x62, 0x0A, keyLeft, 27]).2) :=
  (editor_refines newFile_shows [0x69, 0x61, 0x62, 0x0A, keyLeft, 27] 0x78).2.1

end OsU
