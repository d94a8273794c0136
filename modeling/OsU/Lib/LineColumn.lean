import Mathlib.Data.List.TakeWhile
import OsU.Lib.TextCursor

/-!
# Lines and columns

The lines of a text are those of `List.splitOn`, and a position is a column of a line.
What is before a position says which: the separators there are the number of the line,
and the elements behind the last of them are the column (`splitOn_before`). The line
motions of a text with a cursor are the motions of those numbers.

A position has exactly one line and column (`At.unique`); the end of a line is a
position of it, the separator behind it is the next line's beginning minus one. `offset`
counts one more than the elements of each line, also for the last one, which has no
separator.
-/

set_option autoImplicit false

universe u

namespace LineColumn

variable {α : Type u}

/-- Where line `i` starts. -/
def offset (lines : List (List α)) (i : Nat) : Nat :=
  ((lines.take i).map fun l => l.length + 1).sum

/-- Position `p` is column `c` of line `i`. -/
structure At (lines : List (List α)) (p i c : Nat) : Prop where
  line : ∃ l, lines[i]? = some l ∧ c ≤ l.length
  pos : p = offset lines i + c

theorem offset_succ {lines : List (List α)} {i : Nat} {l : List α} (h : lines[i]? = some l) :
    offset lines (i + 1) = offset lines i + (l.length + 1) := by
  simp [offset, List.take_add_one, h]

theorem offset_mono (lines : List (List α)) {i j : Nat} (h : i ≤ j) :
    offset lines i ≤ offset lines j := by
  obtain ⟨d, rfl⟩ := Nat.exists_eq_add_of_le h
  rw [offset, offset, List.take_add, List.map_append, List.sum_append]
  exact Nat.le_add_right _ _

/-- A column of a line is before the next line. -/
theorem At.lt_next {lines : List (List α)} {p i c j : Nat} (h : At lines p i c) (hj : i < j) :
    p < offset lines j := by
  obtain ⟨l, hl, hc⟩ := h.line
  have hnext := offset_mono lines (Nat.succ_le_of_lt hj)
  rw [offset_succ hl] at hnext
  have hpos := h.pos
  omega

/-- A position is one column of one line. -/
theorem At.unique {lines : List (List α)} {p i c i' c' : Nat} (h : At lines p i c)
    (h' : At lines p i' c') : i' = i ∧ c' = c := by
  have hpos := h.pos
  have hpos' := h'.pos
  have hi : i' = i := by
    by_contra hne
    rcases Nat.lt_or_gt_of_ne hne with hlt | hlt
    · have := h'.lt_next hlt
      omega
    · have := h.lt_next hlt
      omega
  subst hi
  exact ⟨rfl, by omega⟩

section Split

variable [DecidableEq α] (sep : α)

theorem splitOn_cons (text : List α) :
    ∃ rest, text.splitOn sep = text.takeWhile (· ≠ sep) :: rest := by
  induction text with
  | nil => exact ⟨[], List.splitOn_nil sep⟩
  | cons x text ih =>
    obtain ⟨rest, hrest⟩ := ih
    rw [List.splitOn_cons_eq_if_modifyHead]
    by_cases hx : x = sep
    · exact ⟨text.splitOn sep, by simp [hx]⟩
    · exact ⟨rest, by simp [hx, hrest]⟩

theorem length_splitOn (text : List α) : (text.splitOn sep).length = text.count sep + 1 := by
  induction text with
  | nil => rw [List.splitOn_nil]; rfl
  | cons x text ih =>
    rw [List.splitOn_cons_eq_if_modifyHead]
    by_cases hx : x = sep
    · simp [hx, ih]
    · simp [hx, ih]

/-- Every line has one separator more than it shows, but for the last. -/
theorem sum_splitOn (text : List α) :
    ((text.splitOn sep).map fun l => l.length + 1).sum = text.length + 1 := by
  induction text with
  | nil => rw [List.splitOn_nil]; rfl
  | cons x text ih =>
    obtain ⟨rest, hrest⟩ := splitOn_cons sep text
    rw [List.splitOn_cons_eq_if_modifyHead]
    rw [hrest] at ih ⊢
    by_cases hx : x = sep
    · simp at ih
      simp [hx]
      omega
    · simp at ih
      simp [hx]
      omega

/-- **The line of a position**: where it starts, and what it is. -/
theorem splitOn_before (before after : List α) :
    offset ((before ++ after).splitOn sep) (before.count sep) =
        before.length - (before.reverse.takeWhile (· ≠ sep)).length ∧
      ((before ++ after).splitOn sep)[before.count sep]? =
        some ((before.reverse.takeWhile (· ≠ sep)).reverse ++ after.takeWhile (· ≠ sep)) := by
  cases hd : before.reverse.dropWhile (· ≠ sep) with
  | nil =>
    -- the first line
    have hno : ∀ x ∈ before, x ≠ sep := by
      simpa using List.dropWhile_eq_nil_iff.mp hd
    have hcount : before.count sep = 0 := List.count_eq_zero_of_not_mem fun h => hno sep h rfl
    have htake : before.reverse.takeWhile (· ≠ sep) = before.reverse :=
      List.takeWhile_eq_self_iff.mpr (by simpa using hno)
    obtain ⟨rest, hrest⟩ := splitOn_cons sep (before ++ after)
    have hfirst : (before ++ after).takeWhile (· ≠ sep) = before ++ after.takeWhile (· ≠ sep) :=
      List.takeWhile_append_of_pos (by simpa using hno)
    rw [hcount, htake, hrest, hfirst]
    simp [offset]
  | cons x above =>
    have hsplit := TextCursor.split_line hd
    have hcur : ∀ y ∈ before.reverse.takeWhile (· ≠ sep), y ≠ sep := by
      intro y hy
      simpa using List.mem_takeWhile_imp hy
    generalize before.reverse.takeWhile (· ≠ sep) = cur at hsplit hcur ⊢
    obtain rfl : before = above.reverse ++ sep :: cur.reverse := by
      rw [← List.reverse_reverse before, hsplit]
      simp
    have hcount : (above.reverse ++ sep :: cur.reverse).count sep =
        (above.reverse.splitOn sep).length := by
      have hno : cur.count sep = 0 := List.count_eq_zero_of_not_mem fun h => hcur sep h rfl
      rw [length_splitOn, List.count_append, List.count_cons_self, List.count_reverse (l := cur),
        hno]
    have htake : (cur.reverse ++ after).takeWhile (· ≠ sep) =
        cur.reverse ++ after.takeWhile (· ≠ sep) :=
      List.takeWhile_append_of_pos (by simpa using hcur)
    obtain ⟨rest, hrest⟩ := splitOn_cons sep (cur.reverse ++ after)
    rw [hcount, List.append_assoc, List.cons_append, List.splitOn_append_cons_self, hrest, htake]
    constructor
    · rw [offset, List.take_left, sum_splitOn]
      simp
      omega
    · rw [List.getElem?_append_right (Nat.le_refl _), Nat.sub_self]
      rfl

/-! ## The line motions -/

section Motions

variable (z : TextCursor α)

/-- Where the cursor is. -/
theorem at_cursor :
    At (z.text.splitOn sep) z.left.length (z.left.count sep) (z.column sep) := by
  obtain ⟨hpos, hline⟩ := splitOn_before sep z.left.reverse z.right
  rw [List.count_reverse] at hpos hline
  rw [List.reverse_reverse, List.length_reverse] at hpos
  rw [List.reverse_reverse] at hline
  have hle := z.column_le sep
  refine ⟨⟨_, hline, ?_⟩, ?_⟩
  · rw [List.length_append, List.length_reverse]
    exact Nat.le_add_right _ _
  · change _ = offset ((z.left.reverse ++ z.right).splitOn sep) _ + _
    rw [hpos]
    exact (Nat.sub_add_cancel hle).symm

/-- **Down.** -/
theorem down_line :
    (∀ l, (z.text.splitOn sep)[z.left.count sep + 1]? = some l →
      At (z.text.splitOn sep) (z.down sep).left.length (z.left.count sep + 1)
        (min (z.column sep) l.length)) ∧
    ((z.text.splitOn sep)[z.left.count sep + 1]? = none → z.down sep = z) := by
  unfold TextCursor.down
  cases hd : z.right.dropWhile (· ≠ sep) with
  | nil =>
    -- the cursor is on the last line
    have hno : z.right.count sep = 0 := List.count_eq_zero_of_not_mem fun h => by
      simpa using List.dropWhile_eq_nil_iff.mp hd sep h
    have hlast : (z.text.splitOn sep).length = z.left.count sep + 1 := by
      rw [length_splitOn, TextCursor.text, List.count_append, List.count_reverse, hno]
    refine ⟨fun l hl => ?_, fun _ => rfl⟩
    rw [List.getElem?_eq_none (by omega)] at hl
    exact nomatch hl
  | cons x below =>
    have hsplit := TextCursor.split_line hd
    have hcur : ∀ y ∈ z.right.takeWhile (· ≠ sep), y ≠ sep := by
      intro y hy
      simpa using List.mem_takeWhile_imp hy
    generalize z.right.takeWhile (· ≠ sep) = cur at hsplit hcur ⊢
    have htext : z.text = z.left.reverse ++ (cur ++ [sep]) ++ below := by
      rw [TextCursor.text, hsplit]
      simp
    have hcount : (z.left.reverse ++ (cur ++ [sep])).count sep = z.left.count sep + 1 := by
      have hno : cur.count sep = 0 := List.count_eq_zero_of_not_mem fun h => hcur sep h rfl
      simp [hno]
    obtain ⟨hpos, hline⟩ := splitOn_before sep (z.left.reverse ++ (cur ++ [sep])) below
    rw [hcount, ← htext] at hpos hline
    -- the line below starts behind the separator
    have hpos' : offset (z.text.splitOn sep) (z.left.count sep + 1) =
        z.left.length + (cur.length + 1) := by simpa using hpos
    have hline' : (z.text.splitOn sep)[z.left.count sep + 1]? =
        some (below.takeWhile (· ≠ sep)) := by simpa using hline
    have hwidth : (below.takeWhile (· ≠ sep)).length ≤ below.length :=
      (List.takeWhile_prefix _).length_le
    have hright : z.right.length = cur.length + (below.length + 1) := by
      rw [hsplit, List.length_append, List.length_cons]
    dsimp only
    constructor
    · intro l hl
      obtain rfl := Option.some.inj (hline'.symm.trans hl)
      refine ⟨⟨_, hl, Nat.min_le_right _ _⟩, ?_⟩
      rw [hpos', TextCursor.forward, List.length_append, List.length_reverse, List.length_take]
      omega
    · intro hnone
      exact nomatch hline'.symm.trans hnone

/-- **Up.** -/
theorem up_line :
    (∀ i l, z.left.count sep = i + 1 → (z.text.splitOn sep)[i]? = some l →
      At (z.text.splitOn sep) (z.up sep).left.length i (min (z.column sep) l.length)) ∧
    (z.left.count sep = 0 → z.up sep = z) := by
  unfold TextCursor.up
  cases hd : z.left.dropWhile (· ≠ sep) with
  | nil =>
    -- the cursor is on the first line
    have hno : z.left.count sep = 0 := List.count_eq_zero_of_not_mem fun h => by
      simpa using List.dropWhile_eq_nil_iff.mp hd sep h
    exact ⟨fun i l hi => absurd (hno.symm.trans hi) (by simp), fun _ => rfl⟩
  | cons x above =>
    have hsplit := TextCursor.split_line hd
    have hcur : ∀ y ∈ z.left.takeWhile (· ≠ sep), y ≠ sep := by
      intro y hy
      simpa using List.mem_takeWhile_imp hy
    unfold TextCursor.column
    generalize z.left.takeWhile (· ≠ sep) = cur at hsplit hcur ⊢
    have htext : z.text = above.reverse ++ (sep :: (cur.reverse ++ z.right)) := by
      rw [TextCursor.text, hsplit]
      simp
    have hcount : z.left.count sep = above.count sep + 1 := by
      have hno : cur.count sep = 0 := List.count_eq_zero_of_not_mem fun h => hcur sep h rfl
      rw [hsplit]
      simp [hno]
    obtain ⟨hpos, hline⟩ := splitOn_before sep above.reverse (sep :: (cur.reverse ++ z.right))
    rw [List.count_reverse, ← htext] at hpos hline
    have hpos' : offset (z.text.splitOn sep) (above.count sep) =
        above.length - (above.takeWhile (· ≠ sep)).length := by simpa using hpos
    have hline' : (z.text.splitOn sep)[above.count sep]? =
        some (above.takeWhile (· ≠ sep)).reverse := by simpa using hline
    have hwidth : (above.takeWhile (· ≠ sep)).length ≤ above.length :=
      (List.takeWhile_prefix _).length_le
    have hleft : z.left.length = cur.length + (above.length + 1) := by
      rw [hsplit, List.length_append, List.length_cons]
    dsimp only
    constructor
    · intro i l hi hl
      obtain rfl : above.count sep = i := Nat.succ.inj (hcount.symm.trans hi)
      obtain rfl := Option.some.inj (hline'.symm.trans hl)
      refine ⟨⟨_, hl, Nat.min_le_right _ _⟩, ?_⟩
      rw [hpos', TextCursor.back, List.length_drop, List.length_reverse]
      omega
    · intro hzero
      exact absurd (hcount.symm.trans hzero) (by simp)

end Motions

end Split

end LineColumn
