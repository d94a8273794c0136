import Mathlib.Tactic

/-!
# A text with a cursor

The elements before the cursor, nearest first, and those after it. Moving the cursor
leaves the text as it is; the two line motions keep the column as far as the other line
is long enough.

The two lists make insertion and deletion at the cursor operations on a head, and the
text is their concatenation. An editor over an array is compared with this, so that what
it stores can be said without indices.
-/

set_option autoImplicit false

universe u

structure TextCursor (α : Type u) where
  left : List α
  right : List α

namespace TextCursor

variable {α : Type u}

/-- The text. -/
def text (z : TextCursor α) : List α := z.left.reverse ++ z.right

def insert (x : α) (z : TextCursor α) : TextCursor α := ⟨x :: z.left, z.right⟩

def deleteLeft (z : TextCursor α) : TextCursor α := ⟨z.left.tail, z.right⟩

def deleteRight (z : TextCursor α) : TextCursor α := ⟨z.left, z.right.tail⟩

/-- `n` elements to the right. -/
def forward (n : Nat) (z : TextCursor α) : TextCursor α :=
  ⟨(z.right.take n).reverse ++ z.left, z.right.drop n⟩

/-- `n` elements to the left. -/
def back (n : Nat) (z : TextCursor α) : TextCursor α :=
  ⟨z.left.drop n, (z.left.take n).reverse ++ z.right⟩

@[simp] theorem text_forward (n : Nat) (z : TextCursor α) : (z.forward n).text = z.text := by
  unfold text forward
  rw [List.reverse_append, List.reverse_reverse, List.append_assoc, List.take_append_drop]

@[simp] theorem text_back (n : Nat) (z : TextCursor α) : (z.back n).text = z.text := by
  unfold text back
  rw [← List.append_assoc, ← List.reverse_append, List.take_append_drop]

/-! ## Lines -/

section Lines

variable [DecidableEq α] (nl : α) (z : TextCursor α)

/-- A text with a line break is its first line, the break and the lines below. -/
theorem split_line {nl x : α} {l below : List α} (h : l.dropWhile (· ≠ nl) = x :: below) :
    l = l.takeWhile (· ≠ nl) ++ nl :: below := by
  induction l with
  | nil => exact nomatch h
  | cons a l ih =>
    by_cases ha : a = nl
    · subst ha
      rw [List.dropWhile_cons_of_neg (by simp)] at h
      rw [List.takeWhile_cons_of_neg (by simp), (List.cons.inj h).2]
      rfl
    · rw [List.dropWhile_cons_of_pos (by simpa using ha)] at h
      rw [List.takeWhile_cons_of_pos (by simpa using ha)]
      exact congrArg (a :: ·) (ih h)

/-- The elements of the line before the cursor. -/
def column : Nat := (z.left.takeWhile (· ≠ nl)).length

theorem column_le : z.column nl ≤ z.left.length := (List.takeWhile_prefix _).length_le

/-- The cursor in the line below, in the same column or at the end of the line; where there is
none it stays. -/
def down : TextCursor α :=
  match z.right.dropWhile (· ≠ nl) with
  | [] => z
  | _ :: below =>
    z.forward ((z.right.takeWhile (· ≠ nl)).length + 1 +
      min (z.column nl) (below.takeWhile (· ≠ nl)).length)

/-- The same, upwards. -/
def up : TextCursor α :=
  match z.left.dropWhile (· ≠ nl) with
  | [] => z
  | _ :: above =>
    let width := (above.takeWhile (· ≠ nl)).length
    z.back (z.column nl + 1 + (width - min (z.column nl) width))

@[simp] theorem text_down : (z.down nl).text = z.text := by
  unfold down
  split
  · rfl
  · exact text_forward _ z

@[simp] theorem text_up : (z.up nl).text = z.text := by
  unfold up
  split
  · rfl
  · exact text_back _ z

end Lines

end TextCursor
