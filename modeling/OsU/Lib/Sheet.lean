import Mathlib.Tactic

/-!
# Text laid out on an unbounded sheet

Elements are placed one behind the other on rows of a fixed width; filling a row or a
line break goes to the next one. `view` is what a window of a fixed number of rows shows
that follows the end of the text: each operation says how the view moves.

The sheet keeps everything that was ever placed, and a window onto its end forgets what
is above. A console that scrolls is compared with this window, so that scrolling is a
statement about what was written and not about what was moved.
-/

set_option autoImplicit false

universe u

/-- The place of the next element, and the elements placed so far. -/
structure Sheet (α : Type u) where
  row : Nat
  col : Nat
  cell : Nat → Nat → Option α

namespace Sheet

variable {α : Type u}

def blank : Sheet α := ⟨0, 0, fun _ _ => none⟩

/-- The line ends. -/
def newline (s : Sheet α) : Sheet α := { s with row := s.row + 1, col := 0 }

/-- An element at the next place. -/
def write (s : Sheet α) (x : α) : Sheet α where
  row := s.row
  col := s.col + 1
  cell := fun r c => if r = s.row ∧ c = s.col then some x else s.cell r c

/-- An element, and the end of the line if the row is full. -/
def put (width : Nat) (s : Sheet α) (x : α) : Sheet α :=
  if (s.write x).col = width then (s.write x).newline else s.write x

/-- The first row a window of `height` rows shows. -/
def first (height : Nat) (s : Sheet α) : Nat := s.row - (height - 1)

/-- What the window shows. -/
def view (height : Nat) (s : Sheet α) (y x : Nat) : Option α := s.cell (s.first height + y) x

/-- Nothing lies below the next place. -/
def Ends (s : Sheet α) : Prop := ∀ r c, s.row < r → s.cell r c = none

theorem Ends.newline {s : Sheet α} (h : s.Ends) : s.newline.Ends :=
  fun r c hr => h r c (Nat.lt_of_succ_lt hr)

theorem Ends.write {s : Sheet α} (h : s.Ends) (x : α) : (s.write x).Ends := by
  intro r c hr
  have hne : ¬ (r = s.row ∧ c = s.col) := fun heq => absurd heq.1 (Nat.ne_of_gt hr)
  exact (if_neg hne).trans (h r c hr)

theorem put_col_lt {width : Nat} {s : Sheet α} (h : s.col < width) (x : α) :
    (s.put width x).col < width := by
  unfold put
  split
  · exact Nat.zero_lt_of_lt h
  · exact Nat.lt_of_le_of_ne h ‹_›

/-! ## The window -/

section Window

variable {height : Nat} {s : Sheet α}

/-- The next place is on the last row the window shows, or above it. -/
theorem first_add_min (height : Nat) (s : Sheet α) :
    s.first height + min s.row (height - 1) = s.row := by
  unfold first
  omega

theorem view_write (x : α) (y c : Nat) :
    (s.write x).view height y c =
      if y = min s.row (height - 1) ∧ c = s.col then some x else s.view height y c := by
  have hrow := first_add_min height s
  exact if_congr (by change s.first height + y = s.row ∧ _ ↔ _; omega) rfl rfl

/-- While the window has rows left it stays. -/
theorem view_newline_of_lt (h : s.row < height - 1) : s.newline.view height = s.view height := by
  have hfirst : s.newline.first height = s.first height := by
    change s.row + 1 - (height - 1) = s.row - (height - 1)
    omega
  funext y x
  rw [view, hfirst]
  rfl

/-- Then it moves down one row. -/
theorem view_newline_of_le (h : height - 1 ≤ s.row) (y x : Nat) :
    s.newline.view height y x = s.view height (y + 1) x := by
  have hfirst : s.newline.first height = s.first height + 1 := by
    change s.row + 1 - (height - 1) = s.row - (height - 1) + 1
    omega
  rw [view, hfirst, Nat.add_assoc, Nat.add_comm 1 y]
  rfl

/-- The row under the window is empty. -/
theorem Ends.view_height (h : s.Ends) (hh : 0 < height) (hle : height - 1 ≤ s.row) (x : Nat) :
    s.view height height x = none := by
  refine h _ x ?_
  unfold first
  omega

end Window

/-! ## Other elements -/

section Map

universe v

variable {β : Type v}

def map (f : α → β) (s : Sheet α) : Sheet β := ⟨s.row, s.col, fun r c => (s.cell r c).map f⟩

@[simp] theorem map_newline (f : α → β) (s : Sheet α) : s.newline.map f = (s.map f).newline := rfl

theorem view_map (f : α → β) (s : Sheet α) (height y x : Nat) :
    (s.map f).view height y x = (s.view height y x).map f := rfl

theorem map_write (f : α → β) (s : Sheet α) (x : α) : (s.write x).map f = (s.map f).write (f x) := by
  rw [map, write, write, Sheet.mk.injEq]
  refine ⟨rfl, rfl, ?_⟩
  funext r c
  exact apply_ite (Option.map f) _ _ _

theorem map_put (f : α → β) (width : Nat) (s : Sheet α) (x : α) :
    (s.put width x).map f = (s.map f).put width (f x) := by
  unfold put
  rw [← map_write]
  exact (apply_ite (map f) _ _ _).trans (if_congr Iff.rfl (map_newline f _) rfl)

end Map

end Sheet
