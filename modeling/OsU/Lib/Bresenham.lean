import Mathlib.Tactic

/-!
# Rounding a slope, step by step

`a` steps along one axis go with `b` steps along another, `0 ≤ b ≤ a`. After `k` of the
first there have been `minor a b k` of the second: `b * k / a`, rounded to the nearest.
The two tests of Bresenham's algorithm on the error `a * (j + 1) - b * (k + 1)` are a
step that is always taken and one that is taken when the rounded value rises.

The value is defined by division and used through two inequalities: it is the only
integer within a half of `b * k / a` (`minor_near`, `minor_unique`). Everything that an
algorithm needs follows from these, the bounds on its error included (`error_bounds`),
which are what keeps machine arithmetic from wrapping.
-/

set_option autoImplicit false

namespace Bresenham

variable {a b k j : Int}

/-- `b * k / a`, rounded to the nearest; a half is rounded down. -/
def minor (a b k : Int) : Int := (2 * b * k + a - 1) / (2 * a)

/-- It is at most a half away. -/
theorem minor_near (ha : 0 < a) (b k : Int) :
    -a ≤ 2 * (a * minor a b k - b * k) ∧ 2 * (a * minor a b k - b * k) < a := by
  have hpos : 0 < 2 * a := by omega
  have hle : minor a b k * (2 * a) ≤ 2 * b * k + a - 1 := Int.ediv_mul_le _ (by omega)
  have hlt : 2 * b * k + a - 1 < (minor a b k + 1) * (2 * a) := Int.lt_ediv_add_one_mul_self _ hpos
  constructor
  · linarith
  · linarith

/-- And only one number is. -/
theorem minor_unique (ha : 0 < a) (h : -a ≤ 2 * (a * j - b * k)) (h' : 2 * (a * j - b * k) < a) :
    j = minor a b k := by
  obtain ⟨hn, hn'⟩ := minor_near ha b k
  rcases lt_trichotomy j (minor a b k) with hlt | heq | hlt
  · have hmul : a * (j + 1) ≤ a * minor a b k := mul_le_mul_of_nonneg_left hlt ha.le
    linarith
  · exact heq
  · have hmul : a * (minor a b k + 1) ≤ a * j := mul_le_mul_of_nonneg_left hlt ha.le
    linarith

theorem minor_zero (ha : 0 ≤ a) (b : Int) : minor a b 0 = 0 := by
  rcases ha.eq_or_lt with rfl | hpos
  · rw [minor, mul_zero 2, Int.ediv_zero]
  · exact (minor_unique hpos (by linarith) (by linarith)).symm

/-- At the end all steps have been taken. -/
theorem minor_self (hb : 0 ≤ b) (hba : b ≤ a) : minor a b a = b := by
  rcases (hb.trans hba).eq_or_lt with rfl | hpos
  · rw [le_antisymm hba hb]
    rfl
  · exact (minor_unique hpos (by linarith [mul_comm a b]) (by linarith [mul_comm a b])).symm

/-- A diagonal. -/
theorem minor_diagonal (ha : 0 < a) (k : Int) : minor a a k = k :=
  (minor_unique ha (by linarith) (by linarith)).symm

/-- On the way there are no more than `b`. -/
theorem minor_mem (ha : 0 < a) (hb : 0 ≤ b) (hk : 0 ≤ k) (hka : k ≤ a) :
    0 ≤ minor a b k ∧ minor a b k ≤ b := by
  obtain ⟨hn, hn'⟩ := minor_near ha b k
  have hbk : 0 ≤ b * k := mul_nonneg hb hk
  have hbk' : b * k ≤ b * a := mul_le_mul_of_nonneg_left hka hb
  constructor
  · by_contra hneg
    have hmul : a * (minor a b k + 1) ≤ a * 0 := mul_le_mul_of_nonneg_left (by omega) ha.le
    linarith
  · by_contra hgt
    have hmul : a * (b + 1) ≤ a * minor a b k := mul_le_mul_of_nonneg_left (by omega) ha.le
    linarith [mul_comm a b]

/-- The rounded value rises by one, or stays. -/
theorem minor_succ (ha : 0 < a) (hb : 0 ≤ b) (hba : b ≤ a) (k : Int) :
    minor a b (k + 1) =
      if 2 * (a * (minor a b k + 1) - b * (k + 1)) < a then minor a b k + 1 else minor a b k := by
  obtain ⟨hn, hn'⟩ := minor_near ha b k
  split
  · exact (minor_unique ha (by linarith) ‹_›).symm
  · rename_i hge
    exact (minor_unique ha (by linarith) (by linarith)).symm

/-- The step along the longer axis is always taken. -/
theorem major_step (ha : 0 < a) (hba : b ≤ a) (k : Int) :
    -b < 2 * (a * (minor a b k + 1) - b * (k + 1)) := by
  obtain ⟨hn, -⟩ := minor_near ha b k
  rcases hba.lt_or_eq with hlt | rfl
  · linarith
  · rw [minor_diagonal ha]
    linarith

/-- The error is small. -/
theorem error_bounds (ha : 0 < a) (hb : 0 ≤ b) (hba : b ≤ a) (k : Int) :
    -a ≤ 2 * (a * (minor a b k + 1) - b * (k + 1)) ∧
      2 * (a * (minor a b k + 1) - b * (k + 1)) < 3 * a := by
  obtain ⟨hn, hn'⟩ := minor_near ha b k
  constructor
  · linarith
  · linarith

end Bresenham
