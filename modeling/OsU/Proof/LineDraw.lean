import OsU.Lib.Bresenham
import OsU.Proof.Pixels

/-!
# `vesa_draw_line` draws a line

`lineTrace` is the loop in the arithmetic of the source, where a value that does not fit
an `int` is no value: what it plots, if it gets to the end. As long as the end points
are not too far apart it does (`drawTrace_line`), the points are those of
`Bresenham.minor`, and the machine's loop plots them (`lineTrace_erase`).

So there are three loops that agree: the machine's, on 32 bits; the source's, on
integers with a check at each operation; and the closed form, with `k` steps along the
longer axis and `minor a b k` along the other. The second is there because signed
overflow is undefined in C, and that none occurs is part of the result.

Lines wider than high and lines higher than wide are two cases with the axes exchanged,
and on a diagonal the two give the same points. The four directions are not cases: a
step has a sign, and the sign stays a variable.

The loop has no bound of its own, and the model's has a number of rounds. Any number
from the length of the line on gives the same, which is how it is said that the loop
ends.
-/

set_option autoImplicit false

namespace OsU

open Bresenham

/-! ## The loop, with what it plots -/

/-- A number an `int` has room for. -/
def FitsInt (v : Int) : Prop := -2 ^ 31 ≤ v ∧ v < 2 ^ 31

instance (v : Int) : Decidable (FitsInt v) := inferInstanceAs (Decidable (_ ∧ _))

/-- The value of an expression of type `int`. -/
def fitInt (v : Int) : Option Int := if FitsInt v then some v else none

/-- The points that `lineLoop` plots in `n` rounds: `none` when it is not done by then, or a value
did not fit. -/
def lineTrace (x1 y1 dx dy sx sy : Int) : Nat → Int → Int → Int → Option (List (Int × Int))
  | 0, _, _, _ => none
  | n + 1, x0, y0, err =>
    if x0 = x1 ∧ y0 = y1 then some [(x0, y0)]
    else do
      let e2 ← fitInt (2 * err)
      let low ← fitInt (-dy)
      let err ← fitInt (if low < e2 then err - dy else err)
      let x ← fitInt (if low < e2 then x0 + sx else x0)
      let err ← fitInt (if e2 < dx then err + dx else err)
      let y ← fitInt (if e2 < dx then y0 + sy else y0)
      let rest ← lineTrace x1 y1 dx dy sx sy n x y err
      some ((x0, y0) :: rest)

/-- The points that `vesa_draw_line` plots, the same way, in integers: `none` when a
value of the loop does not fit into 32 bits, or when `n` rounds do not suffice. -/
def drawTrace (n : Nat) (x0 y0 x1 y1 : Int) : Option (List (Int × Int)) := do
  let dx ← fitInt (x1 - x0)
  let dy ← fitInt (y1 - y0)
  let sx := if 0 < dx then 1 else -1
  let sy := if 0 < dy then 1 else -1
  let dx ← fitInt (if dx < 0 then -dx else dx)
  let dy ← fitInt (if dy < 0 then -dy else dy)
  let err ← fitInt (dx - dy)
  lineTrace x1 y1 dx dy sx sy n x0 y0 err

/-- `vesa_put_pixel` at the points of a list, one after the other. -/
def plot (color : UInt32) (l : List (Int × Int)) (s : Vesa) : Vesa :=
  l.foldl (fun s p => vesaPutPixel (BitVec.ofInt 32 p.1) (BitVec.ofInt 32 p.2) color s) s

/-! ## The machine's loop -/

theorem fitInt_eq_some {v w : Int} : fitInt v = some w ↔ FitsInt v ∧ v = w := by
  rw [fitInt, Option.ite_none_right_eq_some, Option.some.injEq]

theorem fitInt_of {v : Int} (h : FitsInt v) : fitInt v = some v := if_pos h

theorem FitsInt.toInt {v : Int} (h : FitsInt v) : (BitVec.ofInt 32 v).toInt = v := by
  obtain ⟨h₁, h₂⟩ := h
  rw [BitVec.toInt_ofInt]
  exact Int.bmod_eq_of_le (by omega) (by omega)

theorem ofInt_inj {v w : Int} (hv : FitsInt v) (hw : FitsInt w) :
    BitVec.ofInt 32 v = BitVec.ofInt 32 w ↔ v = w := by
  constructor
  · intro h
    rw [← hv.toInt, h, hw.toInt]
  · rintro rfl
    rfl

theorem slt_ofInt {v w : Int} (hv : FitsInt v) (hw : FitsInt w) :
    (BitVec.ofInt 32 v).slt (BitVec.ofInt 32 w) = decide (v < w) := by
  rw [BitVec.slt, hv.toInt, hw.toInt]

theorem ofInt_sub (v w : Int) :
    BitVec.ofInt 32 (v - w) = BitVec.ofInt 32 v - BitVec.ofInt 32 w := by
  rw [Int.sub_eq_add_neg, BitVec.ofInt_add, BitVec.ofInt_neg, ← BitVec.sub_eq_add_neg]

/-- A test in the loop chooses between two values. -/
theorem ofInt_ite (c : Prop) [Decidable c] (v w : Int) :
    BitVec.ofInt 32 (if c then v else w) = if c then BitVec.ofInt 32 v else BitVec.ofInt 32 w :=
  apply_ite _ c v w

section Erase

variable {x1 y1 dx dy sx sy : Int}

/-- **A loop that ends without an overflow is the machine's.** -/
theorem lineTrace_erase (hx1 : FitsInt x1) (hy1 : FitsInt y1) (hdx : FitsInt dx) {n : Nat}
    {x0 y0 err : Int} {l : List (Int × Int)} (hx0 : FitsInt x0) (hy0 : FitsInt y0)
    (h : lineTrace x1 y1 dx dy sx sy n x0 y0 err = some l) (color : UInt32) (s : Vesa) :
    lineLoop (.ofInt 32 x1) (.ofInt 32 y1) (.ofInt 32 dx) (.ofInt 32 dy) (.ofInt 32 sx)
      (.ofInt 32 sy) color n (.ofInt 32 x0) (.ofInt 32 y0) (.ofInt 32 err) s = plot color l s := by
  induction n generalizing x0 y0 err l s with
  | zero => exact nomatch h
  | succ n ih =>
    have hend : (BitVec.ofInt 32 x0 = .ofInt 32 x1 ∧ BitVec.ofInt 32 y0 = .ofInt 32 y1) ↔
        (x0 = x1 ∧ y0 = y1) := and_congr (ofInt_inj hx0 hx1) (ofInt_inj hy0 hy1)
    rw [lineTrace] at h
    split at h
    · rename_i hdone
      obtain rfl := Option.some.inj h
      rw [lineLoop, if_pos (hend.mpr hdone)]
      rfl
    · rename_i hmore
      simp only [Option.bind_eq_bind, Option.bind_eq_some_iff, fitInt_eq_some] at h
      -- Every number of the round is in the range of an `int`, so the words compute it.
      obtain ⟨e2, ⟨he2, rfl⟩, low, ⟨hlow, rfl⟩, err', ⟨herr', rfl⟩, x, ⟨hx, rfl⟩, err'',
        ⟨herr'', rfl⟩, y, ⟨hy, rfl⟩, rest, hrest, hl⟩ := h
      obtain rfl := Option.some.inj hl
      have hnext := ih hx hy hrest (vesaPutPixel (.ofInt 32 x0) (.ofInt 32 y0) color s)
      have hdouble : (2 : BitVec 32) * .ofInt 32 err = .ofInt 32 (2 * err) :=
        (BitVec.ofInt_mul 2 err).symm
      rw [lineLoop, if_neg (fun hdone => hmore (hend.mp hdone))]
      dsimp only
      rw [hdouble, ← BitVec.ofInt_neg, slt_ofInt hlow he2, slt_ofInt he2 hdx]
      simp only [ofInt_ite, BitVec.ofInt_add, ofInt_sub] at hnext
      simp only [decide_eq_true_eq]
      exact hnext

end Erase

/-! ## A round -/

/-- The extents and the directions of a line whose values all fit. -/
structure Extents (dx dy sx sy : Int) : Prop where
  dx : 0 ≤ dx ∧ dx < 2 ^ 29
  dy : 0 ≤ dy ∧ dy < 2 ^ 29
  sx : sx = 1 ∨ sx = -1
  sy : sy = 1 ∨ sy = -1

section Trace

variable {x1 y1 dx dy sx sy : Int}

/-- A round that is not the last. -/
theorem lineTrace_step (hd : Extents dx dy sx sy) {x0 y0 err : Int} (n : Nat)
    (hne : ¬ (x0 = x1 ∧ y0 = y1)) (hx : |x0| < 2 ^ 30) (hy : |y0| < 2 ^ 30)
    (he : |err| < 2 ^ 30) :
    lineTrace x1 y1 dx dy sx sy (n + 1) x0 y0 err =
      (lineTrace x1 y1 dx dy sx sy n (if -dy < 2 * err then x0 + sx else x0)
        (if 2 * err < dx then y0 + sy else y0)
        (if 2 * err < dx then (if -dy < 2 * err then err - dy else err) + dx
          else if -dy < 2 * err then err - dy else err)).map ((x0, y0) :: ·) := by
  obtain ⟨hdx, hdy, hsx, hsy⟩ := hd
  rw [abs_lt] at hx hy he
  have hfit : ∀ v : Int, -2 ^ 31 ≤ v → v < 2 ^ 31 → fitInt v = some v := fun v h h' =>
    fitInt_of ⟨h, h'⟩
  rw [lineTrace, if_neg hne]
  simp only [Option.bind_eq_bind]
  rw [hfit (2 * err) (by omega) (by omega), Option.bind_some, hfit (-dy) (by omega) (by omega),
    Option.bind_some, hfit (if -dy < 2 * err then err - dy else err) (by split <;> omega)
      (by split <;> omega), Option.bind_some,
    hfit (if -dy < 2 * err then x0 + sx else x0) (by split <;> omega) (by split <;> omega),
    Option.bind_some, hfit _ (by split <;> split <;> omega) (by split <;> split <;> omega),
    Option.bind_some, hfit (if 2 * err < dx then y0 + sy else y0) (by split <;> omega)
      (by split <;> omega), Option.bind_some, Option.map_eq_bind]
  rfl

/-- The point after `k` steps along the x axis, where that is the longer one. -/
def widePoint (x0 y0 dx dy sx sy k : Int) : Int × Int :=
  (x0 + sx * k, y0 + sy * minor dx dy k)

/-- The same along the y axis. -/
def tallPoint (x0 y0 dx dy sx sy k : Int) : Int × Int :=
  (x0 + sx * minor dy dx k, y0 + sy * k)

/-- A signed number of steps is far from overflowing. -/
theorem abs_steps_lt {x s k : Int} (hx : |x| < 2 ^ 28) (hs : s = 1 ∨ s = -1)
    (hk : 0 ≤ k ∧ k < 2 ^ 29) : |x + s * k| < 2 ^ 30 := by
  rw [abs_lt] at hx ⊢
  rcases hs with rfl | rfl <;> omega

theorem ne_steps {x s k k' : Int} (hs : s = 1 ∨ s = -1) (h : k ≠ k') : x + s * k ≠ x + s * k' := by
  rcases hs with rfl | rfl <;> omega

theorem steps_succ (x s k : Int) : x + s * k + s = x + s * (k + 1) := by ring

/-- The points from the `k`-th on, one more than there are steps to go. -/
theorem map_range_steps (f : Int → Int × Int) (k : Int) (r : Nat) :
    (List.range (r + 1 + 1)).map (fun i : Nat => f (k + i)) =
      f k :: (List.range (r + 1)).map fun i : Nat => f (k + 1 + i) := by
  rw [List.range_succ_eq_map, List.map_cons, List.map_map, Nat.cast_zero, add_zero]
  refine congrArg (f k :: ·) (List.map_congr_left fun i _ => congrArg f ?_)
  push_cast
  ring

section Run

variable {x0 y0 : Int}

/-- The rest of a line that is wider than high, from its `k`-th point on. By induction
on the steps that are left; the error is known in closed form, and the two tests on it
are the two inequalities that `minor` is known by. -/
theorem lineTrace_wide (hd : Extents dx dy sx sy) (hpos : 0 < dx) (hle : dy ≤ dx)
    (hx : |x0| < 2 ^ 28) (hy : |y0| < 2 ^ 28) (r : Nat) {k : Int} (hk : 0 ≤ k)
    (hr : k + r = dx) :
    lineTrace (x0 + sx * dx) (y0 + sy * dy) dx dy sx sy (r + 1) (x0 + sx * k)
        (y0 + sy * minor dx dy k) (dx * (minor dx dy k + 1) - dy * (k + 1)) =
      some ((List.range (r + 1)).map fun i : Nat => widePoint x0 y0 dx dy sx sy (k + i)) := by
  induction r generalizing k with
  | zero =>
    obtain rfl : k = dx := by simpa using hr
    rw [minor_self hd.dy.1 hle, lineTrace, if_pos ⟨rfl, rfl⟩]
    simp [widePoint, minor_self hd.dy.1 hle]
  | succ r ih =>
    have hkx : k < dx := by omega
    obtain ⟨hm, hm'⟩ := minor_mem hpos hd.dy.1 hk hkx.le
    obtain ⟨he, he'⟩ := error_bounds hpos hd.dy.1 hle k
    -- No number leaves the range of an `int`: the coordinates are between the ends, and
    -- the error is of their size.
    have hstep := lineTrace_step hd (r + 1)
      (show ¬ (x0 + sx * k = x0 + sx * dx ∧ y0 + sy * minor dx dy k = y0 + sy * dy) from
        fun hdone => ne_steps hd.sx hkx.ne hdone.1)
      (abs_steps_lt hx hd.sx ⟨hk, hkx.trans hd.dx.2⟩)
      (abs_steps_lt hy hd.sy ⟨hm, hm'.trans_lt hd.dy.2⟩)
      (show |dx * (minor dx dy k + 1) - dy * (k + 1)| < 2 ^ 30 by
        have hlt := hd.dx.2
        rw [abs_lt]
        omega)
    have hnext := ih (k := k + 1) (by omega) (by push_cast at hr; omega)
    have hmajor := major_step hpos hle k
    have hminor := minor_succ hpos hd.dy.1 hle k
    rw [hstep, map_range_steps]
    simp only [if_pos hmajor, steps_succ]
    -- Whether the other coordinate moves is the second test of the round, and what the
    -- error is afterwards.
    by_cases hc : 2 * (dx * (minor dx dy k + 1) - dy * (k + 1)) < dx
    · rw [if_pos hc] at hminor
      have herr : dx * (minor dx dy k + 1) - dy * (k + 1) - dy + dx =
          dx * (minor dx dy (k + 1) + 1) - dy * (k + 1 + 1) := by
        rw [hminor]
        ring
      rw [if_pos hc, if_pos hc, herr, ← hminor, hnext]
      rfl
    · rw [if_neg hc] at hminor
      have herr : dx * (minor dx dy k + 1) - dy * (k + 1) - dy =
          dx * (minor dx dy k + 1) - dy * (k + 1 + 1) := by ring
      rw [hminor] at hnext
      rw [if_neg hc, if_neg hc, herr, hnext]
      rfl

/-- The rest of a line that is higher than wide. -/
theorem lineTrace_tall (hd : Extents dx dy sx sy) (hpos : 0 < dy) (hle : dx ≤ dy)
    (hx : |x0| < 2 ^ 28) (hy : |y0| < 2 ^ 28) (r : Nat) {k : Int} (hk : 0 ≤ k)
    (hr : k + r = dy) :
    lineTrace (x0 + sx * dx) (y0 + sy * dy) dx dy sx sy (r + 1) (x0 + sx * minor dy dx k)
        (y0 + sy * k) (dx * (k + 1) - dy * (minor dy dx k + 1)) =
      some ((List.range (r + 1)).map fun i : Nat => tallPoint x0 y0 dx dy sx sy (k + i)) := by
  induction r generalizing k with
  | zero =>
    obtain rfl : k = dy := by simpa using hr
    rw [minor_self hd.dx.1 hle, lineTrace, if_pos ⟨rfl, rfl⟩]
    simp [tallPoint, minor_self hd.dx.1 hle]
  | succ r ih =>
    have hky : k < dy := by omega
    obtain ⟨hm, hm'⟩ := minor_mem hpos hd.dx.1 hk hky.le
    obtain ⟨he, he'⟩ := error_bounds hpos hd.dx.1 hle k
    have hstep := lineTrace_step hd (r + 1)
      (show ¬ (x0 + sx * minor dy dx k = x0 + sx * dx ∧ y0 + sy * k = y0 + sy * dy) from
        fun hdone => ne_steps hd.sy hky.ne hdone.2)
      (abs_steps_lt hx hd.sx ⟨hm, hm'.trans_lt hd.dx.2⟩)
      (abs_steps_lt hy hd.sy ⟨hk, hky.trans hd.dy.2⟩)
      (show |dx * (k + 1) - dy * (minor dy dx k + 1)| < 2 ^ 30 by
        have hlt := hd.dy.2
        rw [abs_lt]
        omega)
    have hnext := ih (k := k + 1) (by omega) (by push_cast at hr; omega)
    -- the error is that of the other axis, with its sign changed
    have hmajor : 2 * (dx * (k + 1) - dy * (minor dy dx k + 1)) < dx := by
      have hlt := major_step hpos hle k
      omega
    have hminor := minor_succ hpos hd.dx.1 hle k
    rw [hstep, map_range_steps]
    simp only [if_pos hmajor, steps_succ]
    by_cases hc : 2 * (dy * (minor dy dx k + 1) - dx * (k + 1)) < dy
    · have hc' : -dy < 2 * (dx * (k + 1) - dy * (minor dy dx k + 1)) := by omega
      rw [if_pos hc] at hminor
      have herr : dx * (k + 1) - dy * (minor dy dx k + 1) - dy + dx =
          dx * (k + 1 + 1) - dy * (minor dy dx (k + 1) + 1) := by
        rw [hminor]
        ring
      rw [if_pos hc', if_pos hc', herr, ← hminor, hnext]
      rfl
    · have hc' : ¬ -dy < 2 * (dx * (k + 1) - dy * (minor dy dx k + 1)) := by omega
      rw [if_neg hc] at hminor
      have herr : dx * (k + 1) - dy * (minor dy dx k + 1) + dx =
          dx * (k + 1 + 1) - dy * (minor dy dx k + 1) := by ring
      rw [hminor] at hnext
      rw [if_neg hc', if_neg hc', herr, hnext]
      rfl

end Run

/-- Once it is done, more rounds make no difference. -/
theorem lineTrace_mono {n : Nat} {x0 y0 err : Int} {l : List (Int × Int)}
    (h : lineTrace x1 y1 dx dy sx sy n x0 y0 err = some l) {k : Nat} (hk : l.length ≤ k) :
    lineTrace x1 y1 dx dy sx sy k x0 y0 err = some l := by
  induction n generalizing x0 y0 err l k with
  | zero => exact nomatch h
  | succ n ih =>
    rw [lineTrace] at h
    split at h
    · rename_i hdone
      obtain rfl := Option.some.inj h
      obtain ⟨k, rfl⟩ := Nat.exists_eq_add_of_le' hk
      rw [List.length_singleton, lineTrace, if_pos hdone]
    · rename_i hmore
      simp only [Option.bind_eq_bind, Option.bind_eq_some_iff] at h
      obtain ⟨e2, he2, low, hlow, err', herr', x, hx, err'', herr'', y, hy, rest, hrest, hl⟩ := h
      obtain rfl := Option.some.inj hl
      obtain ⟨k, rfl⟩ : ∃ j, k = j + 1 := Nat.exists_eq_succ_of_ne_zero (by
        rw [List.length_cons] at hk
        omega)
      rw [lineTrace, if_neg hmore]
      simp only [Option.bind_eq_bind, Option.bind_eq_some_iff]
      exact ⟨e2, he2, low, hlow, err', herr', x, hx, err'', herr'', y, hy, rest,
        ih hrest (Nat.le_of_succ_le_succ hk), rfl⟩

end Trace

/-! ## What a line is

The line is described without the algorithm: one point for each step of the longer axis,
and on the other axis the nearest whole coordinate. Of two that are equally near the
rounding takes one, and which is part of the description. -/

/-- The points go along the first axis, one step at a time in the direction of the end,
and at most half a step off the line along the second. The distance is taken in rational
numbers, with no rounding. -/
structure AlongAxis (x0 y0 x1 y1 : Int) (l : List (Int × Int)) : Prop where
  step : ∀ (k : Nat) (p q : Int × Int), l[k]? = some p → l[k + 1]? = some q →
    q.1 = p.1 + (x1 - x0).sign ∧ (q.2 = p.2 ∨ q.2 = p.2 + (y1 - y0).sign)
  near : ∀ p ∈ l, |(p.2 : ℚ) - (y0 + (p.1 - x0) * (y1 - y0) / (x1 - x0))| ≤ 1 / 2

/-- The points of a line, in order: their number, the two ends, and that they follow the
longer axis, or either on a diagonal. -/
structure DrawnLine (x0 y0 x1 y1 : Int) (l : List (Int × Int)) : Prop where
  length : l.length = max (x1 - x0).natAbs (y1 - y0).natAbs + 1
  first : l.head? = some (x0, y0)
  last : l.getLast? = some (x1, y1)
  wide : |y1 - y0| ≤ |x1 - x0| → AlongAxis x0 y0 x1 y1 l
  tall : |x1 - x0| ≤ |y1 - y0| → AlongAxis y0 x0 y1 x1 (l.map Prod.swap)

/-- The direction of a difference, as the source takes it. -/
def direction (v : Int) : Int := if 0 < v then 1 else -1

theorem direction_mul_abs (v : Int) : direction v * |v| = v := by
  rw [direction]
  split
  · rename_i h
    rw [abs_of_pos h, one_mul]
  · rename_i h
    rw [abs_of_nonpos (not_lt.mp h), neg_one_mul, neg_neg]

theorem direction_eq_sign {v : Int} (h : v ≠ 0) : direction v = v.sign := by
  rw [direction]
  split
  · exact (Int.sign_eq_one_of_pos ‹_›).symm
  · exact (Int.sign_eq_neg_one_of_neg (by omega)).symm

theorem direction_cases (v : Int) : direction v = 1 ∨ direction v = -1 := by
  rw [direction]
  split
  · exact .inl rfl
  · exact .inr rfl

section Points

variable (x0 y0 x1 y1 : Int)

/-- The points of a line that is at least as wide as high. -/
def widePoints : List (Int × Int) :=
  (List.range ((x1 - x0).natAbs + 1)).map fun i : Nat =>
    widePoint x0 y0 |x1 - x0| |y1 - y0| (direction (x1 - x0)) (direction (y1 - y0)) i

/-- The points of one that is at least as high as wide. -/
def tallPoints : List (Int × Int) :=
  (List.range ((y1 - y0).natAbs + 1)).map fun i : Nat =>
    tallPoint x0 y0 |x1 - x0| |y1 - y0| (direction (x1 - x0)) (direction (y1 - y0)) i

theorem swap_tallPoints : (tallPoints x0 y0 x1 y1).map Prod.swap = widePoints y0 x0 y1 x1 := by
  rw [tallPoints, widePoints, List.map_map]
  rfl

variable {x0 y0 x1 y1}

/-- On a diagonal they are the same points. -/
theorem tallPoints_diagonal (h : |x1 - x0| = |y1 - y0|) :
    tallPoints x0 y0 x1 y1 = widePoints x0 y0 x1 y1 := by
  have hnat : (x1 - x0).natAbs = (y1 - y0).natAbs := by
    rw [Int.abs_eq_natAbs, Int.abs_eq_natAbs] at h
    exact Int.ofNat_inj.mp h
  rw [tallPoints, widePoints, hnat]
  refine List.map_congr_left fun i hi => ?_
  rw [tallPoint, widePoint, h]
  rcases (abs_nonneg (y1 - y0)).eq_or_lt with hzero | hpos
  · have hi : i = 0 := by
      rw [Int.abs_eq_natAbs] at hzero h
      rw [List.mem_range] at hi
      omega
    rw [hi, ← hzero]
    rfl
  · rw [minor_diagonal hpos]

/-- The distance from the line along the second axis, in steps of the first. -/
theorem near_of_steps {s t a b j k : Int} (hs : s = 1 ∨ s = -1) (ht : t = 1 ∨ t = -1) (ha : 0 < a)
    (h : -a ≤ 2 * (a * j - b * k)) (h' : 2 * (a * j - b * k) ≤ a) (y : Int) :
    |((y + t * j : Int) : ℚ) - (y + (s * k) * (t * b) / (s * a))| ≤ 1 / 2 := by
  have ha' : (0 : ℚ) < a := Int.cast_pos.mpr ha
  have hs' : (s : ℚ) ≠ 0 := by rcases hs with rfl | rfl <;> norm_num
  have ht' : |(t : ℚ)| = 1 := by rcases ht with rfl | rfl <;> norm_num
  have hdiff : ((y + t * j : Int) : ℚ) - (y + (s * k) * (t * b) / (s * a)) =
      t * ((a * j - b * k : Int) / a) := by
    push_cast
    field_simp
    ring
  have hle : -(a : ℚ) ≤ 2 * ((a * j - b * k : Int) : ℚ) := by exact_mod_cast h
  have hle' : 2 * ((a * j - b * k : Int) : ℚ) ≤ a := by exact_mod_cast h'
  rw [hdiff, abs_mul, ht', one_mul, abs_div, abs_of_pos ha', div_le_iff₀ ha', abs_le]
  constructor <;> linarith

/-- **The points of a wide line follow its x axis.** -/
theorem alongAxis_widePoints (h : |y1 - y0| ≤ |x1 - x0|) :
    AlongAxis x0 y0 x1 y1 (widePoints x0 y0 x1 y1) := by
  constructor
  · intro k p q hp hq
    rw [widePoints, List.getElem?_map, Option.map_eq_some_iff] at hp hq
    obtain ⟨i, hi, rfl⟩ := hp
    obtain ⟨j, hj, rfl⟩ := hq
    rw [List.getElem?_eq_some_iff] at hi hj
    obtain ⟨hk, rfl⟩ := hi
    obtain ⟨hk', rfl⟩ := hj
    rw [List.length_range] at hk'
    have hne : x1 - x0 ≠ 0 := by omega
    have hpos : 0 < |x1 - x0| := abs_pos.mpr hne
    simp only [List.getElem_range, widePoint, Nat.cast_succ]
    constructor
    · rw [← direction_eq_sign hne]
      ring
    · -- The other coordinate moves by one or stays, and it moves only where the line
      -- does.
      rw [minor_succ hpos (abs_nonneg _) h]
      split
      · rename_i hrise
        right
        have hne' : y1 - y0 ≠ 0 := by
          intro hzero
          rw [hzero, abs_zero] at hrise
          have hn := minor_near hpos 0 k
          linarith
        rw [← direction_eq_sign hne']
        ring
      · exact .inl rfl
  · intro p hp
    rw [widePoints, List.mem_map] at hp
    obtain ⟨i, hi, rfl⟩ := hp
    have hx := direction_mul_abs (x1 - x0)
    have hy := direction_mul_abs (y1 - y0)
    -- A line of one point is on itself; of a longer one the points are within half a
    -- unit.
    rcases (abs_nonneg (x1 - x0)).eq_or_lt with hzero | hpos
    · have hy0 : |y1 - y0| = 0 := le_antisymm (h.trans hzero.ge) (abs_nonneg _)
      have hx0 : x1 - x0 = 0 := abs_eq_zero.mp hzero.symm
      rw [widePoint, ← hzero, hy0, show ((x1 : ℚ) - x0) = 0 by exact_mod_cast hx0, div_zero]
      simp [minor]
    · obtain ⟨hn, hn'⟩ := minor_near hpos |y1 - y0| i
      have hnear := near_of_steps (direction_cases (x1 - x0)) (direction_cases (y1 - y0)) hpos hn
        hn'.le y0
      rw [← Int.cast_mul _ |y1 - y0|, ← Int.cast_mul _ |x1 - x0|, hx, hy] at hnear
      rw [widePoint]
      convert hnear using 4
      push_cast
      ring

theorem drawnLine_widePoints (h : |y1 - y0| ≤ |x1 - x0|) :
    DrawnLine x0 y0 x1 y1 (widePoints x0 y0 x1 y1) := by
  have hx := direction_mul_abs (x1 - x0)
  have hy := direction_mul_abs (y1 - y0)
  constructor
  · have hnat : (y1 - y0).natAbs ≤ (x1 - x0).natAbs := by
      rw [Int.abs_eq_natAbs, Int.abs_eq_natAbs] at h
      exact Int.ofNat_le.mp h
    rw [widePoints, List.length_map, List.length_range, max_eq_left hnat]
  · rw [widePoints, List.range_succ_eq_map, List.map_cons, List.head?_cons, widePoint,
      Nat.cast_zero, minor_zero (abs_nonneg _), mul_zero, mul_zero, add_zero, add_zero]
  · rw [widePoints, List.range_succ, List.map_append, List.map_singleton, List.getLast?_concat,
      widePoint, ← Int.abs_eq_natAbs, minor_self (abs_nonneg _) h, hx, hy, add_sub_cancel,
      add_sub_cancel]
  · exact alongAxis_widePoints
  · intro h'
    rw [← tallPoints_diagonal (le_antisymm h' h), swap_tallPoints]
    exact alongAxis_widePoints h'

/-- A line's mirror image is one. -/
theorem DrawnLine.swap {l : List (Int × Int)} (h : DrawnLine x0 y0 x1 y1 l) :
    DrawnLine y0 x0 y1 x1 (l.map Prod.swap) where
  length := by rw [List.length_map, h.length, max_comm]
  first := by rw [List.head?_map, h.first, Option.map_some, Prod.swap_prod_mk]
  last := by rw [List.getLast?_map, h.last, Option.map_some, Prod.swap_prod_mk]
  wide := h.tall
  tall h' := by
    rw [List.map_map, Prod.swap_swap_eq, List.map_id]
    exact h.wide h'

theorem drawnLine_tallPoints (h : |x1 - x0| ≤ |y1 - y0|) :
    DrawnLine x0 y0 x1 y1 (tallPoints x0 y0 x1 y1) := by
  have hswap := (drawnLine_widePoints h).swap
  rwa [← swap_tallPoints, List.map_map, Prod.swap_swap_eq, List.map_id] at hswap

/-! ## The whole function -/

/-- End points that are not too far away: then no difference, and no value of the error,
leaves 32 bits. Every screen the driver can have is far inside. -/
structure Near (x0 y0 x1 y1 : Int) : Prop where
  x0 : |x0| < 2 ^ 28
  y0 : |y0| < 2 ^ 28
  x1 : |x1| < 2 ^ 28
  y1 : |y1| < 2 ^ 28

theorem Near.extents (h : Near x0 y0 x1 y1) :
    Extents |x1 - x0| |y1 - y0| (direction (x1 - x0)) (direction (y1 - y0)) where
  dx := ⟨abs_nonneg _, (abs_sub _ _).trans_lt (by linarith [h.x0, h.x1])⟩
  dy := ⟨abs_nonneg _, (abs_sub _ _).trans_lt (by linarith [h.y0, h.y1])⟩
  sx := direction_cases _
  sy := direction_cases _

theorem fitsInt_of_abs_lt {v : Int} (hv : |v| < 2 ^ 29) : FitsInt v :=
  ⟨by linarith [neg_le_of_abs_le hv.le], by linarith [le_of_abs_le hv.le]⟩

/-- The way the source takes an absolute value. -/
theorem ite_neg_eq_abs (v : Int) : (if v < 0 then -v else v) = |v| := by
  split
  · exact (abs_of_neg ‹_›).symm
  · exact (abs_of_nonneg (not_lt.mp ‹_›)).symm

/-- The values before the loop. -/
theorem drawTrace_eq (h : Near x0 y0 x1 y1) (n : Nat) :
    drawTrace n x0 y0 x1 y1 =
      lineTrace x1 y1 |x1 - x0| |y1 - y0| (direction (x1 - x0)) (direction (y1 - y0)) n x0 y0
        (|x1 - x0| - |y1 - y0|) := by
  have hext := h.extents
  obtain ⟨hdx, hdx'⟩ := hext.dx
  obtain ⟨hdy, hdy'⟩ := hext.dy
  have habs : ∀ v : Int, |v| < 2 ^ 29 → fitInt v = some v := fun v hv =>
    fitInt_of (fitsInt_of_abs_lt hv)
  rw [drawTrace, Option.bind_eq_bind, habs _ hdx', Option.bind_some, habs _ hdy', Option.bind_some]
  simp only [ite_neg_eq_abs]
  rw [fitInt_of ⟨by linarith, by linarith⟩, Option.bind_some, fitInt_of ⟨by linarith, by linarith⟩,
    Option.bind_some, fitInt_of ⟨by linarith, by linarith⟩, Option.bind_some]
  rfl

/-- **The loop ends**, with the points of the line. -/
theorem drawTrace_line (h : Near x0 y0 x1 y1) :
    ∃ n l, drawTrace n x0 y0 x1 y1 = some l ∧ DrawnLine x0 y0 x1 y1 l := by
  have hx := direction_mul_abs (x1 - x0)
  have hy := direction_mul_abs (y1 - y0)
  simp only [drawTrace_eq h]
  by_cases hend : x0 = x1 ∧ y0 = y1
  · refine ⟨1, [(x0, y0)], by rw [lineTrace, if_pos hend], ?_⟩
    obtain ⟨rfl, rfl⟩ := hend
    have hpoints := drawnLine_widePoints (show |y0 - y0| ≤ |x0 - x0| by simp)
    simpa [widePoints, widePoint, minor] using hpoints
  · have hne : x1 - x0 ≠ 0 ∨ y1 - y0 ≠ 0 := by omega
    -- The line is followed along its longer axis, and the other coordinate by rounding.
    rcases le_total |y1 - y0| |x1 - x0| with hle | hle
    · have hpos : 0 < |x1 - x0| := hne.elim abs_pos.mpr fun hy => (abs_pos.mpr hy).trans_le hle
      have hrun := lineTrace_wide h.extents hpos hle h.x0 h.y0 (x1 - x0).natAbs le_rfl
        (by rw [zero_add, Int.abs_eq_natAbs])
      rw [minor_zero hpos.le, mul_zero, mul_zero, add_zero, add_zero, zero_add, mul_one, mul_one,
        hx, hy, add_sub_cancel, add_sub_cancel] at hrun
      simp only [zero_add] at hrun
      exact ⟨_, _, hrun, drawnLine_widePoints hle⟩
    · have hpos : 0 < |y1 - y0| := hne.elim (fun hx => (abs_pos.mpr hx).trans_le hle) abs_pos.mpr
      have hrun := lineTrace_tall h.extents hpos hle h.x0 h.y0 (y1 - y0).natAbs le_rfl
        (by rw [zero_add, Int.abs_eq_natAbs])
      rw [minor_zero hpos.le, mul_zero, mul_zero, add_zero, add_zero, zero_add, mul_one, mul_one,
        hx, hy, add_sub_cancel, add_sub_cancel] at hrun
      simp only [zero_add] at hrun
      exact ⟨_, _, hrun, drawnLine_tallPoints hle⟩

end Points

/-- When there is no screen, nothing is plotted. -/
theorem plot_disabled (color : UInt32) (l : List (Int × Int)) {s : Vesa} (h : s.enabled = false) :
    plot color l s = s := by
  induction l with
  | nil => rfl
  | cons p l ih =>
    rw [plot, List.foldl_cons, vesaPutPixel, if_pos (by simp [h])]
    exact ih

theorem ofInt_direction {v : Int} (hv : FitsInt v) :
    (if (0 : BitVec 32).slt (.ofInt 32 v) then 1 else -1) = BitVec.ofInt 32 (direction v) := by
  rw [show (0 : BitVec 32) = .ofInt 32 0 from rfl, slt_ofInt (by decide) hv, direction, ofInt_ite]
  simp only [decide_eq_true_eq]
  rfl

theorem ofInt_abs {v : Int} (hv : FitsInt v) :
    (if (BitVec.ofInt 32 v).slt 0 then -BitVec.ofInt 32 v else .ofInt 32 v) =
      BitVec.ofInt 32 |v| := by
  rw [show (0 : BitVec 32) = .ofInt 32 0 from rfl, slt_ofInt hv (by decide), ← BitVec.ofInt_neg,
    ← ofInt_ite]
  simp only [decide_eq_true_eq, ite_neg_eq_abs]

/-- The machine's line plots the points of the one without overflows. -/
theorem vesaDrawLine_trace {x0 y0 x1 y1 : Int} (h : Near x0 y0 x1 y1) {n : Nat}
    {l : List (Int × Int)} (ht : drawTrace n x0 y0 x1 y1 = some l) (color : UInt32) (s : Vesa) :
    vesaDrawLine n (.ofInt 32 x0) (.ofInt 32 y0) (.ofInt 32 x1) (.ofInt 32 y1) color s =
      plot color l s := by
  rw [vesaDrawLine]
  split
  · rename_i hoff
    exact (plot_disabled color l hoff).symm
  · have hext := h.extents
    have hx := fitsInt_of_abs_lt hext.dx.2
    have hy := fitsInt_of_abs_lt hext.dy.2
    rw [drawTrace_eq h] at ht
    rw [← lineTrace_erase (fitsInt_of_abs_lt (h.x1.trans (by norm_num)))
      (fitsInt_of_abs_lt (h.y1.trans (by norm_num)))
      (fitsInt_of_abs_lt ((abs_abs _).trans_lt hext.dx.2))
      (fitsInt_of_abs_lt (h.x0.trans (by norm_num))) (fitsInt_of_abs_lt (h.y0.trans (by norm_num)))
      ht color s]
    dsimp only
    rw [← ofInt_sub, ← ofInt_sub, ofInt_direction hx, ofInt_direction hy, ofInt_abs hx,
      ofInt_abs hy, ← ofInt_sub]

/-- **Line drawing.** For end points less than `2^28` from the origin the loop ends after the
points of a line, none of its values overflows, and these points are the ones that the machine
plots. -/
theorem draw_line_points (x0 y0 x1 y1 : BitVec 32)
    (h : Near x0.toInt y0.toInt x1.toInt y1.toInt) :
    ∃ l, DrawnLine x0.toInt y0.toInt x1.toInt y1.toInt l ∧
      ∀ n, l.length ≤ n →
        drawTrace n x0.toInt y0.toInt x1.toInt y1.toInt = some l ∧
          ∀ color s, vesaDrawLine n x0 y0 x1 y1 color s = plot color l s := by
  obtain ⟨n, l, htrace, hline⟩ := drawTrace_line h
  refine ⟨l, hline, fun k hk => ?_⟩
  have htrace' : drawTrace k x0.toInt y0.toInt x1.toInt y1.toInt = some l := by
    rw [drawTrace_eq h] at htrace ⊢
    exact lineTrace_mono htrace hk
  refine ⟨htrace', fun color s => ?_⟩
  have hplot := vesaDrawLine_trace h htrace' color s
  rwa [BitVec.ofInt_toInt, BitVec.ofInt_toInt, BitVec.ofInt_toInt, BitVec.ofInt_toInt] at hplot

theorem draw_line_points_upwards :
    Near 5 7 2 (-1) ∧ ∃ l, DrawnLine 5 7 2 (-1) l ∧
      ∀ n, l.length ≤ n →
        drawTrace n 5 7 2 (-1) = some l ∧
          ∀ color s, vesaDrawLine n 5 7 2 (-1) color s = plot color l s := by
  have hnear : Near 5 7 2 (-1) := ⟨by decide, by decide, by decide, by decide⟩
  exact ⟨hnear, draw_line_points 5 7 2 (-1) hnear⟩

end OsU
