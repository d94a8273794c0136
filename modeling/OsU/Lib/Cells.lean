import Mathlib.Tactic

/-!
# Arrays, with a mark at the highest index used

An array is its cells, one for every index, and `top`, which is above every index read
or written so far. A program stays inside an array of size `n` when `top ≤ n`. The loops
that shift a part of an array inside itself are here with what they leave: `copyUp` for
the ascending one, which moves cells down, and `copyDown` for the descending one, which
moves cells up.

An access outside an array is not an error here, and the cells go on behind the end. So
a function over `Cells` is total, and that it is safe is a separate statement, about
`top`, that can be proved or refuted for each input. `ReadsTo` is the frame condition of
code that only looks: the cells are the same, and it looked no further than a bound.
-/

set_option autoImplicit false

universe u

/-- An array of any size, and a bound on the part of it that has been used. -/
structure Cells (α : Type u) where
  val : Nat → α
  top : Nat

namespace Cells

variable {α : Type u} (m : Cells α)

/-- A read of cell `i`. -/
def use (i : Nat) : Cells α := { m with top := max m.top (i + 1) }

/-- A read of the first `n` cells. -/
def useTo (n : Nat) : Cells α := { m with top := max m.top n }

/-- A write of cell `i`. -/
def set (i : Nat) (x : α) : Cells α := ⟨Function.update m.val i x, max m.top (i + 1)⟩

/-- `m[dst] = m[src]` -/
def copy (dst src : Nat) : Cells α := (m.use src).set dst (m.val src)

/-- `n` cells from `src` on, to `dst` on, first to last. -/
def copyUp (dst src n : Nat) : Cells α :=
  (List.range n).foldl (fun m i => m.copy (dst + i) (src + i)) m

/-- `n` cells from `src` on, to `dst` on, last to first. -/
def copyDown (dst src : Nat) : Nat → Cells α → Cells α
  | 0, m => m
  | n + 1, m => copyDown dst src n (m.copy (dst + n) (src + n))

/-- `n` elements of `src` are copied to the front. -/
def load (n : Nat) (src : Nat → α) : Cells α :=
  ⟨fun i => if i < n then src i else m.val i, max m.top n⟩

/-- Cells `i`, `i + 1` and so on, `n` of them. -/
def slice (i n : Nat) : List α := (List.range n).map fun k => m.val (i + k)

/-- `n` cells from `dst` on are set to `x`. -/
def fill (dst n : Nat) (x : α) : Cells α :=
  (List.range n).foldl (fun m i => m.set (dst + i) x) m

@[simp] theorem use_val (i : Nat) : (m.use i).val = m.val := rfl

@[simp] theorem use_top (i : Nat) : (m.use i).top = max m.top (i + 1) := rfl

@[simp] theorem set_val (i : Nat) (x : α) : (m.set i x).val = Function.update m.val i x := rfl

@[simp] theorem set_top (i : Nat) (x : α) : (m.set i x).top = max m.top (i + 1) := rfl

@[simp] theorem copy_val (dst src : Nat) :
    (m.copy dst src).val = Function.update m.val dst (m.val src) := rfl

@[simp] theorem copy_top (dst src : Nat) :
    (m.copy dst src).top = max (max m.top (src + 1)) (dst + 1) := rfl

@[simp] theorem copyUp_zero (dst src : Nat) : m.copyUp dst src 0 = m := rfl

theorem copyUp_succ (dst src n : Nat) :
    m.copyUp dst src (n + 1) = (m.copyUp dst src n).copy (dst + n) (src + n) := by
  rw [copyUp, List.range_succ, List.foldl_append]
  rfl

theorem copyUp_add (dst src a b : Nat) :
    m.copyUp dst src (a + b) = (m.copyUp dst src a).copyUp (dst + a) (src + a) b := by
  induction b with
  | zero => rfl
  | succ b ih => rw [← Nat.add_assoc, copyUp_succ, ih, copyUp_succ, Nat.add_assoc, Nat.add_assoc]

/-- The cells move down, also where source and destination overlap. -/
theorem copyUp_val {dst src : Nat} (h : dst ≤ src) (n i : Nat) :
    (m.copyUp dst src n).val i =
      if dst ≤ i ∧ i < dst + n then m.val (i + (src - dst)) else m.val i := by
  induction n generalizing i with
  | zero => rw [copyUp_zero, if_neg (by omega)]
  | succ n ih =>
    rw [copyUp_succ, copy_val]
    by_cases hi : i = dst + n
    · -- the source of the last copy has not been written
      subst hi
      rw [Function.update_self, ih]
      rw [if_neg (by omega), if_pos (by omega), show dst + n + (src - dst) = src + n by omega]
    · rw [Function.update_of_ne hi, ih]
      exact if_congr (by omega) rfl rfl

theorem copyUp_top_le {dst src n b : Nat} (hm : m.top ≤ b) (hd : dst + n ≤ b) (hs : src + n ≤ b) :
    (m.copyUp dst src n).top ≤ b := by
  induction n with
  | zero => exact hm
  | succ n ih =>
    rw [copyUp_succ, copy_top]
    have hle := ih (by omega) (by omega)
    omega

/-- The cells move up, also where source and destination overlap. -/
theorem copyDown_val {dst src : Nat} (h : src ≤ dst) (n i : Nat) :
    (m.copyDown dst src n).val i =
      if dst ≤ i ∧ i < dst + n then m.val (i - (dst - src)) else m.val i := by
  induction n generalizing m with
  | zero => rw [if_neg (by omega)]; rfl
  | succ n ih =>
    rw [copyDown, ih, copy_val]
    by_cases hi : i = dst + n
    · subst hi
      rw [if_neg (by omega), if_pos (by omega), Function.update_self,
        show dst + n - (dst - src) = src + n by omega]
    · -- the copies to come read below the cell just written
      rw [Function.update_of_ne hi]
      by_cases hin : dst ≤ i ∧ i < dst + n
      · rw [if_pos hin, if_pos (by omega), Function.update_of_ne (by omega)]
      · rw [if_neg hin, if_neg (by omega)]

theorem copyDown_top_le {dst src n b : Nat} (hm : m.top ≤ b) (hd : dst + n ≤ b)
    (hs : src + n ≤ b) : (m.copyDown dst src n).top ≤ b := by
  induction n generalizing m with
  | zero => exact hm
  | succ n ih =>
    refine ih _ ?_ (by omega) (by omega)
    rw [copy_top]
    omega

theorem fill_succ (dst n : Nat) (x : α) : m.fill dst (n + 1) x = (m.fill dst n x).set (dst + n) x := by
  rw [fill, List.range_succ, List.foldl_append]
  rfl

theorem fill_val (dst n : Nat) (x : α) (i : Nat) :
    (m.fill dst n x).val i = if dst ≤ i ∧ i < dst + n then x else m.val i := by
  induction n with
  | zero => rw [if_neg (by omega)]; rfl
  | succ n ih =>
    rw [fill_succ, set_val]
    by_cases hi : i = dst + n
    · rw [hi, Function.update_self, if_pos (by omega)]
    · rw [Function.update_of_ne hi, ih]
      exact if_congr (by omega) rfl rfl

theorem fill_top_le {dst n b : Nat} (x : α) (hm : m.top ≤ b) (hd : dst + n ≤ b) :
    (m.fill dst n x).top ≤ b := by
  induction n with
  | zero => exact hm
  | succ n ih =>
    rw [fill_succ, set_top]
    have hle := ih (by omega)
    omega

/-! ## Slices -/

@[simp] theorem slice_zero (i : Nat) : m.slice i 0 = [] := rfl

@[simp] theorem length_slice (i n : Nat) : (m.slice i n).length = n := by
  rw [slice, List.length_map, List.length_range]

theorem slice_succ (i n : Nat) : m.slice i (n + 1) = m.slice i n ++ [m.val (i + n)] := by
  rw [slice, List.range_succ, List.map_append]
  rfl

theorem slice_add (i a b : Nat) : m.slice i (a + b) = m.slice i a ++ m.slice (i + a) b := by
  induction b with
  | zero => rw [Nat.add_zero, slice_zero, List.append_nil]
  | succ b ih => rw [← Nat.add_assoc, slice_succ, ih, slice_succ, List.append_assoc, Nat.add_assoc]

theorem slice_cons (i n : Nat) : m.slice i (n + 1) = m.val i :: m.slice (i + 1) n := by
  rw [Nat.add_comm n 1, slice_add]
  rfl

theorem slice_congr {m m' : Cells α} {i j n : Nat} (h : ∀ k < n, m'.val (j + k) = m.val (i + k)) :
    m'.slice j n = m.slice i n :=
  List.map_congr_left fun k hk => h k (List.mem_range.mp hk)

theorem slice_of_val {m m' : Cells α} (h : m'.val = m.val) (i n : Nat) :
    m'.slice i n = m.slice i n :=
  slice_congr fun k _ => by rw [h]

/-- The two parts of a slice. -/
theorem slice_append_inv {i n : Nat} {a b : List α} (h : m.slice i n = a ++ b) :
    m.slice i a.length = a ∧ m.slice (i + a.length) (n - a.length) = b := by
  have hn : n = a.length + (n - a.length) := by
    have hlen := congrArg List.length h
    rw [length_slice, List.length_append] at hlen
    omega
  rw [hn, slice_add] at h
  exact List.append_inj h (length_slice _ _ _)

/-! ## Reading -/

/-- `m'` is `m` after reads below index `b`. -/
structure ReadsTo (b : Nat) (m m' : Cells α) : Prop where
  val : m'.val = m.val
  top : m'.top ≤ max m.top b

theorem ReadsTo.refl (b : Nat) (m : Cells α) : ReadsTo b m m := ⟨rfl, Nat.le_max_left _ _⟩

theorem ReadsTo.trans {b : Nat} {m m' m'' : Cells α} (h : ReadsTo b m m') (h' : ReadsTo b m' m'') :
    ReadsTo b m m'' where
  val := h'.val.trans h.val
  top := by
    have h₁ := h.top
    have h₂ := h'.top
    omega

theorem ReadsTo.use {b i : Nat} (h : i < b) (m : Cells α) : ReadsTo b m (m.use i) where
  val := rfl
  top := max_le_max (le_refl _) h

end Cells
