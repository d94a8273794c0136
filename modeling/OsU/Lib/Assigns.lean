import Mathlib.Tactic

/-!
# Loops of assignments

A state is seen through an observation for each place, and a round of a loop gives one
place a value that may depend on the state. When no round reads what an earlier one has
written, the loop is one simultaneous assignment (`Assigns.foldl`). `grid` lists the
places of two nested loops, row by row; moving rows of an array to its front is such a
loop (`Assigns.foldl_forward`).

An action is known by what it does to the observations, under an invariant of the
states, and by nothing else. So a loop body can be anything that has the effect, and the
loop lemmas do not ask how the state is built. The order of the places matters in one
respect only, which is a hypothesis on pairs: what a later round reads, an earlier one
has not written.
-/

set_option autoImplicit false

universe u v w

/-- On states that meet `P`, the action `g` gives place `a` the value `v`, of the state
before, and leaves every other place alone. -/
structure Assigns {σ : Type u} {ι : Type v} {γ : Type w} (P : σ → Prop) (get : ι → σ → γ) (a : ι)
    (v : σ → γ) (g : σ → σ) : Prop where
  keeps : ∀ s, P s → P (g s)
  here : ∀ s, P s → get a (g s) = v s
  away : ∀ s b, P s → b ≠ a → get b (g s) = get b s

namespace Assigns

variable {σ : Type u} {ι : Type v} {γ : Type w} {P : σ → Prop} {get : ι → σ → γ} [DecidableEq ι]

omit [DecidableEq ι] in
theorem congr {a : ι} {v : σ → γ} {g g' : σ → σ} (h : Assigns P get a v g)
    (hg : ∀ s, P s → g' s = g s) : Assigns P get a v g' where
  keeps s hs := hg s hs ▸ h.keeps s hs
  here s hs := hg s hs ▸ h.here s hs
  away s b hs hb := hg s hs ▸ h.away s b hs hb

/-- **A loop in which no round reads what an earlier one has written.** -/
theorem foldl {l : List ι} {v : ι → σ → γ} {g : ι → σ → σ}
    (h : ∀ a ∈ l, Assigns P get a (v a) (g a))
    (hord : l.Pairwise fun a b => ∀ s, P s → v b (g a s) = v b s) {s : σ} (hs : P s) :
    P (l.foldl (fun s a => g a s) s) ∧
      ∀ p, get p (l.foldl (fun s a => g a s) s) = if p ∈ l then v p s else get p s := by
  induction l generalizing s with
  | nil => exact ⟨hs, fun p => (if_neg List.not_mem_nil).symm⟩
  | cons a l ih =>
    have ha := h a List.mem_cons_self
    obtain ⟨hread, hord⟩ := List.pairwise_cons.mp hord
    obtain ⟨hP, hget⟩ := ih (fun b hb => h b (List.mem_cons_of_mem a hb)) hord (ha.keeps s hs)
    refine ⟨hP, fun p => ?_⟩
    rw [List.foldl_cons, hget p]
    by_cases hp : p ∈ l
    · rw [if_pos hp, if_pos (List.mem_cons_of_mem a hp), hread p hp s hs]
    · rw [if_neg hp]
      by_cases hpa : p = a
      · rw [hpa, if_pos List.mem_cons_self, ha.here s hs]
      · rw [if_neg (by simp [hp, hpa]), ha.away s p hs hpa]

variable (get) in
/-- The values do not depend on the state. -/
theorem foldl_const {l : List ι} {c : ι → γ} {g : ι → σ → σ}
    (h : ∀ a ∈ l, Assigns P get a (fun _ => c a) (g a)) {s : σ} (hs : P s) :
    P (l.foldl (fun s a => g a s) s) ∧
      ∀ p, get p (l.foldl (fun s a => g a s) s) = if p ∈ l then c p else get p s :=
  foldl h (List.pairwise_of_forall fun _ _ _ _ => rfl) hs

/-- The values are what other places show, and these are written later if at all. -/
theorem foldl_copy {l : List ι} {src : ι → ι} {g : ι → σ → σ}
    (h : ∀ a ∈ l, Assigns P get a (get (src a)) (g a))
    (hord : l.Pairwise fun a b => src b ≠ a) {s : σ} (hs : P s) :
    P (l.foldl (fun s a => g a s) s) ∧
      ∀ p, get p (l.foldl (fun s a => g a s) s) = if p ∈ l then get (src p) s else get p s := by
  have hread : l.Pairwise fun a b => ∀ s, P s → get (src b) (g a s) = get (src b) s := by
    refine hord.imp_of_mem ?_
    intro a b ha _ hne s hs
    exact (h a ha).away s (src b) hs hne
  exact foldl h hread hs

end Assigns

/-- Two loops that agree on the states that meet `P`, which they keep. -/
theorem foldl_congr_on {σ : Type u} {ι : Type v} {P : σ → Prop} {f g : σ → ι → σ} {l : List ι}
    (h : ∀ s, P s → ∀ a ∈ l, f s a = g s a ∧ P (g s a)) {s : σ} (hs : P s) :
    l.foldl f s = l.foldl g s ∧ P (l.foldl g s) := by
  induction l generalizing s with
  | nil => exact ⟨rfl, hs⟩
  | cons a l ih =>
    obtain ⟨heq, hP⟩ := h s hs a List.mem_cons_self
    rw [List.foldl_cons, List.foldl_cons, heq]
    exact ih (fun s hs b hb => h s hs b (List.mem_cons_of_mem a hb)) hP

/-! ## Nested loops -/

/-- The places a loop over rows `a`, `a + 1` and so on, `k` of them, visits, with `n` columns in
each. -/
def grid {ι : Type v} (place : Nat → Nat → ι) (a k n : Nat) : List ι :=
  (List.range' a k).flatMap fun y => (List.range n).map fun x => place x y

section Grid

variable {σ : Type u} {ι : Type v} {place : Nat → Nat → ι} {a k n : Nat}

theorem foldl_grid (place : Nat → Nat → ι) (a k n : Nat) (g : ι → σ → σ) (s : σ) :
    (grid place a k n).foldl (fun s p => g p s) s =
      (List.range' a k).foldl
        (fun s y => (List.range n).foldl (fun s x => g (place x y) s) s) s := by
  rw [grid, List.foldl_flatMap]
  congr 1
  funext s y
  rw [List.foldl_map]

theorem mem_grid {p : ι} :
    p ∈ grid place a k n ↔ ∃ x y, (x < n ∧ a ≤ y ∧ y < a + k) ∧ place x y = p := by
  rw [grid, List.mem_flatMap]
  constructor
  · rintro ⟨y, hy, hmem⟩
    obtain ⟨x, hx, heq⟩ := List.mem_map.mp hmem
    exact ⟨x, y, ⟨List.mem_range.mp hx, List.mem_range'_1.mp hy⟩, heq⟩
  · rintro ⟨x, y, ⟨hx, hy⟩, heq⟩
    exact ⟨y, List.mem_range'_1.mpr hy, List.mem_map.mpr ⟨x, List.mem_range.mpr hx, heq⟩⟩

end Grid

/-! ## Rows a pitch apart -/

/-- A place in a row is one row and one column. -/
theorem row_column_inj {n x y x' y' : Nat} (hx : x < n) (hx' : x' < n)
    (h : y * n + x = y' * n + x') : y = y' ∧ x = x' := by
  have hrow : ∀ y x : Nat, x < n → (y * n + x) / n = y := by
    intro y x hx
    rw [Nat.mul_comm, Nat.mul_add_div (by omega), Nat.div_eq_of_lt hx, Nat.add_zero]
  obtain rfl : y = y' := by
    have hy := hrow y x hx
    rwa [h, hrow y' x' hx', eq_comm] at hy
  exact ⟨rfl, Nat.add_left_cancel h⟩

/-- The index of a column of a row. -/
def rowIndex (pitch x y : Nat) : Nat := y * pitch + x

section Rows

variable {pitch a k n : Nat}

/-- The indices visited, of all that lie in a row. -/
theorem mem_grid_rowIndex {x y : Nat} (hn : n ≤ pitch) (hx : x < pitch) :
    rowIndex pitch x y ∈ grid (rowIndex pitch) a k n ↔ (a ≤ y ∧ y < a + k) ∧ x < n := by
  rw [mem_grid]
  constructor
  · rintro ⟨x', y', ⟨hx', hy'⟩, heq⟩
    obtain ⟨rfl, rfl⟩ := row_column_inj (Nat.lt_of_lt_of_le hx' hn) hx heq
    exact ⟨hy', hx'⟩
  · rintro ⟨hy, hlt⟩
    exact ⟨x, y, ⟨hlt, hy⟩, rfl⟩

/-- They are visited upwards. -/
theorem grid_rowIndex_pairwise (hn : n ≤ pitch) :
    (grid (rowIndex pitch) a k n).Pairwise (· < ·) := by
  rw [grid, List.pairwise_flatMap]
  constructor
  · intro y _
    rw [List.pairwise_map]
    exact List.pairwise_lt_range.imp fun h => Nat.add_lt_add_left h _
  · refine (List.pairwise_lt_range' ..).imp ?_
    rintro y y' hy i hi j hj
    obtain ⟨x, hx, rfl⟩ := List.mem_map.mp hi
    obtain ⟨x', -, rfl⟩ := List.mem_map.mp hj
    have hrow : (y + 1) * pitch ≤ y' * pitch := Nat.mul_le_mul_right pitch hy
    have hlt := List.mem_range.mp hx
    rw [Nat.succ_mul] at hrow
    unfold rowIndex
    omega

/-- **Rows are moved to the front.** Each index is given what the index `d` further on shows. -/
theorem Assigns.foldl_forward {σ : Type u} {γ : Type w} {P : σ → Prop} {get : Nat → σ → γ} {d : Nat}
    {g : Nat → σ → σ} (hn : n ≤ pitch)
    (h : ∀ i ∈ grid (rowIndex pitch) a k n, Assigns P get i (get (i + d)) (g i)) {s : σ}
    (hs : P s) :
    P ((grid (rowIndex pitch) a k n).foldl (fun s i => g i s) s) ∧
      ∀ p, get p ((grid (rowIndex pitch) a k n).foldl (fun s i => g i s) s) =
        if p ∈ grid (rowIndex pitch) a k n then get (p + d) s else get p s := by
  refine foldl_copy h ((grid_rowIndex_pairwise hn).imp ?_) hs
  intro i j hij
  omega

end Rows
