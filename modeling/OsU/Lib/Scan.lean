import Mathlib.Tactic

/-!
# Scanning an interval

A loop looks at the indices from `i` up, `n` of them, until one stops it. `Reaches stop
n i j` says that it comes to `j`. The loop's recursion splits off the first index, and
so does `reaches_succ`: a property of what the loop finds is proved by induction on `n`
with it, the two sides taken apart in the same way.

An index that stops the loop is reached, so "finds `j`" is `Reaches` together with what
is true of `j`.
-/

set_option autoImplicit false

namespace Scan

variable {stop : Nat → Prop} {n i j : Nat}

/-- The scan of the `n` indices from `i` up comes to `j`: nothing before `j` stops it. -/
structure Reaches (stop : Nat → Prop) (n i j : Nat) : Prop where
  le : i ≤ j
  lt : j < i + n
  before : ∀ k, i ≤ k → k < j → ¬ stop k

theorem not_reaches_zero : ¬ Reaches stop 0 i j := by
  intro h
  have hle := h.le
  have hlt := h.lt
  omega

theorem reaches_self : Reaches stop (n + 1) i i where
  le := Nat.le_refl i
  lt := by omega
  before := fun k hk hki => by omega

/-- Past the first index, the scan of the rest. -/
theorem Reaches.cons (h : Reaches stop n (i + 1) j) (hi : ¬ stop i) : Reaches stop (n + 1) i j where
  le := (Nat.le_succ i).trans h.le
  lt := by
    have hlt := h.lt
    omega
  before := fun k hk hkj => by
    cases Nat.eq_or_lt_of_le hk with
    | inl he => exact he ▸ hi
    | inr hlt => exact h.before k hlt hkj

/-- A scan comes to its first index, or goes on from the next one. -/
theorem reaches_succ : Reaches stop (n + 1) i j ↔ j = i ∨ ¬ stop i ∧ Reaches stop n (i + 1) j := by
  constructor
  · intro h
    cases Nat.eq_or_lt_of_le h.le with
    | inl he => exact Or.inl he.symm
    | inr hlt =>
      refine Or.inr ⟨h.before i (Nat.le_refl i) hlt, hlt, ?_, ?_⟩
      · have := h.lt
        omega
      · exact fun k hk hkj => h.before k (Nat.le_of_succ_le hk) hkj
  · rintro (rfl | ⟨hi, h⟩)
    · exact reaches_self
    · exact h.cons hi

/-- What a scan comes to is at its first index, or among the rest. -/
theorem exists_reaches_succ {P : Nat → Prop} : (∃ j, Reaches stop (n + 1) i j ∧ P j) ↔
    P i ∨ ¬ stop i ∧ ∃ j, Reaches stop n (i + 1) j ∧ P j := by
  constructor
  · rintro ⟨j, hr, hp⟩
    cases reaches_succ.mp hr with
    | inl he => exact Or.inl (he ▸ hp)
    | inr h => exact Or.inr ⟨h.1, j, h.2, hp⟩
  · rintro (hp | ⟨hi, j, hr, hp⟩)
    · exact ⟨i, reaches_self, hp⟩
    · exact ⟨j, hr.cons hi, hp⟩

end Scan
