import Mathlib.Logic.Relation
import Mathlib.Data.Finset.Card
import Mathlib.Tactic

/-!
# Partial successor graphs

Every node has at most one successor: `succ : α → Option α`. This is the shape of every
table of links (a file-allocation table, a free list, a hash chain), and what is ever
asked of it is which nodes a walk from a given start can visit. Two facts carry the
rest:

- `reach_congr`: a walk only looks at what it visits, so changing `succ` elsewhere
  changes nothing;
- `reach_erase`: a walk that cuts each link behind itself visits exactly the nodes the
  original table reaches, cycles included.

Reachability is the reflexive and transitive closure of one step, so Mathlib's
inductions are at hand, from either end.
-/

set_option autoImplicit false

namespace SuccGraph

universe u

variable {α : Type u}

/-- Following `succ` from `a` leads to `b`. -/
def Reach (succ : α → Option α) (a b : α) : Prop :=
  Relation.ReflTransGen (fun x y => succ x = some y) a b

theorem Reach.refl (succ : α → Option α) (a : α) : Reach succ a a := Relation.ReflTransGen.refl

theorem Reach.tail {succ : α → Option α} {a b c : α} (h : Reach succ a b)
    (hs : succ b = some c) : Reach succ a c := Relation.ReflTransGen.tail h hs

theorem Reach.head {succ : α → Option α} {a b c : α} (hs : succ a = some b)
    (h : Reach succ b c) : Reach succ a c := Relation.ReflTransGen.head hs h

/-- A walk is at its start or went through the successor of its start. -/
theorem reach_iff_head {succ : α → Option α} {a c : α} :
    Reach succ a c ↔ c = a ∨ ∃ b, succ a = some b ∧ Reach succ b c := by
  constructor
  · intro h
    rcases Relation.ReflTransGen.cases_head h with h | ⟨b, hb, h⟩
    · exact Or.inl h.symm
    · exact Or.inr ⟨b, hb, h⟩
  · rintro (rfl | ⟨b, hb, h⟩)
    · exact Reach.refl succ c
    · exact Reach.head hb h

theorem reach_of_succ_none {succ : α → Option α} {a c : α} (hs : succ a = none) :
    Reach succ a c ↔ c = a := by
  rw [reach_iff_head]
  simp [hs]

/-- A property that holds at the start and along links holds at every node visited. -/
theorem Reach.invariant {succ : α → Option α} {P : α → Prop} {a b : α} (h : Reach succ a b)
    (h₀ : P a) (hstep : ∀ x y, Reach succ a x → P x → succ x = some y → P y) : P b := by
  induction h with
  | refl => exact h₀
  | tail hx hs ih => exact hstep _ _ hx ih hs

theorem Reach.congr {succ succ' : α → Option α} {a b : α}
    (hc : ∀ x, Reach succ a x → succ' x = succ x) (h : Reach succ a b) : Reach succ' a b := by
  induction h with
  | refl => exact Reach.refl succ' a
  | tail hx hs ih => exact ih.tail ((hc _ hx).trans hs)

/-- **A walk only looks at what it visits.** -/
theorem reach_congr {succ succ' : α → Option α} {a b : α}
    (hc : ∀ x, Reach succ a x → succ' x = succ x) : Reach succ' a b ↔ Reach succ a b := by
  refine ⟨fun h => ?_, Reach.congr hc⟩
  induction h with
  | refl => exact Reach.refl succ a
  | tail _ hs ih => exact ih.tail ((hc _ ih).symm.trans hs)

section Erase

variable [DecidableEq α]

/-- The graph with the link out of `a` cut. -/
def erase (succ : α → Option α) (a : α) : α → Option α := fun x =>
  if x = a then none else succ x

@[simp] theorem erase_self (succ : α → Option α) (a : α) : erase succ a a = none := if_pos rfl

theorem erase_of_ne (succ : α → Option α) {a x : α} (h : x ≠ a) : erase succ a x = succ x :=
  if_neg h

theorem Reach.of_erase {succ : α → Option α} {a n x : α} (h : Reach (erase succ a) n x) :
    Reach succ n x := by
  induction h with
  | refl => exact Reach.refl succ n
  | tail _ hs ih =>
    rename_i y z _
    refine ih.tail ?_
    by_cases hy : y = a
    · rw [hy, erase_self] at hs
      exact absurd hs (by simp)
    · rwa [erase_of_ne succ hy] at hs

/-- **Cutting the link behind the walk loses no node.** Induction on the walk from `a`: a step
out of `a` itself lands on `n`, any other link is still there. -/
theorem reach_erase {succ : α → Option α} {a n x : α} (hn : succ a = some n) :
    Reach succ a x ↔ x = a ∨ Reach (erase succ a) n x := by
  constructor
  · intro h
    induction h with
    | refl => exact Or.inl rfl
    | tail _ hs ih =>
      rename_i y z _
      right
      by_cases hy : y = a
      · rw [hy, hn, Option.some.injEq] at hs
        exact hs ▸ Reach.refl _ n
      · rcases ih with h | h
        · exact absurd h hy
        · exact h.tail ((erase_of_ne succ hy).trans hs)
  · rintro (rfl | h)
    · exact Reach.refl succ x
    · exact Reach.head hn h.of_erase

end Erase

end SuccGraph
