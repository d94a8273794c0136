import Mathlib.Tactic

/-!
# Painting an area

A picture is a state with an observation for each place. An action paints an area with a
value when the places of the area show the value afterwards and all others what they
showed before. What is painted by one action after another is the union of their areas.

The invariant `P` is what an action may assume of the state, and must keep. Areas are
predicates; a change of the predicate to an equivalent one is `congr`.
-/

set_option autoImplicit false

universe u v w

/-- On states that meet `P`, the action `g` paints the area `A` with `c`, and no other
point. Places are given by how they are read, so an action on bytes can paint pixels. -/
structure Paints {σ : Type u} {ι : Type v} {γ : Type w} (P : σ → Prop) (get : ι → σ → γ) (c : γ)
    (A : ι → Prop) (g : σ → σ) : Prop where
  keeps : ∀ s, P s → P (g s)
  inside : ∀ s p, P s → A p → get p (g s) = c
  outside : ∀ s p, P s → ¬ A p → get p (g s) = get p s

namespace Paints

variable {σ : Type u} {ι : Type v} {γ : Type w} {P : σ → Prop} {get : ι → σ → γ} {c : γ}
  {A B : ι → Prop} {g g' : σ → σ}

/-- Nothing is painted. -/
theorem id_empty : Paints P get c (fun _ => False) id where
  keeps _ hs := hs
  inside _ _ _ hA := hA.elim
  outside _ _ _ _ := rfl

theorem congr (h : Paints P get c A g) (hAB : ∀ p, A p ↔ B p) : Paints P get c B g where
  keeps := h.keeps
  inside s p hs hB := h.inside s p hs ((hAB p).mpr hB)
  outside s p hs hB := h.outside s p hs fun hA => hB ((hAB p).mp hA)

/-- One area, and then another. -/
theorem comp (h : Paints P get c A g) (h' : Paints P get c B g') :
    Paints P get c (fun p => A p ∨ B p) (g' ∘ g) where
  keeps s hs := h'.keeps _ (h.keeps s hs)
  inside s p hs hAB := by
    by_cases hB : B p
    · exact h'.inside _ p (h.keeps s hs) hB
    · exact (h'.outside _ p (h.keeps s hs) hB).trans (h.inside s p hs (hAB.resolve_right hB))
  outside s p hs hAB := by
    obtain ⟨hA, hB⟩ := not_or.mp hAB
    exact (h'.outside _ p (h.keeps s hs) hB).trans (h.outside s p hs hA)

end Paints
