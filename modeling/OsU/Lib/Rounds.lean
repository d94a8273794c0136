import Mathlib.Data.Nat.Find
import Mathlib.Logic.Relation
import Mathlib.Order.Basic
import Mathlib.Tactic.Common

/-!
# Loops, round by round

A loop's round ends it with a result or leaves it in another state; `loop` is the loop
seen for `n` rounds. A loop that ends has come through every state it leads to
(`loop_of_leads`), and what every round keeps holds of its result (`loop_invariant`).

`loop_ends_iff` is for a loop that passes through known places, one each round: it ends
exactly when there is a place where it stops. The places are numbered by the rounds, and
what holds of the states at each is a relation that every round carries to the next.
-/

set_option autoImplicit false

namespace Rounds

universe u v

variable {σ : Type u} {ρ : Type v} (round : σ → ρ ⊕ σ)

/-- The result of the loop, if it has one after `n` rounds. More rounds give the same
result, so what the loop returns does not depend on the fuel. -/
def loop : Nat → σ → Option ρ
  | 0, _ => none
  | n + 1, s =>
    match round s with
    | .inl r => some r
    | .inr s' => loop n s'

/-- The loop comes from one state to another. -/
abbrev Leads : σ → σ → Prop := Relation.ReflTransGen fun s s' => round s = .inr s'

variable {round}

theorem loop_inl {s : σ} {r : ρ} (h : round s = .inl r) (n : Nat) :
    loop round (n + 1) s = some r := by
  rw [loop, h]

theorem loop_inr {s s' : σ} (h : round s = .inr s') (n : Nat) :
    loop round (n + 1) s = loop round n s' := by
  rw [loop, h]

/-- **A loop that ends, ends from every state on its way.** -/
theorem loop_of_leads {s t : σ} (h : Leads round s t) {n : Nat} {r : ρ}
    (hl : loop round n s = some r) : ∃ m, loop round m t = some r := by
  induction h using Relation.ReflTransGen.head_induction_on generalizing n with
  | refl => exact ⟨n, hl⟩
  | head hstep _ ih =>
    cases n with
    | zero => exact nomatch hl
    | succ n => exact ih ((loop_inr hstep n).symm.trans hl)

/-- The other way round. -/
theorem loop_leads {s t : σ} (h : Leads round s t) {m : Nat} {r : ρ}
    (hl : loop round m t = some r) : ∃ n, loop round n s = some r := by
  induction h using Relation.ReflTransGen.head_induction_on with
  | refl => exact ⟨m, hl⟩
  | head hstep _ ih =>
    obtain ⟨n, hn⟩ := ih
    exact ⟨n + 1, (loop_inr hstep n).trans hn⟩

/-- **What every round keeps, the result has.** -/
theorem loop_invariant {P : σ → Prop} {Q : ρ → Prop}
    (hnext : ∀ s s', P s → round s = .inr s' → P s') (hend : ∀ s r, P s → round s = .inl r → Q r)
    {s : σ} (h : P s) {n : Nat} {r : ρ} (hl : loop round n s = some r) : Q r := by
  induction n generalizing s with
  | zero => exact nomatch hl
  | succ n ih =>
    cases hr : round s with
    | inl r' =>
      rw [loop_inl hr] at hl
      exact Option.some.inj hl ▸ hend s r' h hr
    | inr s' => exact ih (hnext s s' h hr) ((loop_inr hr n).symm.trans hl)

section Places

variable {R : Nat → σ → Prop} {stop : Nat → Prop}

/-- The loop passes the places before the first where it stops. -/
theorem leads_to (hgo : ∀ j s, R j s → ¬ stop j → ∃ s', round s = .inr s' ∧ R (j + 1) s')
    {s : σ} (h : R 0 s) {j : Nat} (hj : ∀ i < j, ¬ stop i) : ∃ t, R j t ∧ Leads round s t := by
  induction j with
  | zero => exact ⟨s, h, .refl⟩
  | succ j ih =>
    obtain ⟨t, ht, hleads⟩ := ih fun i hi => hj i (hi.trans (Nat.lt_succ_self j))
    obtain ⟨t', hround, ht'⟩ := hgo j t ht (hj j (Nat.lt_succ_self j))
    exact ⟨t', ht', hleads.tail hround⟩

open Classical in
/-- **When a loop ends that passes known places.** `R j` describes the states at the `j`-th place;
there the loop stops or goes on to the next one. -/
theorem loop_ends_iff (hgo : ∀ j s, R j s → ¬ stop j → ∃ s', round s = .inr s' ∧ R (j + 1) s')
    (hstop : ∀ j s, R j s → stop j → ∃ r, round s = .inl r) {s : σ} (h : R 0 s) :
    (∃ n r, loop round n s = some r) ↔ ∃ j, stop j := by
  constructor
  · rintro ⟨n, r, hl⟩
    by_contra hnone
    have hnext : ∀ j t, R j t → ∃ t', round t = .inr t' ∧ R (j + 1) t' := fun j t ht =>
      hgo j t ht fun hj => hnone ⟨j, hj⟩
    refine loop_invariant (P := fun t => ∃ j, R j t) (Q := fun _ => False) ?_ ?_ ⟨0, h⟩ hl
    · rintro t t' ⟨j, ht⟩ hr
      obtain ⟨t'', hround, ht''⟩ := hnext j t ht
      exact ⟨j + 1, (Sum.inr.inj (hround.symm.trans hr)) ▸ ht''⟩
    · rintro t r ⟨j, ht⟩ hr
      obtain ⟨t'', hround, -⟩ := hnext j t ht
      exact nomatch hround.symm.trans hr
  · intro hex
    obtain ⟨t, ht, hleads⟩ := leads_to hgo h fun i hi => Nat.find_min hex hi
    obtain ⟨r, hr⟩ := hstop (Nat.find hex) t ht (Nat.find_spec hex)
    obtain ⟨n, hn⟩ := loop_leads hleads (loop_inl hr 0)
    exact ⟨n, r, hn⟩

end Places

end Rounds
