import OsU.Lib.Runs

/-!
# What some steps lead to

A system that is driven by one input again and again comes to a state with a property,
however many steps that takes.

`Leads` is for liveness of a system that needs nothing from outside: the input is the
one on which it takes its next step. A proof goes backwards through the phases of the
system, each phase one lemma, by induction on what is left of it; `trans` puts the
phases together, and `keeps` carries an invariant of all steps to the end.
-/

set_option autoImplicit false

namespace Runs

variable {ι σ : Type*} {step : ι → σ → σ} {i : ι} {s : σ} {P Q : σ → Prop}

/-- Some steps on the input `i` lead from `s` to a state with `P`. -/
def Leads (step : ι → σ → σ) (i : ι) (s : σ) (P : σ → Prop) : Prop :=
  ∃ n, P (run step s (List.replicate n i))

namespace Leads

theorem now (h : P s) : Leads step i s P := ⟨0, h⟩

theorem head (h : Leads step i (step i s) P) : Leads step i s P := by
  obtain ⟨n, hn⟩ := h
  exact ⟨n + 1, hn⟩

/-- One leads to the next. -/
theorem trans (h : Leads step i s P) (hnext : ∀ s', P s' → Leads step i s' Q) :
    Leads step i s Q := by
  obtain ⟨n, hn⟩ := h
  obtain ⟨k, hk⟩ := hnext _ hn
  refine ⟨n + k, ?_⟩
  rw [List.replicate_add, run_append]
  exact hk

theorem imp (h : Leads step i s P) (hpq : ∀ s', P s' → Q s') : Leads step i s Q :=
  h.trans fun s' hs' => now (hpq s' hs')

/-- What every step keeps is there at the end. -/
theorem keeps {R : σ → Prop} (hstep : ∀ s i, R s → R (step i s)) (h : Leads step i s P)
    (hs : R s) : Leads step i s fun s' => R s' ∧ P s' := by
  obtain ⟨n, hn⟩ := h
  exact ⟨n, run_of_step hstep _ hs, hn⟩

end Leads

end Runs
