import Mathlib.Tactic

/-!
# Runs of a deterministic system

A system is a step function `step : ι → σ → σ` on states, driven by a list of inputs.
`Along` says that every step of a run meets a condition on the input and the state it is
taken in, and `run_invariant` is the only induction on runs: what one step preserves, a
run preserves.

A condition along a run is a condition on the states before its steps. So a result of
the form "in every run whose steps all meet it" can be checked for a given run, step by
step (`decidableAlong`), without looking at what the steps lead to.

Two systems driven by the same inputs are compared by `run_simulation`, and with what
they put out by `outputs_refinement`: there the condition is on the second, abstract
system, so that it can be read without knowing the first.
-/

set_option autoImplicit false

namespace Runs

universe u v

variable {σ : Type u} {ι : Type v}

/-- The state after the inputs, first to last. -/
def run (step : ι → σ → σ) : σ → List ι → σ
  | s, [] => s
  | s, i :: is => run step (step i s) is

/-- Every step of the run meets the condition `ok`, in the state it is taken in. -/
def Along (step : ι → σ → σ) (ok : σ → ι → Prop) : σ → List ι → Prop
  | _, [] => True
  | s, i :: is => ok s i ∧ Along step ok (step i s) is

/-- Whether a run meets a condition can be computed. -/
instance decidableAlong (step : ι → σ → σ) (ok : σ → ι → Prop) [∀ s i, Decidable (ok s i)] :
    ∀ s is, Decidable (Along step ok s is)
  | _, [] => isTrue trivial
  | s, i :: is => @instDecidableAnd _ _ _ (decidableAlong step ok (step i s) is)

@[simp] theorem run_nil (step : ι → σ → σ) (s : σ) : run step s [] = s := rfl

@[simp] theorem run_cons (step : ι → σ → σ) (s : σ) (i : ι) (is : List ι) :
    run step s (i :: is) = run step (step i s) is := rfl

/-- A run in two parts. -/
theorem run_append (step : ι → σ → σ) (s : σ) (is js : List ι) :
    run step s (is ++ js) = run step (run step s is) js := by
  induction is generalizing s with
  | nil => rfl
  | cons i is ih => exact ih (step i s)

theorem along_append {step : ι → σ → σ} {ok : σ → ι → Prop} {s : σ} {is js : List ι} :
    Along step ok s (is ++ js) ↔ Along step ok s is ∧ Along step ok (run step s is) js := by
  induction is generalizing s with
  | nil => exact (and_iff_right trivial).symm
  | cons i is ih => exact (and_congr_right fun _ => ih).trans and_assoc.symm

/-- **What one step preserves, a run preserves.** -/
theorem run_invariant {step : ι → σ → σ} {ok : σ → ι → Prop} {P : σ → Prop}
    (hstep : ∀ s i, P s → ok s i → P (step i s)) {s : σ} {is : List ι} (h₀ : P s)
    (h : Along step ok s is) : P (run step s is) := by
  induction is generalizing s with
  | nil => exact h₀
  | cons i is ih => exact ih (hstep s i h₀ h.1) h.2

theorem Along.and {step : ι → σ → σ} {A B : σ → ι → Prop} {s : σ} {is : List ι}
    (h : Along step A s is) (h' : Along step B s is) :
    Along step (fun s i => A s i ∧ B s i) s is := by
  induction is generalizing s with
  | nil => trivial
  | cons i is ih => exact ⟨⟨h.1, h'.1⟩, ih h.2 h'.2⟩

theorem Along.take {step : ι → σ → σ} {ok : σ → ι → Prop} {s : σ} {is : List ι}
    (h : Along step ok s is) (n : Nat) : Along step ok s (is.take n) := by
  induction is generalizing s n with
  | nil => simpa using h
  | cons i is ih =>
    cases n with
    | zero => trivial
    | succ n => exact ⟨h.1, ih h.2 n⟩

/-- Two conditions that agree wherever the invariant holds agree along whole runs, if the second
keeps the invariant. -/
theorem along_iff {step : ι → σ → σ} {A B : σ → ι → Prop} {P : σ → Prop}
    (hiff : ∀ s i, P s → (A s i ↔ B s i)) (hstep : ∀ s i, P s → B s i → P (step i s))
    {s : σ} {is : List ι} (h₀ : P s) : Along step A s is ↔ Along step B s is := by
  induction is generalizing s with
  | nil => exact Iff.rfl
  | cons i is ih =>
    constructor
    · rintro ⟨ha, hrest⟩
      have hb := (hiff s i h₀).mp ha
      exact ⟨hb, (ih (hstep s i h₀ hb)).mp hrest⟩
    · rintro ⟨hb, hrest⟩
      exact ⟨(hiff s i h₀).mpr hb, (ih (hstep s i h₀ hb)).mpr hrest⟩

/-- The same under a condition on the steps that keeps the invariant by itself. -/
theorem along_congr {step : ι → σ → σ} {ok A B : σ → ι → Prop} {P : σ → Prop}
    (hiff : ∀ s i, P s → ok s i → (A s i ↔ B s i)) (hstep : ∀ s i, P s → ok s i → P (step i s))
    {s : σ} {is : List ι} (h₀ : P s) (h : Along step ok s is) :
    Along step A s is ↔ Along step B s is := by
  induction is generalizing s with
  | nil => exact Iff.rfl
  | cons i is ih => exact and_congr (hiff s i h₀ h.1) (ih (hstep s i h₀ h.1) h.2)

/-- What holds at every state of an invariant holds along every run from one. -/
theorem along_of_invariant {step : ι → σ → σ} {A : σ → ι → Prop} {P : σ → Prop}
    (hstep : ∀ s i, P s → P (step i s)) (hA : ∀ s i, P s → A s i) {s : σ} (is : List ι)
    (h₀ : P s) : Along step A s is := by
  induction is generalizing s with
  | nil => trivial
  | cons i is ih => exact ⟨hA s i h₀, ih (hstep s i h₀)⟩

/-- An invariant that no step breaks, whatever its input, holds after every run. -/
theorem run_of_step {step : ι → σ → σ} {P : σ → Prop} (hstep : ∀ s i, P s → P (step i s))
    {s : σ} (is : List ι) (h₀ : P s) : P (run step s is) :=
  run_invariant (fun s i h (_ : P s) => hstep s i h) h₀
    (along_of_invariant hstep (fun _ _ h => h) is h₀)

/-- **Simulation.** Two systems driven by the same inputs stay related, if every step of the two
keeps them so. -/
theorem run_simulation {τ : Type*} {step : ι → σ → σ} {step' : ι → τ → τ} {R : σ → τ → Prop}
    {ok : ι → Prop} (hstep : ∀ s t i, R s t → ok i → R (step i s) (step' i t)) {s : σ} {t : τ}
    {is : List ι} (h : ∀ i ∈ is, ok i) (h₀ : R s t) : R (run step s is) (run step' t is) := by
  induction is generalizing s t with
  | nil => exact h₀
  | cons i is ih =>
    exact ih (fun j hj => h j (List.mem_cons_of_mem i hj))
      (hstep s t i h₀ (h i List.mem_cons_self))

/-- What the steps of a run put out, each in the state it is taken in. -/
def outputs {ω : Type*} (step : ι → σ → σ) (out : ι → σ → ω) : σ → List ι → List ω
  | _, [] => []
  | s, i :: is => out i s :: outputs step out (step i s) is

/-- **Refinement.** Steps that put out the same, and keep two systems related, under a condition on
the state of the second one. -/
theorem outputs_refinement {τ ω : Type*} {step : ι → σ → σ} {step' : ι → τ → τ} {out : ι → σ → ω}
    {out' : ι → τ → ω} {R : σ → τ → Prop} {ok : τ → ι → Prop}
    (hstep : ∀ s t i, R s t → ok t i → out i s = out' i t ∧ R (step i s) (step' i t)) {s : σ}
    {t : τ} {is : List ι} (h : Along step' ok t is) (h₀ : R s t) :
    outputs step out s is = outputs step' out' t is ∧ R (run step s is) (run step' t is) := by
  induction is generalizing s t with
  | nil => exact ⟨rfl, h₀⟩
  | cons i is ih =>
    obtain ⟨hout, hnext⟩ := hstep s t i h₀ h.1
    obtain ⟨houts, hlast⟩ := ih h.2 hnext
    exact ⟨congrArg₂ List.cons hout houts, hlast⟩

end Runs
