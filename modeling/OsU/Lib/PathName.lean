import Mathlib.Tactic

/-!
# Names joined by a separator

An absolute path as a list: each component with a separator before it (`rooted`).
Cutting at the separator gives the components back (`components_rooted`), as long as
none contains it and none is empty.

The path of the root is the empty list of names, for which `rooted` is the empty path; a
program that spells the root as a single separator treats it apart.
-/

set_option autoImplicit false

namespace PathName

universe u

variable {α : Type u}

/-- Each name with the separator before it. -/
def rooted (sep : α) (names : List (List α)) : List α := names.flatMap fun n => sep :: n

/-- A name that can stand in a path. -/
structure IsName (sep : α) (n : List α) : Prop where
  ne_nil : n ≠ []
  sep_not_mem : sep ∉ n

@[simp] theorem rooted_nil (sep : α) : rooted sep [] = [] := by
  simp [rooted]

@[simp] theorem rooted_cons (sep : α) (n : List α) (names : List (List α)) :
    rooted sep (n :: names) = sep :: (n ++ rooted sep names) := rfl

@[simp] theorem rooted_snoc (sep : α) (names : List (List α)) (n : List α) :
    rooted sep (names ++ [n]) = rooted sep names ++ sep :: n := by
  simp [rooted]

theorem rooted_eq_nil {sep : α} {names : List (List α)} : rooted sep names = [] ↔ names = [] := by
  cases names <;> simp

theorem mem_rooted {sep x : α} {names : List (List α)} (h : x ∈ rooted sep names) :
    x = sep ∨ ∃ n ∈ names, x ∈ n := by
  obtain ⟨n, hn, hx⟩ := List.mem_flatMap.mp h
  rcases List.mem_cons.mp hx with rfl | hx
  · exact Or.inl rfl
  · exact Or.inr ⟨n, hn, hx⟩

/-! ## Cutting -/

variable [DecidableEq α]

/-- What stands between separators, empty pieces left out. -/
def components (sep : α) (path : List α) : List (List α) := (path.splitOn sep).filter (· ≠ [])

theorem splitOn_rooted {sep : α} {names : List (List α)} (h : ∀ n ∈ names, sep ∉ n) :
    (rooted sep names).splitOn sep = [] :: names := by
  induction names with
  | nil => simp
  | cons n names ih =>
    have ih' := ih fun m hm => h m (List.mem_cons_of_mem _ hm)
    have hn := h n (by simp)
    -- The piece up to the next separator is the name.
    have hpiece : (n ++ rooted sep names).splitOn sep = n :: names := by
      cases names with
      | nil => simpa using List.splitOn_eq_singleton hn
      | cons m names =>
        rw [rooted_cons] at ih' ⊢
        rw [List.splitOn_append_cons_self_of_not_mem hn]
        simpa [List.splitOn_cons_eq_if_modifyHead] using ih'
    rw [rooted_cons, List.splitOn_cons_eq_if_modifyHead, hpiece]
    simp

/-- **Cutting a path gives its names back.** -/
theorem components_rooted {sep : α} {names : List (List α)} (h : ∀ n ∈ names, IsName sep n) :
    components sep (rooted sep names) = names := by
  rw [components, splitOn_rooted fun n hn => (h n hn).sep_not_mem, List.filter_cons]
  simp only [ne_eq, not_true_eq_false, decide_false, Bool.false_eq_true, if_false]
  exact List.filter_eq_self.mpr fun n hn => by simpa using (h n hn).ne_nil

end PathName
