import Mathlib.Tactic

/-!
# Linked directories as a tree of paths

Directories hold entries under names, and an entry is a leaf or leads to another
directory. From a root, what a path leads to is a map on lists of names (`node`). An
edit of one entry of one directory changes that map at one path (`node_edit`), provided
that a directory is reached in one way (`TreeLike`), and that neither the old entry nor
the new one leads to a directory with entries.

Directories are of any type, and the entries of a directory are a function on names: two
entries of one name cannot be said here, and a program that could have them has to show
that it does not. Cycles can be said, and `TreeLike` is what excludes them.
-/

set_option autoImplicit false

universe u v w

/-- What a name stands for: a leaf, or a directory. -/
inductive Link (δ : Type u) (φ : Type w) where
  | leaf (x : φ)
  | dir (d : δ)

/-- The entries of the directories, by directory and name. -/
abbrev Linkage (δ : Type u) (ν : Type v) (φ : Type w) : Type (max u v w) :=
  δ → ν → Option (Link δ φ)

namespace Linkage

variable {δ : Type u} {ν : Type v} {φ : Type w}

/-- One name further. -/
def follow (L : Linkage δ ν φ) (e : Option (Link δ φ)) (n : ν) : Option (Link δ φ) :=
  match e with
  | some (.dir d) => L d n
  | _ => none

/-- What a path from the root leads to. -/
def node (L : Linkage δ ν φ) (root : δ) (p : List ν) : Option (Link δ φ) :=
  p.foldl L.follow (some (.dir root))

/-- No two paths lead to one directory, so that none leads to itself either. -/
def TreeLike (L : Linkage δ ν φ) (root : δ) : Prop :=
  ∀ p q d, L.node root p = some (.dir d) → L.node root q = some (.dir d) → p = q

variable {L L' : Linkage δ ν φ} {root d c : δ} {p q : List ν} {n : ν} {e : Link δ φ}

@[simp] theorem node_nil : L.node root [] = some (.dir root) := rfl

theorem node_snoc (p : List ν) (n : ν) :
    L.node root (p ++ [n]) = L.follow (L.node root p) n := by
  rw [node, node, List.foldl_append]
  rfl

theorem node_snoc_dir (h : L.node root p = some (.dir d)) (n : ν) :
    L.node root (p ++ [n]) = L d n := by
  rw [node_snoc, h]
  rfl

/-- What is there stands in a directory. -/
theorem node_snoc_eq_some :
    L.node root (p ++ [n]) = some e ↔ ∃ d, L.node root p = some (.dir d) ∧ L d n = some e := by
  rw [node_snoc]
  constructor
  · intro h
    rcases hp : L.node root p with _ | x | d
    · rw [hp] at h
      cases h
    · rw [hp] at h
      cases h
    · rw [hp] at h
      exact ⟨d, rfl, h⟩
  · rintro ⟨d, hp, h⟩
    rw [hp]
    exact h

/-- A directory has one place, and the root has none: the paths form a tree. -/
theorem treeLike_of_place
    (hroot : ∀ p d n, L.node root p = some (.dir d) → L d n ≠ some (.dir root))
    (hplace : ∀ p q d d' m n c, L.node root p = some (.dir d) → L.node root q = some (.dir d') →
      L d m = some (.dir c) → L d' n = some (.dir c) → d = d' ∧ m = n) : L.TreeLike root := by
  intro p
  induction p using List.reverseRecOn with
  | nil =>
    intro q d hp hq
    cases q using List.reverseRecOn with
    | nil => rfl
    | append_singleton q n =>
      obtain ⟨d', hq', hl⟩ := node_snoc_eq_some.mp hq
      cases hp
      exact absurd hl (hroot q d' n hq')
  | append_singleton p m ih =>
    intro q c hp hq
    obtain ⟨d, hp', hl⟩ := node_snoc_eq_some.mp hp
    cases q using List.reverseRecOn with
    | nil =>
      cases hq
      exact absurd hl (hroot p d m hp')
    | append_singleton q n =>
      obtain ⟨d', hq', hl'⟩ := node_snoc_eq_some.mp hq
      obtain ⟨rfl, rfl⟩ := hplace p q d d' m n c hp' hq' hl hl'
      rw [ih q d hp' hq']

/-- Links that agree on every directory in reach lead to the same. -/
theorem node_congr (h : ∀ q d n, L.node root q = some (.dir d) → L' d n = L d n) (q : List ν) :
    L'.node root q = L.node root q := by
  induction q using List.reverseRecOn with
  | nil => rfl
  | append_singleton q n ih =>
    rw [node_snoc, node_snoc, ih]
    rcases hq : L.node root q with _ | x | d
    · rfl
    · rfl
    · exact h q d n hq

section Edit

variable [DecidableEq ν]

/-- **An edit of one entry changes what is seen at one path.** -/
theorem node_edit (hT : L.TreeLike root) (hp : L.node root p = some (.dir d))
    (hsame : ∀ q c m, L.node root q = some (.dir c) → ¬ (c = d ∧ m = n) → L' c m = L c m)
    (hold : ∀ c m, L d n = some (.dir c) → L c m = none)
    (hnew : ∀ c m, L' d n = some (.dir c) → L' c m = none) (q : List ν) :
    L'.node root q = if q = p ++ [n] then L' d n else L.node root q := by
  induction q using List.reverseRecOn with
  | nil => rw [if_neg (by simp)]; rfl
  | append_singleton q m ih =>
    by_cases hq : q = p ++ [n]
    · -- Below the edit there is nothing, before or after.
      rw [if_neg (by simp [hq]), node_snoc, node_snoc, ih, if_pos hq, hq, node_snoc_dir hp]
      have hbelow : ∀ {K : Linkage δ ν φ}, (∀ c m, K d n = some (.dir c) → K c m = none) →
          K.follow (K d n) m = none := by
        intro K hK
        rcases hd : K d n with _ | x | c
        · rfl
        · rfl
        · exact hK c m hd
      rw [hbelow hnew, hbelow hold]
    · rw [if_neg hq] at ih
      by_cases hqm : q ++ [m] = p ++ [n]
      · obtain ⟨rfl, hmn⟩ := List.append_inj' hqm rfl
        obtain rfl : m = n := List.head_eq_of_cons_eq hmn
        rw [if_pos rfl, node_snoc, ih, hp]
        rfl
      · rw [if_neg hqm, node_snoc, node_snoc, ih]
        rcases hqd : L.node root q with _ | x | c
        · rfl
        · rfl
        · refine hsame q c m hqd ?_
          rintro ⟨rfl, rfl⟩
          exact hqm (by rw [hT q p c hqd hp])

end Edit

end Linkage
