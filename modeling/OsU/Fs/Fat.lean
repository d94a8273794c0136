import OsU.Fs.Layout

/-!
# `fs.c` — the file-allocation table

`fat_buf` holds one little-endian word for each cluster. The two loops over it are the
first-fit search of `alloc_cluster`, bounded by the cluster numbers, and the walk of
`free_chain`, which runs until a link says stop. That loop is given fuel here, and
`none` is a walk that has not ended; `freeChainLoop_spec` (`OsU/Volume/Chain.lean`)
shows it never is, whatever the table holds: the walk frees what it leaves, so it cannot
come round twice.

A table is a function on bytes, and two tables with the same words are the same table
(`fat_ext`), so that "the table is what it was" can be said of words.
-/

set_option autoImplicit false

namespace OsU

/-- `fat_get` -/
def fatGet (fat : ByteMem) (cluster : Nat) : Nat := fat.le16 (2 * cluster)

/-- `fat_set` -/
def fatSet (fat : ByteMem) (cluster val : Nat) : ByteMem := fat.putLe16 (2 * cluster) val

/-- The `n` iterations of the loop of `alloc_cluster` from cluster `c` on. -/
def allocLoop (fat : ByteMem) : Nat → Nat → Nat × ByteMem
  | 0, _ => (0, fat)
  | n + 1, c => if fatGet fat c = 0 then (c, fatSet fat c fat16Eoc) else allocLoop fat n (c + 1)

/-- `alloc_cluster`: the first free cluster, marked as the end of a chain; 0 when there is none. -/
def allocCluster (fat : ByteMem) : Nat × ByteMem := allocLoop fat fatClusterCount fatClusterMin

/-- The loop of `free_chain`; `none` when the fuel runs out before the loop does. A link
is read before its word is cleared. 0, the end marks and numbers outside the data area
all stop the walk. -/
def freeChainLoop : Nat → ByteMem → Nat → Option ByteMem
  | 0, _, _ => none
  | n + 1, fat, c =>
    if InRange c then
      let next := fatGet fat c
      let fat := fatSet fat c 0
      if 0xFFF8 ≤ next ∨ next = 0 then some fat else freeChainLoop n fat next
    else some fat

/-- `free_chain` -/
def freeChain (fat : ByteMem) (first : Nat) : ByteMem :=
  (freeChainLoop (fatClusterCount + 1) fat first).getD fat

/-! ## Words of the table -/

/-- The words of a table are independent: a store to one cluster's word is seen there,
cut to 16 bits, and nowhere else. -/
theorem fatGet_fatSet (fat : ByteMem) (c v x : Nat) :
    fatGet (fatSet fat c v) x = if x = c then v % 65536 else fatGet fat x := by
  simp only [fatGet, fatSet]
  split
  · rename_i h
    rw [h, ByteMem.le16_putLe16_self]
  · rw [ByteMem.le16_putLe16_of_disjoint]
    omega

/-- The table is determined by its words. -/
theorem fat_ext {fat fat' : ByteMem} (h : ∀ c, fatGet fat c = fatGet fat' c) : fat = fat' :=
  ByteMem.ext_le16 h

/-! ## `alloc_cluster` -/

theorem allocLoop_cases (fat : ByteMem) (n c : Nat) :
    (∃ x, c ≤ x ∧ x < c + n ∧ fatGet fat x = 0 ∧ (∀ y, c ≤ y → y < x → fatGet fat y ≠ 0) ∧
      allocLoop fat n c = (x, fatSet fat x fat16Eoc)) ∨
    ((∀ y, c ≤ y → y < c + n → fatGet fat y ≠ 0) ∧ allocLoop fat n c = (0, fat)) := by
  induction n generalizing c with
  | zero => exact Or.inr ⟨fun y h₁ h₂ => by omega, rfl⟩
  | succ n ih =>
    by_cases hc : fatGet fat c = 0
    · left
      refine ⟨c, Nat.le_refl c, by omega, hc, fun y h₁ h₂ => by omega, ?_⟩
      simp only [allocLoop, if_pos hc]
    · have hcons : ∀ y, c ≤ y → ¬ c + 1 ≤ y → fatGet fat y ≠ 0 := by
        intro y h₁ h₂
        have hy : y = c := by omega
        exact hy ▸ hc
      simp only [allocLoop, if_neg hc]
      rcases ih (c + 1) with ⟨x, h₁, h₂, hx, hmin, he⟩ | ⟨hall, he⟩
      · left
        refine ⟨x, by omega, by omega, hx, fun y hy₁ hy₂ => ?_, he⟩
        by_cases hy : c + 1 ≤ y
        · exact hmin y hy hy₂
        · exact hcons y hy₁ hy
      · right
        refine ⟨fun y hy₁ hy₂ => ?_, he⟩
        by_cases hy : c + 1 ≤ y
        · exact hall y hy (by omega)
        · exact hcons y hy₁ hy

/-- **First fit**: `alloc_cluster` marks the least free cluster, or finds the data area full and
changes nothing. -/
theorem allocCluster_cases (fat : ByteMem) :
    (∃ x, InRange x ∧ fatGet fat x = 0 ∧ (∀ y, InRange y → y < x → fatGet fat y ≠ 0) ∧
      allocCluster fat = (x, fatSet fat x fat16Eoc)) ∨
    ((∀ y, InRange y → fatGet fat y ≠ 0) ∧ allocCluster fat = (0, fat)) := by
  rcases allocLoop_cases fat fatClusterCount fatClusterMin with ⟨x, h₁, h₂, hx, hmin, he⟩ | ⟨hall, he⟩
  · rw [fatClusterCount_eq, fatClusterMin_eq] at h₂
    exact Or.inl ⟨x, inRange_iff.mpr ⟨h₁, by omega⟩, hx, fun y hy => hmin y hy.1, he⟩
  · rw [fatClusterCount_eq, fatClusterMin_eq] at hall
    refine Or.inr ⟨fun y hy => ?_, he⟩
    rw [inRange_iff] at hy
    exact hall y hy.1 (by omega)

end OsU
