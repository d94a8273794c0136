import Mathlib.Tactic

/-!
# Searching a ring

A table of `n` slots is searched from some index on, wrapping at its end, until a slot
meets a condition. `gap start j` is how many slots such a search passes before it comes
to `j`.

`scan_some` says the search stops at the slot of least gap, and `gap_lt` that a search
that starts just past the slot it stopped at has come closer to every slot it has not
yet served. That is all a round robin needs to be fair: the gap of a slot that waits is
a number below `n` that goes down with each search that serves another one.
-/

set_option autoImplicit false

namespace Cyclic

variable {n : Nat} [NeZero n]

/-- The first slot at or after `start` that meets `p`, each slot looked at once. -/
def scan (p : Fin n → Bool) (start : Nat) : Option (Fin n) :=
  ((List.range n).map fun i => Fin.ofNat n (start + i)).find? p

/-- The slots a search from `start` passes before it comes to `j`. -/
def gap (start : Nat) (j : Fin n) : Nat := (j.val + (n - start % n)) % n

theorem mod_lt_size (start : Nat) : start % n < n := Nat.mod_lt _ (Nat.pos_of_neZero n)

/-- The gap is the distance up, around the end of the table where `j` lies below the start. -/
theorem gap_eq (start : Nat) (j : Fin n) :
    gap start j = if start % n ≤ j then j - start % n else j + n - start % n := by
  have hs := mod_lt_size (n := n) start
  have hj := j.isLt
  rw [gap]
  split
  · have he : j.val + (n - start % n) = j - start % n + n := by omega
    rw [he, Nat.add_mod_right, Nat.mod_eq_of_lt (by omega)]
  · rw [Nat.mod_eq_of_lt (by omega)]
    omega

theorem gap_lt_size (start : Nat) (j : Fin n) : gap start j < n :=
  Nat.mod_lt _ (Nat.pos_of_neZero n)

/-- The search comes to `j` after its gap. -/
theorem ofNat_add_gap (start : Nat) (j : Fin n) : Fin.ofNat n (start + gap start j) = j := by
  have hs := mod_lt_size (n := n) start
  apply Fin.ext
  rw [Fin.val_ofNat, ← Nat.mod_add_mod, gap_eq]
  split
  · rw [Nat.add_sub_cancel' (by omega), Nat.mod_eq_of_lt j.isLt]
  · have he : start % n + (j.val + n - start % n) = j + n := by omega
    rw [he, Nat.add_mod_right, Nat.mod_eq_of_lt j.isLt]

theorem gap_inj {start : Nat} {j k : Fin n} (h : gap start j = gap start k) : j = k := by
  rw [← ofNat_add_gap start j, h, ofNat_add_gap]

/-! ## The search -/

theorem scan_none {p : Fin n → Bool} {start : Nat} (h : scan p start = none) (j : Fin n) :
    p j = false := by
  rw [scan, List.find?_eq_none] at h
  have hj := h j (List.mem_map.mpr
    ⟨gap start j, List.mem_range.mpr (gap_lt_size start j), ofNat_add_gap start j⟩)
  simpa using hj

/-- **The search stops at the first slot in ring order.** -/
theorem scan_some {p : Fin n → Bool} {start : Nat} {m : Fin n} (h : scan p start = some m) :
    p m = true ∧ ∀ j, p j = true → gap start m ≤ gap start j := by
  rw [scan, List.find?_map, Option.map_eq_some_iff] at h
  obtain ⟨i, hi, hm⟩ := h
  obtain ⟨hp, hlt, hbefore⟩ := List.find?_range_eq_some.mp hi
  have hgap : gap start m = i := by
    -- both numbers lead to `m`, and both are below `n`
    rw [List.mem_range] at hlt
    have hv := congrArg Fin.val (hm.trans (ofNat_add_gap start m).symm)
    rw [Fin.val_ofNat, Fin.val_ofNat] at hv
    have hmod : i ≡ gap start m [MOD n] := Nat.ModEq.add_left_cancel' start hv
    exact (hmod.eq_of_lt_of_lt hlt (gap_lt_size start m)).symm
  refine ⟨hm ▸ hp, fun j hj => ?_⟩
  by_contra hlt
  have hnot := hbefore (gap start j) (by omega)
  rw [Function.comp_apply, ofNat_add_gap, hj] at hnot
  exact absurd hnot (by decide)

theorem scan_isSome {p : Fin n → Bool} {j : Fin n} (h : p j = true) (start : Nat) :
    ∃ m, scan p start = some m := by
  cases hs : scan p start with
  | none => exact absurd (scan_none hs j) (by rw [h]; decide)
  | some m => exact ⟨m, rfl⟩

/-- The search depends on the condition only through its values. -/
theorem scan_congr {p q : Fin n → Bool} (h : ∀ j, p j = q j) (start : Nat) :
    scan p start = scan q start := by
  rw [funext h]

/-- **The ring turns towards every slot.** A search that starts just past a slot met earlier passes
fewer slots on its way to `j`. -/
theorem gap_lt {start : Nat} {m j : Fin n} (hne : m ≠ j) (hle : gap start m ≤ gap start j) :
    gap (m + 1) j < gap start j := by
  have hlt : gap start m < gap start j := lt_of_le_of_ne hle fun h => hne (gap_inj h)
  have hs := mod_lt_size (n := n) start
  have hm := m.isLt
  have hj := j.isLt
  have hnext : (m.val + 1) % n = if m.val + 1 = n then 0 else m.val + 1 := by
    split
    · rename_i he
      rw [he, Nat.mod_self]
    · exact Nat.mod_eq_of_lt (by omega)
  rw [gap_eq, gap_eq] at hlt ⊢
  rw [hnext]
  split_ifs at hlt ⊢ <;> omega

end Cyclic
