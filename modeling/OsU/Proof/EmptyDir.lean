import OsU.Proof.Links
import OsU.Proof.Undo
import OsU.Volume.Leak

/-!
# Directories with nothing in them

A directory below the root has sixteen slots, and its first two are taken. In a sound
volume the check of `fs_rmdir` passes exactly when the other fourteen are vacant, and
they are in a new one.

The check passes over deleted entries and pieces of long names and stops at an end mark,
so it can take a directory for an empty one that has something behind an end mark. In a
sound volume nothing is there, which is the invariant of `Listing`, and only because of
that is removing a directory an edit of one name in the store.
-/

set_option autoImplicit false

namespace OsU

/-- Vacant slots pass the check. -/
theorem emptyLoop_of_vacant {ent : Nat → FatDirEntry} {n i : Nat}
    (h : ∀ k, i ≤ k → k < i + n → (ent k).Vacant) : emptyLoop ent n i = true := by
  induction n generalizing i with
  | zero => rfl
  | succ n ih =>
    rw [emptyLoop]
    by_cases hz : (ent i).lead = 0x00
    · rw [if_pos hz]
    · have hdel := (h i (Nat.le_refl i) (by omega)).resolve_left hz
      rw [if_neg hz, if_neg (not_not.mpr hdel)]
      exact ih fun k h₁ h₂ => h k (by omega) (by omega)

/-- Two slots are taken, and none of the others. -/
theorem vacant_eq_iff {v : Volume} {c : Nat} (h0 : c ≠ 0) (hdot : (v.slot c 0).IsDot)
    (hdotdot : (v.slot c 1).IsDot) :
    v.vacant c = 14 ↔ ∀ j, 2 ≤ j → j < 16 → (v.slot c j).Vacant := by
  have hmax : maxEntries c = 16 := if_neg h0
  -- The first two entries are in use, so the vacant slots are among the fourteen behind
  -- them.
  have hsub : ((Finset.range (maxEntries c)).filter fun j => (v.slot c j).Vacant) ⊆
      Finset.Ico 2 16 := by
    intro j hj
    obtain ⟨hr, hv⟩ := Finset.mem_filter.mp hj
    rw [hmax, Finset.mem_range] at hr
    refine Finset.mem_Ico.mpr ⟨?_, hr⟩
    by_contra hlt
    have hcases : j = 0 ∨ j = 1 := by omega
    rcases hcases with rfl | rfl
    · exact hv.not_dot hdot
    · exact hv.not_dot hdotdot
  have hcard : (Finset.Ico 2 16).card = 14 := by decide
  constructor
  · intro h j h₁ h₂
    have heq := Finset.eq_of_subset_of_card_le hsub (by
      rw [hcard]
      exact h.ge)
    have hj : j ∈ Finset.Ico 2 16 := Finset.mem_Ico.mpr ⟨h₁, h₂⟩
    rw [← heq] at hj
    exact (Finset.mem_filter.mp hj).2
  · intro h
    rw [← hcard, Volume.vacant]
    congr 1
    refine Finset.Subset.antisymm hsub fun j hj => ?_
    obtain ⟨h₁, h₂⟩ := Finset.mem_Ico.mp hj
    refine Finset.mem_filter.mpr ⟨Finset.mem_range.mpr ?_, h j h₁ h₂⟩
    rw [hmax]
    exact h₂

/-- Such a directory has no entries. -/
theorem links_eq_none_of_vacant {v : Volume} {c : Nat} (h0 : c ≠ 0) (hdot : (v.slot c 0).IsDot)
    (hdotdot : (v.slot c 1).IsDot) (h : v.vacant c = 14) (m : FatName) : v.links c m = none := by
  rw [links_eq_none]
  intro j hj
  obtain ⟨name, hname⟩ := m.2
  have ho := hj.owns hname
  have hlt := hj.slot_lt
  rw [maxEntries, if_neg h0] at hlt
  rcases j with _ | _ | j
  · exact ho.2 hdot
  · exact ho.2 hdotdot
  · exact ho.1.1 ((vacant_eq_iff h0 hdot hdotdot).mp h (j + 2) (by omega) hlt)

/-- **The check of `fs_rmdir` counts the vacant slots.** -/
theorem Volume.Sound.empty_iff {v : Volume} (hV : v.Sound) {d i c : Nat} (hd : IsDir v d)
    (hs : SubDir v d i c) :
    emptyLoop (entryAt (v.sector c).mem) 14 2 = true ↔ v.vacant c = 14 := by
  have htwo := hs.two_le
  have h0 : c ≠ 0 := by omega
  obtain ⟨-, -, hdot, hdotdot, -⟩ := DirsOk.subDir hV.dirs hd hs
  have hslot : ∀ k, v.slot c k = entryAt (v.sector c).mem k := fun k => if_neg h0
  have hc : IsDir v c := .sub hd hs
  have hmax : maxEntries c = 16 := if_neg h0
  rw [vacant_eq_iff h0 hdot hdotdot]
  constructor
  · intro h j h₁ h₂
    rcases emptyLoop_eq_true h h₁ (show j < 2 + 14 by omega) with hdel | ⟨k, -, hkj, hz⟩
    · rw [hslot]
      exact Or.inr hdel
    · rw [← hslot] at hz
      rcases Nat.eq_or_lt_of_le hkj with rfl | hlt
      · exact Or.inl hz
      · by_contra hv
        have hj : j < maxEntries c := by omega
        exact (hV.wf c hc).ended k j hlt hj hz (hV.short c j hc hj hv)
  · intro h
    refine emptyLoop_of_vacant fun k h₁ h₂ => ?_
    rw [← hslot]
    exact h k h₁ (by omega)

/-- The slots of a new directory. -/
theorem newDir_slot {v : Volume} {x p j : Nat} (h0 : x ≠ 0)
    (hsec : v.sector x = sectorOf (newDir x p) 0) (hj : j < 16) :
    v.slot x j =
      if j = 1 then dotEntry dotdotName p else if j = 0 then dotEntry dotName x
      else FatDirEntry.zero := by
  rw [Volume.slot, if_neg h0, hsec, newDir_ent x p hj]

/-- A new directory is well formed and empty, without pieces of long names. -/
theorem newDir_wf {v : Volume} {x p : Nat} (hx : InRange x) (hp : p < 65536)
    (hsec : v.sector x = sectorOf (newDir x p) 0) :
    DirWf (v.slot x) (maxEntries x) ∧
      (∀ j < maxEntries x, ¬ (v.slot x j).Vacant → (v.slot x j).Live) ∧
      v.vacant x = 14 ∧ ∀ m, v.links x m = none := by
  have htwo := (inRange_iff.mp hx).1
  have h0 : x ≠ 0 := by omega
  have hmax : maxEntries x = 16 := if_neg h0
  obtain ⟨hn₀, -, hn₁, -, -⟩ := newDir_slots hx hp hsec
  have hdot : (v.slot x 0).IsDot := Or.inl hn₀
  have hdotdot : (v.slot x 1).IsDot := Or.inr hn₁
  have hzero : ∀ j, 2 ≤ j → j < 16 → (v.slot x j).lead = 0x00 := by
    intro j h₁ h₂
    rw [newDir_slot h0 hsec h₂, if_neg (by omega), if_neg (by omega)]
    rfl
  have hattr : ∀ j < 2, (v.slot x j).attr ≠ 0x0F := by
    intro j hj
    rw [newDir_slot h0 hsec (by omega)]
    split
    · simp [dotEntry, newEntry]
      decide
    · rw [if_pos (by omega)]
      simp [dotEntry, newEntry]
      decide
  -- Only the first two slots are in use, so of every condition on two entries one case
  -- is left.
  have hfirst : ∀ j < 16, ¬ (v.slot x j).Vacant → j < 2 := by
    intro j hj hv
    by_contra hlt
    exact hv (Or.inl (hzero j (by omega) hj))
  have hvac : v.vacant x = 14 :=
    (vacant_eq_iff h0 hdot hdotdot).mpr fun j h₁ h₂ => Or.inl (hzero j h₁ h₂)
  refine ⟨⟨?_, ?_, ?_⟩, ?_, hvac, links_eq_none_of_vacant h0 hdot hdotdot hvac⟩
  · intro j k hjk hk hz hl
    rw [hmax] at hk
    have hk2 := hfirst k hk hl.1
    obtain rfl : j = 0 := by omega
    rw [hdot.lead_eq] at hz
    exact absurd hz (by decide)
  · intro j k hj hk hlj hlk hname
    rw [hmax] at hj hk
    have hj2 := hfirst j hj hlj.1
    have hk2 := hfirst k hk hlk.1
    by_contra hne
    have hcases : (j = 0 ∧ k = 1) ∨ (j = 1 ∧ k = 0) := by omega
    rcases hcases with ⟨rfl, rfl⟩ | ⟨rfl, rfl⟩ <;> rw [hn₀, hn₁] at hname <;>
      exact absurd hname (by decide)
  · intro j hj hl hnd
    rw [hmax] at hj
    have hj2 := hfirst j hj hl.1
    have hcases : j = 0 ∨ j = 1 := by omega
    rcases hcases with rfl | rfl
    · exact absurd hdot hnd
    · exact absurd hdotdot hnd
  · intro j hj hv
    rw [hmax] at hj
    exact ⟨hv, hattr j (hfirst j hj hv)⟩

end OsU
