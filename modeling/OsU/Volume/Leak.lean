import OsU.Volume.Edit

/-!
# Leaks

A cluster leaks when the table has it in use and no entry of the tree does. An edit can make that
happen in two ways: it can give up the entry of a chain without freeing the chain, and it can cut
off a directory that still has something in it. `TidyEdit` is an edit that does neither.

Whether a directory has something in it is for `fs_rmdir` to find out, and it stops at the end
mark; so it is part of the invariant that nothing comes after one (`EndMarks`).
-/

set_option autoImplicit false

namespace OsU

section Leak

variable (v : Volume)

/-- Every cluster in use is on the chain of an entry of the tree. -/
def NoLeak : Prop := ∀ c, InRange c → v.fat c ≠ 0 → ∃ d i, Owner v d i ∧ Chain v d i c

/-- No entry of a directory comes after an end mark. -/
def EndMarks : Prop :=
  ∀ d, IsDir v d → ∀ j k, j < k → k < maxEntries d → (v.slot d j).lead = 0x00 → ¬ (v.slot d k).Owns

end Leak

/-- An edit after which nothing has leaked. The conditions are on the slot alone, and
what the calls prove of themselves: where the old chain goes, who gets the new one, and
that no end mark comes before an entry. -/
structure TidyEdit (v v' : Volume) (d i first : Nat) (l ws : List Nat) : Prop
    extends EditOk v v' d i first l ws where
  slot_lt : i < maxEntries d
  not_dot : ¬ (v.slot d i).IsDot
  /-- The chain of the old entry is freed. -/
  dropped : (v.slot d i).Owns → (v.slot d i).fstClusLo = first
  /-- The new chain is the new entry's. -/
  linked : l ≠ [] → (v'.slot d i).Owns ∧ (v'.slot d i).fstClusLo = l.headD 0
  /-- A directory in the slot had no entries with clusters. -/
  empty : ∀ c, SubDir v d i c → ∀ j < maxEntries c, (v.slot c j).Owns →
    ¬ InRange (v.slot c j).fstClusLo
  /-- An end mark stays, or gives way, but is not made. -/
  mark : (v'.slot d i).lead = 0x00 → (v.slot d i).lead = 0x00
  /-- A new entry comes before all end marks. -/
  reach : (v'.slot d i).Owns → (v.slot d i).Owns ∨ ∀ j < i, (v.slot d j).lead ≠ 0x00

namespace TidyEdit

variable {v v' : Volume} {d i first : Nat} {l ws : List Nat}

/-- A directory stays in the tree, unless it is the one in the slot: nothing is below that. -/
theorem isDir_or (h : TidyEdit v v' d i first l ws) (hO : Owned v) (hD : DirsOk v) {d' : Nat}
    (hd' : IsDir v d') : IsDir v' d' ∨ SubDir v d i d' := by
  induction hd' with
  | root => exact Or.inl .root
  | @sub p j c hp hs ih =>
    by_cases hpj : p = d ∧ j = i
    · obtain ⟨rfl, rfl⟩ := hpj
      exact Or.inr hs
    · rcases ih with hp' | hsub
      · exact Or.inl (.sub hp' ((h.subDir_iff hO hp hpj).mpr hs))
      · have hrng := (hD.subDir hp hs).1
        rw [← hs.clus] at hrng
        exact absurd hrng (h.empty p hsub j hs.slot_lt hs.owns)

/-- **A tidy edit leaks nothing.** -/
theorem noLeak (h : TidyEdit v v' d i first l ws) (hO : Owned v) (hD : DirsOk v) (hN : NoLeak v) :
    NoLeak v' := by
  intro c hc hused
  by_cases hl : c ∈ l
  · -- The cluster is new, and the slot has it.
    obtain ⟨howns, hclus⟩ := h.linked (List.ne_nil_of_mem hl)
    exact ⟨d, i, ⟨h.isDir_self hO, h.slot_lt, howns⟩, (h.new_chain hclus).mpr hl⟩
  · have hoff : ¬ OnChain v.fat first c := fun hon => hused (h.freed c hl hon)
    rw [h.kept c hl hoff] at hused
    obtain ⟨d', j, ho, hch⟩ := hN c hc hused
    have hne : ¬ (d' = d ∧ j = i) := by
      rintro ⟨rfl, rfl⟩
      rw [Chain, h.dropped ho.owns] at hch
      exact hoff hch
    have hdir : IsDir v' d' := by
      refine (h.isDir_or hO hD ho.dir).resolve_right fun hs => ?_
      exact h.empty d' hs j ho.slot_lt ho.owns (OnChain.first_inRange hch)
    refine ⟨d', j, h.owner_of hO ho hdir hne, ?_⟩
    rw [Chain, h.slot_eq hO ho.dir ho.slot_lt hne, h.onChain_iff hO ho fun _ => hne]
    exact hch

/-- **A tidy edit keeps the end marks.** -/
theorem endMarks (h : TidyEdit v v' d i first l ws) (hO : Owned v) (hE : EndMarks v) :
    EndMarks v' := by
  intro d' hd' j k hjk hk hz howns
  rcases h.isDir_cases hO hd' with hd' | ⟨-, -, hnone⟩
  · have hother : ∀ m < maxEntries d', ¬ (d' = d ∧ m = i) → v'.slot d' m = v.slot d' m :=
      fun m hm hne => h.slot_eq hO hd' hm hne
    -- The mark was there before, and so was the entry, or it is a new one and comes first.
    have hz' : (v.slot d' j).lead = 0x00 := by
      by_cases hj : d' = d ∧ j = i
      · obtain ⟨rfl, rfl⟩ := hj
        exact h.mark hz
      · rwa [hother j (by omega) hj] at hz
    by_cases hki : d' = d ∧ k = i
    · obtain ⟨rfl, rfl⟩ := hki
      rcases h.reach howns with ho | hreach
      · exact hE d' hd' j k hjk hk hz' ho
      · exact hreach j hjk hz'
    · rw [hother k hk hki] at howns
      exact hE d' hd' j k hjk hk hz' howns
  · exact hnone k hk howns

end TidyEdit

/-! ## An empty directory -/

/-- What the emptiness check has seen: deleted entries, up to an end mark. -/
theorem emptyLoop_eq_true {ent : Nat → FatDirEntry} {n i k : Nat} (h : emptyLoop ent n i = true)
    (hi : i ≤ k) (hk : k < i + n) :
    (ent k).lead = 0xE5 ∨ ∃ j, i ≤ j ∧ j ≤ k ∧ (ent j).lead = 0x00 := by
  induction n generalizing i with
  | zero => omega
  | succ n ih =>
    rw [emptyLoop] at h
    by_cases hz : (ent i).lead = 0x00
    · exact Or.inr ⟨i, Nat.le_refl i, hi, hz⟩
    · rw [if_neg hz] at h
      by_cases hdel : (ent i).lead = 0xE5
      · rw [if_neg fun hn => hn hdel] at h
        rcases Nat.eq_or_lt_of_le hi with rfl | hlt
        · exact Or.inl hdel
        · exact (ih h hlt (by omega)).imp id fun ⟨j, h₁, h₂, h₃⟩ => ⟨j, by omega, h₂, h₃⟩
      · rw [if_pos hdel] at h
        exact absurd h (by decide)

/-- A subdirectory that passes the check has no entries. -/
theorem EndMarks.empty {v : Volume} (hE : EndMarks v) (hD : DirsOk v) {d i c : Nat} (hd : IsDir v d)
    (hs : SubDir v d i c) (h : emptyLoop (entryAt (v.sector c).mem) 14 2 = true) :
    ∀ j < maxEntries c, ¬ (v.slot c j).Owns := by
  intro j hj ho
  obtain ⟨-, -, hdot, hdotdot, -⟩ := hD.subDir hd hs
  have h0 : c ≠ 0 := fun h0 => by have := hs.two_le; omega
  have hslot : ∀ k, v.slot c k = entryAt (v.sector c).mem k := fun k => if_neg h0
  rw [maxEntries, if_neg h0] at hj
  rcases j with _ | _ | j
  · exact ho.2 hdot
  · exact ho.2 hdotdot
  · rcases emptyLoop_eq_true h (show 2 ≤ j + 2 by omega) (show j + 2 < 2 + 14 by omega) with
      hdel | ⟨k, -, hkj, hz⟩
    · rw [← hslot] at hdel
      exact ho.1.1 (Or.inr hdel)
    · rw [← hslot] at hz
      rcases Nat.eq_or_lt_of_le hkj with rfl | hlt
      · exact ho.1.1 (Or.inl hz)
      · exact hE c (.sub hd hs) k (j + 2) hlt (by rw [maxEntries, if_neg h0]; omega) hz ho

end OsU
