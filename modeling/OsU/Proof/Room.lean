import OsU.Proof.Names
import OsU.Proof.Ownership
import OsU.Proof.RoundTrip

/-!
# When a write finds room

On a device whose transfers succeed, `fs_write_raw` fails for want of a name, of a slot,
or of clusters. The old chain is freed before the new one is allocated, so its clusters
count as room. The counts are those of sets: what is free afterwards is what was free
and the old chain, without the new one.

The condition is what a caller could compute before the call. It needs the volume to be
sound in one place only: the clusters of the old chain must all be in use, and distinct,
for their number to be added.
-/

set_option autoImplicit false

namespace OsU

/-- The number of clusters on the chain from `first`. -/
noncomputable def chainCard (fat : Nat → Nat) (first : Nat) : Nat :=
  Set.ncard {c | OnChain fat first c}

/-- The number of clusters on the chain of the file of that name, 0 when there is none. -/
noncomputable def Fs.oldClusters (s : Fs) (name : List UInt8) : Nat :=
  match (s.seek name).idx with
  | some i => chainCard s.volume.fat (s.volume.slot s.currentDirCluster i).fstClusLo
  | none => 0

/-! ## Counting -/

theorem finite_onChain (fat : Nat → Nat) (first : Nat) : {c | OnChain fat first c}.Finite := by
  apply (Set.finite_Icc fatClusterMin fatClusterMax).subset
  intro c hc
  exact hc.inRange

theorem chainCard_of_not_inRange {fat : Nat → Nat} {first : Nat} (h : ¬ InRange first) :
    chainCard fat first = 0 := by
  have hempty : {c | OnChain fat first c} = ∅ := by
    ext c
    simp [not_onChain h]
  rw [chainCard, hempty, Set.ncard_empty]

/-- Freeing a chain of marked clusters adds its length to the room. -/
theorem card_freeAfter {s : Fs} {first : Nat}
    (hused : ∀ c, OnChain (fatGet s.fatBuf) first c → fatGet s.fatBuf c ≠ 0) :
    (s.freeAfter first).card =
      (freeClusters (fatGet s.fatBuf)).card + chainCard (fatGet s.fatBuf) first := by
  have hset : (s.freeAfter first : Set Nat) =
      (freeClusters (fatGet s.fatBuf) : Set Nat) ∪ {c | OnChain (fatGet s.fatBuf) first c} := by
    ext c
    simp only [Fs.freeAfter, Finset.mem_coe, mem_freeClusters, Set.mem_union, Set.mem_ofPred_eq]
    by_cases hc : OnChain (fatGet s.fatBuf) first c
    · simp [freeChain_of_onChain hc, hc, hc.inRange]
    · simp [freeChain_of_not_onChain hc, hc]
  have hdisj : Disjoint (freeClusters (fatGet s.fatBuf) : Set Nat)
      {c | OnChain (fatGet s.fatBuf) first c} := by
    rw [Set.disjoint_left]
    intro c hfree hc
    exact hused c hc (mem_freeClusters.mp (Finset.mem_coe.mp hfree)).2
  rw [← Set.ncard_coe_finset, hset, Set.ncard_union_eq hdisj (Finset.finite_toSet _)
    (finite_onChain _ _), Set.ncard_coe_finset, chainCard]

/-- After the edit, what is free is what was free once the chain was, without the new one. -/
theorem FatEdit.card_free {fat fat' : ByteMem} {first : Nat} {l : List Nat}
    (h : FatEdit (fatGet fat) (fatGet fat') first l) :
    (freeClusters (fatGet fat')).card + l.length =
      (freeClusters (fatGet (freeChain fat first))).card := by
  have hnodup : l.Nodup := by
    by_cases hl : l = []
    · rw [hl]
      exact List.nodup_nil
    · exact (h.chain hl).nodup
  -- What is free once the old chain is, is what is still free after the edit and the
  -- new chain.
  have hsplit : freeClusters (fatGet (freeChain fat first)) =
      freeClusters (fatGet fat') ∪ l.toFinset := by
    ext c
    simp only [Finset.mem_union, mem_freeClusters, List.mem_toFinset]
    by_cases hl : c ∈ l
    · obtain ⟨hr, hfree⟩ := h.fresh c hl
      have h0 : fatGet (freeChain fat first) c = 0 := by
        by_cases hc : OnChain (fatGet fat) first c
        · exact freeChain_of_onChain hc
        · rw [freeChain_of_not_onChain hc]
          exact hfree.resolve_right hc
      simp [hl, hr, h0]
    · by_cases hc : OnChain (fatGet fat) first c
      · simp [freeChain_of_onChain hc, h.freed c hl hc, hl]
      · simp [freeChain_of_not_onChain hc, h.kept c hl hc, hl]
  have hdisj : Disjoint (freeClusters (fatGet fat')) l.toFinset := by
    rw [Finset.disjoint_left]
    intro c hfree hl
    have hmem := List.mem_toFinset.mp hl
    exact (h.chain (List.ne_nil_of_mem hmem)).fat_ne_zero c hmem (mem_freeClusters.mp hfree).2
  rw [hsplit, Finset.card_union_of_disjoint hdisj, List.toFinset_card_of_nodup hnodup]

/-! ## The slot -/

/-- A scan that finds nothing and offers nothing has seen no vacant slot. -/
theorem findLoop_full {ent : Nat → FatDirEntry} {f11 : List UInt8} {n i : Nat}
    (h : findLoop ent f11 n i none = ⟨none, none⟩) {j : Nat} (hi : i ≤ j) (hj : j < i + n) :
    ¬ (ent j).Vacant := by
  induction n generalizing i with
  | zero => omega
  | succ n ih =>
    by_cases hv : (ent i).Vacant
    · have hv' : (ent i).lead = 0x00 ∨ (ent i).lead = 0xE5 := hv
      simp only [findLoop, if_pos hv'] at h
      split at h
      · cases h
      · have hsome := findLoop_freeIdx_some ent f11 n (i + 1) i
        rw [if_pos trivial] at h
        rw [h] at hsome
        cases hsome
    · rw [findLoop_pass hv (by rw [h])] at h
      by_cases hij : j = i
      · rw [hij]
        exact hv
      · exact ih h (by omega) (by omega)

/-- There is a slot to write to when the name is found, or there is a vacant slot. -/
theorem writeSlot_isSome_iff (s : Fs) (name : List UInt8) :
    (∃ i e, s.writeSlot name = some (i, e)) ↔ validName name = true ∧
      ((∃ i, (s.seek name).idx = some i) ∨
        ∃ j < maxEntries s.currentDirCluster, (s.volume.slot s.currentDirCluster j).Vacant) := by
  constructor
  · rintro ⟨i, e, h⟩
    obtain ⟨hf, ⟨hi, -⟩ | ⟨-, ho, -⟩⟩ := writeSlot_cases h
    · exact ⟨by rw [validName, hf]; rfl, Or.inl ⟨i, hi⟩⟩
    · exact ⟨by rw [validName, hf]; rfl, Or.inr ⟨i, ho.slot_lt, ho.vacant⟩⟩
  · rintro ⟨hvalid, hslot⟩
    obtain ⟨f11, hf⟩ := Option.isSome_iff_exists.mp hvalid
    have hseek : s.seek name = lookup s.volume s.currentDirCluster f11 := by rw [Fs.seek, hf]
    rcases hsk : s.seek name with ⟨_ | i, _ | k⟩
    · rcases hslot with ⟨i, hi⟩ | ⟨j, hj, hv⟩
      · rw [hsk] at hi
        cases hi
      · rw [hseek] at hsk
        exact absurd hv (findLoop_full hsk (Nat.zero_le j) (by omega))
    all_goals exact ⟨_, _, by rw [Fs.writeSlot, hsk]⟩

/-- The clusters on the chain the write frees. -/
theorem oldClusters_eq {s : Fs} {name : List UInt8} {i : Nat} {e : FatDirEntry}
    (h : s.writeSlot name = some (i, e)) :
    s.oldClusters name = chainCard (fatGet s.fatBuf) e.fstClusLo := by
  obtain ⟨-, ⟨hi, -, rfl⟩ | ⟨hsk, -, rfl⟩⟩ := writeSlot_cases h
  · rw [Fs.oldClusters, hi]
    rfl
  · rw [Fs.oldClusters, hsk, newEntry_clus, chainCard_of_not_inRange not_inRange_zero]

/-- The chain the write frees is marked. -/
theorem Owned.writeSlot_used {s : Fs} (hO : Owned s.volume)
    (hdir : IsDir s.volume s.currentDirCluster) {name : List UInt8} {i : Nat} {e : FatDirEntry}
    (h : s.writeSlot name = some (i, e)) (c : Nat)
    (hc : OnChain (fatGet s.fatBuf) e.fstClusLo c) : fatGet s.fatBuf c ≠ 0 := by
  obtain ⟨hf, ⟨-, hfound, rfl⟩ | ⟨-, -, rfl⟩⟩ := writeSlot_cases h
  · exact hO.used (hfound.owner hf hdir) hc
  · rw [newEntry_clus] at hc
    exact absurd hc (not_onChain not_inRange_zero)

/-! ## Room -/

section Room

variable {s : Fs} (hg : s.dev.Good) (hready : s.fsReady = true)
  (hdir : IsDir s.volume s.currentDirCluster) (hC : ChainsOk s.volume) (name data : List UInt8)

include hdir hC in
/-- Clearing the old chain of the name makes its clusters free. -/
theorem card_freeAfter_slot {i : Nat} {e : FatDirEntry} (h : s.writeSlot name = some (i, e)) :
    (s.freeAfter e.fstClusLo).card =
      (freeClusters (fatGet s.fatBuf)).card + s.oldClusters name := by
  rw [card_freeAfter (hC.owned.writeSlot_used hdir h), oldClusters_eq h]

include hg hdir hC in
/-- What a write takes. -/
theorem write_takes (h0 : (fsWriteRaw name data s).1 = 0) :
    (freeClusters (fatGet (fsWriteRaw name data s).2.fatBuf)).card + (data.length + 511) / 512 =
      (freeClusters (fatGet s.fatBuf)).card + s.oldClusters name := by
  obtain ⟨i, e, l, hst⟩ := fsWriteRaw_stored hdir.atDir hg h0
  have hcard := hst.done.toFatEdit.card_free
  rw [hst.length] at hcard
  exact hcard.trans (card_freeAfter_slot hdir hC name hst.slot)

include hg hready hdir hC in
/-- When a write succeeds. -/
theorem write_ok_iff :
    (fsWriteRaw name data s).1 = 0 ↔
      Name83 (cstr name) ∧ data.length ≤ 4096 ∧
      ((∃ i, (s.seek name).idx = some i) ∨
        ∃ j < maxEntries s.currentDirCluster, (s.volume.slot s.currentDirCluster j).Vacant) ∧
      (data.length + 511) / 512 ≤
        (freeClusters (fatGet s.fatBuf)).card + s.oldClusters name := by
  have hslot := writeSlot_isSome_iff s name
  rw [validName, isSome_fatNameFromInput_iff] at hslot
  constructor
  · intro h0
    obtain ⟨i, e, l, hst⟩ := fsWriteRaw_stored hdir.atDir hg h0
    obtain ⟨hname, hany⟩ := hslot.mp ⟨i, e, hst.slot⟩
    have htakes := write_takes hg hdir hC name data h0
    exact ⟨hname, hst.fits, hany, by omega⟩
  · rintro ⟨hname, hfits, hany, hneed⟩
    obtain ⟨i, e, hse⟩ := hslot.mpr ⟨hname, hany⟩
    have hw : Writes s name data i e := ⟨hready, hfits, hse, hg.runs _⟩
    apply fsWriteRaw_fits hdir.atDir hg hw
    rw [card_freeAfter_slot hdir hC name hse]
    exact hneed

end Room

/-- **A write succeeds exactly when there is room**, and takes what it needs: a name, a
length the file can have, a slot that has the name or is vacant, and a cluster for each
512 bytes begun. The clusters of the file that is replaced are among those there are. -/
theorem write_iff_room {s : Fs} (hg : s.dev.Good) (hready : s.fsReady = true)
    (hdir : IsDir s.volume s.currentDirCluster) (hC : ChainsOk s.volume) (name data : List UInt8) :
    ((fsWriteRaw name data s).1 = 0 ↔
      Name83 (cstr name) ∧ data.length ≤ 4096 ∧
      ((∃ i, (s.seek name).idx = some i) ∨
        ∃ j < maxEntries s.currentDirCluster, (s.volume.slot s.currentDirCluster j).Vacant) ∧
      (data.length + 511) / 512 ≤
        (freeClusters (fatGet s.fatBuf)).card + s.oldClusters name) ∧
    ((fsWriteRaw name data s).1 = 0 →
      (freeClusters (fatGet (fsWriteRaw name data s).2.fatBuf)).card =
        (freeClusters (fatGet s.fatBuf)).card + s.oldClusters name - (data.length + 511) / 512) := by
  refine ⟨write_ok_iff hg hready hdir hC name data, fun h0 => ?_⟩
  have htakes := write_takes hg hdir hC name data h0
  omega

/-- Three bytes under a new name on the fresh volume. -/
theorem write_iff_room_fresh : (fsWriteRaw [0x41] [1, 2, 3] freshFs).1 = 0 := by
  have hname : Name83 (cstr [0x41]) := (isSome_fatNameFromInput_iff [0x41]).mp (by decide)
  have hvacant : (freshFs.volume.slot freshFs.currentDirCluster 0).Vacant := by
    rw [freshFs_cluster]
    exact Or.inl (freshFs_empty.root 0)
  have hmax : 0 < maxEntries freshFs.currentDirCluster := by
    rw [freshFs_cluster]
    decide
  have hfree : 2 ∈ freeClusters (fatGet freshFs.fatBuf) :=
    mem_freeClusters.mpr ⟨by decide, freshFs_empty.fat 2 (Nat.le_refl 2)⟩
  have hpos := Finset.card_pos.mpr ⟨2, hfree⟩
  refine (write_iff_room freshFs_good freshFs_ready freshFs_isDir freshFs_empty.chainsOk [0x41]
    [1, 2, 3]).1.mpr ⟨hname, by decide, Or.inr ⟨0, hmax, hvacant⟩, ?_⟩
  simp only [List.length_cons, List.length_nil]
  omega

end OsU
