import OsU.Volume.Edit

/-!
# What a file holds

The bytes of a file are those of the sectors along its chain, as far as its size goes
and the chain does. `fileBytes` is the walk of `load_cluster_chain` on the volume, with
no buffer; it is defined for every entry, so "reads the same bytes" is an equation
between two of its values.

What it depends on is the words and sectors of the chain alone (`fileBytes_congr`). That
is the frame condition: an edit that stays off the chain of a file leaves its bytes
alone.
-/

set_option autoImplicit false

namespace OsU

/-- The bytes of the chain from cluster `c` on, at most `r` of them. -/
def chainBytes (v : Volume) : Nat → Nat → Nat → List UInt8
  | 0, _, _ => []
  | n + 1, c, r =>
    if InRange c ∧ 0 < r then
      let take := if r > 512 then 512 else r
      (v.sector c).mem.toList take ++
        if 0xFFF8 ≤ v.fat c ∨ v.fat c = 0 then [] else chainBytes v n (v.fat c) (r - take)
    else []

/-- The bytes of a file. -/
def fileBytes (v : Volume) (e : FatDirEntry) : List UInt8 :=
  if e.fileSize = 0 ∨ e.fstClusLo < fatClusterMin then []
  else
    let size := if e.fileSize > fsMaxFileSize then fsMaxFileSize else e.fileSize
    chainBytes v size e.fstClusLo size

/-- The bytes of a chain depend on the words and sectors of its clusters only. -/
theorem chainBytes_congr {v v' : Volume} {c : Nat}
    (h : ∀ x, OnChain v.fat c x → v'.fat x = v.fat x ∧ v'.sector x = v.sector x) (n r : Nat) :
    chainBytes v' n c r = chainBytes v n c r := by
  induction n generalizing c r with
  | zero => rfl
  | succ n ih =>
    simp only [chainBytes]
    by_cases hc : InRange c ∧ 0 < r
    · obtain ⟨hf, hs⟩ := h c (onChain_self hc.1)
      simp only [hc, and_self, if_true, hf, hs]
      congr 1
      split
      · rfl
      · by_cases hn : InRange (v.fat c)
        · rw [ih fun x hx => h x ((onChain_next hc.1 hn).mpr (Or.inr hx))]
        · have hstop : ∀ (w : Volume) r, chainBytes w n (v.fat c) r = [] := by
            intro w r
            cases n with
            | zero => rfl
            | succ n => exact if_neg fun h => hn h.1
          rw [hstop, hstop]
    · rw [if_neg hc, if_neg hc]

theorem fileBytes_congr {v v' : Volume} {e : FatDirEntry}
    (h : ∀ x, OnChain v.fat e.fstClusLo x → v'.fat x = v.fat x ∧ v'.sector x = v.sector x) :
    fileBytes v' e = fileBytes v e := by
  simp only [fileBytes]
  rw [chainBytes_congr h]

/-- The first bytes of a sector that holds the data from byte `512 * k` on. -/
theorem toList_stored {sec : Sector} {data : List UInt8} {k m : Nat} (hm : m ≤ 512)
    (hmd : m ≤ data.length - 512 * k) (hs : ∀ i : Fin 512, sec i = data.getD (512 * k + i) 0) :
    sec.mem.toList m = (data.drop (512 * k)).take m := by
  apply List.ext_getElem
  · simp only [ByteMem.length_toList, List.length_take, List.length_drop]
    omega
  · intro i h₁ h₂
    have hi : i < m := by simpa using h₁
    have hd : 512 * k + i < data.length := by omega
    have hg : (data.getD (512 * k + i) 0) = data[512 * k + i] := by
      rw [List.getD_eq_getElem?_getD, List.getElem?_eq_getElem hd]
      rfl
    simp only [ByteMem.toList, List.getElem_map, List.getElem_range, List.getElem_take,
      List.getElem_drop]
    rw [Sector.mem_apply _ (show i < 512 by omega), hs, hg]

/-- Stored sector by sector along a chain, the data is what the chain holds. The cursor is at
sector `k`, and the rest of the chain is as long as the rest of the data. -/
theorem chainBytes_stored {v : Volume} {data : List UInt8} {l : List Nat} {c k n : Nat}
    (hl : FatChain v.fat c l)
    (hs : ∀ j x, l[j]? = some x → ∀ i : Fin 512, v.sector x i = data.getD (512 * (k + j) + i) 0)
    (hlen : l.length = (data.length - 512 * k + 511) / 512) (hn : data.length - 512 * k ≤ n) :
    chainBytes v n c (data.length - 512 * k) = data.drop (512 * k) := by
  induction hl generalizing k n with
  | @last c hc he =>
    have hpos : 0 < data.length - 512 * k ∧ data.length - 512 * k ≤ 512 := by
      simp only [List.length_cons, List.length_nil] at hlen
      omega
    obtain ⟨n, rfl⟩ : ∃ n', n = n' + 1 := ⟨n - 1, by omega⟩
    simp only [chainBytes]
    rw [if_pos ⟨hc, hpos.1⟩, if_neg (by omega), if_pos (Or.inl he), List.append_nil,
      toList_stored hpos.2 (Nat.le_refl _) (by simpa using hs 0 c rfl), List.take_of_length_le]
    rw [List.length_drop]
  | @link c l hc ht ih =>
    have hlpos : 0 < l.length := List.length_pos_of_ne_nil ht.ne_nil
    -- The chain goes on, so there is more than a sector left to read.
    have hlong : 512 < data.length - 512 * k := by
      simp only [List.length_cons] at hlen
      omega
    obtain ⟨n, rfl⟩ : ∃ n', n = n' + 1 := ⟨n - 1, by omega⟩
    have hnext : ¬ (0xFFF8 ≤ v.fat c ∨ v.fat c = 0) := by
      have := inRange_iff.mp ht.first_inRange
      omega
    have hsub : data.length - 512 * k - 512 = data.length - 512 * (k + 1) := by omega
    have hrest : chainBytes v n (v.fat c) (data.length - 512 * (k + 1)) = data.drop (512 * (k + 1)) := by
      refine ih (fun j x hj i => ?_) ?_ (by omega)
      · rw [hs (j + 1) x (by simpa using hj) i, show k + (j + 1) = k + 1 + j by omega]
      · simp only [List.length_cons] at hlen
        omega
    have hfirst : (v.sector c).mem.toList 512 = (data.drop (512 * k)).take 512 :=
      toList_stored (Nat.le_refl _) (by omega) (by simpa using hs 0 c rfl)
    simp only [chainBytes]
    rw [if_pos ⟨hc, by omega⟩, if_pos hlong, if_neg hnext, hsub, hrest, hfirst,
      show 512 * (k + 1) = 512 * k + 512 by omega, ← List.drop_drop, List.take_append_drop]

/-- **An edit leaves the bytes of the other files alone**: their clusters are marked and not on the
chain that was freed, and none of them is the directory under edit. -/
theorem EditOk.fileBytes_eq {v v' : Volume} {d i first : Nat} {l ws : List Nat}
    (h : EditOk v v' d i first l ws) (hO : Owned v) {d' j : Nat} (ho : Owner v d' j)
    (hfile : (v.slot d' j).isDir = false) (hne : ¬ (d' = d ∧ j = i)) :
    fileBytes v' (v.slot d' j) = fileBytes v (v.slot d' j) := by
  refine fileBytes_congr fun x hx => ⟨h.fat_eq hO ho (fun _ => hne) hx, ?_⟩
  have hr := OnChain.inRange hx
  refine h.sector_kept x (inRange_iff.mp hr).1 (h.off_chain hO ho (fun _ => hne) hx).2.1 ?_
  rintro rfl
  obtain ⟨p, k, hop, hs, hch, -⟩ := hO.dir_owner h.dir hr
  obtain ⟨rfl, rfl⟩ := hO.alone ho hop hx hch
  exact absurd hs.isDir (by rw [hfile]; decide)

end OsU
