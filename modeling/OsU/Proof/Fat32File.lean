import Mathlib.Data.List.GetD
import OsU.Volume.Partition

/-!
# `fat32_read_file` reads the chain

A round of the loop copies the next cluster, or the part of it that there is room for.
After it the rest of the chain is still to come, so the induction is on the chain.

The buffer in the middle of the loop is `placed`: the clusters read so far, cut off at
the room there is. Placing a cluster and then the rest is placing both (`placed_cons`),
which is what makes the induction go through. A round that finds no room left ends the
call before the end of the chain, and that is a case of its own.

The count of bytes is 32 bits wide and is returned as a number with a sign. Asking for
less than half of what it can count keeps it a count, and the addition in the loop from
wrapping.

## What is assumed of the chain

`Partition.Chain` is the chain in the table, from cluster 2 on and below the end mark.
Each cluster has to be in reach: the sectors of the cluster and of its entry are counted
in 28 bits, since `disk_read_sectors` gives the drive no more. A cluster beyond is taken
for one at the front of the disk (`fat32_reads_table`).
-/

set_option autoImplicit false

namespace OsU

/-- The bytes of the clusters, one after the other. -/
def Partition.content (p : Partition) (cs : List Nat) : List UInt8 := cs.flatMap p.cluster

/-- The buffer after `n` bytes of a list have been copied to offset `a`, as far as `limit`. -/
def placed (buffer : ByteMem) (a limit : Nat) (l : List UInt8) : ByteMem := fun i =>
  if a ≤ i ∧ i < min limit (a + l.length) then l.getD (i - a) 0 else buffer i

section Chains

variable {p : Partition}

theorem length_cluster (c : Nat) : (p.cluster c).length = p.clusterSize := by
  rw [Partition.cluster, List.length_map, List.length_range]

theorem length_content (cs : List Nat) : (p.content cs).length = cs.length * p.clusterSize := by
  induction cs with
  | nil => rw [Partition.content, List.flatMap_nil, List.length_nil, List.length_nil, zero_mul]
  | cons c cs ih =>
    rw [Partition.content, List.flatMap_cons, List.length_append, length_cluster,
      ← Partition.content, ih, List.length_cons]
    ring

/-- A cluster is placed, and then the rest. -/
theorem placed_cons (buffer : ByteMem) (a limit : Nat) (c : Nat) (cs : List Nat) :
    placed (placed buffer a limit (p.cluster c)) (a + p.clusterSize) limit (p.content cs) =
      placed buffer a limit (p.content (c :: cs)) := by
  funext i
  have hsplit : p.content (c :: cs) = p.cluster c ++ p.content cs := List.flatMap_cons
  simp only [placed, hsplit, List.length_append, length_cluster]
  by_cases hi : i < a + p.clusterSize
  · rw [if_neg (by omega)]
    by_cases hr : a ≤ i ∧ i < limit
    · rw [if_pos (by omega), if_pos (by omega),
        List.getD_append _ _ _ _ (by rw [length_cluster]; omega)]
    · rw [if_neg (by omega), if_neg (by omega)]
  · by_cases hr : i < min limit (a + (p.clusterSize + (p.content cs).length))
    · rw [if_pos (by omega), if_pos (by omega),
        List.getD_append_right _ _ _ _ (by rw [length_cluster]; omega), length_cluster,
        Nat.sub_sub]
    · rw [if_neg (by omega), if_neg (by omega), if_neg (by omega)]

theorem placed_nil (buffer : ByteMem) (a limit : Nat) : placed buffer a limit [] = buffer := by
  funext i
  rw [placed, List.length_nil, if_neg (by omega)]

/-- When there is no room left, nothing is placed. -/
theorem placed_full (buffer : ByteMem) (a limit : Nat) (l : List UInt8) (h : limit ≤ a) :
    placed buffer a limit l = buffer := by
  funext i
  rw [placed, if_neg (by omega)]

/-- An offset behind the limit is as good as the limit. -/
theorem placed_min (buffer : ByteMem) (a limit : Nat) (l : List UInt8) :
    placed buffer (min limit a) limit l = placed buffer a limit l := by
  rcases le_total a limit with hle | hle
  · rw [min_eq_right hle]
  · rw [min_eq_left hle, placed_full _ _ _ _ le_rfl, placed_full _ _ _ _ hle]

end Chains

theorem toInt_toInt32 {n : UInt32} (h : n.toNat < 2 ^ 31) : n.toInt32.toInt = n.toNat := by
  have hcond : n.toBitVec.toInt =
      if 2 * n.toNat < 2 ^ 32 then (n.toNat : Int) else n.toNat - (2 ^ 32 : Nat) :=
    BitVec.toInt_eq_toNat_cond _
  rw [← Int32.toInt_toBitVec, UInt32.toBitVec_toInt32, hcond, if_pos (by omega)]

/-- How many bytes a round copies. -/
def roundSize (s : Fat32) (maxSize done : UInt32) : UInt32 :=
  if done + s.sectorsPerCluster * 512 > maxSize then maxSize - done else s.sectorsPerCluster * 512

theorem toNat_roundSize {p : Partition} {s : Fat32} (hs : Mounted p s) {maxSize done : UInt32}
    (hmax : maxSize.toNat < 2 ^ 31) (hdone : done.toNat ≤ maxSize.toNat) :
    (roundSize s maxSize done).toNat = min p.clusterSize (maxSize.toNat - done.toNat) := by
  have hlt : p.sectorsPerCluster < 2 ^ 8 := UInt8.toNat_lt _
  have hsize : (s.sectorsPerCluster * 512).toNat = p.clusterSize := by
    rw [UInt32.toNat_mul, hs.spc, UInt32.toNat_ofNat_of_lt' (hlt.trans (by decide)),
      show (512 : UInt32).toNat = 512 from rfl, Partition.clusterSize]
    omega
  have hsum : (done + s.sectorsPerCluster * 512).toNat = done.toNat + p.clusterSize := by
    rw [UInt32.toNat_add, hsize]
    rw [Partition.clusterSize] at hsize ⊢
    omega
  rw [roundSize]
  split
  · rename_i hover
    rw [gt_iff_lt, UInt32.lt_iff_toNat_lt, hsum] at hover
    rw [UInt32.toNat_sub_of_le _ _ (UInt32.le_iff_toNat_le.mpr hdone)]
    omega
  · rename_i hfit
    rw [gt_iff_lt, UInt32.lt_iff_toNat_lt, hsum] at hfit
    omega

/-- A round: the cluster is placed, and the loop is at the next one. -/
theorem readFileLoop_round {p : Partition} {s : Fat32} (hs : Mounted p s) (hg : s.dev.Good)
    {maxSize first done : UInt32} (hmax : maxSize.toNat < 2 ^ 31) (hlt : first < fat32Eoc)
    (h2 : 2 ≤ first.toNat) (hroom : done < maxSize) (hw : p.Within 28 first.toNat) (n : Nat)
    (buffer : ByteMem) :
    ∃ s' next, Mounted p s' ∧ s'.dev.Good ∧ next.toNat = p.entry first.toNat ∧
      Fat32.readFileLoop maxSize (n + 1) first done buffer s =
        Fat32.readFileLoop maxSize n next (done + roundSize s maxSize done)
          (placed buffer done.toNat maxSize.toNat (p.cluster first.toNat)) s' := by
  have hdone : done.toNat < maxSize.toNat := UInt32.lt_iff_toNat_lt.mp hroom
  obtain ⟨buf, hread, hbuf⟩ := Fat32.readCluster_ok first (hg.runs s.count)
  -- The bytes that are copied are those of the cluster, as far as there is room.
  have hplaced : buffer.copy done.toNat buf (roundSize s maxSize done).toNat =
      placed buffer done.toNat maxSize.toNat (p.cluster first.toNat) := by
    funext i
    rw [ByteMem.copy_apply, placed, length_cluster, toNat_roundSize hs hmax hdone.le]
    by_cases hi : done.toNat ≤ i ∧ i < min maxSize.toNat (done.toNat + p.clusterSize)
    · have hlen : i - done.toNat < p.clusterSize := by omega
      rw [if_pos (by omega), if_pos hi, hbuf _ (by rwa [hs.toNat_count]),
        hs.clusterAt_eq h2 hw hlen, List.getD_eq_getElem _ _ (by rwa [length_cluster])]
      simp [Partition.cluster]
    · rw [if_neg (by omega), if_neg hi]
  generalize ht : s.clusterRead first buf (s.dev.clock + s.count) = t at hread
  have hmt : Mounted p t := ht ▸ hs.clusterRead first buf _
  have hgt : t.dev.Good := by
    rw [← ht]
    exact hg
  have hbt : t.clusterBuffer = buf := by
    rw [← ht]
    rfl
  obtain ⟨buf', hentry⟩ := Fat32.fatReadEntry_ok first (hgt t.dev.clock)
  refine ⟨t.entryRead first (some (t.entryAt first)) buf', t.entryAt first,
    hmt.entryRead first _ buf', hgt, hmt.entryAt_eq hlt hw, ?_⟩
  rw [Fat32.readFileLoop, if_pos ⟨hlt, hroom⟩, hread]
  simp only [ne_eq, not_true_eq_false, if_false]
  rw [← roundSize, hbt, hplaced, hentry]

/-- **The loop, from a cluster on**, with `done` bytes copied. The rounds are one more
than the clusters: the last one finds the end mark, or the buffer full. -/
theorem readFileLoop_chain {p : Partition} {maxSize : UInt32}
    (hmax : maxSize.toNat < 2 ^ 31) {cs : List Nat} {first done : UInt32} (buffer : ByteMem)
    {s : Fat32} (hs : Mounted p s) (hg : s.dev.Good) (hc : p.Chain first.toNat cs)
    (hw : ∀ c ∈ cs, p.Within 28 c) (hdone : done.toNat ≤ maxSize.toNat) {n : Nat}
    (hn : cs.length < n) :
    ∃ s', Fat32.readFileLoop maxSize n first done buffer s =
      (some ↑(min maxSize.toNat (done.toNat + cs.length * p.clusterSize)),
        placed buffer done.toNat maxSize.toNat (p.content cs), s') := by
  induction cs generalizing first done buffer s n with
  | nil =>
    obtain ⟨n, rfl⟩ := Nat.exists_eq_add_of_lt hn
    have hend : ¬ (first < fat32Eoc ∧ done < maxSize) := fun h =>
      absurd (UInt32.lt_iff_toNat_lt.mp h.1) (not_lt.mpr hc)
    refine ⟨s, ?_⟩
    rw [List.length_nil, zero_add, Fat32.readFileLoop, if_neg hend,
      toInt_toInt32 (hdone.trans_lt hmax), zero_mul, add_zero, min_eq_right hdone]
    rw [show p.content [] = [] from rfl, placed_nil]
  | cons c cs ih =>
    obtain ⟨n, rfl⟩ := Nat.exists_eq_add_of_lt hn
    obtain ⟨rfl, hc2, hceoc, hrest⟩ := hc
    have hin := hw first.toNat List.mem_cons_self
    by_cases hroom : done < maxSize
    · obtain ⟨s', next, hs', hg', hnext, hround⟩ := readFileLoop_round hs hg hmax
        (UInt32.lt_iff_toNat_lt.mpr hceoc) hc2 hroom hin (cs.length + 1 + n) buffer
      have hroom' : done.toNat < maxSize.toNat := UInt32.lt_iff_toNat_lt.mp hroom
      have hsum : (done + roundSize s maxSize done).toNat =
          min maxSize.toNat (done.toNat + p.clusterSize) := by
        rw [UInt32.toNat_add, toNat_roundSize hs hmax hdone]
        omega
      have hcount : min maxSize.toNat (min maxSize.toNat (done.toNat + p.clusterSize) +
            cs.length * p.clusterSize) =
          min maxSize.toNat (done.toNat + (cs.length + 1) * p.clusterSize) := by
        rw [Nat.add_mul, one_mul]
        omega
      obtain ⟨s'', hrun⟩ := ih _ hs' hg' (hnext ▸ hrest)
        (fun c hc => hw c (List.mem_cons_of_mem _ hc)) (by rw [hsum]; exact min_le_left _ _)
        (show cs.length < cs.length + 1 + n by omega)
      refine ⟨s'', ?_⟩
      rw [List.length_cons, hround, hrun, hsum, hcount, placed_min, placed_cons]
    · have hfull : done.toNat = maxSize.toNat :=
        le_antisymm hdone (not_lt.mp fun h => hroom (UInt32.lt_iff_toNat_lt.mpr h))
      refine ⟨s, ?_⟩
      rw [Fat32.readFileLoop, if_neg (fun h => hroom h.2), toInt_toInt32 (hdone.trans_lt hmax),
        placed_full _ _ _ _ hfull.ge, hfull, min_eq_left (Nat.le_add_right _ _)]

/-- **Reading a file.** On an accepted volume, with a device that does not fail and all
sectors in the reach of the drive, the buffer is given the clusters of the chain as far
as it has room. What lies behind the bytes that were copied is left alone. -/
theorem fat32_read_chain {s : Fat32} {lba : UInt32} (hopen : (s.init lba).1 = 0)
    (hlba : lba.toNat < 2 ^ 28) (hg : s.dev.Good)
    (_hspc : 1 ≤ (s.partition lba).sectorsPerCluster ∧ (s.partition lba).sectorsPerCluster ≤ 8)
    {first maxSize : UInt32} {cs : List Nat} (hc : (s.partition lba).Chain first.toNat cs)
    (hw : ∀ c ∈ cs, (s.partition lba).Within 28 c) (hmax : maxSize.toNat < 2 ^ 31)
    (buffer : ByteMem) {n : Nat} (hn : cs.length < n) :
    ∃ buffer' s', (s.init lba).2.readFile n first buffer maxSize =
        (some ↑(min maxSize.toNat (cs.length * (s.partition lba).clusterSize)), buffer', s') ∧
      ∀ i, buffer' i =
        if i < min maxSize.toNat (cs.length * (s.partition lba).clusterSize) then
          ((s.partition lba).content cs).getD i 0
        else buffer i := by
  have hs : Mounted (s.partition lba) (s.init lba).2 := init_mounted hlba hopen
  have hg' : (s.init lba).2.dev.Good := by
    obtain ⟨bpb, -, hinit⟩ := init_ok hopen
    rw [hinit]
    exact hg
  have hzero : (0 : UInt32).toNat = 0 := rfl
  obtain ⟨s', hrun⟩ := readFileLoop_chain hmax buffer hs hg' hc hw
    (hzero.trans_le (Nat.zero_le _)) hn
  rw [hzero, Nat.zero_add] at hrun
  refine ⟨placed buffer 0 maxSize.toNat ((s.partition lba).content cs), s', ?_, fun i => ?_⟩
  · rw [Fat32.readFile, if_neg (by simp [hs.valid])]
    exact hrun
  · simp only [placed, length_content, zero_le, true_and, Nat.zero_add, Nat.sub_zero]

/-- A partition with a file of one cluster; the table has `size` and `size' * 2 ^ 24`
sectors. The two bytes of the size choose how far behind the table the clusters begin,
also beyond what 28 bits address. -/
def oneFile (size size' : UInt8) : Device where
  sectors l :=
    if l = 0 then fun i =>
      if i.val = 12 then 2
      else if i.val = 13 ∨ i.val = 14 ∨ i.val = 16 then 1
      else if i.val = 36 then size
      else if i.val = 39 then size' else 0
    else if l = 1 then fun i =>
      if i.val = 11 then 0x0F else if 8 ≤ i.val ∧ i.val < 11 then 0xFF else 0
    else fun _ => 7
  ok := fun _ => true
  clock := 0
  written := []

/-- A driver that has not opened anything yet. -/
def closedFat32 (dev : Device) : Fat32 where
  valid := false
  fatStartLba := 0
  clusterStartLba := 0
  rootCluster := 0
  sectorsPerCluster := 0
  bytesPerSector := 0
  fatSize := 0
  sectorBuffer := fun _ => 0
  clusterBuffer := fun _ => 0
  dev := dev
  events := []

theorem fat32_read_chain_one :
    ∃ buffer' s', ((closedFat32 (oneFile 1 0)).init 0).2.readFile 2 2 (fun _ => 0) 3 =
        (some ↑(min 3 (1 * ((closedFat32 (oneFile 1 0)).partition 0).clusterSize)), buffer', s') ∧
      ∀ i, buffer' i =
        if i < min 3 (1 * ((closedFat32 (oneFile 1 0)).partition 0).clusterSize) then
          (((closedFat32 (oneFile 1 0)).partition 0).content [2]).getD i 0
        else 0 := by
  have hopen : ((closedFat32 (oneFile 1 0)).init 0).1 = 0 := by decide +kernel
  have hspc : 1 ≤ ((closedFat32 (oneFile 1 0)).partition 0).sectorsPerCluster ∧
      ((closedFat32 (oneFile 1 0)).partition 0).sectorsPerCluster ≤ 8 := by decide +kernel
  have hchain : ((closedFat32 (oneFile 1 0)).partition 0).Chain (2 : UInt32).toNat [2] := by
    decide +kernel
  have hin : ∀ c ∈ [2], ((closedFat32 (oneFile 1 0)).partition 0).Within 28 c := by
    decide +kernel
  exact fat32_read_chain hopen (by decide) (fun _ => rfl) hspc hchain hin
    (show (3 : UInt32).toNat < 2 ^ 31 by decide) (fun _ => 0) (by decide)

/-- The drive takes 28 bits of the sector number, and reads the table in place of the
cluster. -/
theorem fat32_reads_table :
    ((closedFat32 (oneFile 0 0x10)).init 0).1 = 0 ∧ (oneFile 0 0x10).Good ∧
      ((closedFat32 (oneFile 0 0x10)).partition 0).sectorsPerCluster = 1 ∧
      ((closedFat32 (oneFile 0 0x10)).partition 0).Chain 2 [2] ∧
      ((closedFat32 (oneFile 0 0x10)).partition 0).Within 32 2 ∧
      (((closedFat32 (oneFile 0 0x10)).partition 0).content [2]).getD 0 0 = 7 ∧
      (((closedFat32 (oneFile 0 0x10)).init 0).2.readFile 2 2 (fun _ => 0) 1).2.1 0 = 0 := by
  exact ⟨by decide +kernel, fun _ => rfl, by decide +kernel, by decide +kernel, by decide +kernel,
    by decide +kernel, by decide +kernel⟩

end OsU
