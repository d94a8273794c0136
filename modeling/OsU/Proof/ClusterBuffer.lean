import OsU.Proof.DirWalk

/-!
# The bound of the cluster buffer

`cluster_buffer` has room for 8 sectors. What lies behind it is varied here: a call
stays in the buffer when it does the same and returns the same whatever is there, and
leaves it there (`InBuffer`). All calls on a volume do when its clusters have 8 sectors
at most; `fat32_init` does not look at that field, and with a ninth sector the first
cluster that is read is written over the bytes behind.

What is kept in those bytes is not modelled, and nothing is said of a call after its
first access there. Varying them finds that access without a memory for all of the
kernel: a call that reads there depends on them, and one that writes there does not
leave them.
-/

set_option autoImplicit false

namespace OsU

/-- The bytes of the buffer, and others behind it. -/
def spliced (m b : ByteMem) : ByteMem := fun i => if i < clusterBufferSize then m i else b i

/-- The driver with other bytes behind its cluster buffer. -/
def beyond (b : ByteMem) (s : Fat32) : Fat32 :=
  { s with clusterBuffer := spliced s.clusterBuffer b }

/-- A call of the driver neither reads nor writes behind the buffer: with other bytes
there it gives the same answer, makes the same calls back and fills the caller's buffer
alike, and the bytes are still there afterwards. -/
structure InBuffer (s : Fat32) : Prop where
  list : ∀ b n cluster, (beyond b s).listDir n cluster =
    ((s.listDir n cluster).1, (s.listDir n cluster).2.1, beyond b (s.listDir n cluster).2.2)
  find : ∀ b n dir name entry, (beyond b s).findEntry n dir name entry =
    ((s.findEntry n dir name entry).1, (s.findEntry n dir name entry).2.1,
      beyond b (s.findEntry n dir name entry).2.2)
  read : ∀ b n cluster buffer maxSize, (beyond b s).readFile n cluster buffer maxSize =
    ((s.readFile n cluster buffer maxSize).1, (s.readFile n cluster buffer maxSize).2.1,
      beyond b (s.readFile n cluster buffer maxSize).2.2)

/-- The states the driver can be in after some calls, failed ones and ones without an
end included: a call that runs out of its rounds leaves what it has read so far. -/
inductive AfterCalls (s : Fat32) : Fat32 → Prop where
  | start : AfterCalls s s
  | list {d : Fat32} (h : AfterCalls s d) (n : Nat) (cluster : UInt32) :
      AfterCalls s (d.listDir n cluster).2.2
  | find {d : Fat32} (h : AfterCalls s d) (n : Nat) (dir : UInt32) (name : List UInt8)
      (entry : ByteMem) : AfterCalls s (d.findEntry n dir name entry).2.2
  | read {d : Fat32} (h : AfterCalls s d) (n : Nat) (cluster : UInt32) (buffer : ByteMem)
      (maxSize : UInt32) : AfterCalls s (d.readFile n cluster buffer maxSize).2.2

/-- So do all calls from now on. -/
def StaysInBuffer (s : Fat32) : Prop := ∀ d, AfterCalls s d → InBuffer d

/-! ## Reads of the device -/

theorem spliced_copy {m b src : ByteMem} {a n : Nat} (h : a + n ≤ clusterBufferSize) :
    spliced (m.copy a src n) b = (spliced m b).copy a src n := by
  funext i
  simp only [spliced, ByteMem.copy_apply]
  by_cases hi : a ≤ i ∧ i < a + n
  · have hlt : i < clusterBufferSize := by omega
    simp only [if_pos hi, if_pos hlt]
  · simp only [if_neg hi]

theorem spliced_lt {m b : ByteMem} {i : Nat} (h : i < clusterBufferSize) : spliced m b i = m i :=
  if_pos h

theorem spliced_end (m b : ByteMem) : spliced m b clusterBufferSize = b clusterBufferSize :=
  if_neg (Nat.lt_irrefl clusterBufferSize)

@[simp] theorem beyond_clusterBuffer (b : ByteMem) (s : Fat32) :
    (beyond b s).clusterBuffer = spliced s.clusterBuffer b := rfl

/-- Sectors that fit are read into the buffer. -/
theorem diskReadLoop_spliced (b : ByteMem) (lba : Nat) {n s : Nat}
    (h : 512 * (s + n) ≤ clusterBufferSize) (buf : ByteMem) (d : Device) :
    diskReadLoop lba n s (spliced buf b) d =
      ((diskReadLoop lba n s buf d).1, spliced (diskReadLoop lba n s buf d).2.1 b,
        (diskReadLoop lba n s buf d).2.2) := by
  induction n generalizing s buf d with
  | zero => rfl
  | succ n ih =>
    rw [diskReadLoop, diskReadLoop]
    by_cases hp : (ataPoll d).1 ≠ 0
    · simp only [if_pos hp]
    · simp only [if_neg hp]
      rw [← spliced_copy (by omega), ih (by omega)]

section Fitting

variable {s : Fat32} (b : ByteMem)

theorem Narrow.count_le (h : Narrow s) : 512 * s.count ≤ clusterBufferSize := by
  have hcount : s.count ≤ s.sectorsPerCluster.toNat := by
    rw [Fat32.count, UInt32.toNat_toUInt8]
    exact Nat.mod_le _ _
  rw [Narrow] at h
  rw [clusterBufferSize]
  omega

theorem Narrow.entries_le (h : Narrow s) : 32 * entriesPerCluster s ≤ clusterBufferSize :=
  (OsU.entries_le (lt_of_le_of_lt h (by decide))).trans h.count_le

theorem Narrow.readCluster (h : Narrow s) (v : UInt32) :
    (beyond b s).readCluster v = ((s.readCluster v).1, beyond b (s.readCluster v).2) := by
  have hread := diskReadLoop_spliced b ((s.clusterToLba v).toNat % 2 ^ 28)
    (show 512 * (0 + s.count) ≤ clusterBufferSize by rw [Nat.zero_add]; exact h.count_le)
    s.clusterBuffer s.dev
  have hsame : (beyond b s).clusterToLba v = s.clusterToLba v ∧
      (beyond b s).sectorsPerCluster = s.sectorsPerCluster ∧
      (beyond b s).clusterBuffer = spliced s.clusterBuffer b ∧ (beyond b s).dev = s.dev :=
    ⟨rfl, rfl, rfl, rfl⟩
  rw [Fat32.count] at hread
  simp only [Fat32.readCluster, diskReadSectors, hsame, hread]
  rfl

theorem fatReadEntry_beyond (s : Fat32) (v : UInt32) :
    (beyond b s).fatReadEntry v = ((s.fatReadEntry v).1, beyond b (s.fatReadEntry v).2) := by
  have hcond : (beyond b s).fatStartLba = s.fatStartLba ∧
      (beyond b s).sectorBuffer = s.sectorBuffer ∧ (beyond b s).dev = s.dev := ⟨rfl, rfl, rfl⟩
  simp only [Fat32.fatReadEntry, hcond]
  split <;> rfl

/-! ## The three loops -/

theorem Narrow.fatReadEntry (h : Narrow s) (v : UInt32) : Narrow (s.fatReadEntry v).2 := by
  rw [Narrow, Fat32.fatReadEntry_spc]
  exact h

theorem Narrow.clusterRead (h : Narrow s) (v : UInt32) : Narrow (s.readCluster v).2 := h

theorem Narrow.listLoop (h : Narrow s) (n : Nat) (v : UInt32) (calls : List Fat32.DirCall) :
    Narrow (Fat32.listLoop n v calls s).2.2 ∧ Fat32.listLoop n v calls (beyond b s) =
      ((Fat32.listLoop n v calls s).1, (Fat32.listLoop n v calls s).2.1,
        beyond b (Fat32.listLoop n v calls s).2.2) := by
  induction n generalizing s v calls with
  | zero => exact ⟨h, rfl⟩
  | succ n ih =>
    have hle := h.entries_le
    have hspc : (beyond b s).sectorsPerCluster = s.sectorsPerCluster := rfl
    have hentries : Fat32.listEntries (beyond b (s.readCluster v).2).clusterBuffer
          (s.sectorsPerCluster * 512 / 32).toNat 0 =
        Fat32.listEntries (s.readCluster v).2.clusterBuffer
          (s.sectorsPerCluster * 512 / 32).toNat 0 :=
      listEntries_congr fun k hk => spliced_lt (by rw [entriesPerCluster] at hle; omega)
    rw [Fat32.listLoop, Fat32.listLoop, h.readCluster b v]
    by_cases hv : v < fat32Eoc
    · by_cases hr : (s.readCluster v).1 ≠ 0
      · simp only [if_pos hv, if_pos hr]
        exact ⟨h.clusterRead v, trivial⟩
      · simp only [if_pos hv, if_neg hr, hspc, hentries, fatReadEntry_beyond]
        split
        · exact ⟨h.clusterRead v, rfl⟩
        · exact ih ((h.clusterRead v).fatReadEntry v) _ _
    · simp only [if_neg hv]
      exact ⟨h, trivial⟩

theorem Narrow.findLoop (h : Narrow s) (name : List UInt8) (n : Nat) (v : UInt32) (entry : ByteMem) :
    Narrow (Fat32.findLoop name n v entry s).2.2 ∧ Fat32.findLoop name n v entry (beyond b s) =
      ((Fat32.findLoop name n v entry s).1, (Fat32.findLoop name n v entry s).2.1,
        beyond b (Fat32.findLoop name n v entry s).2.2) := by
  induction n generalizing s v entry with
  | zero => exact ⟨h, rfl⟩
  | succ n ih =>
    have hle := h.entries_le
    rw [entriesPerCluster] at hle
    have hspc : (beyond b s).sectorsPerCluster = s.sectorsPerCluster := rfl
    have hentries : Fat32.scanEntries name (beyond b (s.readCluster v).2).clusterBuffer
          (s.sectorsPerCluster * 512 / 32).toNat 0 =
        Fat32.scanEntries name (s.readCluster v).2.clusterBuffer
          (s.sectorsPerCluster * 512 / 32).toNat 0 :=
      scanEntries_congr fun k hk => spliced_lt (by omega)
    have hspec := scanEntries_spec name (s.readCluster v).2.clusterBuffer
      (s.sectorsPerCluster * 512 / 32).toNat 0
    rw [Fat32.findLoop, Fat32.findLoop, h.readCluster b v]
    by_cases hv : v < fat32Eoc
    · by_cases hr : (s.readCluster v).1 ≠ 0
      · simp only [if_pos hv, if_pos hr]
        exact ⟨h.clusterRead v, trivial⟩
      · simp only [if_pos hv, if_neg hr, hspc, hentries, fatReadEntry_beyond]
        revert hspec
        cases Fat32.scanEntries name (s.readCluster v).2.clusterBuffer
          (s.sectorsPerCluster * 512 / 32).toNat 0 with
        | missing => exact fun _ => ⟨h.clusterRead v, rfl⟩
        | found i =>
          intro hspec
          have hi := hspec.1
          -- the entry lies in the buffer
          have hcopy : entry.copy 0
                (fun k => (beyond b (s.readCluster v).2).clusterBuffer (32 * i + k)) 32 =
              entry.copy 0 (fun k => (s.readCluster v).2.clusterBuffer (32 * i + k)) 32 :=
            copy_congr fun k hk => spliced_lt (by omega)
          simp only [hcopy]
          exact ⟨h.clusterRead v, trivial⟩
        | more => exact fun _ => ih ((h.clusterRead v).fatReadEntry v) _ _
    · simp only [if_neg hv]
      exact ⟨h, trivial⟩

/-- A round of `fat32_read_file` copies a cluster at most. -/
theorem roundSize_le {maxSize done : UInt32} (hroom : done < maxSize) :
    (roundSize s maxSize done).toNat ≤ (s.sectorsPerCluster * 512).toNat := by
  rw [UInt32.lt_iff_toNat_lt] at hroom
  rw [roundSize]
  split
  · rename_i hover
    rw [gt_iff_lt, UInt32.lt_iff_toNat_lt, UInt32.toNat_add] at hover
    rw [UInt32.toNat_sub_of_le _ _ (UInt32.le_iff_toNat_le.mpr hroom.le)]
    omega
  · exact le_rfl

theorem Narrow.readFileLoop (h : Narrow s) (maxSize : UInt32) (n : Nat) (v done : UInt32)
    (buffer : ByteMem) :
    Narrow (Fat32.readFileLoop maxSize n v done buffer s).2.2 ∧
      Fat32.readFileLoop maxSize n v done buffer (beyond b s) =
        ((Fat32.readFileLoop maxSize n v done buffer s).1,
          (Fat32.readFileLoop maxSize n v done buffer s).2.1,
          beyond b (Fat32.readFileLoop maxSize n v done buffer s).2.2) := by
  induction n generalizing s v done buffer with
  | zero => exact ⟨h, rfl⟩
  | succ n ih =>
    have hspc : (beyond b s).sectorsPerCluster = s.sectorsPerCluster := rfl
    have hsize : (s.sectorsPerCluster * 512).toNat ≤ clusterBufferSize := by
      rw [Narrow] at h
      rw [UInt32.toNat_mul, show (512 : UInt32).toNat = 512 from rfl, clusterBufferSize]
      omega
    rw [Fat32.readFileLoop, Fat32.readFileLoop, h.readCluster b v]
    by_cases hv : v < fat32Eoc ∧ done < maxSize
    · by_cases hr : (s.readCluster v).1 ≠ 0
      · simp only [if_pos hv, if_pos hr]
        exact ⟨h.clusterRead v, trivial⟩
      · have hcopy : buffer.copy done.toNat (beyond b (s.readCluster v).2).clusterBuffer
              (roundSize s maxSize done).toNat =
            buffer.copy done.toNat (s.readCluster v).2.clusterBuffer
              (roundSize s maxSize done).toNat :=
          copy_congr fun k hk => spliced_lt (hk.trans_le ((roundSize_le hv.2).trans hsize))
        rw [roundSize] at hcopy
        simp only [if_pos hv, if_neg hr, hspc, hcopy, fatReadEntry_beyond]
        exact ih ((h.clusterRead v).fatReadEntry v) _ _ _
    · simp only [if_neg hv]
      exact ⟨h, trivial⟩

end Fitting

/-! ## The calls -/

theorem Narrow.inBuffer {s : Fat32} (h : Narrow s) : InBuffer s where
  list b n cluster := by
    have hvalid : (beyond b s).valid = s.valid := rfl
    rw [Fat32.listDir, Fat32.listDir, hvalid]
    split
    · rfl
    · exact (h.listLoop b n cluster []).2
  find b n dir name entry := by
    have hvalid : (beyond b s).valid = s.valid := rfl
    rw [Fat32.findEntry, Fat32.findEntry, hvalid]
    split
    · rfl
    · exact (h.findLoop b name n dir entry).2
  read b n cluster buffer maxSize := by
    have hvalid : (beyond b s).valid = s.valid := rfl
    rw [Fat32.readFile, Fat32.readFile, hvalid]
    split
    · rfl
    · exact (h.readFileLoop b maxSize n cluster 0 buffer).2

theorem AfterCalls.fits {s d : Fat32} (h : Narrow s) (hd : AfterCalls s d) : Narrow d := by
  induction hd with
  | start => exact h
  | list _ n cluster ih =>
    rw [Fat32.listDir]
    split
    · exact ih
    · exact (ih.listLoop (fun _ => 0) n cluster []).1
  | find _ n dir name entry ih =>
    rw [Fat32.findEntry]
    split
    · exact ih
    · exact (ih.findLoop (fun _ => 0) name n dir entry).1
  | read _ n cluster buffer maxSize ih =>
    rw [Fat32.readFile]
    split
    · exact ih
    · exact (ih.readFileLoop (fun _ => 0) maxSize n cluster 0 buffer).1

theorem fatReadEntry_clusterBuffer (s : Fat32) (v : UInt32) :
    (s.fatReadEntry v).2.clusterBuffer = s.clusterBuffer := by
  rw [Fat32.fatReadEntry]
  split <;> rfl

/-- The listing leaves the sectors of the cluster in the buffer, and behind it. -/
theorem listDir_buffer {s : Fat32} (hs : Opened s) (hg : s.dev.Good) {v : UInt32}
    (hv : v < fat32Eoc) {i : Nat} (hi : i < 512 * s.count) :
    (s.listDir 1 v).2.2.clusterBuffer i = s.clusterAt v i := by
  have hvalid : ¬ s.valid = false := by simp [hs.valid]
  obtain ⟨buf, hread, hbuf⟩ := Fat32.readCluster_ok v (hg.runs s.count)
  rw [Fat32.listDir, if_neg hvalid, Fat32.listLoop, if_pos hv, hread]
  simp only [ne_eq, not_true_eq_false, if_false]
  split
  · exact hbuf i hi
  · rw [Fat32.listLoop]
    exact (congrFun (fatReadEntry_clusterBuffer _ _) i).trans (hbuf i hi)

/-- More than 8 sectors are not kept in the buffer: the call that shows it is a listing,
which leaves the ninth sector behind the buffer. -/
theorem not_inBuffer {s : Fat32} (hs : Opened s) (hg : s.dev.Good) (h : ¬ Narrow s) :
    ¬ InBuffer s := by
  intro hin
  have hcount : s.count = s.sectorsPerCluster.toNat := by
    rw [Fat32.count, UInt32.toNat_toUInt8, Nat.mod_eq_of_lt hs.small]
  have hi : clusterBufferSize < 512 * s.count := by
    rw [Narrow] at h
    rw [clusterBufferSize]
    omega
  -- behind the buffer there is another byte than the cluster has
  generalize hb : (fun _ => s.clusterAt 2 clusterBufferSize + 1 : ByteMem) = b
  have hlist := congrArg (fun r => r.2.2.clusterBuffer clusterBufferSize) (hin.list b 1 2)
  have hkept : (beyond b (s.listDir 1 2).2.2).clusterBuffer clusterBufferSize =
      s.clusterAt 2 clusterBufferSize + 1 := by
    rw [beyond_clusterBuffer, spliced_end, ← hb]
  have hwritten : ((beyond b s).listDir 1 2).2.2.clusterBuffer clusterBufferSize =
      s.clusterAt 2 clusterBufferSize :=
    listDir_buffer (s := beyond b s) ⟨hs.valid, hs.small⟩ hg (by decide) hi
  have heq := hwritten.symm.trans (hlist.trans hkept)
  exact absurd heq (by simp)

/-- The boot sector is accepted whatever the device does later. -/
theorem init_good {s : Fat32} {lba : UInt32} (h : (s.init lba).1 = 0) :
    (({ s with dev := { s.dev with ok := fun _ => true } } : Fat32).init lba).1 = 0 := by
  rw [Fat32.init, diskReadSectors_one] at h ⊢
  by_cases hok : s.dev.ok s.dev.clock = true
  · rw [if_pos hok] at h
    rw [if_pos rfl]
    simp only [apply_ite Prod.fst] at h ⊢
    exact h
  · rw [if_neg hok] at h
    exact absurd h (by simp)

/-- The number of sectors is that of the boot sector. -/
theorem init_fits_iff {s : Fat32} {lba : UInt32} (h : (s.init lba).1 = 0) :
    Narrow (s.init lba).2 ↔ (s.dev.sectors (lba.toNat % 2 ^ 28) 13).toNat ≤ 8 := by
  obtain ⟨bpb, hbpb, hinit⟩ := init_ok h
  have hbyte : bpb 13 = s.dev.sectors (lba.toNat % 2 ^ 28) 13 := hbpb 13 (by decide)
  rw [hinit, Narrow, ← hbyte, UInt8.toNat_toUInt32]

/-- **The bound of the buffer.** A boot sector that is accepted keeps all later calls in
the buffer, whatever the device does then, if and only if it says 8 sectors per cluster
or fewer. The device may fail later, and it may hold anything on its other sectors. -/
theorem cluster_buffer_iff {s : Fat32} {lba : UInt32} (h : (s.init lba).1 = 0) :
    (∀ (t : Fat32) (lba' : UInt32), (t.init lba').1 = 0 →
        t.dev.sectors (lba'.toNat % 2 ^ 28) = s.dev.sectors (lba.toNat % 2 ^ 28) →
        StaysInBuffer (t.init lba').2) ↔
      (s.dev.sectors (lba.toNat % 2 ^ 28) 13).toNat ≤ 8 := by
  constructor
  · intro hall
    by_contra hwide
    have hgood := init_good h
    have hstays := hall _ lba hgood rfl
    have hfits : ¬ Narrow (({ s with dev := { s.dev with ok := fun _ => true } } : Fat32).init
        lba).2 := fun hf => hwide ((init_fits_iff hgood).mp hf)
    have hdev : (({ s with dev := { s.dev with ok := fun _ => true } } : Fat32).init
        lba).2.dev.Good := by
      obtain ⟨bpb, -, hinit⟩ := init_ok hgood
      rw [hinit]
      exact fun _ => rfl
    exact not_inBuffer (init_opened hgood) hdev hfits (hstays _ .start)
  · intro hle t lba' ht hboot d hd
    have hfits : Narrow (t.init lba').2 := by
      rw [init_fits_iff ht, hboot]
      exact hle
    exact (hd.fits hfits).inBuffer

/-- One sector per cluster. -/
theorem cluster_buffer_one : StaysInBuffer ((closedFat32 (oneFile 1 0)).init 0).2 := by
  have hopen : ((closedFat32 (oneFile 1 0)).init 0).1 = 0 := by decide +kernel
  exact (cluster_buffer_iff hopen).mpr (by decide) _ 0 hopen rfl

/-- A partition with 16 sectors per cluster, all of them full of sevens but for an end mark. -/
def wideClusters : Device where
  sectors l :=
    if l = 0 then fun i =>
      if i.val = 12 then 2 else if i.val = 13 then 16
      else if i.val = 14 ∨ i.val = 16 ∨ i.val = 36 then 1 else 0
    else fun i => if i.val = 0 then 0 else 7
  ok := fun _ => true
  clock := 0
  written := []

/-- It is accepted, and the listing of cluster 2 writes behind the buffer. -/
theorem cluster_buffer_wide :
    ((closedFat32 wideClusters).init 0).1 = 0 ∧
      ((closedFat32 wideClusters).init 0).2.clusterBuffer 4097 = 0 ∧
      (((closedFat32 wideClusters).init 0).2.listDir 1 2).2.2.clusterBuffer 4097 = 7 ∧
      ¬ StaysInBuffer ((closedFat32 wideClusters).init 0).2 := by
  have hopen : ((closedFat32 wideClusters).init 0).1 = 0 := by decide +kernel
  have hfits : ¬ Narrow ((closedFat32 wideClusters).init 0).2 := by
    rw [init_fits_iff hopen]
    decide
  refine ⟨hopen, by decide +kernel, by decide +kernel, fun h => ?_⟩
  exact not_inBuffer (init_opened hopen) (fun _ => rfl) hfits (h _ .start)

end OsU
