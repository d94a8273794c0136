import OsU.Proof.Lookup
import OsU.Proof.WriteChain
import OsU.Volume.Edit

/-!
# Committing an edit

The mutators end alike: `flush_fat`, then `flush_current_dir` (`commit`). Before that,
an operation has edited the table and one entry of the loaded directory (`Pending`);
whether the edit of the entry reaches the volume depends on where the directory lives.
The root is the buffer, so it always does. Any other directory is on the disk, so it
does only if the flush completes, and the table has been edited either way.

`Pending.finish` and `Pending.abandon` turn a pending edit into an edit of the volume
(`Done`).

The volume is what the driver would see: the table and the root from its buffers, and
everything else from the disk. That is why a flush of the table is no change of the
volume at all, and a failed one no loss, as long as the driver stays mounted; what a
later mount would see is the subject of `Coherence`.

`Done` carries the log of the writes as well, since where an operation writes is asked
of it later (`Containment`).
-/

set_option autoImplicit false

namespace OsU

/-! ## The flushes -/

/-- The log entries of the flushes with `d` as the current directory. -/
def Flushed (d : Nat) (p : Writer × Nat) : Prop :=
  (p.1 = .flushFat ∧ 4097 ≤ p.2 ∧ p.2 < 4129) ∨ (p.1 = .flushRoot ∧ 4129 ≤ p.2 ∧ p.2 < 4137) ∨
    (p.1 = .flushCurrentDir ∧ 2 ≤ d ∧ p.2 = 4135 + d)

/-- The sectors that hold the current directory. -/
def dirSectors (d : Nat) : Nat := if d = 0 then 8 else 1

/-- The first of them. -/
def dirLba (d : Nat) : Nat := if d = 0 then 4129 else 4135 + d

/-- A flush: `n` sectors of `buf` from `lba` on, all there if it returns 0. It returns 0
exactly when the next `n` polls succeed, so the outcome of a call is known before it is
made. -/
structure FlushSpec (lba n : Nat) (buf : ByteMem) (d : Device) (r : Int × Device) : Prop where
  ok : r.1 = 0 ↔ d.Runs n
  clock : d.Runs n → r.2.clock = d.clock + n
  sectors : d.Runs n → ∀ x, r.2.sectors x =
    if lba ≤ x ∧ x < lba + n then sectorOf buf (x - lba) else d.sectors x

theorem diskWriteSectors_spec (w : Writer) {lba : Nat} (n : Nat) (buf : ByteMem) (d : Device)
    (hlba : lba % 2 ^ 28 = lba) :
    (∃ new, Wrote d (diskWriteSectors w lba n buf d).2 new ∧
      ∀ p ∈ new, p.1 = w ∧ lba ≤ p.2 ∧ p.2 < lba + n) ∧
    FlushSpec lba n buf d (diskWriteSectors w lba n buf d) := by
  obtain ⟨h₁, h₂, h₃⟩ := diskWriteLoop_spec w lba buf n 0 d
  rw [diskWriteSectors, hlba]
  exact ⟨h₁, h₂, fun hr => (h₃ hr).1, fun hr => (h₃ hr).2⟩

theorem flushFat_spec (s : Fs) (d : Nat) :
    (flushFat s).2 = { s with dev := (flushFat s).2.dev } ∧
    (∃ new, Wrote s.dev (flushFat s).2.dev new ∧ ∀ p ∈ new, Flushed d p ∧ p.2 < 4129) ∧
    FlushSpec 4097 32 s.fatBuf s.dev ((flushFat s).1, (flushFat s).2.dev) := by
  obtain ⟨⟨new, hw, hb⟩, hs⟩ := diskWriteSectors_spec .flushFat 32 s.fatBuf s.dev
    (show 4097 % 2 ^ 28 = 4097 by norm_num)
  exact ⟨rfl, ⟨new, hw, fun p hp => ⟨Or.inl (hb p hp), (hb p hp).2.2⟩⟩, hs⟩

theorem flushRoot_spec (s : Fs) :
    (flushRoot s).2 = { s with dev := (flushRoot s).2.dev } ∧
    (∃ new, Wrote s.dev (flushRoot s).2.dev new ∧
      ∀ p ∈ new, p.1 = .flushRoot ∧ 4129 ≤ p.2 ∧ p.2 < 4137) ∧
    FlushSpec 4129 8 s.rootBuf s.dev ((flushRoot s).1, (flushRoot s).2.dev) := by
  obtain ⟨⟨new, hw, hb⟩, hs⟩ := diskWriteSectors_spec .flushRoot 8 s.rootBuf s.dev
    (show 4129 % 2 ^ 28 = 4129 by norm_num)
  exact ⟨rfl, ⟨new, hw, hb⟩, hs⟩

/-- `flush_current_dir` writes the directory from the buffer that holds it. -/
theorem flushCurrentDir_spec {s : Fs} (hs : s.AtDir) :
    (flushCurrentDir s).2 = { s with dev := (flushCurrentDir s).2.dev } ∧
    (∃ new, Wrote s.dev (flushCurrentDir s).2.dev new ∧
      ∀ p ∈ new, Flushed s.currentDirCluster p ∧ dirLba s.currentDirCluster ≤ p.2 ∧
        p.2 < dirLba s.currentDirCluster + dirSectors s.currentDirCluster) ∧
    FlushSpec (dirLba s.currentDirCluster) (dirSectors s.currentDirCluster) s.entBuf s.dev
      ((flushCurrentDir s).1, (flushCurrentDir s).2.dev) := by
  by_cases h0 : s.currentDirCluster = 0
  · obtain ⟨hst, ⟨new, hw, hb⟩, hsp⟩ := flushRoot_spec s
    rw [flushCurrentDir, if_pos h0, dirLba, if_pos h0, dirSectors, if_pos h0, Fs.entBuf, if_pos h0]
    exact ⟨hst, ⟨new, hw, fun p hp => ⟨Or.inr (Or.inl (hb p hp)), (hb p hp).2⟩⟩, hsp⟩
  · have h2 : 2 ≤ s.currentDirCluster := hs.1.resolve_left h0
    have hlba : clusterLba s.currentDirCluster = 4135 + s.currentDirCluster := clusterLba_eq hs.2
    obtain ⟨⟨new, hw, hb⟩, hsp⟩ := diskWriteSectors_spec .flushCurrentDir 1 s.dirBuf s.dev
      (show (4135 + s.currentDirCluster) % 2 ^ 28 = 4135 + s.currentDirCluster by have := hs.2; omega)
    rw [flushCurrentDir, if_neg h0, dirLba, if_neg h0, dirSectors, if_neg h0, Fs.entBuf, if_neg h0,
      hlba]
    refine ⟨rfl, ⟨new, hw, fun p hp => ?_⟩, hsp⟩
    obtain ⟨e₁, e₂, e₃⟩ := hb p hp
    exact ⟨Or.inr (Or.inr ⟨e₁, h2, by omega⟩), e₂, e₃⟩

/-! ## The common tail -/

/-- The last two calls of the mutators, with the code an operation returns when one fails. -/
def commit (err : Int) (s : Fs) : Int × Fs :=
  let f := flushFat s
  if f.1 ≠ 0 then (err, f.2)
  else
    let g := flushCurrentDir f.2
    if g.1 ≠ 0 then (err, g.2) else (0, g.2)

/-- The sectors after a commit that went through. -/
def committed (s : Fs) (x : Nat) : Sector :=
  if 4097 ≤ x ∧ x < 4129 then sectorOf s.fatBuf (x - 4097)
  else if dirLba s.currentDirCluster ≤ x ∧
      x < dirLba s.currentDirCluster + dirSectors s.currentDirCluster then
    sectorOf s.entBuf (x - dirLba s.currentDirCluster)
  else s.dev.sectors x

/-- What a commit does: it succeeds when its polls do, and when it fails, no directory other than
the root has been stored. -/
structure CommitSpec (err : Int) (s : Fs) (r : Int × Fs) : Prop where
  state : r.2 = { s with dev := r.2.dev }
  code : (r.1 = 0 ∧ s.dev.Runs (32 + dirSectors s.currentDirCluster)) ∨
    (r.1 = err ∧ ¬ s.dev.Runs (32 + dirSectors s.currentDirCluster))
  wrote : ∃ new, Wrote s.dev r.2.dev new ∧ ∀ p ∈ new, Flushed s.currentDirCluster p
  done : s.dev.Runs (32 + dirSectors s.currentDirCluster) → r.2.dev.sectors = committed s
  failed : ¬ s.dev.Runs (32 + dirSectors s.currentDirCluster) → ∀ x, 4137 ≤ x →
    r.2.dev.sectors x = s.dev.sectors x

theorem dirLba_ge {s : Fs} (hs : s.AtDir) : 4129 ≤ dirLba s.currentDirCluster := by
  rw [dirLba]
  split
  · omega
  · have := hs.1.resolve_left ‹_›
    omega

theorem commit_spec (err : Int) {s : Fs} (hs : s.AtDir) : CommitSpec err s (commit err s) := by
  obtain ⟨hf, ⟨new, hw, hb⟩, hfs⟩ := flushFat_spec s s.currentDirCluster
  have hs' : (flushFat s).2.AtDir := by rw [hf]; exact hs
  obtain ⟨hg, ⟨new', hw', hb'⟩, hgs⟩ := flushCurrentDir_spec hs'
  have hcwd : (flushFat s).2.currentDirCluster = s.currentDirCluster := by rw [hf]
  have hbuf : (flushFat s).2.entBuf = s.entBuf := by rw [hf]; rfl
  rw [hcwd] at hb' hgs
  rw [hbuf] at hgs
  have hge := dirLba_ge hs
  by_cases hr : s.dev.Runs 32
  · have hadd := Device.runs_add (n := dirSectors s.currentDirCluster) hw.ok (hfs.clock hr)
    have hf0 : ¬ (flushFat s).1 ≠ 0 := fun h => h (hfs.ok.mpr hr)
    simp only [commit, if_neg hf0]
    by_cases hr' : (flushFat s).2.dev.Runs (dirSectors s.currentDirCluster)
    · have hg0 : ¬ (flushCurrentDir (flushFat s).2).1 ≠ 0 := fun h => h (hgs.ok.mpr hr')
      rw [if_neg hg0]
      refine ⟨?_, Or.inl ⟨rfl, hadd.mpr ⟨hr, hr'⟩⟩, ⟨_, hw.trans hw', fun p hp => ?_⟩, fun _ => ?_,
        fun hn => absurd (hadd.mpr ⟨hr, hr'⟩) hn⟩
      · rw [hg, hf]
      · rcases List.mem_append.mp hp with hp | hp
        · exact (hb p hp).1
        · exact (hb' p hp).1
      · funext x
        have h₁ := hgs.sectors hr' x
        have h₂ := hfs.sectors hr x
        simp only at h₁ h₂
        rw [h₁, h₂, committed]
        by_cases hx : 4097 ≤ x ∧ x < 4129
        · rw [if_neg (by omega), if_pos hx, if_pos hx]
        · rw [if_neg hx, if_neg hx]
    · have hg0 : (flushCurrentDir (flushFat s).2).1 ≠ 0 := fun h => hr' (hgs.ok.mp h)
      rw [if_pos hg0]
      have hnr : ¬ s.dev.Runs (32 + dirSectors s.currentDirCluster) := fun h => hr' (hadd.mp h).2
      refine ⟨?_, Or.inr ⟨rfl, hnr⟩, ⟨_, hw.trans hw', fun p hp => ?_⟩, fun h => absurd h hnr,
        fun _ x hx => ?_⟩
      · rw [hg, hf]
      · rcases List.mem_append.mp hp with hp | hp
        · exact (hb p hp).1
        · exact (hb' p hp).1
      · have hfr : (flushFat s).2.dev.sectors x = s.dev.sectors x := by
          refine hw.frame x fun p hp => ?_
          have := (hb p hp).2
          omega
        rw [← hfr]
        by_cases h0 : s.currentDirCluster = 0
        · refine hw'.frame x fun p hp => ?_
          have := (hb' p hp).2.2
          rw [dirLba, if_pos h0, dirSectors, if_pos h0] at this
          omega
        · -- One sector: when its poll failed, nothing was written.
          rw [dirSectors, if_neg h0] at hr'
          have hok : ¬ (flushFat s).2.dev.ok (flushFat s).2.dev.clock = true := fun h => hr' fun k hk => by
            obtain rfl : k = 0 := by omega
            exact h
          rw [flushCurrentDir, if_neg (by rw [hcwd]; exact h0), diskWriteSectors_one, if_neg hok]
  · have hf0 : (flushFat s).1 ≠ 0 := fun h => hr (hfs.ok.mp h)
    have hnr : ¬ s.dev.Runs (32 + dirSectors s.currentDirCluster) := fun h =>
      hr fun k hk => h k (by omega)
    simp only [commit, if_pos hf0]
    refine ⟨hf, Or.inr ⟨rfl, hnr⟩, ⟨_, hw, fun p hp => (hb p hp).1⟩, fun h => absurd h hnr,
      fun _ x hx => hw.frame x fun p hp => ?_⟩
    have := (hb p hp).2
    omega

/-- How an operation ends: `n` polls decide, and with them the directory is on the disk. The
sectors of other clusters stay. -/
structure Finish (t : Fs) (n : Nat) (r : Int × Fs) : Prop where
  state : r.2 = { t with dev := r.2.dev }
  code : r.1 = 0 ↔ t.dev.Runs n
  wrote : ∃ new, Wrote t.dev r.2.dev new ∧ ∀ p ∈ new, Flushed t.currentDirCluster p
  dir : t.dev.Runs n → 2 ≤ t.currentDirCluster →
    r.2.dev.sectors (4135 + t.currentDirCluster) = sectorOf t.entBuf 0
  failed : ¬ t.dev.Runs n → 2 ≤ t.currentDirCluster →
    r.2.dev.sectors (4135 + t.currentDirCluster) = t.dev.sectors (4135 + t.currentDirCluster)
  other : ∀ c, 2 ≤ c → c ≠ t.currentDirCluster →
    r.2.dev.sectors (4135 + c) = t.dev.sectors (4135 + c)

theorem commit_finish {err : Int} (herr : err ≠ 0) {t : Fs} (ht : t.AtDir) :
    Finish t (32 + dirSectors t.currentDirCluster) (commit err t) := by
  obtain ⟨hstate, hcode, hwrote, hdone, hfail⟩ := commit_spec err ht
  refine ⟨hstate, ?_, hwrote, fun hr h2 => ?_, fun hr h2 => hfail hr _ (by omega), fun c hc hcd => ?_⟩
  · rcases hcode with ⟨h, hr⟩ | ⟨h, hr⟩
    · exact iff_of_true h hr
    · exact iff_of_false (by rw [h]; exact herr) hr
  · have h0 : t.currentDirCluster ≠ 0 := by omega
    rw [hdone hr, committed, if_neg (by omega), dirLba, dirSectors, if_neg h0, if_neg h0,
      if_pos (by omega), Nat.sub_self]
  · by_cases hr : t.dev.Runs (32 + dirSectors t.currentDirCluster)
    · rw [hdone hr, committed, if_neg (by omega), if_neg]
      rw [dirLba, dirSectors]
      split <;> omega
    · exact hfail hr _ (by omega)

theorem flushCurrentDir_finish {t : Fs} (ht : t.AtDir) :
    Finish t (dirSectors t.currentDirCluster) (flushCurrentDir t) := by
  obtain ⟨hstate, ⟨new, hw, hb⟩, hcode, -, hsec⟩ := flushCurrentDir_spec ht
  refine ⟨hstate, hcode, ⟨new, hw, fun p hp => (hb p hp).1⟩, fun hr h2 => ?_, fun hr h2 => ?_,
    fun c hc hcd => hw.frame _ fun p hp => ?_⟩
  · have h0 : t.currentDirCluster ≠ 0 := by omega
    have := hsec hr (4135 + t.currentDirCluster)
    rwa [dirLba, dirSectors, if_neg h0, if_neg h0, if_pos (by omega), Nat.sub_self] at this
  · have h0 : t.currentDirCluster ≠ 0 := by omega
    rw [dirSectors, if_neg h0] at hr
    have hok : ¬ t.dev.ok t.dev.clock = true := fun h => hr fun k hk => by
      obtain rfl : k = 0 := by omega
      exact h
    rw [flushCurrentDir, if_neg h0, diskWriteSectors_one, if_neg hok]
  · have := (hb p hp).2
    rw [dirLba, dirSectors] at this
    split at this <;> omega

/-! ## Pending edits

Between the scan and the flushes the edit is in memory only. Where it is from there
depends on the directory and on the device: the root has it in any case, since the
buffer is the root; another directory has it when its sector is stored. -/

/-- Between `s`, where an operation starts, and `t`, where it has flushed nothing yet:
the chain of `first` is freed and `l` linked in the table, and the sectors of the
clusters `ws` are stored. The clusters stored need not be those linked: a write that
fails has stored some and linked none. -/
structure Held (s t : Fs) (first : Nat) (l ws : List Nat) : Prop
    extends FatEdit (fatGet s.fatBuf) (fatGet t.fatBuf) first l where
  fsReady : t.fsReady = s.fsReady
  currentDirCluster : t.currentDirCluster = s.currentDirCluster
  currentPath : t.currentPath = s.currentPath
  rootBuf : s.currentDirCluster ≠ 0 → t.rootBuf = s.rootBuf
  stored : ∀ c ∈ ws, InRange c ∧ (fatGet s.fatBuf c = 0 ∨ OnChain (fatGet s.fatBuf) first c)
  wrote : ∃ w, (w = .writeClusterChain ∨ w = .fsMkdir) ∧
    Wrote s.dev t.dev (ws.map fun c => (w, 4135 + c))

/-- The directory is loaded as well, and slot `i` of it holds `e`. -/
structure Pending (s t : Fs) (i : Nat) (e : FatDirEntry) (first : Nat) (l ws : List Nat) : Prop
    extends Held s t first l ws where
  slot_lt : i < maxEntries s.currentDirCluster
  ent_at : t.ent i = e
  ent_other : s.currentDirCluster ∉ ws → ∀ j < maxEntries s.currentDirCluster, j ≠ i →
    t.ent j = s.volume.slot s.currentDirCluster j

/-- A log entry of an operation with `d` as the current directory. -/
def Logged (d : Nat) (p : Writer × Nat) : Prop :=
  Flushed d p ∨ ((p.1 = .writeClusterChain ∨ p.1 = .fsMkdir) ∧ ∃ c, InRange c ∧ p.2 = 4135 + c)

/-- An edit that was carried out, `reached` saying whether the entry is on the volume.
If it is not, the slot has what it had, and the table is edited all the same. -/
structure Done (s s' : Fs) (reached : Prop) (i : Nat) (e : FatDirEntry) (first : Nat)
    (l ws : List Nat) : Prop
    extends Edit s.volume s'.volume s.currentDirCluster i first l ws where
  fsReady : s'.fsReady = s.fsReady
  currentDirCluster : s'.currentDirCluster = s.currentDirCluster
  currentPath : s'.currentPath = s.currentPath
  slot_lt : i < maxEntries s.currentDirCluster
  slot_new : reached → s'.volume.slot s.currentDirCluster i = e
  slot_old : ¬ reached → s.currentDirCluster ∉ ws →
    s'.volume.slot s.currentDirCluster i = s.volume.slot s.currentDirCluster i
  sector_old : ¬ reached → s.currentDirCluster ∉ ws →
    s'.volume.sector s.currentDirCluster = s.volume.sector s.currentDirCluster
  ok : s'.dev.ok = s.dev.ok
  log : ∃ new, s'.dev.written = s.dev.written ++ new ∧ ∀ p ∈ new, Logged s.currentDirCluster p

theorem Done.mono {s s' : Fs} {p q : Prop} {i : Nat} {e : FatDirEntry} {first : Nat}
    {l ws : List Nat} (h : Done s s' p i e first l ws) (hpq : p ↔ q) :
    Done s s' q i e first l ws :=
  { h with
    slot_new := fun hq => h.slot_new (hpq.mpr hq)
    slot_old := fun hq => h.slot_old fun hp => hq (hpq.mp hp)
    sector_old := fun hq => h.sector_old fun hp => hq (hpq.mp hp) }

theorem slot_of_ne {v v' : Volume} {d j : Nat} (h0 : d ≠ 0) (h : v'.sector d = v.sector d) :
    v'.slot d j = v.slot d j := by
  rw [Volume.slot, Volume.slot, if_neg h0, if_neg h0, h]

theorem slot_root_eq {s : Fs} {j : Nat} (h0 : s.currentDirCluster = 0) :
    s.volume.slot 0 j = s.ent j := by
  rw [Fs.ent, Fs.entBuf, if_pos h0]
  rfl

namespace Held

variable {s t : Fs} {first : Nat} {l ws : List Nat}

theorem atDir (h : Held s t first l ws) (hs : s.AtDir) : t.AtDir := by
  rw [Fs.AtDir, h.currentDirCluster]
  exact hs

/-- A sector that was not stored. -/
theorem sector_eq (h : Held s t first l ws) {x : Nat} (hx : ∀ c ∈ ws, 4135 + c ≠ x) :
    t.dev.sectors x = s.dev.sectors x := by
  obtain ⟨w, -, hw⟩ := h.wrote
  refine hw.frame x fun p hp => ?_
  obtain ⟨c, hc, rfl⟩ := List.mem_map.mp hp
  exact hx c hc

theorem written (h : Held s t first l ws) :
    ∃ new, t.dev.written = s.dev.written ++ new ∧ ∀ p ∈ new, Logged s.currentDirCluster p := by
  obtain ⟨w, hw, hwr⟩ := h.wrote
  refine ⟨_, hwr.written, fun p hp => ?_⟩
  obtain ⟨c, hc, rfl⟩ := List.mem_map.mp hp
  exact Or.inr ⟨hw, c, (h.stored c hc).1, rfl⟩

theorem slot_eq (h : Held s t first l ws) (s' : Fs) (hroot : s'.rootBuf = t.rootBuf)
    (hsec : ∀ c, 2 ≤ c → c ≠ s.currentDirCluster → s'.dev.sectors (4135 + c) = t.dev.sectors (4135 + c))
    {d' j : Nat} (hd' : DirNo d') (hw : d' ∉ ws) (hj : j < maxEntries d')
    (hne : d' ≠ s.currentDirCluster) : s'.volume.slot d' j = s.volume.slot d' j := by
  by_cases h0 : d' = 0
  · subst h0
    have hr := h.rootBuf (Ne.symm hne)
    simp only [Volume.slot, if_true, Fs.volume, hroot, hr]
  · refine slot_of_ne h0 ?_
    show s'.dev.sectors (4135 + d') = s.dev.sectors (4135 + d')
    rw [hsec d' (hd'.resolve_left h0) hne]
    exact h.sector_eq fun c hc he => hw (by rwa [show d' = c by omega])

theorem dir_eq (h : Held s t first l ws) (hw : s.currentDirCluster ∉ ws) :
    t.volume.sector s.currentDirCluster = s.volume.sector s.currentDirCluster :=
  h.sector_eq fun c hc he => hw (by rwa [show s.currentDirCluster = c by omega])

/-- The edit is given up, and the directory is on the disk: what was allocated is lost. -/
theorem abandon (h : Held s t first l ws) (h0 : s.currentDirCluster ≠ 0) {i : Nat}
    (hi : i < maxEntries s.currentDirCluster) (e : FatDirEntry) :
    Done s t False i e first l ws where
  toFatEdit := h.toFatEdit
  stored := h.stored
  slot_kept := by
    intro d' j hd' hw hj hne
    by_cases hdc : d' = s.currentDirCluster
    · subst hdc
      exact slot_of_ne h0 (h.dir_eq hw)
    · exact h.slot_eq t rfl (fun _ _ _ => rfl) hd' hw hj hdc
  sector_kept := fun c _ hcw _ => h.sector_eq fun x hx he => hcw (by rwa [show c = x by omega])
  fsReady := h.fsReady
  currentDirCluster := h.currentDirCluster
  currentPath := h.currentPath
  slot_lt := hi
  slot_new := False.elim
  slot_old := fun _ hw => slot_of_ne h0 (h.dir_eq hw)
  sector_old := fun _ hw => h.dir_eq hw
  ok := by
    obtain ⟨w, -, hw⟩ := h.wrote
    exact hw.ok
  log := h.written

end Held

namespace Pending

variable {s t : Fs} {i : Nat} {e : FatDirEntry} {first : Nat} {l ws : List Nat}

/-- The edit is given up: the root has it, any other directory does not. -/
theorem abandon (h : Pending s t i e first l ws) :
    Done s t (s.currentDirCluster = 0) i e first l ws where
  toFatEdit := h.toFatEdit
  stored := h.stored
  slot_kept := by
    intro d' j hd' hw hj hne
    by_cases hdc : d' = s.currentDirCluster
    · have hji : j ≠ i := fun he => hne ⟨hdc, he⟩
      subst hdc
      by_cases h0 : s.currentDirCluster = 0
      · rw [← h.ent_other hw j hj hji, h0, slot_root_eq (h.currentDirCluster.trans h0)]
      · exact slot_of_ne h0 (h.dir_eq hw)
    · exact h.slot_eq t rfl (fun _ _ _ => rfl) hd' hw hj hdc
  sector_kept := fun c _ hcw _ => h.sector_eq fun x hx he => hcw (by rwa [show c = x by omega])
  fsReady := h.fsReady
  currentDirCluster := h.currentDirCluster
  currentPath := h.currentPath
  slot_lt := h.slot_lt
  slot_new := fun h0 => by
    rw [h0, slot_root_eq (h.currentDirCluster.trans h0), h.ent_at]
  slot_old := fun h0 hw => slot_of_ne h0 (h.dir_eq hw)
  sector_old := fun _ hw => h.dir_eq hw
  ok := by
    obtain ⟨w, -, hw⟩ := h.wrote
    exact hw.ok
  log := h.written

/-- The edit is flushed: it reaches the volume unless the directory is not the root and the
flushes fail. -/
theorem finish (h : Pending s t i e first l ws) (hs : s.AtDir) {n : Nat} {r : Int × Fs}
    (hf : Finish t n r) :
    Done s r.2 (s.currentDirCluster = 0 ∨ t.dev.Runs n) i e first l ws ∧
    ∀ c, 2 ≤ c → c ≠ s.currentDirCluster → r.2.volume.sector c = t.volume.sector c := by
  obtain ⟨hstate, -, ⟨new, hnew, hflush⟩, hdir, hfail, hsec⟩ := hf
  rw [h.currentDirCluster] at hdir hfail hflush hsec
  have hroot : r.2.rootBuf = t.rootBuf := by rw [hstate]
  have hfat : r.2.fatBuf = t.fatBuf := by rw [hstate]
  -- The new entry is on the volume at once in the root, whose buffer is the root; below
  -- it, if the sector has been written.
  have hnow : ∀ j < maxEntries s.currentDirCluster, s.currentDirCluster = 0 ∨ t.dev.Runs n →
      r.2.volume.slot s.currentDirCluster j = t.ent j := by
    intro j hj hk
    by_cases h0 : s.currentDirCluster = 0
    · rw [h0, ← slot_root_eq (h.currentDirCluster.trans h0)]
      simp only [Volume.slot, if_true, Fs.volume, hroot]
    · rw [maxEntries, if_neg h0] at hj
      simp only [Volume.slot, if_neg h0, Fs.volume, hdir (hk.resolve_left h0) (hs.1.resolve_left h0)]
      rw [entryAt_mem_sectorOf _ hj, Fs.ent]
  -- A sector that has not been written is that of before the call.
  have hsame : ¬ (s.currentDirCluster = 0 ∨ t.dev.Runs n) → s.currentDirCluster ∉ ws →
      r.2.volume.sector s.currentDirCluster = s.volume.sector s.currentDirCluster := by
    intro hk hw
    obtain ⟨h0, hr⟩ := not_or.mp hk
    exact (hfail hr (hs.1.resolve_left h0)).trans (h.dir_eq hw)
  have hold : ¬ (s.currentDirCluster = 0 ∨ t.dev.Runs n) → s.currentDirCluster ∉ ws →
      ∀ j, r.2.volume.slot s.currentDirCluster j = s.volume.slot s.currentDirCluster j :=
    fun hk hw j => slot_of_ne (not_or.mp hk).1 (hsame hk hw)
  refine ⟨?_, hsec⟩
  exact {
    toFatEdit := by
      show FatEdit _ (fatGet r.2.fatBuf) first l
      rw [hfat]
      exact h.toFatEdit
    stored := h.stored
    slot_kept := by
      intro d' j hd' hw hj hne
      by_cases hdc : d' = s.currentDirCluster
      · subst hdc
        have hji : j ≠ i := fun he => hne ⟨rfl, he⟩
        by_cases hk : s.currentDirCluster = 0 ∨ t.dev.Runs n
        · rw [hnow j hj hk, h.ent_other hw j hj hji]
        · exact hold hk hw j
      · exact h.slot_eq _ hroot hsec hd' hw hj hdc
    sector_kept := fun c hc2 hcw hcd => by
      refine (hsec c hc2 hcd).trans (h.sector_eq fun x hx he => hcw ?_)
      rwa [show c = x by omega]
    fsReady := by rw [hstate]; exact h.fsReady
    currentDirCluster := by rw [hstate]; exact h.currentDirCluster
    currentPath := by rw [hstate]; exact h.currentPath
    slot_lt := h.slot_lt
    slot_new := fun hk => by rw [hnow i h.slot_lt hk, h.ent_at]
    slot_old := fun hk hw => hold hk hw i
    sector_old := hsame
    ok := by
      obtain ⟨w, -, hw⟩ := h.wrote
      rw [hnew.ok, hw.ok]
    log := by
      obtain ⟨new₀, hw₀, hl₀⟩ := h.written
      refine ⟨new₀ ++ new, by rw [hnew.written, hw₀, List.append_assoc], fun p hp => ?_⟩
      rcases List.mem_append.mp hp with hp | hp
      · exact hl₀ p hp
      · exact Or.inl (hflush p hp) }

/-- An operation that ends with 0 got its edit to the volume. -/
theorem settle (h : Pending s t i e first l ws) (hs : s.AtDir) {n : Nat} {r : Int × Fs}
    (hf : Finish t n r) (h0 : r.1 = 0) :
    Done s r.2 True i e first l ws ∧
    ∀ c, 2 ≤ c → c ≠ s.currentDirCluster → r.2.volume.sector c = t.volume.sector c := by
  obtain ⟨hd, hsec⟩ := h.finish hs hf
  exact ⟨hd.mono (iff_of_true (Or.inr (hf.code.mp h0)) trivial), hsec⟩

end Pending

end OsU
