import OsU.Proof.Directories

/-!
# Write-through

Table and root are kept in memory, and the volume is mounted again from the disk. A call
that returns 0 has flushed what it edited: the table and the directory, where the
directory is either the root buffer or a sector of its own, clear of table and root. So
the disk holds the buffers after it if it did before (`Coherent`), and mounting that
disk finds a valid boot sector and loads the buffers back.

Nothing is asked of the device or of the volume. The volume may be any bytes, since
coherence is about copies being equal and not about what they say; and a transfer that
fails makes a call return something else than 0, so a call that returned 0 saw none
fail.
-/

set_option autoImplicit false

namespace OsU

/-- The disk can be mounted, and holds the buffers: its boot sector passes the mount's
test, and the sectors of table and root have the bytes in memory. -/
structure Coherent (s : Fs) : Prop where
  boot : s.dev.BootOk
  synced : Synced s.dev s.fatBuf s.rootBuf

theorem Quiet.coherent {s s' : Fs} (h : Quiet s s') (hc : Coherent s) : Coherent s' := by
  obtain ⟨hb, hf, hr⟩ := hc
  refine ⟨?_, fun k hk => ?_, fun k hk => ?_⟩
  · rw [Device.BootOk, h.sectors]
    exact hb
  · rw [h.sectors, h.fatBuf]
    exact hf k hk
  · rw [h.sectors, h.rootBuf]
    exact hr k hk

namespace Held

variable {s t : Fs} {first : Nat} {l ws : List Nat}

/-- Before its flushes an operation has stored data sectors only. -/
theorem meta_eq (h : Held s t first l ws) {x : Nat} (hx : x < 4137) :
    t.dev.sectors x = s.dev.sectors x :=
  h.sector_eq fun c hc => by
    have := (inRange_iff.mp (h.stored c hc).1).1
    omega

/-- Flushed are the table and, if it is the current directory, the root; the rest of
what is mounted is where it was. In a subdirectory the flush goes to a sector of the
data area, and the root on the disk is the old one, as it is in memory. -/
theorem coherent (h : Held s t first l ws) (hc : Coherent s) {d : Device}
    (hfat : ∀ k < 32, d.sectors (4097 + k) = sectorOf t.fatBuf k)
    (hroot : s.currentDirCluster = 0 → ∀ k < 8, d.sectors (4129 + k) = sectorOf t.rootBuf k)
    (hkept : ∀ x < 4137, x < 4097 ∨ s.currentDirCluster ≠ 0 ∧ 4129 ≤ x →
      d.sectors x = t.dev.sectors x) : Coherent { t with dev := d } := by
  refine ⟨?_, hfat, fun k hk => ?_⟩
  · show validBoot (d.sectors 4096).mem = true
    rw [hkept 4096 (by omega) (Or.inl (by omega)), h.meta_eq (by omega)]
    exact hc.boot
  · by_cases h0 : s.currentDirCluster = 0
    · exact hroot h0 k hk
    · show d.sectors (4129 + k) = sectorOf t.rootBuf k
      rw [hkept _ (by omega) (Or.inr ⟨h0, by omega⟩), h.meta_eq (by omega), h.rootBuf h0]
      exact hc.synced.root k hk

theorem coherent_commit (h : Held s t first l ws) (hs : s.AtDir) (hc : Coherent s) {err : Int}
    (herr : err ≠ 0) (h0 : (commit err t).1 = 0) : Coherent (commit err t).2 := by
  obtain ⟨hstate, hcode, -, hdone, -⟩ := commit_spec err (h.atDir hs)
  have hruns : t.dev.Runs (32 + dirSectors t.currentDirCluster) := by
    rcases hcode with ⟨-, hr⟩ | ⟨he, -⟩
    · exact hr
    · exact absurd (he.symm.trans h0) herr
  rw [hstate]
  have hsec := hdone hruns
  have hcwd := h.currentDirCluster
  refine h.coherent hc (fun k hk => ?_) (fun hroot k hk => ?_) (fun x hx hout => ?_) <;>
    rw [hsec, committed]
  · rw [if_pos (by omega), show 4097 + k - 4097 = k by omega]
  · rw [hcwd, hroot, if_neg (by omega), dirLba, if_pos rfl, dirSectors, if_pos rfl,
      if_pos (by omega), show 4129 + k - 4129 = k by omega, Fs.entBuf, if_pos (hcwd.trans hroot)]
  · rw [if_neg (by omega), if_neg]
    rw [hcwd, dirLba, dirSectors]
    have := hs.1
    rw [DirNo] at this
    split <;> omega

end Held

/-- An entry made without touching the table needs no flush of it. -/
theorem Pending.coherent_flush {s t : Fs} {i : Nat} {e : FatDirEntry} (h : Pending s t i e 0 [] [])
    (hs : s.AtDir) (hc : Coherent s) (h0 : (flushCurrentDir t).1 = 0) :
    Coherent (flushCurrentDir t).2 := by
  obtain ⟨hstate, -, hok, -, hsec⟩ := flushCurrentDir_spec (h.atDir hs)
  have hsec := hsec (hok.mp h0)
  simp only at hsec
  rw [hstate]
  have hcwd := h.currentDirCluster
  have hge := dirLba_ge (h.atDir hs)
  refine h.coherent hc (fun k hk => ?_) (fun hroot k hk => ?_) (fun x hx hout => ?_) <;> rw [hsec]
  · rw [if_neg (by omega), h.meta_eq (by omega), h.eq]
    exact hc.synced.fat k hk
  · rw [hcwd, hroot, dirLba, if_pos rfl, dirSectors, if_pos rfl, if_pos (by omega),
      show 4129 + k - 4129 = k by omega, Fs.entBuf, if_pos (hcwd.trans hroot)]
  · rw [if_neg]
    rw [hcwd, dirLba, dirSectors]
    have := hs.1
    rw [DirNo] at this
    split <;> omega

/-! ## The calls -/

section Calls

variable {s : Fs} (hs : s.AtDir) (hc : Coherent s)
include hs hc

theorem fsWriteRaw_coherent {name data : List UInt8} (h0 : (fsWriteRaw name data s).1 = 0) :
    Coherent (fsWriteRaw name data s).2 := by
  rcases fsWriteRaw_cases hs name data with ⟨hr, -⟩ | ⟨i, e, u, -, hp, -, -, he⟩
  · exact absurd h0 hr.code
  · rw [he] at h0 ⊢
    rcases writeEntry_cases hp data with ⟨ws, hcode, -⟩ | ⟨t, l, hpt, hcommit, -⟩
    · rw [hcode] at h0
      exact absurd h0 (by decide)
    · rw [hcommit] at h0 ⊢
      exact hpt.toHeld.coherent_commit hs hc (by decide) h0

theorem fsMkdir_coherent {name : List UInt8} (h0 : (fsMkdir name s).1 = 0) :
    Coherent (fsMkdir name s).2 := by
  rcases fsMkdir_cases hs name with hr | ⟨i, x, -, -, -, -, ⟨-, hne, -⟩ | ⟨t, hp, -, he⟩⟩
  · exact absurd h0 hr.code
  · exact absurd h0 hne
  · rw [he] at h0 ⊢
    exact hp.toHeld.coherent_commit hs hc (by decide) h0

theorem chdirRelative_coherent (path : List UInt8) : Coherent (chdirRelative path s).2 := by
  -- Only the cluster and the path move, and they are not on the disk.
  have hmove : ∀ c p, Coherent { s with currentDirCluster := c, currentPath := p } := fun _ _ =>
    ⟨hc.boot, hc.synced⟩
  rcases chdirRelative_cases hs path with hr | ⟨-, ⟨-, -, hq⟩ | ⟨-, -, hq⟩ | ⟨i, -, -, hq⟩⟩
  · exact hr.quiet.coherent hc
  · exact hq.coherent hc
  · exact hq.coherent (hmove _ _)
  · exact hq.coherent (hmove _ _)

/-- **A call that returns 0 leaves the disk and the buffers in step.** -/
theorem Coherent.step {op : FsOp} (h0 : (op.exec s).1 = 0) : Coherent (op.step s) := by
  cases op with
  | touch name =>
    -- A name that is there is left alone, with the same code as a new one.
    rcases fsTouch_cases hs name with hq | ⟨i, t, -, -, hp, he⟩
    · exact hq.coherent hc
    · change (fsTouch name s).1 = 0 at h0
      show Coherent (fsTouch name s).2
      rw [he] at h0 ⊢
      exact hp.coherent_flush hs hc h0
  | remove name =>
    change (fsRemove name s).1 = 0 at h0
    show Coherent (fsRemove name s).2
    rcases fsRemove_cases hs name with hr | ⟨i, t, -, -, -, hp, -, he⟩
    · exact absurd h0 hr.code
    · rw [he] at h0 ⊢
      exact hp.toHeld.coherent_commit hs hc (by decide) h0
  | rmdir name =>
    change (fsRmdir name s).1 = 0 at h0
    show Coherent (fsRmdir name s).2
    rcases fsRmdir_cases hs name with hr | ⟨i, t, -, -, -, -, -, hp, -, he⟩
    · exact absurd h0 hr.code
    · rw [he] at h0 ⊢
      exact hp.toHeld.coherent_commit hs hc (by decide) h0
  | mkdir name => exact fsMkdir_coherent hs hc h0
  | writeRaw name data => exact fsWriteRaw_coherent hs hc h0
  | write name text => exact fsWriteRaw_coherent hs hc h0
  | append name text =>
    change (fsAppend name text s).1 = 0 at h0
    show Coherent (fsAppend name text s).2
    have hq := appendState_quiet hs name text
    rcases fsAppend_cases hs name text with hr | he
    · exact absurd h0 hr.code
    · rw [he] at h0 ⊢
      exact fsWriteRaw_coherent (hq.atDir hs) (hq.coherent hc) h0
  | chdir path =>
    show Coherent (fsChdir path s).2
    -- Going to the root only sets the two variables.
    have hroot : ∀ p, Coherent { s with currentDirCluster := 0, currentPath := p } := fun _ =>
      ⟨hc.boot, hc.synced⟩
    have hroot' : ∀ p, Fs.AtDir { s with currentDirCluster := 0, currentPath := p } := fun _ =>
      ⟨Or.inl rfl, Nat.zero_lt_succ _⟩
    simp only [fsChdir]
    split
    · exact hc
    · split
      · split
        · exact hroot _
        · exact chdirRelative_coherent (hroot' _) (hroot _) _
      · exact chdirRelative_coherent hs hc _
  | getcwd =>
    show Coherent (fsGetcwd s).2
    simp only [fsGetcwd]
    split
    · exact ⟨hc.boot, hc.synced⟩
    · exact hc
  | readPtr name => exact (fsReadPtr_quiet hs name).coherent hc
  | listEntry index => exact (listCurrent_quiet hs _ index).coherent hc
  | isDir name => exact (fsIsDir_quiet hs name).coherent hc
  | listDirEntry index => exact (listCurrent_quiet hs _ index).coherent hc

end Calls

/-! ## Mounting again -/

/-- **Mounting a coherent disk** formats nothing, and loads the buffers back. The driver
that mounts may be any, with any bytes in its buffers; the disk must answer. -/
theorem Coherent.remount {s t : Fs} (hc : Coherent s) (hg : t.dev.Good)
    (hsec : t.dev.sectors = s.dev.sectors) :
    (fsInit t).fsReady = true ∧ (fsInit t).dev.written = t.dev.written ∧
    (∀ i < fatEuSize, (fsInit t).fatBuf i = s.fatBuf i) ∧
    ∀ i < rootEuSize, (fsInit t).rootBuf i = s.rootBuf i := by
  have hsync : Synced t.dev s.fatBuf s.rootBuf := ⟨by rw [hsec]; exact hc.synced.fat,
    by rw [hsec]; exact hc.synced.root⟩
  have hboot : t.dev.BootOk := by
    rw [Device.BootOk, hsec]
    exact hc.boot
  rw [fsInit_eq]
  simp only
  rw [if_pos ⟨hg _, hboot⟩]
  generalize hs₁ : ({ t with
    fsReady := false
    dev := { t.dev with clock := t.dev.clock + 1 } } : Fs) = s₁
  have hsync₁ : Synced s₁.dev s.fatBuf s.rootBuf := by
    rw [← hs₁]
    exact ⟨hsync.fat, hsync.root⟩
  have hruns : s₁.dev.Runs 40 := fun k _ => by
    rw [← hs₁]
    exact hg _
  have hwritten : s₁.dev.written = t.dev.written := by rw [← hs₁]
  obtain ⟨-, -, hw, -, hload⟩ := loadVolume_spec hsync₁
  obtain ⟨hready, hfat, hroot⟩ := hload hruns
  refine ⟨hready, ?_, fun i hi => ?_, fun i hi => ?_⟩
  · rw [hw.written, hwritten, List.append_nil]
  · rw [hfat, if_pos (show i < 16384 from hi)]
  · rw [hroot, if_pos (show i < 4096 from hi)]

/-- Loading the volume puts the buffers in step with the disk. -/
theorem Synced.loadVolume {s : Fs} {fat root : ByteMem} (h : Synced s.dev fat root)
    (hr : s.dev.Runs 40) : (OsU.loadVolume s).dev.sectors = s.dev.sectors ∧
      Synced (OsU.loadVolume s).dev (OsU.loadVolume s).fatBuf (OsU.loadVolume s).rootBuf := by
  obtain ⟨-, -, hw, -, hload⟩ := loadVolume_spec h
  obtain ⟨-, hfat, hroot⟩ := hload hr
  have hsec : (OsU.loadVolume s).dev.sectors = s.dev.sectors := funext fun x =>
    hw.frame x fun p hp => absurd hp (by simp)
  refine ⟨hsec, fun k hk => ?_, fun k hk => ?_⟩
  · rw [hsec, h.fat k hk]
    funext i
    have := i.isLt
    simp only [sectorOf]
    rw [hfat, if_pos (by omega)]
  · rw [hsec, h.root k hk]
    funext i
    have := i.isLt
    simp only [sectorOf]
    rw [hroot, if_pos (by omega)]

/-- Some buffers are in step with any disk. -/
theorem exists_synced (d : Device) : ∃ fat root, Synced d fat root := by
  refine ⟨fun i => (d.sectors (4097 + i / 512)).mem (i % 512),
    fun i => (d.sectors (4129 + i / 512)).mem (i % 512), fun k _ => ?_, fun k _ => ?_⟩ <;>
  · funext i
    have := i.isLt
    simp only [sectorOf]
    rw [show (512 * k + (i : Nat)) / 512 = k by omega, show (512 * k + (i : Nat)) % 512 = i by omega,
      Sector.mem_apply _ this]

/-- **Mounting starts a run coherent**, formatted or not. -/
theorem fsInit_coherent {s : Fs} (hg : s.dev.Good) : Coherent (fsInit s) := by
  rw [fsInit_eq]
  simp only
  generalize hs₁ : ({ s with
    fsReady := false
    dev := { s.dev with clock := s.dev.clock + 1 } } : Fs) = s₁
  have hg₁ : s₁.dev.Good := by
    rw [← hs₁]
    exact hg
  have hsec₁ : s₁.dev.sectors = s.dev.sectors := by rw [← hs₁]
  by_cases hmount : s.dev.ok s.dev.clock = true ∧ s.dev.BootOk
  · rw [if_pos hmount]
    obtain ⟨fat, root, hsync⟩ := exists_synced s₁.dev
    obtain ⟨hsec, hload⟩ := hsync.loadVolume (hg₁.runs _)
    refine ⟨?_, hload⟩
    rw [Device.BootOk, hsec, hsec₁]
    exact hmount.2
  · obtain ⟨⟨new, hw, -⟩, -, -, -, hcode, hdone⟩ := fatFormat_spec s₁
    have h0 := hcode.mpr (hg₁.runs _)
    obtain ⟨-, -, hsync, hboot, -⟩ := hdone h0
    rw [if_neg hmount, if_neg fun h => h h0]
    obtain ⟨hsec, hload⟩ := hsync.loadVolume ((hw.good hg₁).runs _)
    refine ⟨?_, hload⟩
    rw [Device.BootOk, hsec, hboot]
    decide +kernel

/-- **Write-through.** After a call that returned 0 the disk holds the buffers, and
mounting it again gives them back: what a power cut after the call leaves is the state
the call left. -/
theorem coherent_step_remount {s : Fs} (hs : s.AtDir) (hc : Coherent s) {op : FsOp}
    (h0 : (op.exec s).1 = 0) :
    Coherent (op.step s) ∧
    ∀ t : Fs, t.dev.Good → t.dev.sectors = (op.step s).dev.sectors →
      (fsInit t).fsReady = true ∧ (fsInit t).dev.written = t.dev.written ∧
      (∀ i < fatEuSize, (fsInit t).fatBuf i = (op.step s).fatBuf i) ∧
      ∀ i < rootEuSize, (fsInit t).rootBuf i = (op.step s).rootBuf i := by
  have hstep := Coherent.step hs hc h0
  exact ⟨hstep, fun t hg hsec => hstep.remount hg hsec⟩

/-- A directory made on the fresh volume, and the disk mounted again by another driver. -/
theorem coherent_step_remount_fresh :
    Coherent ((FsOp.mkdir [0x44]).step freshFs) ∧
    (fsInit (Fs.boot { blankDisk with
      sectors := ((FsOp.mkdir [0x44]).step freshFs).dev.sectors })).rootBuf 0 = 0x44 := by
  have hcode : ((FsOp.mkdir [0x44]).exec freshFs).1 = 0 := by decide +kernel
  obtain ⟨hc, hmount⟩ := coherent_step_remount freshFs_isDir.atDir (fsInit_coherent blankDisk_good)
    hcode
  refine ⟨hc, ?_⟩
  obtain ⟨-, -, -, hroot⟩ := hmount (Fs.boot { blankDisk with
    sectors := ((FsOp.mkdir [0x44]).step freshFs).dev.sectors }) (fun _ => rfl) rfl
  rw [hroot 0 (by decide)]
  decide +kernel

end OsU
