import OsU.Proof.Commit

/-!
# Mounting

`fs_init` formats a disk without a valid boot sector, and loads the table and the root
from the disk in any case. What it loads is what the disk holds (`loadVolume_spec`), and
after a format that is the empty volume (`fsInit_fresh`): the start of the runs in the
later modules.

A read of the boot sector that fails makes it format too, so a disk is one that is
formatted by what it holds or by how it answers (`Device.Formats`). On any device the
writes are those of the format, and the driver is ready only if every sector of table
and root has been loaded; what it has then is clear, whatever else went wrong. The bytes
of a buffer that no sector stands for are not compared.
-/

set_option autoImplicit false

namespace OsU

/-- The disk holds the table `fat` and the root `root`: 32 sectors of the one and 8 of
the other, sector by sector. -/
structure Synced (d : Device) (fat root : ByteMem) : Prop where
  fat : ∀ k < 32, d.sectors (4097 + k) = sectorOf fat k
  root : ∀ k < 8, d.sectors (4129 + k) = sectorOf root k

theorem sectorOf_mem_apply (buf : ByteMem) (i : Nat) :
    (sectorOf buf (i / 512)).mem (i % 512) = buf i := by
  rw [Sector.mem_apply _ (Nat.mod_lt i (by omega))]
  show buf (512 * (i / 512) + i % 512) = buf i
  rw [Nat.div_add_mod]

/-- Sectors that hold a buffer are read back into one that agrees with it. -/
theorem diskReadSectors_spec {lba n : Nat} (buf src : ByteMem) (d : Device)
    (hlba : lba % 2 ^ 28 = lba) (hs : ∀ k < n, d.sectors (lba + k) = sectorOf src k) :
    ((diskReadSectors lba n buf d).1 = 0 ↔ d.Runs n) ∧
    (d.Runs n → ∀ i, (diskReadSectors lba n buf d).2.1 i = if i < 512 * n then src i else buf i) ∧
    (d.Runs n → (diskReadSectors lba n buf d).2.2 = { d with clock := d.clock + n }) := by
  obtain ⟨h₁, h₂⟩ := diskReadLoop_spec lba n 0 buf d
  rw [diskReadSectors, hlba]
  refine ⟨h₁, fun hr i => ?_, fun hr => by rw [h₂ hr]⟩
  rw [h₂ hr]
  simp only [Nat.mul_zero, Nat.zero_le, true_and, Nat.zero_add]
  split
  · rw [hs (i / 512) (by omega), sectorOf_mem_apply]
  · rfl

/-- The second half of `fs_init`: the driver is ready if the polls succeed, and then its buffers
are the disk's. -/
theorem loadVolume_spec {s : Fs} {fat root : ByteMem} (h : Synced s.dev fat root) :
    (loadVolume s).currentDirCluster = s.currentDirCluster ∧
    (loadVolume s).currentPath = s.currentPath ∧ Wrote s.dev (loadVolume s).dev [] ∧
    ((loadVolume s).fsReady = true → s.fsReady = true ∨ s.dev.Runs 40) ∧
    (s.dev.Runs 40 → (loadVolume s).fsReady = true ∧
      (∀ i, (loadVolume s).fatBuf i = if i < 16384 then fat i else s.fatBuf i) ∧
      (∀ i, (loadVolume s).rootBuf i = if i < 4096 then root i else s.rootBuf i)) := by
  obtain ⟨hf₁, hf₂, hf₃⟩ := diskReadSectors_spec (n := 32) s.fatBuf fat s.dev
    (show 4097 % 2 ^ 28 = 4097 by norm_num) h.fat
  have hw := diskReadSectors_wrote 4097 32 s.fatBuf s.dev
  have hlba : fatLbaStart + fatReservedSectors = 4097 := rfl
  have hn : fatSectorsPerFat = 32 := rfl
  simp only [loadVolume, hlba, hn, rootLba_eq, fatRootDirSectors_eq]
  by_cases hr : s.dev.Runs 32
  · have hc₁ : ¬ (diskReadSectors 4097 32 s.fatBuf s.dev).1 ≠ 0 := fun hne => hne (hf₁.mpr hr)
    have hdev := hf₃ hr
    have hroot : ∀ k < 8, (diskReadSectors 4097 32 s.fatBuf s.dev).2.2.sectors (4129 + k) =
        sectorOf root k := by
      rw [hdev]
      exact h.root
    obtain ⟨hr₁, hr₂, -⟩ := diskReadSectors_spec (n := 8) s.rootBuf root
      (diskReadSectors 4097 32 s.fatBuf s.dev).2.2 (show 4129 % 2 ^ 28 = 4129 by norm_num) hroot
    have hw' := diskReadSectors_wrote 4129 8 s.rootBuf (diskReadSectors 4097 32 s.fatBuf s.dev).2.2
    have hadd : s.dev.Runs (32 + 8) ↔
        s.dev.Runs 32 ∧ (diskReadSectors 4097 32 s.fatBuf s.dev).2.2.Runs 8 :=
      Device.runs_add (by rw [hdev]) (by rw [hdev])
    rw [if_neg hc₁]
    by_cases hr' : (diskReadSectors 4097 32 s.fatBuf s.dev).2.2.Runs 8
    · have hc₂ : ¬ (diskReadSectors 4129 8 s.rootBuf
          (diskReadSectors 4097 32 s.fatBuf s.dev).2.2).1 ≠ 0 := fun hne => hne (hr₁.mpr hr')
      rw [if_neg hc₂]
      exact ⟨rfl, rfl, by simpa using hw.trans hw', fun _ => Or.inr (hadd.mpr ⟨hr, hr'⟩),
        fun _ => ⟨rfl, hf₂ hr, hr₂ hr'⟩⟩
    · have hc₂ : (diskReadSectors 4129 8 s.rootBuf
          (diskReadSectors 4097 32 s.fatBuf s.dev).2.2).1 ≠ 0 := fun he => hr' (hr₁.mp he)
      rw [if_pos hc₂]
      exact ⟨rfl, rfl, by simpa using hw.trans hw', fun h => Or.inl h,
        fun h => absurd (hadd.mp h).2 hr'⟩
  · have hc₁ : (diskReadSectors 4097 32 s.fatBuf s.dev).1 ≠ 0 := fun he => hr (hf₁.mp he)
    rw [if_pos hc₁]
    exact ⟨rfl, rfl, hw, fun h => Or.inl h, fun h => absurd (fun k hk => h k (by omega)) hr⟩

/-- `valid_boot` looks at the 512 bytes of the sector only. -/
theorem validBoot_congr {bs bs' : ByteMem} (h : ∀ i < 512, bs i = bs' i) :
    validBoot bs = validBoot bs' := by
  have hle : ∀ a, a + 1 < 512 → bs.le16 a = bs'.le16 a := fun a ha => by
    rw [ByteMem.le16, ByteMem.le16, h a (by omega), h (a + 1) ha]
  simp only [validBoot, hle 510 (by omega), hle 11 (by omega), h 13 (by omega), hle 14 (by omega),
    h 16 (by omega), hle 17 (by omega), hle 19 (by omega), hle 22 (by omega)]

/-- The boot sector on the disk is valid. -/
def Device.BootOk (d : Device) : Prop := validBoot (d.sectors 4096).mem = true

instance (d : Device) : Decidable d.BootOk := inferInstanceAs (Decidable (_ = _))

/-- The read of the boot sector with which `fs_init` starts. -/
theorem fsInit_eq (s : Fs) : fsInit s =
    let s₁ := { s with fsReady := false, dev := { s.dev with clock := s.dev.clock + 1 } }
    if s.dev.ok s.dev.clock = true ∧ s.dev.BootOk then loadVolume s₁
    else if (fatFormat s₁).1 ≠ 0 then (fatFormat s₁).2 else loadVolume (fatFormat s₁).2 := by
  have hlba : fatLbaStart % 2 ^ 28 = 4096 := rfl
  have hv : validBoot (ByteMem.copy (fun _ => 0) 0 (s.dev.sectors 4096).mem 512) =
      validBoot (s.dev.sectors 4096).mem :=
    validBoot_congr fun i hi => by rw [ByteMem.copy_apply, if_pos (by omega), Nat.sub_zero]
  simp only [fsInit, diskReadSectors_one, hlba, Device.BootOk]
  by_cases hok : s.dev.ok s.dev.clock = true
  · simp only [hok, if_true, ne_eq, not_true_eq_false, false_or, true_and, hv]
    cases hb : validBoot (s.dev.sectors 4096).mem <;> simp
  · simp [hok]

/-! ## Formatting

The three steps of `fat_format`, in their order; the device may fail at any of them.
What is in the buffers afterwards is known in any case, what is on the disk only if the
call returned 0. -/

/-- `fs_init` formats this disk. -/
def Device.Formats (d : Device) : Prop := ¬ (d.ok d.clock = true ∧ d.BootOk)

/-- The log entries of the format. -/
def FormatLog (p : Writer × Nat) : Prop := p = (.writeBootSector, 4096) ∨ Flushed 0 p

/-- `write_boot_sector` and `flush_fat`, the first two steps of the format, on the boot sector and
the cleared table. -/
theorem formatFat_spec (s : Fs) {r : Int × Fs}
    (h : r = flushFat { (writeBootSector s).2 with fatBuf := emptyFat (writeBootSector s).2.fatBuf })
    (hb : (writeBootSector s).1 = 0) :
    r.2 = { s with fatBuf := emptyFat s.fatBuf, dev := r.2.dev } ∧
    (∃ new, Wrote s.dev r.2.dev new ∧ ∀ p ∈ new, FormatLog p) ∧
    (r.1 = 0 ↔ s.dev.Runs 33) ∧
    (s.dev.Runs 33 → r.2.dev.clock = s.dev.clock + 33 ∧
      r.2.dev.sectors 4096 = sectorOf bootSector 0 ∧
      ∀ k < 32, r.2.dev.sectors (4097 + k) = sectorOf (emptyFat s.fatBuf) k) := by
  obtain ⟨⟨new₁, hw₁, hb₁⟩, hok₁, hck₁, hsec₁⟩ := diskWriteSectors_spec .writeBootSector 1
    bootSector s.dev (show 4096 % 2 ^ 28 = 4096 by norm_num)
  have hr₁ : s.dev.Runs 1 := hok₁.mp hb
  obtain ⟨hf, ⟨new₂, hw₂, hb₂⟩, hok₂, hck₂, hsec₂⟩ := flushFat_spec
    { (writeBootSector s).2 with fatBuf := emptyFat (writeBootSector s).2.fatBuf } 0
  rw [← h] at hf hw₂ hok₂ hck₂ hsec₂
  have hadd := Device.runs_add (n := 32) hw₁.ok (hck₁ hr₁)
  refine ⟨hf, ⟨_, hw₁.trans hw₂, fun p hp => ?_⟩, ?_, fun hr => ?_⟩
  · rcases List.mem_append.mp hp with hp | hp
    · obtain ⟨e₁, e₂, e₃⟩ := hb₁ p hp
      exact Or.inl (Prod.ext e₁ (by show p.2 = 4096; omega))
    · exact Or.inr (hb₂ p hp).1
  · refine hok₂.trans (Iff.trans ?_ hadd.symm)
    exact (and_iff_right hr₁).symm
  · have hr₂ := (hadd.mp hr).2
    -- The tables are behind the boot sector.
    have h₁ := hsec₁ hr₁ 4096
    have h₂ := hsec₂ hr₂ 4096
    rw [if_pos (by omega)] at h₁
    rw [if_neg (by omega)] at h₂
    refine ⟨?_, h₂.trans h₁, fun k hk => ?_⟩
    · have h₃ := hck₁ hr₁
      have h₄ := hck₂ hr₂
      refine h₄.trans ?_
      show (diskWriteSectors .writeBootSector 4096 1 bootSector s.dev).2.clock + 32 = _
      rw [h₃]
    · have h₃ := hsec₂ hr₂ (4097 + k)
      rwa [if_pos (by omega), show 4097 + k - 4097 = k by omega] at h₃

/-- **`fat_format`** clears the volume, in the buffers, and on the disk too when it returns 0. -/
theorem fatFormat_spec (s : Fs) :
    (∃ new, Wrote s.dev (fatFormat s).2.dev new ∧ ∀ p ∈ new, FormatLog p) ∧
    (fatFormat s).2.fsReady = s.fsReady ∧
    (fatFormat s).2.currentDirCluster = s.currentDirCluster ∧
    (fatFormat s).2.currentPath = s.currentPath ∧
    ((fatFormat s).1 = 0 ↔ s.dev.Runs 41) ∧
    ((fatFormat s).1 = 0 → (fatFormat s).2.fatBuf = emptyFat s.fatBuf ∧
      (fatFormat s).2.rootBuf = s.rootBuf.fill 0 rootEuSize ∧
      Synced (fatFormat s).2.dev (fatFormat s).2.fatBuf (fatFormat s).2.rootBuf ∧
      (fatFormat s).2.dev.sectors 4096 = sectorOf bootSector 0 ∧
      (fatFormat s).2.dev.clock = s.dev.clock + 41) := by
  obtain ⟨⟨new₁, hw₁, hb₁⟩, hok₁, -, -⟩ := diskWriteSectors_spec .writeBootSector 1
    bootSector s.dev (show 4096 % 2 ^ 28 = 4096 by norm_num)
  have hm : ¬ (-1 : Int) = 0 := by decide
  -- Boot sector, tables, root: each is written only when the one before it was, so the
  -- polls add up and a failure leaves the rest of the 41 unsaid.
  by_cases hb : (writeBootSector s).1 = 0
  · have hfat := formatFat_spec s rfl hb
    have hc₁ : ¬ (writeBootSector s).1 ≠ 0 := fun h => h hb
    simp only [fatFormat, if_neg hc₁]
    generalize flushFat { (writeBootSector s).2 with
      fatBuf := emptyFat (writeBootSector s).2.fatBuf } = f at hfat ⊢
    obtain ⟨c₂, t⟩ := f
    obtain ⟨hst, ⟨new₂, hw₂, hb₂⟩, hok₂, hdone₂⟩ := hfat
    simp only at hst hw₂ hok₂ hdone₂ ⊢
    by_cases hc₂ : c₂ = 0
    · have hr₂ := hok₂.mp hc₂
      obtain ⟨hck₂, hboot₂, hsec₂⟩ := hdone₂ hr₂
      obtain ⟨hst₃, ⟨new₃, hw₃, hb₃⟩, hok₃, hck₃, hsec₃⟩ :=
        flushRoot_spec { t with rootBuf := t.rootBuf.fill 0 rootEuSize }
      rw [if_neg fun h => h hc₂]
      generalize flushRoot { t with rootBuf := t.rootBuf.fill 0 rootEuSize } = g
        at hst₃ hw₃ hok₃ hck₃ hsec₃ ⊢
      obtain ⟨c₃, u⟩ := g
      simp only at hst₃ hw₃ hok₃ hck₃ hsec₃ ⊢
      have hadd := Device.runs_add (n := 8) hw₂.ok hck₂
      have hlog : ∃ new, Wrote s.dev u.dev new ∧ ∀ p ∈ new, FormatLog p := by
        refine ⟨_, hw₂.trans hw₃, fun p hp => ?_⟩
        rcases List.mem_append.mp hp with hp | hp
        · exact hb₂ p hp
        · exact Or.inr (Or.inr (Or.inl (hb₃ p hp)))
      have hruns : s.dev.Runs 41 ↔ c₃ = 0 := (hadd.trans (and_iff_right hr₂)).trans hok₃.symm
      have hready : u.fsReady = s.fsReady ∧ u.currentDirCluster = s.currentDirCluster ∧
          u.currentPath = s.currentPath ∧ u.fatBuf = emptyFat s.fatBuf ∧
          u.rootBuf = s.rootBuf.fill 0 rootEuSize := by
        rw [hst₃, hst]
        exact ⟨rfl, rfl, rfl, rfl, rfl⟩
      obtain ⟨e₁, e₂, e₃, e₄, e₅⟩ := hready
      by_cases hc₃ : c₃ = 0
      · have hr₃ := hok₃.mp hc₃
        rw [if_neg fun h => h hc₃]
        refine ⟨hlog, e₁, e₂, e₃, iff_of_true rfl (hruns.mpr hc₃), fun _ => ⟨e₄, e₅, ⟨?_, ?_⟩, ?_, ?_⟩⟩
        · -- The root is behind the tables, so writing it leaves them.
          intro k hk
          have h₃ := hsec₃ hr₃ (4097 + k)
          rw [if_neg (by omega)] at h₃
          rw [e₄]
          exact h₃.trans (hsec₂ k hk)
        · intro k hk
          have h₃ := hsec₃ hr₃ (4129 + k)
          rw [if_pos (by omega), show 4129 + k - 4129 = k by omega] at h₃
          rw [e₅, h₃, hst]
        · have h₃ := hsec₃ hr₃ 4096
          rw [if_neg (by omega)] at h₃
          exact h₃.trans hboot₂
        · rw [hck₃ hr₃, hck₂]
      · rw [if_pos hc₃]
        exact ⟨hlog, e₁, e₂, e₃, iff_of_false hm fun h => hc₃ (hruns.mp h),
          fun h => absurd h hm⟩
    · rw [if_pos hc₂]
      have hr₂ : ¬ s.dev.Runs 41 := fun h => hc₂ (hok₂.mpr fun k hk => h k (by omega))
      refine ⟨⟨_, hw₂, hb₂⟩, ?_, ?_, ?_, iff_of_false hm hr₂, fun h => absurd h hm⟩ <;>
        rw [hst]
  · have hr₁ : ¬ s.dev.Runs 41 := fun h => hb (hok₁.mpr fun k hk => h k (by omega))
    rw [fatFormat, if_pos hb]
    refine ⟨⟨_, hw₁, fun p hp => ?_⟩, rfl, rfl, rfl, iff_of_false hm hr₁,
      fun h => absurd h hm⟩
    obtain ⟨e₁, e₂, e₃⟩ := hb₁ p hp
    exact Or.inl (Prod.ext e₁ (by show p.2 = 4096; omega))

/-- **After a format the volume is empty.** `fs_init` on a disk it formats: whatever the device
does, the writes are those of the format, and if the driver is ready the table and the root are
clear. -/
theorem fsInit_fresh (d : Device) (h : d.Formats) :
    (∃ new, Wrote d (fsInit (Fs.boot d)).dev new ∧ ∀ p ∈ new, FormatLog p) ∧
    (fsInit (Fs.boot d)).currentDirCluster = 0 ∧
    (fsInit (Fs.boot d)).currentPath = List.replicate fsMaxPath 0 ∧
    ((fsInit (Fs.boot d)).fsReady = true →
      (fsInit (Fs.boot d)).fatBuf = emptyFat (fun _ => 0) ∧
      (fsInit (Fs.boot d)).rootBuf = fun _ => 0) ∧
    (d.Good → (fsInit (Fs.boot d)).fsReady = true) := by
  have h' : ¬ ((Fs.boot d).dev.ok (Fs.boot d).dev.clock = true ∧ (Fs.boot d).dev.BootOk) := h
  rw [fsInit_eq]
  simp only
  rw [if_neg h']
  generalize hs₁ : ({ Fs.boot d with
    fsReady := false
    dev := { (Fs.boot d).dev with clock := (Fs.boot d).dev.clock + 1 } } : Fs) = s₁
  -- The boot sector has been asked for, and nothing written.
  have htick : Wrote d s₁.dev [] := by
    rw [← hs₁]
    exact Wrote.tick d _
  obtain ⟨⟨new, hw, hb⟩, hready, hcwd, hpath, hcode, hdone⟩ := fatFormat_spec s₁
  have hnr : (fatFormat s₁).2.fsReady = false := by rw [hready, ← hs₁]
  have hcwd0 : (fatFormat s₁).2.currentDirCluster = 0 := by rw [hcwd, ← hs₁]; rfl
  have hpath0 : (fatFormat s₁).2.currentPath = List.replicate fsMaxPath 0 := by
    rw [hpath, ← hs₁]; rfl
  -- What is loaded behind the format is what was formatted.
  by_cases hc : (fatFormat s₁).1 = 0
  · rw [if_neg fun hn => hn hc]
    obtain ⟨hfat, hroot, hsync, -, hclock⟩ := hdone hc
    obtain ⟨hcwd', hpath', hw', hready', hload⟩ := loadVolume_spec hsync
    refine ⟨⟨_, (htick.trans hw).trans hw', by simpa using hb⟩, hcwd'.trans hcwd0,
      hpath'.trans hpath0, fun hr => ?_, fun hg => ?_⟩
    · have hruns := (hready' hr).resolve_left (by rw [hnr]; decide)
      obtain ⟨-, hf, hrt⟩ := hload hruns
      refine ⟨?_, ?_⟩
      · funext i
        rw [hf i, ite_self, hfat, ← hs₁]
        rfl
      · funext i
        rw [hrt i, ite_self, hroot, ← hs₁]
        simp [Fs.boot, ByteMem.fill]
    · exact (hload ((hw.good (htick.good hg)).runs _)).1
  · rw [if_pos hc]
    refine ⟨⟨_, htick.trans hw, by simpa using hb⟩, hcwd0, hpath0, fun hr => ?_, fun hg => ?_⟩
    · rw [hnr] at hr
      exact absurd hr (by decide)
    · exact absurd (hcode.mpr ((htick.good hg).runs _)) hc

/-! ## The empty volume -/

/-- No cluster in use, and nothing in the root. -/
structure Volume.Empty (v : Volume) : Prop where
  fat : ∀ c, 2 ≤ c → v.fat c = 0
  root : ∀ i, (v.root i).lead = 0x00

namespace Volume.Empty

variable {v : Volume}

theorem isDir (h : v.Empty) {d : Nat} (hd : IsDir v d) : d = 0 :=
  hd.eq_root fun i _ ho => ho.1.1 (Or.inl (h.root i))

theorem not_owner (h : v.Empty) {d i : Nat} : ¬ Owner v d i := fun ho => by
  obtain rfl := h.isDir ho.dir
  exact ho.owns.1.1 (Or.inl (h.root i))

theorem chainsOk (h : v.Empty) : ChainsOk v :=
  ⟨fun ho => absurd ho h.not_owner, fun ho => absurd ho h.not_owner⟩

theorem dirsOk (h : v.Empty) : DirsOk v := fun ho => absurd ho h.not_owner

end Volume.Empty

theorem emptyFat_get (m : ByteMem) (hm : ∀ i, m i = 0) {c : Nat} (hc : 2 ≤ c) :
    fatGet (emptyFat m) c = 0 := by
  rw [emptyFat, fatGet_fatSet, if_neg (by omega), fatGet_fatSet, if_neg (by omega)]
  rw [fatGet, ByteMem.le16_eq_zero]
  simp [ByteMem.fill, hm]

theorem fsInit_empty {d : Device} (h : d.Formats) (hr : (fsInit (Fs.boot d)).fsReady = true) :
    (fsInit (Fs.boot d)).volume.Empty := by
  obtain ⟨-, -, -, hbuf, -⟩ := fsInit_fresh d h
  obtain ⟨hf, hroot⟩ := hbuf hr
  refine ⟨fun c hc => ?_, fun i => ?_⟩
  · show fatGet (fsInit (Fs.boot d)).fatBuf c = 0
    rw [hf]
    exact emptyFat_get _ (fun _ => rfl) hc
  · show (entryAt (fsInit (Fs.boot d)).rootBuf i).lead = 0x00
    rw [hroot]
    rfl

/-- A disk of zeros that never fails. -/
def blankDisk : Device := ⟨fun _ _ => 0, fun _ => true, 0, []⟩

theorem blankDisk_good : blankDisk.Good := fun _ => rfl

theorem blankDisk_formats : blankDisk.Formats := fun h => absurd h.2 (by decide)

/-- The driver, mounted on the volume it made on a blank disk. -/
def freshFs : Fs := fsInit (Fs.boot blankDisk)

theorem freshFs_ready : freshFs.fsReady = true :=
  (fsInit_fresh blankDisk blankDisk_formats).2.2.2.2 blankDisk_good

theorem freshFs_good : freshFs.dev.Good := by
  obtain ⟨⟨new, hw, -⟩, -⟩ := fsInit_fresh blankDisk blankDisk_formats
  exact hw.good blankDisk_good

theorem freshFs_cluster : freshFs.currentDirCluster = 0 := (fsInit_fresh blankDisk blankDisk_formats).2.1

theorem freshFs_empty : freshFs.volume.Empty := fsInit_empty blankDisk_formats freshFs_ready

end OsU
