import OsU.Proof.Directories

/-!
# Where the driver writes

`cluster_lba` checks nothing, so a write is inside the volume only because the cluster
it is for is: a cluster the allocator handed out, or the current directory. The second
is `DirsOk` again, and with it containment holds along every run of safe calls, whatever
the device does. A write to the name of a directory breaks it: the data can be a
directory entry with any cluster number, and `fs_chdir` follows it.

The writes are counted off the device's log, in which every `disk_write_sectors` leaves
the function that made it and the sector. That log is what makes the statement one about
all writes and not about the disk at the end, where a sector could have been overwritten
and put right again.
-/

set_option autoImplicit false

namespace OsU

open Runs

/-- The writers of data and of subdirectories. -/
def Writer.IsData (w : Writer) : Prop :=
  w = .flushCurrentDir ∨ w = .writeClusterChain ∨ w = .fsMkdir

/-- The sector is inside the volume, and in the data area if it has data. Boot sector,
table and root may be written by those whose work that is: the formatter and the two
flushes. -/
def Contained (p : Writer × Nat) : Prop :=
  fatLbaStart ≤ p.2 ∧ p.2 < fatLbaStart + fatTotalSectors ∧ (p.1.IsData → dataLba ≤ p.2)

theorem contained_cluster {w : Writer} {c : Nat} (h : InRange c) : Contained (w, 4135 + c) := by
  have hc := inRange_iff.mp h
  simp only [Contained, fatLbaStart, fatTotalSectors, dataLba_eq]
  exact ⟨by omega, by omega, fun _ => by omega⟩

theorem contained_meta {p : Writer × Nat} (hw : ¬ p.1.IsData) (h₁ : 4096 ≤ p.2) (h₂ : p.2 < 4137) :
    Contained p := by
  simp only [Contained, fatLbaStart, fatTotalSectors]
  exact ⟨h₁, by omega, fun h => absurd h hw⟩

theorem Flushed.contained {d : Nat} {p : Writer × Nat} (h : Flushed d p) (hd : d = 0 ∨ InRange d) :
    Contained p := by
  obtain ⟨w, lba⟩ := p
  rcases h with ⟨rfl, h₁, h₂⟩ | ⟨rfl, h₁, h₂⟩ | ⟨rfl, h2, rfl⟩
  · exact contained_meta (by simp [Writer.IsData]) (by omega) (by omega)
  · exact contained_meta (by simp [Writer.IsData]) (by omega) (by omega)
  · exact contained_cluster (hd.resolve_left (by omega))

theorem Logged.contained {d : Nat} {p : Writer × Nat} (h : Logged d p) (hd : d = 0 ∨ InRange d) :
    Contained p := by
  rcases h with h | ⟨-, c, hc, he⟩
  · exact h.contained hd
  · obtain ⟨w, lba⟩ := p
    obtain rfl : lba = 4135 + c := he
    exact contained_cluster hc

theorem FormatLog.contained {p : Writer × Nat} (h : FormatLog p) : Contained p := by
  rcases h with rfl | h
  · exact contained_meta (by simp [Writer.IsData]) (by omega) (by omega)
  · exact h.contained (Or.inl rfl)

/-- The current directory is the root or has a cluster of the data area. -/
theorem TreeOk.inRange {s : Fs} (h : TreeOk s) : s.currentDirCluster = 0 ∨ InRange s.currentDirCluster := by
  rcases h.dir.cases_sub with h0 | ⟨p, i, hp, hs⟩
  · exact Or.inl h0
  · exact Or.inr (DirsOk.subDir h.dirs hp hs).1

/-! ## Runs -/

/-- From device `d` to device `d'`, contained writes only: the log has grown by
contained ones. -/
def WritesInside (d d' : Device) : Prop :=
  ∃ new, d'.written = d.written ++ new ∧ ∀ p ∈ new, Contained p

theorem WritesInside.trans {d d' d'' : Device} (h : WritesInside d d') (h' : WritesInside d' d'') :
    WritesInside d d'' := by
  obtain ⟨new, hw, hc⟩ := h
  obtain ⟨new', hw', hc'⟩ := h'
  refine ⟨new ++ new', by rw [hw', hw, List.append_assoc], fun p hp => ?_⟩
  rcases List.mem_append.mp hp with hp | hp
  · exact hc p hp
  · exact hc' p hp

theorem WritesInside.of_eq {d d' : Device} (h : d'.written = d.written) : WritesInside d d' :=
  ⟨[], by rw [h, List.append_nil], fun _ hp => absurd hp (by simp)⟩

theorem TreeOk.step_inside {s : Fs} (h : TreeOk s) {op : FsOp} (hsafe : op.Safe s) :
    WritesInside s.dev (op.step s).dev := by
  rcases h.step_cases hsafe with hc | ⟨c, p, -, hq⟩
  · cases hc with
    | quiet hq => exact .of_eq hq.written
    | edit hd _ _ =>
      obtain ⟨new, hw, hl⟩ := hd.log
      exact ⟨new, hw, fun p hp => (hl p hp).contained h.inRange⟩
  · exact .of_eq hq.written

/-- A driver that is not mounted stays so, and writes nothing: every call begins with
the test of `fs_ready`, and mounting is not one of them. -/
theorem step_not_ready {s : Fs} (h : s.fsReady = false) (op : FsOp) :
    (op.step s).fsReady = false ∧ (op.step s).dev = s.dev := by
  cases op with
  | getcwd =>
    show (fsGetcwd s).2.fsReady = false ∧ (fsGetcwd s).2.dev = s.dev
    simp only [fsGetcwd]
    split
    · exact ⟨h, rfl⟩
    · exact ⟨h, rfl⟩
  | _ =>
    simp [FsOp.step, FsOp.exec, fsTouch, fsRemove, fsWriteRaw, fsWrite, fsAppend, fsReadPtr,
      fsListEntry, fsListDirEntry, listCurrent, fsMkdir, fsRmdir, fsChdir, fsIsDir, h]

/-- The invariant of the runs: the driver is mounted on a sound tree, or not mounted. -/
structure Inside (d : Device) (s : Fs) : Prop where
  tree : s.fsReady = true → TreeOk s
  log : WritesInside d s.dev

theorem Inside.step {d : Device} {s : Fs} (h : Inside d s) {op : FsOp} (hsafe : op.Safe s) :
    Inside d (op.step s) := by
  cases hready : s.fsReady with
  | false =>
    obtain ⟨hr, hd⟩ := step_not_ready hready op
    refine ⟨fun h' => ?_, ?_⟩
    · rw [hr] at h'
      exact absurd h' (by decide)
    · rw [hd]
      exact h.log
  | true =>
    have ht := h.tree hready
    exact ⟨fun _ => ht.step hsafe, h.log.trans (ht.step_inside hsafe)⟩

theorem inside_fresh {d : Device} (hf : d.Formats) : Inside d (fsInit (Fs.boot d)) := by
  obtain ⟨⟨new, hw, hlog⟩, h0, -⟩ := fsInit_fresh d hf
  exact ⟨fun hr => (fsInit_empty hf hr).treeOk h0, new, hw.written, fun p hp => (hlog p hp).contained⟩

/-- **Every sector a run of safe calls writes is inside the volume**, the data sectors
in the data area, on any device. The device may fail at any transfer; a mount that fails
leaves a driver that refuses everything. -/
theorem writesInside_run {d : Device} (hf : d.Formats) {ops : List FsOp}
    (h : Along FsOp.step (fun s op => op.Safe s) (fsInit (Fs.boot d)) ops) :
    WritesInside d (run FsOp.step (fsInit (Fs.boot d)) ops).dev :=
  (run_invariant (P := Inside d) (fun _ _ hi hs => hi.step hs) (inside_fresh hf) h).log

/-- A directory entry `X` with the attribute of a directory and cluster 0xFFFF. -/
def forgedEntry : List UInt8 :=
  0x58 :: (List.replicate 10 0x20 ++ 0x10 :: (List.replicate 14 0 ++ [0xFF, 0xFF, 0, 0, 0, 0]))

/-- It is written to the name of a directory, and followed. -/
def escapeRun : List FsOp :=
  [.mkdir [0x44], .writeRaw [0x44] forgedEntry, .chdir [0x44], .chdir [0x58], .touch [0x59]]

/-- The last call writes the sector of cluster 0xFFFF, which is far behind the volume.
-/
theorem escapeRun_escapes :
    blankDisk.Formats ∧ ¬ WritesInside blankDisk (run FsOp.step (fsInit (Fs.boot blankDisk)) escapeRun).dev := by
  refine ⟨blankDisk_formats, ?_⟩
  rintro ⟨new, hw, hc⟩
  have hmem : (Writer.flushCurrentDir, 69670) ∈
      (run FsOp.step (fsInit (Fs.boot blankDisk)) escapeRun).dev.written := by
    decide +kernel
  have hnew : (Writer.flushCurrentDir, 69670) ∈ new := by
    rw [hw] at hmem
    exact hmem
  have := (hc _ hnew).2.1
  simp only [fatLbaStart, fatTotalSectors] at this
  omega

/-- Into a new directory, and a file there. -/
theorem writesInside_run_fresh :
    WritesInside blankDisk (run FsOp.step (fsInit (Fs.boot blankDisk))
      [.mkdir [0x44], .chdir [0x44], .touch [0x59]]).dev := by
  have h : Along FsOp.step (fun s op => op.Safe s) (fsInit (Fs.boot blankDisk))
      [.mkdir [0x44], .chdir [0x44], .touch [0x59]] := ⟨trivial, trivial, trivial, trivial⟩
  exact writesInside_run blankDisk_formats h

end OsU
