import OsU.Proof.Steps
import OsU.Proof.Format

/-!
# A directory that is not made

`fs_mkdir` marks its cluster before it stores the sector, and takes the mark back only
when that store fails. The exits behind it, when the directory cannot be loaded again or
a flush fails, keep the cluster, and in the root the new entry as well. `Makes` says
when the call gets that far.

The condition is on the polls of the device that are still to come, counted from the
start of the call: how many there are up to the store, and how many behind it. On a
device that never fails it is met by every call.
-/

set_option autoImplicit false

namespace OsU

/-- The sector of the new directory is stored, and then the call does not complete: one
of the polls behind the store fails. -/
def Fs.MkdirStops (s : Fs) (name : List UInt8) : Prop :=
  (∃ i x, Makes s name i x) ∧
    ¬ s.dev.Runs (2 * dirReads s.currentDirCluster + 1 + commitPolls s.currentDirCluster)

/-- A cluster that was free is marked. -/
theorem Held.fatBuf_ne {s t : Fs} {x : Nat} {ws : List Nat} (h : Held s t 0 [x] ws)
    (hfree : fatGet s.fatBuf x = 0) : t.fatBuf ≠ s.fatBuf := by
  intro he
  have hx := (h.chain (List.cons_ne_nil x [])).fat_ne_zero x (List.mem_singleton_self x)
  rw [he, hfree] at hx
  exact hx rfl

/-- The polls of the flushes, counted from the start of the call. -/
theorem Held.runs_commit {s t : Fs} {m first : Nat} {l ws : List Nat} (h : Held s t first l ws)
    (hclock : t.dev.clock = s.dev.clock + m) (hm : s.dev.Runs m) :
    s.dev.Runs (m + commitPolls s.currentDirCluster) ↔
      t.dev.Runs (32 + dirSectors t.currentDirCluster) := by
  obtain ⟨w, -, hw⟩ := h.wrote
  rw [h.currentDirCluster, commitPolls, Device.runs_add hw.ok hclock, and_iff_right hm]

/-- A call that stops there fails, with the cluster marked. -/
theorem Fs.MkdirStops.fatBuf_ne {s : Fs} (hs : s.AtDir) {name : List UInt8}
    (h : s.MkdirStops name) :
    (fsMkdir name s).1 ≠ 0 ∧ (fsMkdir name s).2.fatBuf ≠ s.fatBuf := by
  obtain ⟨⟨i, x, hm⟩, hno⟩ := h
  rcases fsMkdir_spec hs name with ⟨-, hnot⟩ | ⟨i, x, hm, hcase⟩
  · exact absurd hm (hnot i x)
  · rcases hcase with ⟨-, -, hcode, hheld⟩ | ⟨t, hp, -, hruns, hclock, he⟩
    · rw [hcode]
      exact ⟨by decide, hheld.fatBuf_ne hm.free⟩
    · have hspec := commit_spec (-6) (hp.atDir hs)
      rw [hp.runs_commit hclock hruns] at hno
      rw [he, hspec.state]
      rcases hspec.code with ⟨-, hr⟩ | ⟨hcode, -⟩
      · exact absurd hr hno
      · rw [hcode]
        exact ⟨by decide, hp.fatBuf_ne hm.free⟩

/-- A call that fails otherwise was refused. -/
theorem fsMkdir_refused {s : Fs} (hs : s.AtDir) {name : List UInt8} (hcode : (fsMkdir name s).1 ≠ 0)
    (hno : ¬ s.MkdirStops name) : Quiet s (fsMkdir name s).2 := by
  rcases fsMkdir_spec hs name with ⟨hr, -⟩ | ⟨i, x, hm, hcase⟩
  · exact hr.quiet
  · have hall : s.dev.Runs (2 * dirReads s.currentDirCluster + 1 +
        commitPolls s.currentDirCluster) := by
      by_contra h
      exact hno ⟨⟨i, x, hm⟩, h⟩
    rcases hcase with ⟨-, hstop, -⟩ | ⟨t, hp, -, hruns, hclock, he⟩
    · exact absurd (fun k hk => hall k (Nat.lt_add_right _ hk)) hstop
    · have hspec := commit_spec (-6) (hp.atDir hs)
      rw [hp.runs_commit hclock hruns] at hall
      rw [he] at hcode
      rcases hspec.code with ⟨h0, -⟩ | ⟨-, hr⟩
      · exact absurd h0 hcode
      · exact absurd hall hr

/-- **A failed `fs_mkdir` leaves no trace exactly when it is not stopped behind its
store.** A trace is a change of the table or of the root, the two buffers that a later
flush puts on the disk. -/
theorem failed_mkdir_iff {s : Fs} (hs : s.AtDir) (name : List UInt8) :
    ((fsMkdir name s).1 ≠ 0 →
      (fsMkdir name s).2.fatBuf = s.fatBuf ∧ (fsMkdir name s).2.rootBuf = s.rootBuf) ↔
      ¬ s.MkdirStops name := by
  constructor
  · intro h hstops
    obtain ⟨hcode, hne⟩ := hstops.fatBuf_ne hs
    exact hne (h hcode).1
  · intro hno hcode
    have hq := fsMkdir_refused hs hcode hno
    exact ⟨hq.fatBuf, hq.rootBuf⟩

/-! ## A flush that fails -/

theorem Fs.atDir_root {s : Fs} (h : s.currentDirCluster = 0) : s.AtDir :=
  ⟨Or.inl h, by rw [h]; decide⟩

/-- A disk of zeros whose polls fail from number `n` on. -/
def failingDisk (n : Nat) : Device := ⟨fun _ _ => 0, fun k => k < n, 0, []⟩

/-- The driver mounted on it. Mounting takes 82 polls. -/
def failingFs (n : Nat) : Fs := fsInit (Fs.boot (failingDisk n))

/-- `mkdir D` in the root, where the first poll of the flushes fails: the call returns `-6`, and
cluster 2 is marked. -/
theorem mkdir_leaves_trace :
    (failingFs 83).fsReady = true ∧ (failingFs 83).AtDir ∧
    (fsMkdir [0x44] (failingFs 83)).1 = -6 ∧
    fatGet (failingFs 83).fatBuf 2 = 0 ∧
    fatGet (fsMkdir [0x44] (failingFs 83)).2.fatBuf 2 = 0xFFFF ∧
    ¬ ((fsMkdir [0x44] (failingFs 83)).1 ≠ 0 →
      (fsMkdir [0x44] (failingFs 83)).2.fatBuf = (failingFs 83).fatBuf ∧
        (fsMkdir [0x44] (failingFs 83)).2.rootBuf = (failingFs 83).rootBuf) := by
  have hready : (failingFs 83).fsReady = true := by decide +kernel
  have hdir : (failingFs 83).AtDir := Fs.atDir_root (by decide +kernel)
  have hcode : (fsMkdir [0x44] (failingFs 83)).1 = -6 := by decide +kernel
  have hfree : fatGet (failingFs 83).fatBuf 2 = 0 := by decide +kernel
  have hmarked : fatGet (fsMkdir [0x44] (failingFs 83)).2.fatBuf 2 = 0xFFFF := by decide +kernel
  refine ⟨hready, hdir, hcode, hfree, hmarked, ?_⟩
  intro h
  have he := (h (by rw [hcode]; decide)).1
  rw [he, hfree] at hmarked
  exact absurd hmarked (by decide)

/-- With one poll less the store of the sector fails, and nothing is left. -/
theorem failed_mkdir_iff_refused :
    (fsMkdir [0x44] (failingFs 82)).2.fatBuf = (failingFs 82).fatBuf ∧
    (fsMkdir [0x44] (failingFs 82)).2.rootBuf = (failingFs 82).rootBuf := by
  have hdir : (failingFs 82).AtDir := Fs.atDir_root (by decide +kernel)
  have hpoll : (failingFs 82).dev.ok (failingFs 82).dev.clock = false := by decide +kernel
  refine (failed_mkdir_iff hdir [0x44]).mpr ?_ (by decide +kernel)
  rintro ⟨⟨i, x, hm⟩, -⟩
  have h := hm.runs 0 (by omega)
  rw [Nat.add_zero, hpoll] at h
  exact nomatch h

end OsU
